import Patchwork.Proofs.Source.Grammar

/-!
# Phrases

What the phrases of the grammar have in common: each takes a token at least, none that stands inside
parentheses begins with the closing one, and a list or a chain may end wherever no further separator
comes next.
-/

namespace Patchwork

namespace Grammar

/-- None of the kinds comes next. -/
def Stops (kinds : List Token.Kind) (tokens : List Token) : Prop :=
  ∀ kind ∈ kinds, ¬Begins kind tokens

@[simp] theorem sign_cons {kind : Token.Kind} {t : Token} {tokens rest : List Token} :
    Sign kind (t :: tokens) rest ↔ t.kind = kind ∧ tokens = rest := by
  constructor
  · rintro ⟨u, h, same⟩
    cases same
    exact ⟨h, rfl⟩
  · rintro ⟨h, rfl⟩
    exact ⟨t, h, rfl⟩

@[simp] theorem not_sign_nil {kind : Token.Kind} {rest : List Token} : ¬Sign kind [] rest := by
  rintro ⟨t, -, same⟩
  cases same

@[simp] theorem begins_cons {kind : Token.Kind} {t : Token} {tokens : List Token} :
    Begins kind (t :: tokens) ↔ t.kind = kind := by
  simp [Begins]

@[simp] theorem not_begins_nil {kind : Token.Kind} : ¬Begins kind [] := by
  simp [Begins]

theorem stops_of_sign {kind : Token.Kind} {kinds : List Token.Kind} {tokens rest : List Token}
    (h : Sign kind tokens rest) (other : kind ∉ kinds) : Stops kinds tokens := by
  rintro kind' mem ⟨rest', t', h', same'⟩
  obtain ⟨t, h, rfl⟩ := h
  cases same'
  exact other (by rwa [← h, h'])

theorem not_begins_of_sign {kind kind' : Token.Kind} {tokens rest : List Token}
    (h : Sign kind tokens rest) (other : kind ≠ kind') : ¬Begins kind' tokens :=
  stops_of_sign h (fun mem => other (List.mem_singleton.1 mem)) kind' (List.mem_singleton_self _)

/-- The phrase where none of the kinds comes next. -/
def Stopping {A : Type} (kinds : List Token.Kind) (phrase : Phrase A) : Phrase A :=
  fun tokens a rest => phrase tokens a rest ∧ Stops kinds rest

theorem stopping_of_sign {A : Type} {kinds : List Token.Kind} {phrase : Phrase A}
    {kind : Token.Kind} {tokens between rest : List Token} {a : A} (h : phrase tokens a between)
    (sign : Sign kind between rest) (other : kind ∉ kinds) :
    Stopping kinds phrase tokens a between :=
  ⟨h, stops_of_sign sign other⟩

@[simp] theorem stops_nil {tokens : List Token} : Stops [] tokens := by
  simp [Stops]

@[simp] theorem stops_cons {kind : Token.Kind} {kinds : List Token.Kind} {tokens : List Token} :
    Stops (kind :: kinds) tokens ↔ ¬Begins kind tokens ∧ Stops kinds tokens := by
  simp [Stops]

/-- A phrase that takes a token and does not begin with a closing parenthesis. -/
structure Solid {A : Type} (phrase : Phrase A) : Prop where
  shrinks {tokens rest : List Token} {a : A} : phrase tokens a rest → rest.length < tokens.length
  opens {tokens rest : List Token} {a : A} : phrase tokens a rest → ¬Begins .rightParen tokens

theorem length_of_sign {kind : Token.Kind} {tokens rest : List Token} (h : Sign kind tokens rest) :
    rest.length < tokens.length := by
  obtain ⟨t, -, rfl⟩ := h
  exact Nat.lt_succ_self _

section Lists

variable {A : Type} {separator : Token.Kind} {item : Phrase A} {kinds : List Token.Kind}

theorem length_of_further (solid : Solid item) {tokens rest : List Token} {as : List A}
    (h : Further separator item tokens as rest) : rest.length ≤ tokens.length := by
  induction h with
  | none tokens => exact Nat.le_refl _
  | more sign first _ ih =>
    have := length_of_sign sign
    have := solid.shrinks first
    omega

/-- Between items a separator comes next, so that only the last item has to stop before the end. -/
theorem further_stopping_iff (other : separator ∉ kinds) {tokens rest : List Token} {as : List A} :
    Stops kinds tokens ∧ Further separator (Stopping kinds item) tokens as rest ↔
      Further separator item tokens as rest ∧ Stops kinds rest := by
  constructor
  · rintro ⟨stops, h⟩
    induction h with
    | none tokens => exact ⟨.none tokens, stops⟩
    | more sign first _ ih =>
      obtain ⟨others, stopped⟩ := ih first.2
      exact ⟨.more sign first.1 others, stopped⟩
  · rintro ⟨h, stops⟩
    induction h with
    | none tokens => exact ⟨stops, .none tokens⟩
    | more sign first _ ih =>
      obtain ⟨between, others⟩ := ih stops
      exact ⟨stops_of_sign sign other, .more sign ⟨first, between⟩ others⟩

theorem further_append {tokens between after rest : List Token} {as : List A} {a : A}
    (h : Further separator item tokens as between) (sign : Sign separator between after)
    (last : item after a rest) : Further separator item tokens (as ++ [a]) rest := by
  induction h with
  | none tokens => exact .more sign last (.none rest)
  | more sign' first _ ih => exact .more sign' first (ih sign)

end Lists

section Chains

variable {op : Operator} {sign : Token.Kind} {operand : Phrase Expr}

theorem chain_of_further {tokens between rest : List Token} {left : Expr} {others : List Expr}
    (h : Further sign operand between others rest)
    (first : Chain op sign operand tokens left between) :
    Chain op sign operand tokens (others.foldl (.arithmetic op) left) rest := by
  induction h generalizing left with
  | none between => exact first
  | more here next _ ih => exact ih (.join first here next)

/-- A chain is its first operand and the others, folded to the left. -/
theorem chain_iff_foldl {tokens rest : List Token} {e : Expr} :
    Chain op sign operand tokens e rest ↔ ∃ first others between,
      operand tokens first between ∧ Further sign operand between others rest ∧
        others.foldl (.arithmetic op) first = e := by
  constructor
  · intro h
    induction h with
    | single h => exact ⟨_, [], _, h, .none _, rfl⟩
    | join _ here next ih =>
      obtain ⟨first, others, between, h, further, rfl⟩ := ih
      refine ⟨first, others ++ [_], between, h, further_append further here next, ?_⟩
      simp
  · rintro ⟨first, others, between, h, further, rfl⟩
    exact chain_of_further further (.single h)

theorem solid_chain (solid : Solid operand) : Solid (Chain op sign operand) where
  shrinks h := by
    induction h with
    | single h => exact solid.shrinks h
    | join _ here next ih =>
      have := length_of_sign here
      have := solid.shrinks next
      omega
  opens h := by
    induction h with
    | single h => exact solid.opens h
    | join _ _ _ ih => exact ih

end Chains

section Atom

variable {atom : Phrase Expr} (solid : Solid atom)

include solid

theorem solid_sum : Solid (Sum atom) :=
  solid_chain (solid_chain solid)

theorem solid_items : Solid (Items atom) where
  shrinks h := by
    cases h with
    | intro first others =>
      have := (solid_sum solid).shrinks first
      have := length_of_further (solid_sum solid) others
      omega
  opens h := by
    cases h with
    | intro first others => exact (solid_sum solid).opens first

theorem length_of_arguments {tokens rest : List Token} {es : List Expr}
    (h : Arguments atom tokens es rest) : rest.length < tokens.length := by
  cases h with
  | none close => exact length_of_sign close
  | some h close => exact Nat.lt_trans (length_of_sign close) ((solid_items solid).shrinks h)

theorem length_of_operands {tokens rest : List Token} {r : Expr × Expr}
    (h : Operands atom tokens r rest) : rest.length < tokens.length := by
  cases h with
  | call paren first comma second close =>
    have := length_of_sign paren
    have := (solid_sum solid).shrinks first
    have := length_of_sign comma
    have := (solid_sum solid).shrinks second
    have := length_of_sign close
    omega
  | grouped paren first close second =>
    have := length_of_sign paren
    have := (solid_sum solid).shrinks first
    have := length_of_sign close
    have := solid.shrinks second
    omega
  | adjacent _ first second => exact Nat.lt_trans (solid.shrinks second) (solid.shrinks first)

theorem length_of_atom {tokens rest : List Token} {e : Expr} (h : Atom atom tokens e rest) :
    rest.length < tokens.length := by
  cases h with
  | number | color | dye | name => exact Nat.lt_succ_self _
  | call _ _ paren h =>
    have := length_of_sign paren
    have := length_of_arguments solid h
    simp only [List.length_cons]
    omega
  | group paren h close =>
    have := length_of_sign paren
    have := (solid_sum solid).shrinks h
    have := length_of_sign close
    omega
  | rect word paren h₁ comma₁ h₂ comma₂ h₃ close =>
    have := length_of_sign word
    have := length_of_sign paren
    have := (solid_sum solid).shrinks h₁
    have := length_of_sign comma₁
    have := (solid_sum solid).shrinks h₂
    have := length_of_sign comma₂
    have := (solid_sum solid).shrinks h₃
    have := length_of_sign close
    omega
  | strip word paren h close =>
    have := length_of_sign word
    have := length_of_sign paren
    have := (solid_items solid).shrinks h
    have := length_of_sign close
    omega
  | overlay word paren _ comma h close =>
    have := length_of_sign word
    have := length_of_sign paren
    have := length_of_sign comma
    have := (solid_items solid).shrinks h
    have := length_of_sign close
    simp only [List.length_cons] at *
    omega
  | rot word h | rep word h =>
    exact Nat.lt_trans (length_of_operands solid h) (length_of_sign word)

omit solid in
theorem not_rightParen_of_atom {tokens rest : List Token} {e : Expr}
    (h : Atom atom tokens e rest) : ¬Begins .rightParen tokens := by
  cases h with
  | number kind | dye kind | name kind | call kind => simp [kind]
  | color kind => rcases kind with kind | kind <;> simp [kind]
  | group paren => exact not_begins_of_sign paren (by decide)
  | @strip axis _ _ _ _ _ _ word =>
    cases axis <;> exact not_begins_of_sign word (by decide)
  | rect word | overlay word | rot word | rep word => exact not_begins_of_sign word (by decide)

theorem solid_atom : Solid (Atom atom) :=
  ⟨length_of_atom solid, not_rightParen_of_atom⟩

end Atom

theorem solid_atomWithin (levels : Nat) : Solid (AtomWithin levels) := by
  induction levels with
  | zero => exact ⟨False.elim, False.elim⟩
  | succ levels ih => exact solid_atom ih

theorem solid_expression (levels : Nat) : Solid (Expression levels) :=
  solid_sum (solid_atomWithin levels)

section Definitions

variable {expr : Phrase Expr} (solid : Solid expr)

theorem length_of_binder {tokens rest : List Token} {name : String} (h : Binder tokens name rest) :
    rest.length < tokens.length := by
  obtain ⟨t, -, -, rfl, -⟩ := h
  exact Nat.lt_succ_self _

theorem solid_binder : Solid Binder where
  shrinks h := length_of_binder h
  opens h := by
    obtain ⟨t, kind, -, rfl, -⟩ := h
    simp [kind]

theorem length_of_parameters {tokens rest : List Token} {xs : List String}
    (h : Parameters tokens xs rest) : rest.length < tokens.length := by
  cases h with
  | none close => exact length_of_sign close
  | some h close =>
    obtain ⟨first, others⟩ := h
    have := length_of_binder first
    have := length_of_further solid_binder others
    have := length_of_sign close
    omega

include solid

theorem length_of_binding {tokens rest : List Token} {r : String × Expr}
    (h : Binding expr tokens r rest) : rest.length < tokens.length := by
  obtain ⟨bound, equal, h, close⟩ := h
  have := length_of_binder bound
  have := length_of_sign equal
  have := solid.shrinks h
  have := length_of_sign close
  omega

theorem length_of_definition {tokens rest : List Token} {d : Patchwork.Definition}
    (h : Definition expr tokens d rest) : rest.length < tokens.length := by
  cases h with
  | declared _ h => exact Nat.lt_succ_of_lt (length_of_binding solid h)
  | assigned h => exact length_of_binding solid h
  | function word bound paren h equal h' close =>
    have := length_of_sign word
    have := length_of_binder bound
    have := length_of_sign paren
    have := length_of_parameters h
    have := length_of_sign equal
    have := solid.shrinks h'
    have := length_of_sign close
    omega

end Definitions

end Grammar

end Patchwork
