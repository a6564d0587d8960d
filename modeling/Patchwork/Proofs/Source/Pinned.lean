import Patchwork.Proofs.Source.Language
import Patchwork.Proofs.Source.Spelling

/-!
# Pinned phrases

Where a phrase is followed by a sign that it cannot go on with, it has a single meaning there, if
any, and leaves a single rest. Each phrase of the grammar hands this on from its parts to itself,
with the conditions under which they mean anything.
-/

namespace Patchwork

namespace Grammar

/-- The tokens ahead are the lexemes first, and then the rest. -/
def Ahead (lexemes : List Lexeme) (tokens rest : List Token) : Prop :=
  ∃ front, front.map Token.lexeme = lexemes ∧ tokens = front ++ rest

section Ahead

variable {l : Lexeme} {ls ls' : List Lexeme} {tokens rest : List Token}

@[simp] theorem ahead_nil : Ahead [] tokens rest ↔ tokens = rest := by
  simp [Ahead]

theorem ahead_cons :
    Ahead (l :: ls) tokens rest ↔ ∃ t ts, t.lexeme = l ∧ tokens = t :: ts ∧ Ahead ls ts rest := by
  constructor
  · rintro ⟨front, same, rfl⟩
    obtain ⟨t, front, rfl, first, others⟩ := List.map_eq_cons_iff.1 same
    exact ⟨t, front ++ rest, first, rfl, front, others, rfl⟩
  · rintro ⟨t, ts, first, rfl, front, others, rfl⟩
    exact ⟨t :: front, by simp [first, others], rfl⟩

theorem ahead_append :
    Ahead (ls ++ ls') tokens rest ↔
      ∃ between, Ahead ls tokens between ∧ Ahead ls' between rest := by
  constructor
  · rintro ⟨front, same, rfl⟩
    obtain ⟨one, two, rfl, first, second⟩ := List.map_eq_append_iff.1 same
    exact ⟨two ++ rest, ⟨one, first, List.append_assoc _ _ _⟩, two, second, rfl⟩
  · rintro ⟨between, ⟨one, first, rfl⟩, two, second, rfl⟩
    exact ⟨one ++ two, by simp [first, second], (List.append_assoc _ _ _).symm⟩

theorem sign_of_ahead (h : Ahead (l :: ls) tokens rest) :
    ∃ between, Sign l.kind tokens between ∧ Ahead ls between rest := by
  obtain ⟨t, ts, rfl, rfl, others⟩ := ahead_cons.1 h
  exact ⟨ts, ⟨t, rfl, rfl⟩, others⟩

theorem sign_unique {kind kind' : Token.Kind} {rest' : List Token} (h : Sign kind tokens rest)
    (h' : Sign kind' tokens rest') : rest' = rest := by
  obtain ⟨t, -, rfl⟩ := h
  exact (sign_cons.1 h').2.symm

theorem sign_kind {kind kind' : Token.Kind} {rest' : List Token} (h : Sign kind tokens rest)
    (h' : Sign kind' tokens rest') : kind' = kind := by
  obtain ⟨t, rfl, rfl⟩ := h
  exact (sign_cons.1 h').1.symm

theorem grouped_ahead (h : Ahead (Lexeme.grouped ls) tokens rest) :
    ∃ ts₁ ts₂, Sign .leftParen tokens ts₁ ∧ Ahead ls ts₁ ts₂ ∧ Sign .rightParen ts₂ rest := by
  obtain ⟨ts₁, paren, h⟩ := sign_of_ahead h
  obtain ⟨ts₂, inner, h⟩ := ahead_append.1 h
  obtain ⟨ts₃, close, h⟩ := sign_of_ahead h
  cases ahead_nil.1 h
  exact ⟨ts₁, ts₂, paren, inner, close⟩

end Ahead

/-- From these tokens on, the phrase means just this and leaves just this, under a condition. -/
def Pins {A : Type} (condition : Prop) (phrase : Phrase A) (tokens : List Token) (a : A)
    (rest : List Token) : Prop :=
  ∀ a' rest', phrase tokens a' rest' ↔ condition ∧ a' = a ∧ rest' = rest

theorem pins_unstopped {A : Type} {c : Prop} {phrase : Phrase A} {tokens rest : List Token} {a : A}
    (h : Pins c phrase tokens a rest) : Pins c (Stopping [] phrase) tokens a rest := by
  intro a' rest'
  simpa [Stopping] using h a' rest'

section Chains

variable {sign : Token.Kind} {operand : Phrase Expr} {kinds : List Token.Kind}
  {c c' : Prop} {tokens rest : List Token} {e : Expr}

theorem further_of_not_begins {A : Type} {item : Phrase A} {as : List A} {rest' : List Token}
    (h : Further sign item rest as rest') (stops : ¬Begins sign rest) : as = [] ∧ rest' = rest := by
  cases h with
  | none => exact ⟨rfl, rfl⟩
  | more here => exact (stops ⟨_, here⟩).elim

/-- An operand of a chain is followed by the sign of the chain or is the last one. -/
theorem stops_of_further {A : Type} {item : Phrase A} {as : List A}
    (other : sign ∉ kinds) (h : Further sign item tokens as rest) (stops : Stops kinds rest) :
    Stops kinds tokens := by
  cases h with
  | none => exact stops
  | more here => exact stops_of_sign here other

theorem pins_chain_single (op : Operator) (other : sign ∉ kinds)
    (h : Pins c (Stopping kinds operand) tokens e rest) (stops : ¬Begins sign rest) :
    Pins c (Stopping (sign :: kinds) (Chain op sign operand)) tokens e rest := by
  intro e' rest'
  constructor
  · rintro ⟨chain, stops'⟩
    obtain ⟨first, others, between, single, further, rfl⟩ := chain_iff_foldl.1 chain
    have stopped := stops_of_further other further (stops_cons.1 stops').2
    obtain ⟨holds, rfl, rfl⟩ := (h first between).1 ⟨single, stopped⟩
    obtain ⟨rfl, rfl⟩ := further_of_not_begins further stops
    exact ⟨holds, rfl, rfl⟩
  · rintro ⟨holds, rfl, rfl⟩
    obtain ⟨single, stopped⟩ := (h e' rest').2 ⟨holds, rfl, rfl⟩
    exact ⟨.single single, stops_cons.2 ⟨stops, stopped⟩⟩

theorem pins_chain_join (op : Operator) {ts₁ ts₂ : List Token} {left right : Expr}
    (other : sign ∉ kinds)
    (h₁ : Pins c (Stopping kinds operand) tokens left ts₁) (here : Sign sign ts₁ ts₂)
    (h₂ : Pins c' (Stopping kinds operand) ts₂ right rest) (stops : ¬Begins sign rest) :
    Pins (c ∧ c') (Stopping (sign :: kinds) (Chain op sign operand)) tokens
      (.arithmetic op left right) rest := by
  intro e' rest'
  constructor
  · rintro ⟨chain, stops'⟩
    obtain ⟨first, others, between, single, further, rfl⟩ := chain_iff_foldl.1 chain
    have stopped := stops_of_further other further (stops_cons.1 stops').2
    obtain ⟨holds, rfl, rfl⟩ := (h₁ first between).1 ⟨single, stopped⟩
    cases further with
    | none => exact ((stops_cons.1 stops').1 ⟨_, here⟩).elim
    | more here' next further =>
      cases sign_unique here here'
      have stopped := stops_of_further other further (stops_cons.1 stops').2
      obtain ⟨holds', rfl, rfl⟩ := (h₂ _ _).1 ⟨next, stopped⟩
      obtain ⟨rfl, rfl⟩ := further_of_not_begins further stops
      exact ⟨⟨holds, holds'⟩, rfl, rfl⟩
  · rintro ⟨⟨holds, holds'⟩, rfl, rfl⟩
    obtain ⟨single, -⟩ := (h₁ left ts₁).2 ⟨holds, rfl, rfl⟩
    obtain ⟨next, stopped⟩ := (h₂ right rest').2 ⟨holds', rfl, rfl⟩
    exact ⟨.join (.single single) here next, stops_cons.2 ⟨stops, stopped⟩⟩

end Chains

section Sums

variable {atom : Phrase Expr} {c c' : Prop} {tokens rest : List Token} {e left right : Expr}

theorem pins_product (h : Pins c atom tokens e rest) (stops : ¬Begins .star rest) :
    Pins c (Stopping [.star] (Product atom)) tokens e rest := by
  exact pins_chain_single .times List.not_mem_nil (pins_unstopped h) stops

/-- An atom is a sum of its own where no operator follows. -/
theorem pins_sum (h : Pins c atom tokens e rest) (stops : Stops [.plus, .star] rest) :
    Pins c (Stopping [.plus, .star] (Sum atom)) tokens e rest := by
  simp only [stops_cons] at stops
  exact pins_chain_single .plus (by decide) (pins_product h stops.2.1) stops.1

theorem pins_arithmetic {ts₁ ts₂ : List Token} (op : Operator)
    (h₁ : Pins c atom tokens left ts₁) (here : Sign (Lexeme.sign op).kind ts₁ ts₂)
    (h₂ : Pins c' atom ts₂ right rest) (stops : Stops [.plus, .star] rest) :
    Pins (c ∧ c') (Stopping [.plus, .star] (Sum atom)) tokens (.arithmetic op left right) rest := by
  simp only [stops_cons] at stops
  cases op with
  | plus =>
    have between : ¬Begins .star ts₁ := not_begins_of_sign here (by decide)
    exact pins_chain_join .plus (by decide) (pins_product h₁ between) here
      (pins_product h₂ stops.2.1) stops.1
  | times =>
    have joined := pins_chain_join .times List.not_mem_nil (pins_unstopped h₁) here
      (pins_unstopped h₂) stops.2.1
    exact pins_chain_single .plus (by decide) joined stops.1

end Sums

section Lists

variable {A : Type} {item : Phrase A} {kinds : List Token.Kind} {spell : A → List Lexeme}
  {c : A → Prop}

/-- What is pinned item by item is pinned as a list. -/
theorem pins_separated (other : .comma ∉ kinds) {as : List A} (some : as ≠ [])
    (h : ∀ a ∈ as, ∀ {tokens rest}, Ahead (spell a) tokens rest → Stops kinds rest →
      Pins (c a) (Stopping kinds item) tokens a rest)
    {tokens rest : List Token} (ahead : Ahead (Lexeme.listed (as.map spell)) tokens rest)
    (stops : Stops (.comma :: kinds) rest) :
    Pins (∀ a ∈ as, c a) (Stopping (.comma :: kinds) (Separated .comma item)) tokens as rest := by
  induction as generalizing tokens with
  | nil => exact (some rfl).elim
  | cons a as ih =>
    obtain ⟨first, others⟩ := List.forall_mem_cons.1 h
    cases as with
    | nil =>
      rw [List.map_singleton, Lexeme.listed_singleton] at ahead
      have pinned := first ahead (stops_cons.1 stops).2
      intro as' rest'
      constructor
      · rintro ⟨⟨one, further⟩, stops'⟩
        have stopped := stops_of_further other further (stops_cons.1 stops').2
        obtain ⟨holds, rfl, rfl⟩ := (pinned _ _).1 ⟨one, stopped⟩
        obtain ⟨rfl, rfl⟩ := further_of_not_begins further (stops_cons.1 stops).1
        exact ⟨List.forall_mem_singleton.2 holds, rfl, rfl⟩
      · rintro ⟨holds, rfl, rfl⟩
        obtain ⟨one, -⟩ := (pinned a rest').2 ⟨List.forall_mem_singleton.1 holds, rfl, rfl⟩
        exact ⟨.intro one (.none _), stops⟩
    | cons b bs =>
      rw [List.map_cons, List.map_cons, Lexeme.listed_cons_cons, ← List.map_cons] at ahead
      obtain ⟨ts₁, ahead₁, ahead⟩ := ahead_append.1 ahead
      obtain ⟨ts₂, comma, ahead₂⟩ := sign_of_ahead ahead
      have pinned := first ahead₁ (stops_of_sign comma other)
      have pinned' := ih (List.cons_ne_nil _ _) others ahead₂
      intro as' rest'
      constructor
      · rintro ⟨⟨one, further⟩, stops'⟩
        have stopped := stops_of_further other further (stops_cons.1 stops').2
        obtain ⟨holds, rfl, rfl⟩ := (pinned _ _).1 ⟨one, stopped⟩
        cases further with
        | none => exact ((stops_cons.1 stops').1 ⟨_, comma⟩).elim
        | more comma' next further =>
          cases sign_unique comma comma'
          obtain ⟨holds', same, rfl⟩ := (pinned' _ _).1 ⟨.intro next further, stops'⟩
          cases same
          exact ⟨List.forall_mem_cons.2 ⟨holds, holds'⟩, rfl, rfl⟩
      · rintro ⟨holds, rfl, rfl⟩
        obtain ⟨holds, holds'⟩ := List.forall_mem_cons.1 holds
        obtain ⟨one, -⟩ := (pinned a ts₁).2 ⟨holds, rfl, rfl⟩
        obtain ⟨⟨next, further⟩, -⟩ := (pinned' (b :: bs) rest').2 ⟨holds', rfl, rfl⟩
        exact ⟨.intro one (.more comma next further), stops⟩

end Lists

section Atoms

variable {atom : Phrase Expr} {c c₁ c₂ c₃ : Prop}
  {ts ts₀ ts₁ ts₂ ts₃ ts₄ ts₅ ts₆ ts₇ rest : List Token}

@[simp] theorem eq_stripWord_iff {axis : Axis} {kind : Token.Kind} :
    kind = stripWord axis ↔
      kind = .hor ∧ axis = .horizontal ∨ kind = .vert ∧ axis = .vertical := by
  cases axis <;> simp [stripWord]

/-- What stands in front of a sign that no operator is. -/
theorem pins_sum_before {kind : Token.Kind} {e : Expr} (h : Pins c atom ts e ts₁)
    (sign : Sign kind ts₁ ts₂) (other : kind ∉ [Token.Kind.plus, .star]) :
    Pins c (Stopping [.plus, .star] (Sum atom)) ts e ts₁ :=
  pins_sum h (stops_of_sign sign other)

theorem pins_number {t : Token} {n : Nat} (kind : t.kind = .integer)
    (value : Nat.ofDigitChars 10 t.text.toList 0 = n) (small : n < Nat.pow 2 63) :
    Pins True (Atom atom) (t :: rest) (.number n) rest := by
  intro e' rest'
  constructor
  · intro h
    cases h with
    | number _ value' =>
      rw [← value', value]
      exact ⟨trivial, rfl, rfl⟩
    | _ => simp_all
  · rintro ⟨-, rfl, rfl⟩
    exact .number kind value small

theorem pins_color {t : Token} (kind : t.kind = .string) :
    Pins True (Atom atom) (t :: rest) (.color t.content) rest := by
  intro e' rest'
  constructor
  · intro h
    cases h with
    | color => exact ⟨trivial, rfl, rfl⟩
    | _ => simp_all
  · rintro ⟨-, rfl, rfl⟩
    exact .color (Or.inl kind)

theorem pins_name {t : Token} (kind : t.kind = .identifier) (undyed : ¬Reading.isDyeName t.text)
    (bare : ¬Begins .leftParen rest) :
    Pins True (Atom atom) (t :: rest) (.name t.text) rest := by
  intro e' rest'
  constructor
  · intro h
    cases h with
    | name => exact ⟨trivial, rfl, rfl⟩
    | call _ _ paren => exact (bare ⟨_, paren⟩).elim
    | _ => simp_all
  · rintro ⟨-, rfl, rfl⟩
    exact .name kind undyed bare

theorem pins_group {t : Token} {e : Expr} (kind : t.kind = .leftParen)
    (h : Pins c (Stopping [.plus, .star] (Sum atom)) ts₁ e ts₂)
    (close : Sign .rightParen ts₂ rest) :
    Pins c (Atom atom) (t :: ts₁) e rest := by
  intro e' rest'
  constructor
  · intro atom
    cases atom with
    | group paren' sum close' =>
      obtain ⟨-, rfl⟩ := sign_cons.1 paren'
      obtain ⟨holds, rfl, rfl⟩ := (h _ _).1 (stopping_of_sign sum close' (by decide))
      exact ⟨holds, rfl, sign_unique close close'⟩
    | _ => simp_all
  · rintro ⟨holds, rfl, rfl⟩
    exact .group (sign_cons.2 ⟨kind, rfl⟩) ((h e' ts₂).2 ⟨holds, rfl, rfl⟩).1 close

theorem pins_call {t : Token} {es : List Expr} (kind : t.kind = .identifier)
    (undyed : ¬Reading.isDyeName t.text) (paren : Sign .leftParen ts₀ ts₁)
    (h : Pins c (Arguments atom) ts₁ es rest) :
    Pins c (Atom atom) (t :: ts₀) (.call t.text es) rest := by
  intro e' rest'
  constructor
  · intro atom
    cases atom with
    | call _ _ paren' arguments =>
      cases sign_unique paren paren'
      obtain ⟨holds, rfl, rfl⟩ := (h _ _).1 arguments
      exact ⟨holds, rfl, rfl⟩
    | name _ _ bare => exact (bare ⟨_, paren⟩).elim
    | _ => simp_all
  · rintro ⟨holds, rfl, rfl⟩
    exact .call kind undyed paren ((h es rest').2 ⟨holds, rfl, rfl⟩)

theorem pins_rect {width height fill : Expr} {t : Token} (kind : t.kind = .rect)
    (paren : Sign .leftParen ts₁ ts₂) (h₁ : Pins c₁ atom ts₂ width ts₃)
    (comma₁ : Sign .comma ts₃ ts₄)
    (h₂ : Pins c₂ atom ts₄ height ts₅) (comma₂ : Sign .comma ts₅ ts₆)
    (h₃ : Pins c₃ atom ts₆ fill ts₇) (close : Sign .rightParen ts₇ rest) :
    Pins (c₁ ∧ c₂ ∧ c₃) (Atom atom) (t :: ts₁) (.rect width height fill) rest := by
  have h₁ := pins_sum_before h₁ comma₁ (by decide)
  have h₂ := pins_sum_before h₂ comma₂ (by decide)
  have h₃ := pins_sum_before h₃ close (by decide)
  intro e' rest'
  constructor
  · intro atom
    cases atom with
    | rect word' paren' sum₁ comma₁' sum₂ comma₂' sum₃ close' =>
      obtain ⟨-, rfl⟩ := sign_cons.1 word'
      cases sign_unique paren paren'
      obtain ⟨holds₁, rfl, rfl⟩ := (h₁ _ _).1 (stopping_of_sign sum₁ comma₁' (by decide))
      cases sign_unique comma₁ comma₁'
      obtain ⟨holds₂, rfl, rfl⟩ := (h₂ _ _).1 (stopping_of_sign sum₂ comma₂' (by decide))
      cases sign_unique comma₂ comma₂'
      obtain ⟨holds₃, rfl, rfl⟩ := (h₃ _ _).1 (stopping_of_sign sum₃ close' (by decide))
      exact ⟨⟨holds₁, holds₂, holds₃⟩, rfl, sign_unique close close'⟩
    | _ => simp_all
  · rintro ⟨⟨holds₁, holds₂, holds₃⟩, rfl, rfl⟩
    exact .rect (sign_cons.2 ⟨kind, rfl⟩) paren ((h₁ _ _).2 ⟨holds₁, rfl, rfl⟩).1 comma₁
      ((h₂ _ _).2 ⟨holds₂, rfl, rfl⟩).1 comma₂ ((h₃ _ _).2 ⟨holds₃, rfl, rfl⟩).1 close

theorem pins_strip {axis : Axis} {es : List Expr} {t : Token} (kind : t.kind = stripWord axis)
    (paren : Sign .leftParen ts₁ ts₂)
    (h : Pins c (Stopping [.comma, .plus, .star] (Items atom)) ts₂ es ts₃)
    (close : Sign .rightParen ts₃ rest) : Pins c (Atom atom) (t :: ts₁) (.strip axis es) rest := by
  intro e' rest'
  constructor
  · intro atom
    cases atom with
    | @strip axis' _ _ _ _ _ _ word' paren' items close' =>
      have same : axis' = axis := by
        cases axis <;> cases axis' <;> simp_all [stripWord]
      subst same
      obtain ⟨-, rfl⟩ := sign_cons.1 word'
      cases sign_unique paren paren'
      obtain ⟨holds, rfl, rfl⟩ := (h _ _).1 (stopping_of_sign items close' (by decide))
      exact ⟨holds, rfl, sign_unique close close'⟩
    | _ => cases axis <;> simp_all [stripWord]
  · rintro ⟨holds, rfl, rfl⟩
    exact .strip (sign_cons.2 ⟨kind, rfl⟩) paren ((h _ _).2 ⟨holds, rfl, rfl⟩).1 close

theorem pins_overlay {t u : Token} {es : List Expr} (kind : t.kind = .overlay)
    (paren : Sign .leftParen ts₁ (u :: ts₂)) (text : u.kind = .string) (comma : Sign .comma ts₂ ts₃)
    (h : Pins c (Stopping [.comma, .plus, .star] (Items atom)) ts₃ es ts₄)
    (close : Sign .rightParen ts₄ rest) :
    Pins c (Atom atom) (t :: ts₁) (.overlay u.content es) rest := by
  intro e' rest'
  constructor
  · intro atom
    cases atom with
    | overlay word' paren' _ comma' items close' =>
      obtain ⟨-, rfl⟩ := sign_cons.1 word'
      cases sign_unique paren paren'
      cases sign_unique comma comma'
      obtain ⟨holds, rfl, rfl⟩ := (h _ _).1 (stopping_of_sign items close' (by decide))
      exact ⟨holds, rfl, sign_unique close close'⟩
    | _ => simp_all
  · rintro ⟨holds, rfl, rfl⟩
    have items := ((h _ _).2 ⟨holds, rfl, rfl⟩).1
    exact .overlay (sign_cons.2 ⟨kind, rfl⟩) paren (Or.inr text) comma items close

theorem pins_operands {first second : Expr} (paren : Sign .leftParen ts₀ ts₁)
    (h₁ : Pins c₁ atom ts₁ first ts₂) (comma : Sign .comma ts₂ ts₃)
    (h₂ : Pins c₂ atom ts₃ second ts₄) (close : Sign .rightParen ts₄ rest) :
    Pins (c₁ ∧ c₂) (Operands atom) ts₀ (first, second) rest := by
  have h₁ := pins_sum_before h₁ comma (by decide)
  have h₂ := pins_sum_before h₂ close (by decide)
  rintro ⟨first', second'⟩ rest'
  constructor
  · intro operands
    cases operands with
    | call paren' sum₁ comma' sum₂ close' =>
      cases sign_unique paren paren'
      obtain ⟨holds₁, rfl, rfl⟩ := (h₁ _ _).1 (stopping_of_sign sum₁ comma' (by decide))
      cases sign_unique comma comma'
      obtain ⟨holds₂, rfl, rfl⟩ := (h₂ _ _).1 (stopping_of_sign sum₂ close' (by decide))
      exact ⟨⟨holds₁, holds₂⟩, rfl, sign_unique close close'⟩
    | grouped paren' sum close' =>
      cases sign_unique paren paren'
      obtain ⟨-, rfl, rfl⟩ := (h₁ _ _).1 (stopping_of_sign sum close' (by decide))
      cases sign_kind comma close'
    | adjacent bare => exact (bare ⟨_, paren⟩).elim
  · rintro ⟨⟨holds₁, holds₂⟩, same, rfl⟩
    cases same
    exact .call paren ((h₁ _ _).2 ⟨holds₁, rfl, rfl⟩).1 comma
      ((h₂ _ _).2 ⟨holds₂, rfl, rfl⟩).1 close

theorem pins_rot {angle target : Expr} {t : Token} (kind : t.kind = .rot)
    (h : Pins c (Operands atom) ts₁ (angle, target) rest) :
    Pins c (Atom atom) (t :: ts₁) (.rot (Reading.asAngle angle) target) rest := by
  intro e' rest'
  constructor
  · intro atom
    cases atom with
    | rot word' operands =>
      obtain ⟨-, rfl⟩ := sign_cons.1 word'
      obtain ⟨holds, same, rfl⟩ := (h _ _).1 operands
      cases same
      exact ⟨holds, rfl, rfl⟩
    | _ => simp_all
  · rintro ⟨holds, rfl, rfl⟩
    exact .rot (sign_cons.2 ⟨kind, rfl⟩) ((h _ _).2 ⟨holds, rfl, rfl⟩)

theorem pins_rep {count target : Expr} {t : Token} (kind : t.kind = .rep)
    (h : Pins c (Operands atom) ts₁ (count, target) rest) :
    Pins c (Atom atom) (t :: ts₁) (.rep count target) rest := by
  intro e' rest'
  constructor
  · intro atom
    cases atom with
    | rep word' operands =>
      obtain ⟨-, rfl⟩ := sign_cons.1 word'
      obtain ⟨holds, same, rfl⟩ := (h _ _).1 operands
      cases same
      exact ⟨holds, rfl, rfl⟩
    | _ => simp_all
  · rintro ⟨holds, rfl, rfl⟩
    exact .rep (sign_cons.2 ⟨kind, rfl⟩) ((h _ _).2 ⟨holds, rfl, rfl⟩)

end Atoms

end Grammar

end Patchwork
