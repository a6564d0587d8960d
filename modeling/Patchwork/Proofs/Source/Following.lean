import Mathlib.Logic.Relation
import Patchwork.Proofs.Source.Completion

/-!
# What may follow a phrase

A phrase stays what it is whatever is put behind it, with one exception: where its last token is a
name, a parenthesis behind it makes a call of this name.
-/

namespace Patchwork

namespace Grammar

open Relation (Comp)

variable {A : Type}

/-- An identifier that is not the name of a dye. -/
def IsPlain (t : Token) : Prop :=
  t.kind = .identifier ∧ ¬Reading.isDyeName t.text

/-- The last token is a name that a parenthesis behind it would make a call. -/
def EndsInName (tokens : List Token) : Prop :=
  ∃ t ∈ tokens.getLast?, IsPlain t

/-- Between the tokens used and the tokens left, a name stands in front of a parenthesis. -/
def Calls (used rest : List Token) : Prop :=
  EndsInName used ∧ Begins .leftParen rest

theorem not_endsInName_nil : ¬EndsInName [] := by
  rintro ⟨t, last, -⟩
  cases last

theorem endsInName_append {more : List Token} (used : List Token) (some : more ≠ []) :
    EndsInName (used ++ more) ↔ EndsInName more := by
  rw [EndsInName, List.getLast?_append_of_ne_nil used some, EndsInName]

theorem endsInName_concat {used : List Token} {t : Token} :
    EndsInName (used ++ [t]) ↔ IsPlain t := by
  simp [EndsInName]

theorem not_calls_nil (rest : List Token) : ¬Calls [] rest :=
  fun calls => not_endsInName_nil calls.1

/-- The words that take two operands. -/
inductive Pairing where
  | rot
  | rep
  deriving DecidableEq, Repr

namespace Pairing

def word : Pairing → Token.Kind
  | rot => .rot
  | rep => .rep

def tree : Pairing → Expr → Expr → Expr
  | rot, angle, target => .rot (Reading.asAngle angle) target
  | rep, count, target => .rep count target

theorem atom_of_operands {atom : Phrase Expr} {p : Pairing} {ts₀ ts₁ rest : List Token}
    {a b : Expr} (word : Sign p.word ts₀ ts₁) (h : Operands atom ts₁ (a, b) rest) :
    Atom atom ts₀ (p.tree a b) rest := by
  cases p with
  | rot => exact .rot word h
  | rep => exact .rep word h

end Pairing

/-- What a relation of tokens ahead to tokens left takes from the tokens ahead, it takes wherever no
parenthesis comes to stand behind a name. -/
def Kept (relation : List Token → List Token → Prop) (tokens rest : List Token) : Prop :=
  ∃ used, tokens = used ++ rest ∧ ¬Calls used rest ∧
    ∀ rest', ¬Calls used rest' → relation (used ++ rest') rest'

/-- The same where the last token is no name, so that anything may follow. -/
def Firm (relation : List Token → List Token → Prop) (tokens rest : List Token) : Prop :=
  ∃ front t, tokens = front ++ t :: rest ∧ ¬IsPlain t ∧
    ∀ rest', relation (front ++ t :: rest') rest'

def Keeps (phrase : Phrase A) : Prop :=
  ∀ ⦃tokens a rest⦄, phrase tokens a rest → Kept (fun ts ts' => phrase ts a ts') tokens rest

section Rules

variable {relation relation' : List Token → List Token → Prop} {tokens between rest : List Token}

theorem Firm.kept (firm : Firm relation tokens rest) : Kept relation tokens rest := by
  obtain ⟨front, t, rfl, other, kept⟩ := firm
  refine ⟨front ++ [t], List.append_cons .., ?_, fun rest' _ => ?_⟩
  · exact fun calls => other (endsInName_concat.1 calls.1)
  · rw [← List.append_cons]
    exact kept rest'

theorem Kept.imp (kept : Kept relation tokens rest)
    (imp : ∀ {ts ts'}, relation ts ts' → relation' ts ts') : Kept relation' tokens rest := by
  obtain ⟨used, same, free, kept⟩ := kept
  exact ⟨used, same, free, fun rest' free' => imp (kept rest' free')⟩

theorem Firm.imp (firm : Firm relation tokens rest)
    (imp : ∀ {ts ts'}, relation ts ts' → relation' ts ts') : Firm relation' tokens rest := by
  obtain ⟨front, t, same, other, kept⟩ := firm
  exact ⟨front, t, same, other, fun rest' => imp (kept rest')⟩

/-- Where something is used in between, what is behind it is not seen in front of it. -/
theorem Kept.comp (first : Kept relation tokens between) (second : Kept relation' between rest) :
    Kept (Comp relation relation') tokens rest := by
  obtain ⟨used, rfl, free, kept⟩ := first
  obtain ⟨used', rfl, free', kept'⟩ := second
  by_cases none : used' = []
  · subst none
    refine ⟨used, rfl, free, fun rest' allowed => ⟨rest', kept rest' allowed, ?_⟩⟩
    exact kept' rest' (not_calls_nil rest')
  · refine ⟨used ++ used', (List.append_assoc ..).symm, ?_, fun rest' allowed => ?_⟩
    · rwa [Calls, endsInName_append used none]
    · rw [Calls, endsInName_append used none] at allowed
      rw [List.append_assoc]
      exact ⟨used' ++ rest', kept _ fun calls =>
        free ⟨calls.1, begins_append_of_ne_nil none calls.2⟩, kept' rest' allowed⟩

theorem Kept.comp_firm (first : Kept relation tokens between)
    (second : Firm relation' between rest) : Firm (Comp relation relation') tokens rest := by
  obtain ⟨used, rfl, free, kept⟩ := first
  obtain ⟨front, t, rfl, other, kept'⟩ := second
  refine ⟨used ++ front, t, (List.append_assoc ..).symm, other, fun rest' => ?_⟩
  rw [List.append_assoc]
  refine ⟨front ++ t :: rest', kept _ fun calls => free ⟨calls.1, ?_⟩, kept' rest'⟩
  have begins := calls.2
  rw [List.append_cons] at begins ⊢
  exact begins_append_of_ne_nil (List.concat_ne_nil t front) begins

theorem firm_token {t : Token} (other : ¬IsPlain t) (taken : ∀ rest', relation (t :: rest') rest') :
    Firm relation (t :: rest) rest :=
  ⟨[], t, rfl, other, taken⟩

theorem firm_sign {kind : Token.Kind} (sign : Sign kind tokens rest) (other : kind ≠ .identifier) :
    Firm (Sign kind) tokens rest := by
  obtain ⟨t, rfl, rfl⟩ := sign
  exact firm_token (fun plain => other plain.1) fun rest' => ⟨t, rfl, rfl⟩

/-- Whatever a token is, the sign behind it may be followed by anything. -/
theorem firm_before_sign (t : Token) {kind : Token.Kind} (sign : Sign kind between rest)
    (other : kind ≠ .identifier) :
    Firm (Comp (fun ts ts' => ts = t :: ts') (Sign kind)) (t :: between) rest := by
  obtain ⟨u, rfl, rfl⟩ := sign
  exact ⟨[t], u, rfl, fun plain => other plain.1, fun rest' => ⟨u :: rest', rfl, u, rfl, rfl⟩⟩

end Rules

section Lists

variable {item : Phrase A} (keeps : Keeps item) {separator : Token.Kind}

include keeps

theorem keeps_further (other : separator ≠ .identifier) : Keeps (Further separator item) := by
  intro tokens as rest further
  induction further with
  | none tokens => exact ⟨[], rfl, not_calls_nil tokens, fun rest' _ => .none rest'⟩
  | more sign first _ ih =>
    refine ((firm_sign sign other).kept.comp ((keeps first).comp ih)).imp ?_
    rintro ts rest ⟨_, sign, _, first, others⟩
    exact .more sign first others

theorem keeps_separated (other : separator ≠ .identifier) : Keeps (Separated separator item) := by
  rintro tokens _ rest ⟨first, others⟩
  refine ((keeps first).comp (keeps_further keeps other others)).imp ?_
  rintro ts rest ⟨_, first, others⟩
  exact .intro first others

end Lists

theorem keeps_chain {op : Operator} {sign : Token.Kind} {operand : Phrase Expr}
    (keeps : Keeps operand) (other : sign ≠ .identifier) : Keeps (Chain op sign operand) := by
  intro tokens e rest chain
  induction chain with
  | single h => exact (keeps h).imp .single
  | join _ here next ih =>
    refine (ih.comp ((firm_sign here other).kept.comp (keeps next))).imp ?_
    rintro ts rest ⟨_, left, _, here, right⟩
    exact .join left here right

section Atom

variable {atom : Phrase Expr} (keeps : Keeps atom)

include keeps

theorem keeps_sum : Keeps (Sum atom) :=
  keeps_chain (keeps_chain keeps nofun) nofun

theorem keeps_items : Keeps (Items atom) :=
  keeps_separated (keeps_sum keeps) nofun

theorem firm_arguments {tokens rest : List Token} {es : List Expr}
    (h : Arguments atom tokens es rest) :
    Firm (fun ts ts' => Arguments atom ts es ts') tokens rest := by
  cases h with
  | none close => exact (firm_sign close nofun).imp .none
  | some h close =>
    refine ((keeps_items keeps h).comp_firm (firm_sign close nofun)).imp ?_
    rintro ts rest ⟨_, h, close⟩
    exact .some h close

omit keeps in
theorem firm_parentheses {relation : List Token → List Token → Prop}
    {ts₀ ts₁ ts₂ rest : List Token} (paren : Sign .leftParen ts₀ ts₁)
    (inside : Kept relation ts₁ ts₂) (close : Sign .rightParen ts₂ rest) :
    Firm (Comp (Sign .leftParen) (Comp relation (Sign .rightParen))) ts₀ rest :=
  (firm_sign paren nofun).kept.comp_firm (inside.comp_firm (firm_sign close nofun))

/-- An atom ends in a token that is no name, or it is a name, or it ends in the operands of a word
that takes two. -/
theorem atom_cases {tokens rest : List Token} {e : Expr} (h : Atom atom tokens e rest) :
    Firm (fun ts ts' => Atom atom ts e ts') tokens rest ∨
      (∃ t, IsPlain t ∧ tokens = t :: rest ∧ ¬Begins .leftParen rest ∧ .name t.text = e) ∨
      ∃ (p : Pairing) (a b : Expr) (ts : List Token), Sign p.word tokens ts ∧
        Operands atom ts (a, b) rest ∧ p.tree a b = e := by
  have sums := keeps_sum keeps
  have items := keeps_items keeps
  cases h with
  | number kind value small =>
    refine Or.inl (firm_token (fun plain => ?_) fun rest' => .number kind value small)
    rw [plain.1] at kind
    cases kind
  | color kind =>
    refine Or.inl (firm_token (fun plain => ?_) fun rest' => .color kind)
    rw [plain.1] at kind
    cases kind with
    | inl kind => cases kind
    | inr kind => cases kind
  | dye kind dyed =>
    exact Or.inl (firm_token (fun plain => plain.2 dyed) fun rest' => .dye kind dyed)
  | name kind undyed bare => exact Or.inr (Or.inl ⟨_, ⟨kind, undyed⟩, rfl, bare, rfl⟩)
  | @call t _ _ _ _ kind undyed paren h =>
    have taken := (firm_before_sign t paren nofun).kept.comp_firm (firm_arguments keeps h)
    refine Or.inl (taken.imp ?_)
    rintro ts rest ⟨_, ⟨_, rfl, paren⟩, h⟩
    exact .call kind undyed paren h
  | group paren h close =>
    refine Or.inl ((firm_parentheses paren (sums h) close).imp ?_)
    rintro ts rest ⟨_, paren, _, h, close⟩
    exact .group paren h close
  | rect word paren h₁ comma₁ h₂ comma₂ h₃ close =>
    have later := (firm_sign comma₂ nofun).kept.comp (sums h₃)
    have inside := (sums h₁).comp ((firm_sign comma₁ nofun).kept.comp ((sums h₂).comp later))
    have taken := (firm_sign word nofun).kept.comp_firm (firm_parentheses paren inside close)
    refine Or.inl (taken.imp ?_)
    rintro ts rest ⟨_, word, _, paren, _, ⟨_, h₁, _, comma₁, _, h₂, _, comma₂, h₃⟩, close⟩
    exact .rect word paren h₁ comma₁ h₂ comma₂ h₃ close
  | @strip axis _ _ _ _ _ _ word paren h close =>
    have other : stripWord axis ≠ .identifier := by cases axis <;> nofun
    have taken := (firm_sign word other).kept.comp_firm (firm_parentheses paren (items h) close)
    refine Or.inl (taken.imp ?_)
    rintro ts rest ⟨_, word, _, paren, _, h, close⟩
    exact .strip word paren h close
  | @overlay t _ _ _ _ _ _ _ word paren kind comma h close =>
    have inside := (firm_before_sign t comma nofun).kept.comp (items h)
    have taken := (firm_sign word nofun).kept.comp_firm (firm_parentheses paren inside close)
    refine Or.inl (taken.imp ?_)
    rintro ts rest ⟨_, word, _, paren, _, ⟨_, ⟨_, rfl, comma⟩, h⟩, close⟩
    exact .overlay word paren kind comma h close
  | rot word h => exact Or.inr (Or.inr ⟨.rot, _, _, _, word, h, rfl⟩)
  | rep word h => exact Or.inr (Or.inr ⟨.rep, _, _, _, word, h, rfl⟩)

theorem firm_pair {ts₀ ts₁ ts₂ ts₃ ts₄ rest : List Token} {a b : Expr}
    (paren : Sign .leftParen ts₀ ts₁) (first : Sum atom ts₁ a ts₂) (comma : Sign .comma ts₂ ts₃)
    (second : Sum atom ts₃ b ts₄) (close : Sign .rightParen ts₄ rest) :
    Firm (fun ts ts' => Operands atom ts (a, b) ts') ts₀ rest := by
  have sums := keeps_sum keeps
  have inside := (sums first).comp ((firm_sign comma nofun).kept.comp (sums second))
  refine (firm_parentheses paren inside close).imp ?_
  rintro ts rest ⟨_, paren, _, ⟨_, first, _, comma, second⟩, close⟩
  exact .call paren first comma second close

theorem keeps_operands (solid : Solid atom) : Keeps (Operands atom) := by
  intro tokens r rest h
  cases h with
  | call paren first comma second close =>
    exact (firm_pair keeps paren first comma second close).kept
  | grouped paren first close second =>
    refine ((firm_parentheses paren (keeps_sum keeps first) close).kept.comp (keeps second)).imp ?_
    rintro ts rest ⟨_, ⟨_, paren, _, first, close⟩, second⟩
    exact .grouped paren first close second
  | adjacent bare first second =>
    obtain ⟨used, rfl, free, kept⟩ := (keeps first).comp (keeps second)
    have some : used ≠ [] := by
      rintro rfl
      exact Nat.lt_irrefl _ (Nat.lt_trans (solid.shrinks second) (solid.shrinks first))
    refine ⟨used, rfl, free, fun rest' allowed => ?_⟩
    obtain ⟨_, first, second⟩ := kept rest' allowed
    exact .adjacent (mt (begins_append_of_ne_nil some) bare) first second

theorem keeps_atom (solid : Solid atom) : Keeps (Atom atom) := by
  intro tokens e rest h
  rcases atom_cases keeps h with firm | ⟨t, plain, rfl, bare, rfl⟩ | ⟨p, a, b, ts, word, pair, rfl⟩
  · exact firm.kept
  · refine ⟨[t], rfl, fun calls => bare calls.2, fun rest' allowed => ?_⟩
    exact .name plain.1 plain.2 fun begins => allowed ⟨⟨t, rfl, plain⟩, begins⟩
  · have other : p.word ≠ .identifier := by cases p <;> nofun
    refine ((firm_sign word other).kept.comp (keeps_operands keeps solid pair)).imp ?_
    rintro ts rest ⟨_, word, pair⟩
    exact Pairing.atom_of_operands word pair

end Atom

/-- An atom stays what it is wherever no parenthesis comes to stand behind a name at its end. -/
theorem keeps_atomWithin (levels : Nat) : Keeps (AtomWithin levels) := by
  induction levels with
  | zero => exact fun _ _ _ => False.elim
  | succ levels ih => exact keeps_atom ih (solid_atomWithin levels)

end Grammar

end Patchwork
