import Patchwork.Source.Program

/-!
# Grammar

Which lists of tokens are programs, and of which meaning, without saying how they are read. A
phrase relates the tokens ahead, what the first of them mean, and the tokens left. An atom opens a
level of nesting, and all that is inside it is made of atoms of the level below.
-/

namespace Patchwork

namespace Grammar

/-- Tokens ahead, a meaning, and the tokens left. -/
abbrev Phrase (A : Type) := List Token → A → List Token → Prop

/-- One token of the kind comes next. -/
def Sign (kind : Token.Kind) (tokens rest : List Token) : Prop :=
  ∃ t : Token, t.kind = kind ∧ tokens = t :: rest

def Begins (kind : Token.Kind) (tokens : List Token) : Prop :=
  ∃ rest, Sign kind tokens rest

section Lists

variable {A : Type} (separator : Token.Kind) (item : Phrase A)

/-- Items, each behind a separator, perhaps none. -/
inductive Further : Phrase (List A)
  | none (tokens : List Token) : Further tokens [] tokens
  | more {ts₀ ts₁ ts₂ rest : List Token} {a : A} {as : List A} :
      Sign separator ts₀ ts₁ → item ts₁ a ts₂ → Further ts₂ as rest → Further ts₀ (a :: as) rest

/-- One item or more, with separators between them. -/
inductive Separated : Phrase (List A)
  | intro {ts₀ ts₁ rest : List Token} {a : A} {as : List A} :
      item ts₀ a ts₁ → Further separator item ts₁ as rest → Separated ts₀ (a :: as) rest

end Lists

/-- Operands joined by an operator, to the left. -/
inductive Chain (op : Operator) (sign : Token.Kind) (operand : Phrase Expr) : Phrase Expr
  | single {ts rest : List Token} {e : Expr} : operand ts e rest → Chain op sign operand ts e rest
  | join {ts₀ ts₁ ts₂ rest : List Token} {left right : Expr} :
      Chain op sign operand ts₀ left ts₁ → Sign sign ts₁ ts₂ → operand ts₂ right rest →
      Chain op sign operand ts₀ (.arithmetic op left right) rest

section Atom

variable (atom : Phrase Expr)

def Product : Phrase Expr :=
  Chain .times .star atom

def Sum : Phrase Expr :=
  Chain .plus .plus (Product atom)

def Items : Phrase (List Expr) :=
  Separated .comma (Sum atom)

/-- The operands of `rot` and `rep`, in a call or one behind the other. A parenthesis that directly
follows is no atom, also where it only groups the first operand. -/
inductive Operands : Phrase (Expr × Expr)
  | call {ts₀ ts₁ ts₂ ts₃ ts₄ rest : List Token} {a b : Expr} :
      Sign .leftParen ts₀ ts₁ → Sum atom ts₁ a ts₂ → Sign .comma ts₂ ts₃ → Sum atom ts₃ b ts₄ →
      Sign .rightParen ts₄ rest → Operands ts₀ (a, b) rest
  | grouped {ts₀ ts₁ ts₂ ts₃ rest : List Token} {a b : Expr} :
      Sign .leftParen ts₀ ts₁ → Sum atom ts₁ a ts₂ → Sign .rightParen ts₂ ts₃ →
      atom ts₃ b rest → Operands ts₀ (a, b) rest
  | adjacent {ts₀ ts₁ rest : List Token} {a b : Expr} :
      ¬Begins .leftParen ts₀ → atom ts₀ a ts₁ → atom ts₁ b rest → Operands ts₀ (a, b) rest

/-- The arguments of a call, with the parenthesis that closes them. -/
inductive Arguments : Phrase (List Expr)
  | none {ts rest : List Token} : Sign .rightParen ts rest → Arguments ts [] rest
  | some {ts₀ ts₁ rest : List Token} {es : List Expr} :
      Items atom ts₀ es ts₁ → Sign .rightParen ts₁ rest → Arguments ts₀ es rest

def stripWord : Axis → Token.Kind
  | .horizontal => .hor
  | .vertical => .vert

/-- An atom whose inner atoms are given. An identifier in front of a parenthesis is never a name. -/
inductive Atom : Phrase Expr
  | number {t : Token} {rest : List Token} {n : Nat} :
      t.kind = .integer → Nat.ofDigitChars 10 t.text.toList 0 = n → n < Nat.pow 2 63 →
      Atom (t :: rest) (.number n) rest
  | color {t : Token} {rest : List Token} :
      t.kind = .string ∨ t.kind = .hex → Atom (t :: rest) (.color t.content) rest
  | dye {t : Token} {rest : List Token} :
      t.kind = .identifier → Reading.isDyeName t.text → Atom (t :: rest) (.color t.text) rest
  | name {t : Token} {rest : List Token} :
      t.kind = .identifier → ¬Reading.isDyeName t.text → ¬Begins .leftParen rest →
      Atom (t :: rest) (.name t.text) rest
  | call {t : Token} {ts₀ ts₁ rest : List Token} {es : List Expr} :
      t.kind = .identifier → ¬Reading.isDyeName t.text → Sign .leftParen ts₀ ts₁ →
      Arguments atom ts₁ es rest → Atom (t :: ts₀) (.call t.text es) rest
  | group {ts₀ ts₁ ts₂ rest : List Token} {e : Expr} :
      Sign .leftParen ts₀ ts₁ → Sum atom ts₁ e ts₂ → Sign .rightParen ts₂ rest → Atom ts₀ e rest
  | rect {ts₀ ts₁ ts₂ ts₃ ts₄ ts₅ ts₆ ts₇ rest : List Token} {width height color : Expr} :
      Sign .rect ts₀ ts₁ → Sign .leftParen ts₁ ts₂ → Sum atom ts₂ width ts₃ →
      Sign .comma ts₃ ts₄ → Sum atom ts₄ height ts₅ → Sign .comma ts₅ ts₆ →
      Sum atom ts₆ color ts₇ → Sign .rightParen ts₇ rest → Atom ts₀ (.rect width height color) rest
  | strip {axis : Axis} {ts₀ ts₁ ts₂ ts₃ rest : List Token} {es : List Expr} :
      Sign (stripWord axis) ts₀ ts₁ → Sign .leftParen ts₁ ts₂ → Items atom ts₂ es ts₃ →
      Sign .rightParen ts₃ rest → Atom ts₀ (.strip axis es) rest
  | overlay {t : Token} {ts₀ ts₁ ts₂ ts₃ ts₄ rest : List Token} {es : List Expr} :
      Sign .overlay ts₀ ts₁ → Sign .leftParen ts₁ (t :: ts₂) →
      t.kind = .identifier ∨ t.kind = .string → Sign .comma ts₂ ts₃ → Items atom ts₃ es ts₄ →
      Sign .rightParen ts₄ rest → Atom ts₀ (.overlay t.content es) rest
  | rot {ts₀ ts₁ rest : List Token} {angle target : Expr} :
      Sign .rot ts₀ ts₁ → Operands atom ts₁ (angle, target) rest →
      Atom ts₀ (.rot (Reading.asAngle angle) target) rest
  | rep {ts₀ ts₁ rest : List Token} {count target : Expr} :
      Sign .rep ts₀ ts₁ → Operands atom ts₁ (count, target) rest → Atom ts₀ (.rep count target) rest

end Atom

/-- Atoms that nest in at most so many levels, their own level counted. -/
def AtomWithin : Nat → Phrase Expr
  | 0 => fun _ _ _ => False
  | levels + 1 => Atom (AtomWithin levels)

def Expression (levels : Nat) : Phrase Expr :=
  Sum (AtomWithin levels)

/-- A name that can be bound. -/
def Binder : Phrase String := fun tokens name rest =>
  ∃ t : Token, t.kind = .identifier ∧ ¬Reading.isDyeName t.text ∧ tokens = t :: rest ∧
    name = t.text

/-- Parameters with the parenthesis that closes them. -/
inductive Parameters : Phrase (List String)
  | none {ts rest : List Token} : Sign .rightParen ts rest → Parameters ts [] rest
  | some {ts₀ ts₁ rest : List Token} {xs : List String} :
      Separated .comma Binder ts₀ xs ts₁ → Sign .rightParen ts₁ rest → Parameters ts₀ xs rest

section Definitions

variable (expr : Phrase Expr)

/-- A name, its value and the semicolon. -/
inductive Binding : Phrase (String × Expr)
  | intro {ts₀ ts₁ ts₂ ts₃ rest : List Token} {name : String} {value : Expr} :
      Binder ts₀ name ts₁ → Sign .equal ts₁ ts₂ → expr ts₂ value ts₃ → Sign .semicolon ts₃ rest →
      Binding ts₀ (name, value) rest

inductive Definition : Phrase Patchwork.Definition
  | declared {t : Token} {ts rest : List Token} {kind : DeclaredKind} {name : String}
      {value : Expr} :
      DeclaredKind.ofToken? t.kind = some kind → Binding expr ts (name, value) rest →
      Definition (t :: ts) (.declared kind name value) rest
  | assigned {ts rest : List Token} {name : String} {value : Expr} :
      Binding expr ts (name, value) rest → Definition ts (.assigned name value) rest
  | function {ts₀ ts₁ ts₂ ts₃ ts₄ ts₅ ts₆ rest : List Token} {name : String} {xs : List String}
      {body : Expr} :
      Sign .function ts₀ ts₁ → Binder ts₁ name ts₂ → Sign .leftParen ts₂ ts₃ →
      Parameters ts₃ xs ts₄ → Sign .equal ts₄ ts₅ → expr ts₅ body ts₆ →
      Sign .semicolon ts₆ rest → Definition ts₀ (.function name xs body) rest

inductive Definitions : Phrase (List Patchwork.Definition)
  | none (tokens : List Token) : Definitions tokens [] tokens
  | more {ts₀ ts₁ rest : List Token} {d : Patchwork.Definition} {ds : List Patchwork.Definition} :
      Definition expr ts₀ d ts₁ → Definitions ts₁ ds rest → Definitions ts₀ (d :: ds) rest

end Definitions

/-- Nothing, or one semicolon. -/
def Ending (tokens : List Token) : Prop :=
  tokens = [] ∨ Sign .semicolon tokens []

/-- The whole list derives the program, with no atom deeper than the levels. -/
inductive Derives (levels : Nat) (tokens : List Token) : Program → Prop
  | intro {ts₁ ts₂ : List Token} {ds : List Patchwork.Definition} {goal : Expr} :
      Definitions (Expression levels) tokens ds ts₁ → Expression levels ts₁ goal ts₂ →
      Ending ts₂ → Derives levels tokens ⟨ds, goal⟩

end Grammar

end Patchwork
