import Patchwork.Proofs.Source.Lexeme
import Patchwork.Source.Program

/-!
# Spelling

The fully parenthesised text of a program: every operand stands in parentheses, `rot` and `rep` are
written as calls, colors and anchors are quoted, and one space stands between any two tokens. A
program is spellable if a text can say all that its tree holds.
-/

namespace Patchwork

namespace Lexeme

/-- A keyword or a name. -/
def word (text : String) : Lexeme :=
  ⟨Token.Kind.ofWord text, text⟩

def integer (n : Int) : Lexeme :=
  ⟨.integer, n.repr⟩

def quoted (text : String) : Lexeme :=
  ⟨.string, String.ofList ('"' :: (text.toList ++ ['"']))⟩

def leftParen : Lexeme :=
  ⟨.leftParen, "("⟩

def rightParen : Lexeme :=
  ⟨.rightParen, ")"⟩

def comma : Lexeme :=
  ⟨.comma, ","⟩

def semicolon : Lexeme :=
  ⟨.semicolon, ";"⟩

def equal : Lexeme :=
  ⟨.equal, "="⟩

def sign : Operator → Lexeme
  | .plus => ⟨.plus, "+"⟩
  | .times => ⟨.star, "*"⟩

def strip : Axis → Lexeme
  | .horizontal => word "hor"
  | .vertical => word "vert"

def declared : DeclaredKind → Lexeme
  | .rect => word "rect"
  | .design => word "design"
  | .number => word "num"
  | .color => word "color"
  | .angle => word "angle"

def grouped (inner : List Lexeme) : List Lexeme :=
  leftParen :: (inner ++ [rightParen])

/-- The parts with a comma between any two of them. -/
def listed (parts : List (List Lexeme)) : List Lexeme :=
  [comma].intercalate parts

end Lexeme

open Lexeme (word integer quoted semicolon equal grouped listed)

mutual

def Expr.spelling : Expr → List Lexeme
  | .number n => [integer n]
  | .angle degrees => [integer degrees]
  | .color text => [quoted text]
  | .name x => [word x]
  | .call f arguments => word f :: grouped (listed (Expr.operands arguments))
  | .arithmetic op left right =>
    grouped left.spelling ++ Lexeme.sign op :: grouped right.spelling
  | .rect width height fill =>
    word "rect" :: grouped (listed
      [grouped width.spelling, grouped height.spelling, grouped fill.spelling])
  | .strip axis items => Lexeme.strip axis :: grouped (listed (Expr.operands items))
  | .overlay anchor items =>
    word "over" :: grouped (listed ([quoted anchor] :: Expr.operands items))
  | .rot turn target =>
    word "rot" :: grouped (listed [grouped turn.spelling, grouped target.spelling])
  | .rep count target =>
    word "rep" :: grouped (listed [grouped count.spelling, grouped target.spelling])

/-- Each in parentheses of its own. -/
def Expr.operands : List Expr → List (List Lexeme)
  | [] => []
  | e :: es => grouped e.spelling :: Expr.operands es

end

mutual

/-- How many atoms of the text stand inside each other. A parenthesis is an atom, unless it belongs
to a call. -/
def Expr.nesting : Expr → Nat
  | .number _ => 1
  | .angle _ => 1
  | .color _ => 1
  | .name _ => 1
  | .call _ arguments => Expr.inner arguments + 1
  | .arithmetic _ left right => max (left.nesting + 1) (right.nesting + 1)
  | .rect width height fill =>
    max (width.nesting + 1) (max (height.nesting + 1) (fill.nesting + 1)) + 1
  | .strip _ items => Expr.inner items + 1
  | .overlay _ items => Expr.inner items + 1
  | .rot turn target => max (turn.nesting + 1) (target.nesting + 1) + 1
  | .rep count target => max (count.nesting + 1) (target.nesting + 1) + 1

/-- The nesting of operands, their parentheses included. -/
def Expr.inner : List Expr → Nat
  | [] => 0
  | e :: es => max (e.nesting + 1) (Expr.inner es)

end

def Definition.spelling : Definition → List Lexeme
  | declared kind x value =>
    Lexeme.declared kind :: word x :: equal :: (value.spelling ++ [semicolon])
  | assigned x value => word x :: equal :: (value.spelling ++ [semicolon])
  | function f xs body =>
    word "fun" :: word f :: (grouped (listed (xs.map fun x => [word x])) ++
      equal :: (body.spelling ++ [semicolon]))

def Definition.nesting : Definition → Nat
  | declared _ _ value => value.nesting
  | assigned _ value => value.nesting
  | function _ _ body => body.nesting

namespace Program

def spelling (p : Program) : List Lexeme :=
  p.definitions.flatMap Definition.spelling ++ p.goal.spelling

def text (p : Program) : String :=
  Lexeme.spaced p.spelling

example : text ⟨[.assigned "x" (.number 2)], .rot (.angle 90) (.rep (.name "x") (.color "red"))⟩ =
    "x = 2 ; rot ( ( 90 ) , ( rep ( ( x ) , ( \"red\" ) ) ) )" := by
  with_unfolding_all rfl

/-- Definitions are not inside each other, nor is the goal inside of any. -/
def nesting (p : Program) : Nat :=
  (p.definitions.map Definition.nesting).foldr max p.goal.nesting

theorem nesting_le_iff {p : Program} {n : Nat} :
    p.nesting ≤ n ↔ (∀ d ∈ p.definitions, d.nesting ≤ n) ∧ p.goal.nesting ≤ n := by
  obtain ⟨ds, goal⟩ := p
  induction ds with
  | nil => simp [nesting]
  | cons d ds ih =>
    have split : nesting ⟨d :: ds, goal⟩ = max d.nesting (nesting ⟨ds, goal⟩) := rfl
    rw [split, Nat.max_le, ih, List.forall_mem_cons, and_assoc]

end Program

section Spellable

/-- What a digit string of the language can mean. -/
def IsLiteral (n : Int) : Prop :=
  0 ≤ n ∧ n < Nat.pow 2 63

instance : DecidablePred IsLiteral := fun n =>
  inferInstanceAs (Decidable (0 ≤ n ∧ n < Nat.pow 2 63))

/-- A word of its own that is neither a keyword nor the name of a dye. -/
structure Nameable (x : String) : Prop where
  shape : Scan.isWord x.toList
  plain : x ∉ Token.Kind.keywords.map Prod.fst
  undyed : ¬Reading.isDyeName x

instance : DecidablePred Nameable := fun x =>
  decidable_of_iff (Scan.isWord x.toList ∧ x ∉ Token.Kind.keywords.map Prod.fst ∧
    ¬Reading.isDyeName x) ⟨fun h => ⟨h.1, h.2.1, h.2.2⟩, fun h => ⟨h.1, h.2, h.3⟩⟩

def Quotable (text : String) : Prop :=
  ∀ c ∈ text.toList, c ≠ '"' ∧ c ≠ '\n'

instance : DecidablePred Quotable := fun text =>
  decidable_of_iff (text.toList.all fun c => c ≠ '"' ∧ c ≠ '\n') (by simp [Quotable])

/-- Whole degrees stand directly behind `rot` and nowhere else, and a plain number never there. -/
inductive Expr.Spellable : Expr → Prop
  | number {n : Int} : IsLiteral n → Spellable (.number n)
  | color {text : String} : Quotable text → Spellable (.color text)
  | name {x : String} : Nameable x → Spellable (.name x)
  | call {f : String} {arguments : List Expr} :
      Nameable f → (∀ e ∈ arguments, Spellable e) → Spellable (.call f arguments)
  | arithmetic {op : Operator} {left right : Expr} :
      Spellable left → Spellable right → Spellable (.arithmetic op left right)
  | rect {width height fill : Expr} :
      Spellable width → Spellable height → Spellable fill → Spellable (.rect width height fill)
  | strip {axis : Axis} {items : List Expr} :
      items ≠ [] → (∀ e ∈ items, Spellable e) → Spellable (.strip axis items)
  | overlay {anchor : String} {items : List Expr} :
      Quotable anchor → items ≠ [] → (∀ e ∈ items, Spellable e) → Spellable (.overlay anchor items)
  | turn {degrees : Int} {target : Expr} :
      IsLiteral degrees → Spellable target → Spellable (.rot (.angle degrees) target)
  | rot {angle target : Expr} :
      (∀ n, angle ≠ .number n) → Spellable angle → Spellable target → Spellable (.rot angle target)
  | rep {count target : Expr} :
      Spellable count → Spellable target → Spellable (.rep count target)

inductive Definition.Spellable : Definition → Prop
  | declared {kind : DeclaredKind} {x : String} {value : Expr} :
      Nameable x → value.Spellable → Spellable (.declared kind x value)
  | assigned {x : String} {value : Expr} :
      Nameable x → value.Spellable → Spellable (.assigned x value)
  | function {f : String} {xs : List String} {body : Expr} :
      Nameable f → (∀ x ∈ xs, Nameable x) → body.Spellable → Spellable (.function f xs body)

structure Program.Spellable (p : Program) : Prop where
  definitions : ∀ d ∈ p.definitions, d.Spellable
  goal : p.goal.Spellable

end Spellable

section Tokens

variable {t : Token}

theorem Nameable.of_lexeme {x : String} (h : Nameable x) (lexeme : t.lexeme = word x) :
    t.kind = .identifier ∧ t.text = x := by
  have plain : Token.Kind.ofWord x = .identifier := by
    by_cases other : Token.Kind.ofWord x = .identifier
    · exact other
    · have mem := Scan.mem_keywords_of_ofWord rfl other
      exact (h.plain (List.mem_map.2 ⟨_, mem, rfl⟩)).elim
  exact ⟨(congrArg Lexeme.kind lexeme).trans plain, congrArg Lexeme.text lexeme⟩

theorem Lexeme.content_of_quoted {text : String} (lexeme : t.lexeme = quoted text) :
    t.kind = .string ∧ t.content = text := by
  have kind : t.kind = .string := congrArg Lexeme.kind lexeme
  have spelled : t.text = (quoted text).text := congrArg Lexeme.text lexeme
  refine ⟨kind, ?_⟩
  simp [Token.content, kind, spelled, quoted]

end Tokens

section Spelled

/-!
All that a spellable program is written with is spelled as its kind asks.
-/

namespace Lexeme

theorem isSpelled_word {x : String} (h : Scan.isWord x.toList) : (word x).IsSpelled :=
  Scan.spells_of_isWord h

theorem isSpelled_integer {n : Int} (h : 0 ≤ n) : (integer n).IsSpelled := by
  obtain ⟨n, rfl⟩ := Int.eq_ofNat_of_zero_le h
  have digits : ∀ d ∈ Nat.toDigits 10 n, d.isDigit := by
    intro d mem
    exact Nat.isDigit_of_mem_toDigits (by decide) (by decide) mem
  obtain ⟨c, cs, same⟩ := List.exists_cons_of_ne_nil (Nat.toDigits_ne_nil (n := n) (b := 10))
  have text : (integer n).text.toList = c :: cs := Nat.toList_repr.trans same
  rw [same] at digits
  obtain ⟨first, others⟩ := List.forall_mem_cons.1 digits
  unfold IsSpelled
  rw [text]
  exact .integer first others

theorem isSpelled_quoted {text : String} (h : Quotable text) : (quoted text).IsSpelled := by
  have inside : ∀ c ∈ text.toList, Scan.isInString c := by
    intro c mem
    simpa [Scan.isInString] using h c mem
  simpa [IsSpelled, quoted] using Scan.Spells.string inside

theorem isSpelled_semicolon : semicolon.IsSpelled :=
  .mark rfl

theorem isSpelled_equal : equal.IsSpelled :=
  .mark rfl

theorem isSpelled_sign (op : Operator) : (sign op).IsSpelled := by
  cases op
  · exact .mark rfl
  · exact .mark rfl

theorem isSpelled_strip (axis : Axis) : (strip axis).IsSpelled := by
  cases axis
  · exact isSpelled_word (by decide)
  · exact isSpelled_word (by decide)

theorem isSpelled_declared (kind : DeclaredKind) : (declared kind).IsSpelled := by
  cases kind <;> exact isSpelled_word (by decide)

theorem isSpelled_grouped {inner : List Lexeme} (h : ∀ l ∈ inner, l.IsSpelled) :
    ∀ l ∈ grouped inner, l.IsSpelled := by
  intro l mem
  simp only [grouped, List.mem_cons, List.mem_append, List.not_mem_nil, or_false] at mem
  rcases mem with rfl | mem | rfl
  · exact .mark rfl
  · exact h l mem
  · exact .mark rfl

theorem listed_singleton (part : List Lexeme) : listed [part] = part := by
  simp [listed]

theorem listed_cons_cons (part next : List Lexeme) (parts : List (List Lexeme)) :
    listed (part :: next :: parts) = part ++ comma :: listed (next :: parts) := by
  simp [listed, List.intercalate_cons_cons]

theorem isSpelled_listed {parts : List (List Lexeme)}
    (h : ∀ part ∈ parts, ∀ l ∈ part, l.IsSpelled) : ∀ l ∈ listed parts, l.IsSpelled := by
  induction parts with
  | nil => simp [listed]
  | cons part parts ih =>
    obtain ⟨first, others⟩ := List.forall_mem_cons.1 h
    cases parts with
    | nil => simpa [listed_singleton] using first
    | cons next parts =>
      intro l mem
      rw [listed_cons_cons, List.mem_append, List.mem_cons] at mem
      rcases mem with mem | rfl | mem
      · exact first l mem
      · exact .mark rfl
      · exact ih others l mem

end Lexeme

open Lexeme (IsSpelled)

theorem Expr.isSpelled_operands {es : List Expr}
    (h : ∀ e ∈ es, ∀ l ∈ e.spelling, l.IsSpelled) :
    ∀ part ∈ Expr.operands es, ∀ l ∈ part, l.IsSpelled := by
  induction es with
  | nil => simp [Expr.operands]
  | cons e es ih =>
    obtain ⟨first, others⟩ := List.forall_mem_cons.1 h
    rw [Expr.operands, List.forall_mem_cons]
    exact ⟨Lexeme.isSpelled_grouped first, ih others⟩

/-- The operands of a call, of any number. -/
theorem Expr.isSpelled_call (es : List Expr) (h : ∀ e ∈ es, ∀ l ∈ e.spelling, l.IsSpelled) :
    ∀ l ∈ grouped (listed (Expr.operands es)), l.IsSpelled :=
  Lexeme.isSpelled_grouped (Lexeme.isSpelled_listed (Expr.isSpelled_operands h))

theorem Expr.isSpelled_spelling {e : Expr} (h : e.Spellable) : ∀ l ∈ e.spelling, l.IsSpelled := by
  induction h with
  | number literal => exact List.forall_mem_singleton.2 (Lexeme.isSpelled_integer literal.1)
  | color quotable => exact List.forall_mem_singleton.2 (Lexeme.isSpelled_quoted quotable)
  | name nameable => exact List.forall_mem_singleton.2 (Lexeme.isSpelled_word nameable.shape)
  | call nameable _ ih =>
    exact List.forall_mem_cons.2 ⟨Lexeme.isSpelled_word nameable.shape, Expr.isSpelled_call _ ih⟩
  | arithmetic _ _ left right =>
    rw [Expr.spelling, List.forall_mem_append, List.forall_mem_cons]
    exact ⟨Lexeme.isSpelled_grouped left, Lexeme.isSpelled_sign _, Lexeme.isSpelled_grouped right⟩
  | @rect width height fill _ _ _ ih₁ ih₂ ih₃ =>
    have call := Expr.isSpelled_call [width, height, fill] (by simp_all)
    exact List.forall_mem_cons.2 ⟨Lexeme.isSpelled_word (by decide), call⟩
  | strip _ _ ih =>
    exact List.forall_mem_cons.2 ⟨Lexeme.isSpelled_strip _, Expr.isSpelled_call _ ih⟩
  | overlay quotable _ _ ih =>
    refine List.forall_mem_cons.2 ⟨Lexeme.isSpelled_word (by decide), ?_⟩
    refine Lexeme.isSpelled_grouped (Lexeme.isSpelled_listed (List.forall_mem_cons.2 ⟨?_, ?_⟩))
    · exact List.forall_mem_singleton.2 (Lexeme.isSpelled_quoted quotable)
    · exact Expr.isSpelled_operands ih
  | @turn degrees target literal _ ih =>
    have angle : ∀ l ∈ (Expr.angle degrees).spelling, l.IsSpelled :=
      List.forall_mem_singleton.2 (Lexeme.isSpelled_integer literal.1)
    have call := Expr.isSpelled_call [.angle degrees, target] (by simp_all)
    exact List.forall_mem_cons.2 ⟨Lexeme.isSpelled_word (by decide), call⟩
  | @rot angle target _ _ _ ih₁ ih₂ =>
    have call := Expr.isSpelled_call [angle, target] (by simp_all)
    exact List.forall_mem_cons.2 ⟨Lexeme.isSpelled_word (by decide), call⟩
  | @rep count target _ _ ih₁ ih₂ =>
    have call := Expr.isSpelled_call [count, target] (by simp_all)
    exact List.forall_mem_cons.2 ⟨Lexeme.isSpelled_word (by decide), call⟩

theorem Definition.isSpelled_spelling {d : Definition} (h : d.Spellable) :
    ∀ l ∈ d.spelling, l.IsSpelled := by
  have ended : ∀ {e : Expr}, e.Spellable → ∀ l ∈ equal :: (e.spelling ++ [semicolon]),
      l.IsSpelled := by
    intro e h
    refine List.forall_mem_cons.2 ⟨Lexeme.isSpelled_equal, List.forall_mem_append.2 ⟨?_, ?_⟩⟩
    · exact Expr.isSpelled_spelling h
    · exact List.forall_mem_singleton.2 Lexeme.isSpelled_semicolon
  cases h with
  | declared nameable h =>
    exact List.forall_mem_cons.2 ⟨Lexeme.isSpelled_declared _,
      List.forall_mem_cons.2 ⟨Lexeme.isSpelled_word nameable.shape, ended h⟩⟩
  | assigned nameable h =>
    exact List.forall_mem_cons.2 ⟨Lexeme.isSpelled_word nameable.shape, ended h⟩
  | @function f xs body nameable bound h =>
    have parameters : ∀ part ∈ xs.map fun x => [word x], ∀ l ∈ part, l.IsSpelled := by
      intro part mem
      obtain ⟨x, parameter, rfl⟩ := List.mem_map.1 mem
      exact List.forall_mem_singleton.2 (Lexeme.isSpelled_word (bound x parameter).shape)
    refine List.forall_mem_cons.2 ⟨Lexeme.isSpelled_word (by decide), ?_⟩
    refine List.forall_mem_cons.2 ⟨Lexeme.isSpelled_word nameable.shape, ?_⟩
    refine List.forall_mem_append.2 ⟨?_, ended h⟩
    exact Lexeme.isSpelled_grouped (Lexeme.isSpelled_listed parameters)

theorem Program.isSpelled_spelling {p : Program} (h : p.Spellable) :
    ∀ l ∈ p.spelling, l.IsSpelled := by
  refine List.forall_mem_append.2 ⟨?_, Expr.isSpelled_spelling h.goal⟩
  intro l mem
  obtain ⟨d, mem, spelled⟩ := List.mem_flatMap.1 mem
  exact Definition.isSpelled_spelling (h.definitions d mem) l spelled

/-- The text of a spellable program is scanned into what it is written with. -/
theorem Program.scan_text {p : Program} (h : p.Spellable) :
    ∃ tokens, scan p.text = .ok tokens ∧ tokens.map Token.lexeme = p.spelling :=
  scan_spaced (Program.isSpelled_spelling h)

end Spelled

end Patchwork
