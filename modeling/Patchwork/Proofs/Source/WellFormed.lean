import Patchwork.Proofs.Source.Carrying
import Patchwork.Proofs.Source.Language
import Patchwork.Proofs.Source.LongestMatch
import Patchwork.Proofs.Source.Spelling

/-!
# What is read is well formed

The trees hold more than a text can say, but none that is read from a text does. Half of this is
seen to by scanning, which settles what a name or a quoted text can be, and the other half by the
grammar.
-/

namespace Patchwork

namespace Scan

/-- No quote and no end of a line belongs to the class. -/
theorem quotable_of_class {p : Char → Bool} {cs : List Char} (inside : ∀ c ∈ cs, p c)
    (other : [' ', '\t', '\r', '\n', '/', '"', '#'].any p = false) :
    ∀ c ∈ cs, c ≠ '"' ∧ c ≠ '\n' := by
  intro c member
  obtain ⟨blank, -, quote, -⟩ := not_isSpecial (inside c member) other
  refine ⟨quote, ?_⟩
  rintro rfl
  cases blank

theorem isWordPart_of_isWordStart {c : Char} (h : isWordStart c) : isWordPart c := by
  rw [isWordStart, Bool.or_eq_true] at h
  rw [isWordPart, Char.isAlphanum, Bool.or_eq_true, Bool.or_eq_true]
  exact h.imp_left Or.inl

section Inversion

variable {kind : Token.Kind} {text : List Char} (h : Spells kind text)

include h

theorem Spells.of_identifier (same : kind = .identifier) :
    isWord text ∧ Token.Kind.ofWord (String.ofList text) = .identifier := by
  cases h with
  | word start parts =>
    refine ⟨?_, same⟩
    rw [isWord, start, Bool.true_and]
    exact List.all_eq_true.2 parts
  | mark mark =>
    rw [same] at mark
    simpa [Token.Kind.marks] using mem_marks_of_ofMark? mark
  | integer | string | hex => cases same

theorem Spells.of_string (same : kind = .string) :
    ∃ cs, text = '"' :: (cs ++ ['"']) ∧ ∀ c ∈ cs, c ≠ '"' ∧ c ≠ '\n' := by
  cases h with
  | word => simpa [Token.Kind.keywords] using mem_keywords_of_ofWord same (by decide)
  | mark mark =>
    rw [same] at mark
    simpa [Token.Kind.marks] using mem_marks_of_ofMark? mark
  | @string cs inside =>
    refine ⟨cs, rfl, ?_⟩
    simpa [isInString] using inside
  | integer | hex => cases same

theorem Spells.unquoted (same : kind = .hex ∨ kind = .identifier) :
    ∀ c ∈ text, c ≠ '"' ∧ c ≠ '\n' := by
  cases h with
  | word start parts =>
    refine quotable_of_class (p := isWordPart) ?_ (by decide)
    exact List.forall_mem_cons.2 ⟨isWordPart_of_isWordStart start, parts⟩
  | mark mark => rcases same with same | same <;>
      (rw [same] at mark; simpa [Token.Kind.marks] using mem_marks_of_ofMark? mark)
  | hex digits =>
    refine List.forall_mem_cons.2 ⟨by decide, ?_⟩
    exact quotable_of_class digits (by decide)
  | integer | string => rcases same with same | same <;> cases same

end Inversion

end Scan

section Tokens

variable {t : Token} (spelled : t.lexeme.IsSpelled)

include spelled

theorem nameable_of_isSpelled (kind : t.kind = .identifier) (plain : ¬Reading.isDyeName t.text) :
    Nameable t.text := by
  obtain ⟨word, ordinary⟩ := Scan.Spells.of_identifier spelled kind
  refine ⟨word, ?_, plain⟩
  intro keyword
  have reserved : ∀ word ∈ Token.Kind.keywords.map Prod.fst,
      Token.Kind.ofWord word ≠ .identifier := by decide
  refine reserved _ keyword ?_
  rwa [Token.lexeme, String.ofList_toList] at ordinary

theorem quotable_content (kind : t.kind = .string ∨ t.kind = .hex ∨ t.kind = .identifier) :
    Quotable t.content := by
  rw [Quotable, Token.content]
  rcases kind with kind | kind
  · obtain ⟨cs, text, inside⟩ := Scan.Spells.of_string spelled kind
    rw [Token.lexeme] at text
    simpa [kind, text] using inside
  · have other : t.kind ≠ .string := by
      rcases kind with kind | kind <;> simp [kind]
    rw [if_neg other]
    exact Scan.Spells.unquoted spelled kind

end Tokens

namespace Expr

theorem height_asAngle (e : Expr) : (Reading.asAngle e).height = e.height := by
  cases e with
  | number n => rfl
  | _ => rfl

theorem Spellable.rot_asAngle {angle target : Expr} (h : angle.Spellable)
    (h' : target.Spellable) : (Expr.rot (Reading.asAngle angle) target).Spellable := by
  cases angle with
  | number n =>
    cases h with
    | number literal => exact .turn literal h'
  | _ => exact .rot nofun h h'

end Expr

/-- Each node says what a text can say, and opens a level above those of its parts. -/
theorem inherited_wellFormed :
    Grammar.Inherited (fun t => t.lexeme.IsSpelled) Nameable
      fun levels e => e.Spellable ∧ e.height ≤ levels where
  bound := nameable_of_isSpelled
  number small := by
    refine ⟨.number ⟨Int.natCast_nonneg _, Int.ofNat_lt.2 small⟩, ?_⟩
    exact (Expr.height_le_succ_iff id).2 (by simp [Expr.parts])
  color h kind := by
    refine ⟨.color (quotable_content h kind), ?_⟩
    exact (Expr.height_le_succ_iff id).2 (by simp [Expr.parts])
  name h := ⟨.name h, (Expr.height_le_succ_iff id).2 (by simp [Expr.parts])⟩
  call h each := by
    refine ⟨.call h fun e member => (each e member).1, ?_⟩
    exact (Expr.height_le_succ_iff id).2 fun e member => (each e member).2
  arithmetic _ _ left right :=
    ⟨.arithmetic left.1 right.1, Expr.height_arithmetic_le_iff.2 ⟨left.2, right.2⟩⟩
  group h := ⟨h.1, Nat.le_succ_of_le h.2⟩
  rect width height color := by
    refine ⟨.rect width.1 height.1 color.1, (Expr.height_le_succ_iff id).2 ?_⟩
    simp [Expr.parts, width.2, height.2, color.2]
  strip some each := by
    refine ⟨.strip some fun e member => (each e member).1, ?_⟩
    exact (Expr.height_le_succ_iff id).2 fun e member => (each e member).2
  overlay h kind some each := by
    have anchor := quotable_content h (kind.symm.imp_right Or.inr)
    refine ⟨.overlay anchor some fun e member => (each e member).1, ?_⟩
    exact (Expr.height_le_succ_iff id).2 fun e member => (each e member).2
  rot angle target := by
    refine ⟨angle.1.rot_asAngle target.1, (Expr.height_le_succ_iff id).2 ?_⟩
    simp [Expr.parts, Expr.height_asAngle, angle.2, target.2]
  rep count target := by
    refine ⟨.rep count.1 target.1, (Expr.height_le_succ_iff id).2 ?_⟩
    simp [Expr.parts, count.2, target.2]

namespace Program

/-- Spelled tokens derive spellable programs, which are no higher than the levels allow. -/
theorem spellable_of_derives {levels : Nat} {tokens : List Token} {p : Program}
    (derives : Grammar.Derives levels tokens p) (spelled : ∀ t ∈ tokens, t.lexeme.IsSpelled) :
    p.Spellable ∧ p.height ≤ levels := by
  obtain ⟨names, contents⟩ := inherited_wellFormed.of_derives derives spelled
  obtain ⟨definitions, goal⟩ := forall_mem_contents_iff.1 fun e member => (contents e member).1
  refine ⟨⟨?_, goal⟩, Expr.heightAll_le_iff.2 fun e member => (contents e member).2⟩
  intro d member
  have names := names d member
  have content := definitions d member
  cases d with
  | declared kind x value => exact .declared (names x List.mem_cons_self) content
  | assigned x value => exact .assigned (names x List.mem_cons_self) content
  | function f xs body =>
    obtain ⟨name, parameters⟩ := List.forall_mem_cons.1 names
    exact .function name parameters content

/-- A program that is read from a text says what a text can say: literals are not negative, lists
not empty, whole degrees stand directly behind `rot` only and plain numbers never do, what is bound,
called or asked for is no keyword and no dye, and colors and anchors hold no quote and no end of a
line. Its nodes, sums and products apart, stand no deeper inside each other than the limit says. -/
theorem spellable_of_ofText {limit : Nat} {text : String} {p : Program}
    (read : ofText limit text = .ok p) : p.Spellable ∧ p.height ≤ limit := by
  obtain ⟨tokens, scanned, derives⟩ := exists_derives_of_ofText read
  exact spellable_of_derives derives (isSpelled_of_scan scanned)

section Turned

def turned : Program where
  definitions := [.function "f" ["x"] (.name "x")]
  goal := .rot (.angle 90) (.call "f" [.color "red"])

def turnedTokens : List Token :=
  [⟨.function, "fun", ⟨1, 1⟩⟩, ⟨.identifier, "f", ⟨1, 5⟩⟩, ⟨.leftParen, "(", ⟨1, 6⟩⟩,
    ⟨.identifier, "x", ⟨1, 7⟩⟩, ⟨.rightParen, ")", ⟨1, 8⟩⟩, ⟨.equal, "=", ⟨1, 10⟩⟩,
    ⟨.identifier, "x", ⟨1, 12⟩⟩, ⟨.semicolon, ";", ⟨1, 13⟩⟩, ⟨.rot, "rot", ⟨1, 15⟩⟩,
    ⟨.integer, "90", ⟨1, 19⟩⟩, ⟨.identifier, "f", ⟨1, 22⟩⟩, ⟨.leftParen, "(", ⟨1, 23⟩⟩,
    ⟨.identifier, "red", ⟨1, 24⟩⟩, ⟨.rightParen, ")", ⟨1, 27⟩⟩]

/-- The limit is met exactly. -/
theorem turned_spellable : ofText 3 "fun f(x) = x; rot 90 f(red)" = .ok turned ∧
    turned.Spellable ∧ turned.height ≤ 3 ∧ ¬turned.height ≤ 2 := by
  have scanned : scan "fun f(x) = x; rot 90 f(red)" = .ok turnedTokens := by with_unfolding_all rfl
  have read : ofText 3 "fun f(x) = x; rot 90 f(red)" = .ok turned := by
    rw [ofText_of_scan scanned]
    rfl
  obtain ⟨spellable, within⟩ := spellable_of_ofText read
  exact ⟨read, spellable, within, by decide⟩

end Turned

end Program

end Patchwork
