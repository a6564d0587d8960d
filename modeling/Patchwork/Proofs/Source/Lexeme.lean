import Patchwork.Source.Scan

/-!
# Lexemes

A lexeme is a token without its position. Lexemes that are spelled as their kinds ask, with a space
between any two of them, are scanned into themselves: a piece goes on as long as it can, but never
over a space.
-/

namespace Patchwork

structure Lexeme where
  kind : Token.Kind
  text : String
  deriving DecidableEq, Repr

def Token.lexeme (t : Token) : Lexeme :=
  ⟨t.kind, t.text⟩

/-- The texts with a single space between any two of them. -/
def Lexeme.spaced (lexemes : List Lexeme) : String :=
  " ".intercalate (lexemes.map text)

namespace Scan

/-- The spellings of a kind of token. -/
inductive Spells : Token.Kind → List Char → Prop
  | word {c : Char} {cs : List Char} :
      isWordStart c → (∀ d ∈ cs, isWordPart d) →
      Spells (Token.Kind.ofWord (String.ofList (c :: cs))) (c :: cs)
  | mark {c : Char} {kind : Token.Kind} : Token.Kind.ofMark? c = some kind → Spells kind [c]
  | integer {c : Char} {cs : List Char} :
      c.isDigit → (∀ d ∈ cs, d.isDigit) → Spells .integer (c :: cs)
  | string {cs : List Char} :
      (∀ d ∈ cs, isInString d) → Spells .string ('"' :: (cs ++ ['"']))
  | hex {cs : List Char} :
      (∀ d ∈ cs, isHexDigit d) → cs.length = 3 ∨ cs.length = 6 → Spells .hex ('#' :: cs)

/-- A word of one piece, a keyword or not. -/
def isWord (text : List Char) : Bool :=
  match text with
  | [] => false
  | c :: cs => isWordStart c && cs.all isWordPart

/-- A token can end here: the text ends too, or a blank or a comment follows. -/
def Separates (rest : List Char) : Prop :=
  ∀ d ∈ rest.head?, isBlank d ∨ d = '/'

theorem spells_of_isWord {x : String} (h : isWord x.toList) :
    Spells (Token.Kind.ofWord x) x.toList := by
  unfold isWord at h
  split at h
  · cases h
  · next c cs same =>
    simp only [Bool.and_eq_true, List.all_eq_true] at h
    have word := Spells.word h.1 h.2
    rwa [← same, String.ofList_toList] at word

theorem separates_nil : Separates [] := by
  simp [Separates]

theorem separates_space (rest : List Char) : Separates (' ' :: rest) := by
  simp [Separates, isBlank]

section Classes

variable {c : Char}

theorem isBlank_iff (c : Char) : isBlank c ↔ c ∈ [' ', '\t', '\r', '\n'] := by
  simp [isBlank, or_assoc]

/-- A class without these characters is met only where the earlier questions are all answered in
the negative. -/
theorem not_isSpecial {p : Char → Bool} (h : p c)
    (other : [' ', '\t', '\r', '\n', '/', '"', '#'].any p = false) :
    isBlank c = false ∧ c ≠ '/' ∧ c ≠ '"' ∧ c ≠ '#' := by
  have outside : c ∉ [' ', '\t', '\r', '\n', '/', '"', '#'] := by
    intro mem
    exact List.any_eq_false.1 other c mem h
  simpa [isBlank, and_assoc] using outside

theorem not_isDigit_of_isWordStart (h : isWordStart c) : c.isDigit = false := by
  cases digit : c.isDigit with
  | false => rfl
  | true =>
    have digit : '0'.val ≤ c.val ∧ c.val ≤ '9'.val :=
      (Bool.and_eq_true_iff.1 digit).imp of_decide_eq_true of_decide_eq_true
    rcases Bool.or_eq_true_iff.1 h with letter | same
    · rcases Bool.or_eq_true_iff.1 letter with upper | lower
      · have upper : 'A'.val ≤ c.val := (of_decide_eq_true upper).1
        grind
      · have lower : 'a'.val ≤ c.val := of_decide_eq_true (Bool.and_eq_true_iff.1 lower).1
        grind
    · have upper : '_'.val ≤ c.val := by
        rw [eq_of_beq same]
        exact UInt32.le_refl _
      grind

end Classes

/-- What separates belongs to no class of characters that a token goes on with, strings apart. -/
theorem separates_outside {p : Char → Bool} {rest : List Char} (h : Separates rest)
    (outside : [' ', '\t', '\r', '\n', '/'].any p = false) :
    ∀ d ∈ rest.head?, p d = false := by
  intro d mem
  refine eq_false_of_ne_true (List.any_eq_false.1 outside d ?_)
  rcases h d mem with blank | rfl
  · have := (isBlank_iff _).1 blank
    grind
  · simp

section Span

variable {p : Char → Bool} {cs rest : List Char} (inside : ∀ d ∈ cs, p d)
  (outside : ∀ d ∈ rest.head?, p d = false)

include inside outside

theorem takeWhile_append_outside : (cs ++ rest).takeWhile p = cs := by
  have none : rest.takeWhile p = [] := by
    cases rest with
    | nil => rfl
    | cons d rest => simp [outside d rfl]
  rw [List.takeWhile_append_of_pos inside, none, List.append_nil]

theorem dropWhile_append_outside : (cs ++ rest).dropWhile p = rest := by
  have all : rest.dropWhile p = rest := by
    cases rest with
    | nil => rfl
    | cons d rest => simp [outside d rfl]
  rw [List.dropWhile_append_of_pos inside, all]

theorem run_append (kind : PieceKind) (opening : List Char) :
    run kind opening p (cs ++ rest) = ⟨kind, opening ++ cs, rest⟩ := by
  rw [run, takeWhile_append_outside inside outside, dropWhile_append_outside inside outside]

end Span

theorem mem_keywords_of_ofWord {word : String} {kind : Token.Kind}
    (h : Token.Kind.ofWord word = kind) (other : kind ≠ .identifier) :
    (word, kind) ∈ Token.Kind.keywords := by
  subst h
  unfold Token.Kind.ofWord at *
  cases found : Token.Kind.keywords.lookup word with
  | none => simp [found] at other
  | some kind =>
    obtain ⟨before, after, same, -⟩ := List.lookup_eq_some_iff.1 found
    simp [same]

theorem mem_marks_of_ofMark? {c : Char} {kind : Token.Kind}
    (h : Token.Kind.ofMark? c = some kind) : (c, kind) ∈ Token.Kind.marks := by
  obtain ⟨before, after, same, -⟩ := List.lookup_eq_some_iff.1 h
  simp [same]

section First

/-!
The first character says which piece starts.
-/

variable {c : Char} (cs : List Char)

theorem piece?_of_isBlank (h : isBlank c) : piece? c cs = some (run .blank [c] isBlank cs) := by
  rw [piece?, if_pos h]

theorem piece?_of_isDigit (h : c.isDigit) :
    piece? c cs = some (run (.token .integer) [c] Char.isDigit cs) := by
  obtain ⟨blank, slash, quote, hash⟩ := not_isSpecial h (by decide)
  simp [piece?, blank, slash, quote, hash, h]

theorem piece?_of_isWordStart (h : isWordStart c) : piece? c cs = some (word c cs) := by
  obtain ⟨blank, slash, quote, hash⟩ := not_isSpecial h (by decide)
  have letter := not_isDigit_of_isWordStart h
  simp [piece?, blank, slash, quote, hash, letter, h]

theorem piece?_of_ofMark? {kind : Token.Kind} (h : Token.Kind.ofMark? c = some kind) :
    piece? c cs = some ⟨.token kind, [c], cs⟩ := by
  have other : ∀ mark ∈ Token.Kind.marks, isBlank mark.1 = false ∧ mark.1 ≠ '/' ∧ mark.1 ≠ '"' ∧
      mark.1 ≠ '#' ∧ mark.1.isDigit = false ∧ isWordStart mark.1 = false := by decide
  obtain ⟨blank, slash, quote, hash, digit, letter⟩ := other _ (mem_marks_of_ofMark? h)
  simp [piece?, blank, slash, quote, hash, digit, letter, mark?, h]

theorem piece?_quote {inside : List Char} (h : ∀ d ∈ inside, isInString d) (rest : List Char) :
    piece? '"' (inside ++ '"' :: rest) =
      some ⟨.token .string, '"' :: (inside ++ ['"']), rest⟩ := by
  have closing : ∀ d ∈ ('"' :: rest).head?, isInString d = false := by
    intro d mem
    cases mem
    decide
  have take := takeWhile_append_outside h closing
  have drop := dropWhile_append_outside h closing
  simp [piece?, isBlank, string?, take, drop]

theorem piece?_hash {d : Char} (h : isHexDigit d) :
    piece? '#' (d :: cs) = some (run (.token .hex) ['#'] isHexDigit (d :: cs)) := by
  simp only [piece?, isBlank, hex?, List.takeWhile_cons_of_pos h]
  rfl

end First

theorem piece?_of_spells {kind : Token.Kind} {c : Char} {cs rest : List Char}
    (h : Spells kind (c :: cs)) (separates : Separates rest) :
    piece? c (cs ++ rest) = some ⟨.token kind, c :: cs, rest⟩ := by
  cases h with
  | word start parts =>
    have outside := separates_outside (p := isWordPart) separates (by decide)
    rw [piece?_of_isWordStart _ start, word, run_append parts outside,
      takeWhile_append_outside parts outside]
    rfl
  | mark mark => exact piece?_of_ofMark? _ mark
  | integer first digits =>
    have outside := separates_outside (p := Char.isDigit) separates (by decide)
    rw [piece?_of_isDigit _ first, run_append digits outside]
    rfl
  | @string cs inside =>
    rw [List.append_assoc, List.singleton_append]
    exact piece?_quote inside rest
  | hex digits size =>
    have outside := separates_outside (p := isHexDigit) separates (by decide)
    have some : cs ≠ [] := by
      rintro rfl
      simp at size
    obtain ⟨d, ds, rfl⟩ := List.exists_cons_of_ne_nil some
    have run := run_append digits outside
    rw [List.cons_append] at run ⊢
    rw [piece?_hash _ (digits d List.mem_cons_self), run]
    rfl

theorem isWellSized_of_spells {kind : Token.Kind} {text rest : List Char} (h : Spells kind text) :
    isWellSized ⟨.token kind, text, rest⟩ := by
  cases h with
  | word start parts =>
    have other : ∀ word, Token.Kind.ofWord word ≠ .hex := by
      intro word same
      simpa [Token.Kind.keywords] using mem_keywords_of_ofWord same (by decide)
    simp [isWellSized, other]
  | mark mark =>
    have : kind ≠ .hex := by
      rintro rfl
      simpa [Token.Kind.marks] using mem_marks_of_ofMark? mark
    simp [isWellSized, this]
  | integer => rfl
  | string => rfl
  | hex digits size => rcases size with size | size <;> simp [isWellSized, size]

theorem Spells.ne_nil {kind : Token.Kind} {text : List Char} (h : Spells kind text) :
    text ≠ [] := by
  cases h with
  | word | mark | integer | string | hex => exact List.cons_ne_nil _ _

theorem toList_spaced_cons (l l' : Lexeme) (ls : List Lexeme) :
    (Lexeme.spaced (l :: l' :: ls)).toList =
      l.text.toList ++ ' ' :: (Lexeme.spaced (l' :: ls)).toList := by
  simp [Lexeme.spaced, String.toList_intercalate]

section Steps

variable (p : Position) (earlier : List Token)

theorem scanFrom_piece {c : Char} {cs : List Char} {piece : Piece}
    (h : piece? c cs = some piece) (sized : isWellSized piece) :
    scanFrom p (c :: cs) earlier =
      scanFrom (p.after piece.text) piece.rest (keep piece p earlier) := by
  rw [scanFrom]
  split
  · next none => cases none.symm.trans h
  · next same =>
    cases same.symm.trans h
    rw [if_pos sized]

theorem scanFrom_stray {c : Char} {cs : List Char} (h : piece? c cs = none) :
    scanFrom p (c :: cs) earlier = .error ⟨.strayCharacter (String.ofList (stray c cs)), p⟩ := by
  rw [scanFrom]
  split
  · rfl
  · next same => cases same.symm.trans h

theorem scanFrom_missized {c : Char} {cs : List Char} {piece : Piece}
    (h : piece? c cs = some piece) (sized : ¬isWellSized piece) :
    scanFrom p (c :: cs) earlier = .error ⟨.hexLength (String.ofList piece.text), p⟩ := by
  rw [scanFrom]
  split
  · next none => cases none.symm.trans h
  · next same =>
    cases same.symm.trans h
    rw [if_neg sized]

theorem scanFrom_lexeme {l : Lexeme} {rest : List Char} (spells : Spells l.kind l.text.toList)
    (separates : Separates rest) :
    scanFrom p (l.text.toList ++ rest) earlier =
      scanFrom (p.after l.text.toList) rest (⟨l.kind, l.text, p⟩ :: earlier) := by
  obtain ⟨c, cs, same⟩ := List.exists_cons_of_ne_nil spells.ne_nil
  have text : String.ofList (c :: cs) = l.text := by rw [← same, String.ofList_toList]
  rw [same] at spells ⊢
  rw [List.cons_append, scanFrom_piece _ _ (piece?_of_spells spells separates)
    (isWellSized_of_spells spells), keep, text]

/-- A run of blanks may as well be cut off one by one. -/
theorem scanFrom_blank {c : Char} (h : isBlank c) (cs : List Char) :
    scanFrom p (c :: cs) earlier = scanFrom (p.next c) cs earlier := by
  rw [scanFrom_piece p earlier (piece?_of_isBlank cs h) rfl]
  cases cs with
  | nil => rfl
  | cons d ds =>
    by_cases blank : isBlank d
    · rw [scanFrom_piece _ earlier (piece?_of_isBlank ds blank) rfl, run, run,
        List.takeWhile_cons_of_pos blank, List.dropWhile_cons_of_pos blank]
      rfl
    · rw [run, List.takeWhile_cons_of_neg blank, List.dropWhile_cons_of_neg blank]
      rfl

/-- A space is left behind each lexeme but the last one, and the next lexeme ends it. -/
theorem scanFrom_spaced {l : Lexeme} {ls : List Lexeme}
    (spells : ∀ k ∈ l :: ls, Spells k.kind k.text.toList) :
    ∃ tokens, tokens.map Token.lexeme = l :: ls ∧
      scanFrom p (Lexeme.spaced (l :: ls)).toList earlier = .ok (earlier.reverse ++ tokens) := by
  induction ls generalizing p earlier l with
  | nil =>
    refine ⟨[⟨l.kind, l.text, p⟩], rfl, ?_⟩
    have scanned := scanFrom_lexeme p earlier (spells l List.mem_cons_self) separates_nil
    rw [List.append_nil] at scanned
    simp [Lexeme.spaced, scanned, scanFrom]
  | cons l' ls ih =>
    obtain ⟨first, others⟩ := List.forall_mem_cons.1 spells
    obtain ⟨tokens, lexemes, scanned⟩ := ih ((p.after l.text.toList).next ' ')
      (⟨l.kind, l.text, p⟩ :: earlier) others
    refine ⟨⟨l.kind, l.text, p⟩ :: tokens, by simp [lexemes, Token.lexeme], ?_⟩
    rw [toList_spaced_cons, scanFrom_lexeme _ _ first (separates_space _),
      scanFrom_blank _ _ rfl, scanned]
    simp

end Steps

end Scan

def Lexeme.IsSpelled (l : Lexeme) : Prop :=
  Scan.Spells l.kind l.text.toList

theorem scan_spaced {ls : List Lexeme} (spells : ∀ l ∈ ls, l.IsSpelled) :
    ∃ tokens, scan (Lexeme.spaced ls) = .ok tokens ∧ tokens.map Token.lexeme = ls := by
  cases ls with
  | nil => exact ⟨[], by simp [scan, Lexeme.spaced, Scan.scanFrom], rfl⟩
  | cons l ls =>
    obtain ⟨tokens, lexemes, scanned⟩ := Scan.scanFrom_spaced .start [] spells
    exact ⟨tokens, scanned, lexemes⟩

end Patchwork
