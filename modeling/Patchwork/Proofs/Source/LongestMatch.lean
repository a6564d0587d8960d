import Patchwork.Proofs.Source.Lexeme
import Patchwork.Proofs.Source.Lines

/-!
# Longest matches

What scanning is, said without a scanner: each kind of piece has a rule for its texts, and a text is
cut from left to right so that each piece is the longest text at its place that any rule allows. A
fixed spelling goes before the rules that allow more than one, so that a keyword is no identifier.
Where no rule allows anything, or where a hex color has a wrong number of digits, cutting ends.
-/

namespace Patchwork

/-- The spelling of the kinds that have but one. -/
def Token.Kind.spelling? : Token.Kind → Option String
  | rect => some "rect"
  | hor => some "hor"
  | vert => some "vert"
  | overlay => some "over"
  | rot => some "rot"
  | rep => some "rep"
  | function => some "fun"
  | design => some "design"
  | number => some "num"
  | color => some "color"
  | angle => some "angle"
  | leftParen => some "("
  | rightParen => some ")"
  | comma => some ","
  | semicolon => some ";"
  | equal => some "="
  | plus => some "+"
  | star => some "*"
  | string => none
  | hex => none
  | integer => none
  | identifier => none

namespace Scan

def IsDecimal (c : Char) : Prop :=
  '0' ≤ c ∧ c ≤ '9'

def IsHexadecimal (c : Char) : Prop :=
  IsDecimal c ∨ 'a' ≤ c ∧ c ≤ 'f' ∨ 'A' ≤ c ∧ c ≤ 'F'

def IsLetter (c : Char) : Prop :=
  'A' ≤ c ∧ c ≤ 'Z' ∨ 'a' ≤ c ∧ c ≤ 'z' ∨ c = '_'

/-- The texts that the rule of a kind allows. The rules overlap: a keyword is spelled like an
identifier, and what a number starts with is a number. -/
inductive Matches : PieceKind → List Char → Prop
  | blank {c : Char} {cs : List Char} :
      (∀ d ∈ c :: cs, d ∈ [' ', '\t', '\r', '\n']) → Matches .blank (c :: cs)
  | comment {cs : List Char} : (∀ d ∈ cs, d ≠ '\n') → Matches .comment ('/' :: '/' :: cs)
  | literal {kind : Token.Kind} {text : String} :
      kind.spelling? = some text → Matches (.token kind) text.toList
  | string {cs : List Char} :
      (∀ d ∈ cs, d ≠ '"' ∧ d ≠ '\n') → Matches (.token .string) ('"' :: (cs ++ ['"']))
  | hex {c : Char} {cs : List Char} :
      (∀ d ∈ c :: cs, IsHexadecimal d) → Matches (.token .hex) ('#' :: c :: cs)
  | integer {c : Char} {cs : List Char} :
      (∀ d ∈ c :: cs, IsDecimal d) → Matches (.token .integer) (c :: cs)
  | identifier {c : Char} {cs : List Char} :
      IsLetter c → (∀ d ∈ cs, IsLetter d ∨ IsDecimal d) → Matches (.token .identifier) (c :: cs)

/-- The piece stands at the front of the text, and its rule allows it. -/
structure IsPiece (cs : List Char) (piece : Piece) : Prop where
  split : piece.text ++ piece.rest = cs
  rule : Matches piece.kind piece.text

/-- The piece is the one to cut off at the front of the text. -/
structure IsLongest (cs : List Char) (piece : Piece) : Prop extends IsPiece cs piece where
  longest : ∀ kind text, Matches kind text → text <+: cs → text.length ≤ piece.text.length
  literal : ∀ kind : Token.Kind, kind.spelling? = some (String.ofList piece.text) →
    piece.kind = .token kind

/-- A hex color has three or six digits behind its sign. -/
def IsSized (piece : Piece) : Prop :=
  piece.kind = .token .hex → piece.text.tail.length = 3 ∨ piece.text.tail.length = 6

/-- The text is cut into the pieces and what is left behind them. -/
inductive Cuts : List Char → List Piece → List Char → Prop
  | nil (cs : List Char) : Cuts cs [] cs
  | cons {cs left : List Char} {piece : Piece} {pieces : List Piece} :
      IsLongest cs piece → IsSized piece → Cuts piece.rest pieces left →
      Cuts cs (piece :: pieces) left

/-- No piece can be cut off at the front of the text, for the given cause. -/
inductive Blocks : List Char → SyntaxFault.Cause → Prop
  | stray {c : Char} {cs : List Char} :
      (∀ kind text, Matches kind text → ¬text <+: c :: cs) →
      Blocks (c :: cs) (.strayCharacter (String.ofList (stray c cs)))
  | missized {cs : List Char} {piece : Piece} : IsLongest cs piece → ¬IsSized piece →
      Blocks cs (.hexLength (String.ofList piece.text))

/-- The token that a piece at `p` is. Blanks and comments are none. -/
def Piece.token? (piece : Piece) (p : Position) : Option Token :=
  match piece.kind with
  | .token kind => some ⟨kind, String.ofList piece.text, p⟩
  | .blank => none
  | .comment => none

/-- The tokens among the pieces behind a text, each at the position that is counted before it. -/
def tokensBehind (before : List Char) : List Piece → List Token
  | [] => []
  | piece :: pieces =>
    (piece.token? (.behind before)).toList ++ tokensBehind (before ++ piece.text) pieces

section Classes

theorem isInLine_iff (c : Char) : isInLine c ↔ c ≠ '\n' :=
  bne_iff_ne

theorem isInString_iff (c : Char) : isInString c ↔ c ≠ '"' ∧ c ≠ '\n' := by
  rw [isInString, Bool.and_eq_true, bne_iff_ne, bne_iff_ne]

theorem between_iff (first last c : Char) :
    (decide (first ≤ c) && decide (c ≤ last)) ↔ first ≤ c ∧ c ≤ last := by
  rw [Bool.and_eq_true, decide_eq_true_iff, decide_eq_true_iff]

theorem isDigit_iff (c : Char) : c.isDigit ↔ IsDecimal c :=
  between_iff '0' '9' c

theorem isHexDigit_iff (c : Char) : isHexDigit c ↔ IsHexadecimal c := by
  simp [isHexDigit, IsHexadecimal, isDigit_iff, or_assoc]

theorem isUpper_iff (c : Char) : c.isUpper ↔ 'A' ≤ c ∧ c ≤ 'Z' :=
  decide_eq_true_iff

theorem isLower_iff (c : Char) : c.isLower ↔ 'a' ≤ c ∧ c ≤ 'z' :=
  between_iff 'a' 'z' c

theorem isWordStart_iff (c : Char) : isWordStart c ↔ IsLetter c := by
  have alpha : c.isAlpha ↔ c.isUpper ∨ c.isLower := Bool.or_eq_true_iff
  rw [isWordStart, Bool.or_eq_true, beq_iff_eq, alpha, isUpper_iff, isLower_iff, or_assoc, IsLetter]

theorem isWordPart_iff (c : Char) : isWordPart c ↔ IsLetter c ∨ IsDecimal c := by
  rw [← isWordStart_iff, ← isDigit_iff, isWordStart, Bool.or_eq_true, isWordPart, Bool.or_eq_true,
    Char.isAlphanum, Bool.or_eq_true, or_right_comm]

end Classes

section Spellings

variable {kind : Token.Kind} {text : String}

/-- A word that is no identifier is a keyword. -/
theorem spelling?_of_ofWord (h : Token.Kind.ofWord text = kind) (other : kind ≠ .identifier) :
    kind.spelling? = some text := by
  have spelled : ∀ keyword ∈ Token.Kind.keywords, keyword.2.spelling? = some keyword.1 := by decide
  exact spelled _ (mem_keywords_of_ofWord h other)

theorem spelling?_of_ofMark? {c : Char} (h : Token.Kind.ofMark? c = some kind) :
    kind.spelling? = some (String.ofList [c]) := by
  have spelled : ∀ mark ∈ Token.Kind.marks, mark.2.spelling? = some (String.ofList [mark.1]) := by
    decide
  exact spelled _ (mem_marks_of_ofMark? h)

/-- What has one spelling is a keyword or a mark. -/
theorem word_or_mark_of_spelling? (h : kind.spelling? = some text) :
    (isWord text.toList ∧ Token.Kind.ofWord text = kind) ∨
      ∃ c, text.toList = [c] ∧ Token.Kind.ofMark? c = some kind := by
  cases kind with
  | string | hex | integer | identifier => cases h
  | leftParen | rightParen | comma | semicolon | equal | plus | star =>
    cases h
    exact Or.inr ⟨_, rfl, rfl⟩
  | _ =>
    cases h
    exact Or.inl ⟨rfl, rfl⟩

end Spellings

section Sound

variable {cs : List Char} {piece : Piece}

theorem isPiece_run {kind : PieceKind} (opening : List Char) {p : Char → Bool}
    (rule : Matches kind (opening ++ cs.takeWhile p)) :
    IsPiece (opening ++ cs) (run kind opening p cs) where
  split := by
    rw [run, List.append_assoc, List.takeWhile_append_dropWhile]
  rule := rule

/-- What is taken of a class is in it, however the class is told. -/
theorem inside_takeWhile {p : Char → Bool} {Inside : Char → Prop} (same : ∀ c, p c ↔ Inside c)
    (cs : List Char) : ∀ d ∈ cs.takeWhile p, Inside d :=
  fun d taken => (same d).1 (List.all_eq_true.1 List.all_takeWhile d taken)

theorem isPiece_comment (h : comment? cs = some piece) : IsPiece ('/' :: cs) piece := by
  unfold comment? at h
  split at h
  · next cs =>
    cases h
    exact isPiece_run ['/', '/'] (.comment (inside_takeWhile isInLine_iff cs))
  · cases h

theorem isPiece_string (h : string? cs = some piece) : IsPiece ('"' :: cs) piece := by
  unfold string? at h
  split at h
  · next rest closed =>
    cases h
    refine ⟨?_, .string (inside_takeWhile isInString_iff cs)⟩
    have whole := List.takeWhile_append_dropWhile (p := isInString) (l := cs)
    rw [closed] at whole
    simpa using whole
  · cases h

theorem isPiece_hex (h : hex? cs = some piece) : IsPiece ('#' :: cs) piece := by
  unfold hex? at h
  split at h
  · cases h
  · next digits some =>
    cases h
    refine isPiece_run ['#'] ?_
    obtain ⟨d, ds, same⟩ := List.exists_cons_of_ne_nil some
    have inside := inside_takeWhile isHexDigit_iff cs
    rw [same] at inside ⊢
    exact .hex inside

/-- Its text is a keyword, or else it is an identifier. -/
theorem isPiece_word {c : Char} (start : isWordStart c) : IsPiece (c :: cs) (word c cs) := by
  refine isPiece_run [c] ?_
  rw [List.singleton_append]
  by_cases other : Token.Kind.ofWord (String.ofList (c :: cs.takeWhile isWordPart)) = .identifier
  · rw [other]
    exact .identifier ((isWordStart_iff _).1 start) (inside_takeWhile isWordPart_iff cs)
  · have literal := Matches.literal (spelling?_of_ofWord rfl other)
    rwa [String.toList_ofList] at literal

theorem isPiece_mark {c : Char} (h : mark? c cs = some piece) : IsPiece (c :: cs) piece := by
  obtain ⟨kind, mark, rfl⟩ := Option.map_eq_some_iff.1 h
  have literal := Matches.literal (spelling?_of_ofMark? mark)
  rw [String.toList_ofList] at literal
  exact ⟨rfl, literal⟩

theorem isPiece_of_piece? {c : Char} (h : piece? c cs = some piece) : IsPiece (c :: cs) piece := by
  unfold piece? at h
  split at h
  · next blank =>
    cases h
    refine isPiece_run [c] (.blank ?_)
    exact List.forall_mem_cons.2 ⟨(isBlank_iff _).1 blank, inside_takeWhile isBlank_iff cs⟩
  split at h
  · next slash => exact slash ▸ isPiece_comment h
  split at h
  · next quote => exact quote ▸ isPiece_string h
  split at h
  · next hash => exact hash ▸ isPiece_hex h
  split at h
  · next digit =>
    cases h
    refine isPiece_run [c] (.integer ?_)
    exact List.forall_mem_cons.2 ⟨(isDigit_iff _).1 digit, inside_takeWhile isDigit_iff cs⟩
  split at h
  · next start =>
    cases h
    exact isPiece_word start
  · exact isPiece_mark h

end Sound

/-- The piece is longer than the text, or it is the text and of the same kind; an identifier gives
way to a keyword. -/
def Prevails (piece : Piece) (kind : PieceKind) (text : List Char) : Prop :=
  text.length < piece.text.length ∨ text = piece.text ∧
    (piece.kind = kind ∨ kind = .token .identifier ∧
      ∃ k : Token.Kind, piece.kind = .token k ∧ k.spelling? = some (String.ofList text))

section Complete

variable {cs ds : List Char}

theorem length_le_of_prevails {piece : Piece} {kind : PieceKind} {text : List Char}
    (h : Prevails piece kind text) : text.length ≤ piece.text.length := by
  rcases h with less | ⟨same, -⟩
  · exact Nat.le_of_lt less
  · exact Nat.le_of_eq (congrArg List.length same)

/-- A run goes on as long as its class does. -/
theorem run_longest {p : Char → Bool} {Inside : Char → Prop} (same : ∀ c, p c ↔ Inside c)
    (kind : PieceKind) (opening : List Char) (inside : ∀ d ∈ ds, Inside d) (front : ds <+: cs) :
    (opening ++ ds).length < (run kind opening p cs).text.length ∨
      opening ++ ds = (run kind opening p cs).text := by
  have inside : ∀ d ∈ ds, p d := fun d member => (same d).2 (inside d member)
  obtain ⟨rest, rfl⟩ := front
  simp only [run, List.takeWhile_append_of_pos inside, List.length_append]
  cases more : rest.takeWhile p with
  | nil =>
    rw [List.append_nil]
    exact Or.inr rfl
  | cons d ds =>
    rw [List.length_cons]
    omega

theorem prevails_run {p : Char → Bool} {Inside : Char → Prop} (same : ∀ c, p c ↔ Inside c)
    (kind : PieceKind) (opening : List Char) (inside : ∀ d ∈ ds, Inside d) (front : ds <+: cs) :
    Prevails (run kind opening p cs) kind (opening ++ ds) := by
  rcases run_longest same kind opening inside front with less | same
  · exact Or.inl less
  · exact Or.inr ⟨same, Or.inl rfl⟩

/-- A word prevails over what it starts with, both as an identifier and as a keyword. -/
theorem prevails_word {c : Char} {kind : Token.Kind}
    (inside : ∀ d ∈ ds, IsLetter d ∨ IsDecimal d) (front : ds <+: cs)
    (spelled : kind = .identifier ∨ Token.Kind.ofWord (String.ofList (c :: ds)) = kind) :
    Prevails (word c cs) (.token kind) (c :: ds) := by
  rcases run_longest isWordPart_iff (.token kind) [c] inside front with less | same
  · exact Or.inl less
  · have text : c :: ds = c :: cs.takeWhile isWordPart := same
    refine Or.inr ⟨text, ?_⟩
    rw [word, ← text]
    rcases spelled with rfl | rfl
    · by_cases other : Token.Kind.ofWord (String.ofList (c :: ds)) = .identifier
      · exact Or.inl (congrArg PieceKind.token other)
      · exact Or.inr ⟨rfl, _, rfl, spelling?_of_ofWord rfl other⟩
    · exact Or.inl rfl

/-- Whatever a rule allows at the front of a text, the piece there prevails over it. -/
theorem piece?_of_matches {kind : PieceKind} {text : List Char} {c : Char}
    (h : Matches kind text) (front : text <+: c :: cs) :
    ∃ piece, piece? c cs = some piece ∧ Prevails piece kind text := by
  -- The first character of the text decides which rule is tried, so the two agree up to keywords.
  cases h with
  | blank inside =>
    obtain ⟨rfl, behind⟩ := List.cons_prefix_cons.1 front
    obtain ⟨first, others⟩ := List.forall_mem_cons.1 inside
    exact ⟨_, piece?_of_isBlank cs ((isBlank_iff _).2 first),
      prevails_run isBlank_iff .blank [_] others behind⟩
  | comment inside =>
    obtain ⟨rfl, rest, rfl⟩ := List.cons_prefix_cons.1 front
    exact ⟨_, rfl, prevails_run isInLine_iff .comment ['/', '/'] inside (List.prefix_append _ rest)⟩
  | @literal kind text spelled =>
    rcases word_or_mark_of_spelling? spelled with ⟨isWord, same⟩ | ⟨d, single, mark⟩
    · cases split : text.toList with
      | nil =>
        rw [split] at isWord
        cases isWord
      | cons d ds =>
        rw [split] at isWord front
        obtain ⟨rfl, behind⟩ := List.cons_prefix_cons.1 front
        obtain ⟨start, parts⟩ := Bool.and_eq_true_iff.1 isWord
        refine ⟨_, piece?_of_isWordStart cs start, ?_⟩
        have inside : ∀ d ∈ ds, IsLetter d ∨ IsDecimal d :=
          fun d member => (isWordPart_iff _).1 (List.all_eq_true.1 parts d member)
        refine prevails_word inside behind (Or.inr ?_)
        rw [← split, String.ofList_toList]
        exact same
    · rw [single] at front ⊢
      obtain ⟨rfl, -⟩ := List.cons_prefix_cons.1 front
      exact ⟨_, piece?_of_ofMark? cs mark, Or.inr ⟨rfl, Or.inl rfl⟩⟩
  | @string inside all =>
    obtain ⟨rfl, rest, same⟩ := List.cons_prefix_cons.1 front
    rw [List.append_assoc, List.singleton_append] at same
    have inString : ∀ d ∈ inside, isInString d :=
      fun d member => (isInString_iff d).2 (all d member)
    rw [← same]
    exact ⟨_, piece?_quote inString rest, Or.inr ⟨rfl, Or.inl rfl⟩⟩
  | hex inside =>
    obtain ⟨rfl, rest, rfl⟩ := List.cons_prefix_cons.1 front
    refine ⟨_, piece?_hash _ ((isHexDigit_iff _).2 (inside _ List.mem_cons_self)), ?_⟩
    exact prevails_run isHexDigit_iff (.token .hex) ['#'] inside (List.prefix_append _ rest)
  | integer inside =>
    obtain ⟨rfl, behind⟩ := List.cons_prefix_cons.1 front
    obtain ⟨first, others⟩ := List.forall_mem_cons.1 inside
    exact ⟨_, piece?_of_isDigit cs ((isDigit_iff _).2 first),
      prevails_run isDigit_iff (.token .integer) [_] others behind⟩
  | identifier start parts =>
    obtain ⟨rfl, behind⟩ := List.cons_prefix_cons.1 front
    exact ⟨_, piece?_of_isWordStart cs ((isWordStart_iff _).2 start),
      prevails_word parts behind (Or.inl rfl)⟩

end Complete

section Front

variable {c : Char} {cs : List Char} {piece : Piece}

theorem isLongest_of_piece? (h : piece? c cs = some piece) : IsLongest (c :: cs) piece where
  toIsPiece := isPiece_of_piece? h
  longest := by
    intro kind text allowed front
    obtain ⟨other, found, prevails⟩ := piece?_of_matches allowed front
    cases found.symm.trans h
    exact length_le_of_prevails prevails
  literal := by
    intro kind spelled
    have allowed := Matches.literal spelled
    rw [String.toList_ofList] at allowed
    obtain ⟨other, found, prevails⟩ :=
      piece?_of_matches allowed ⟨_, (isPiece_of_piece? h).split⟩
    cases found.symm.trans h
    rcases prevails with less | ⟨-, same | ⟨identifier, -⟩⟩
    · exact absurd less (Nat.lt_irrefl _)
    · exact same
    · cases identifier
      cases spelled

theorem piece?_of_isLongest (h : IsLongest (c :: cs) piece) : piece? c cs = some piece := by
  -- Each of the two pieces is at least as long as the other, so they have one text.
  obtain ⟨other, found, prevails⟩ := piece?_of_matches h.rule ⟨_, h.split⟩
  have piece' := isPiece_of_piece? found
  rw [found]
  rcases prevails with less | ⟨text, kind⟩
  · exact absurd (h.longest _ _ piece'.rule ⟨_, piece'.split⟩) (Nat.not_le_of_lt less)
  · have rest : piece.rest = other.rest := by
      have split := h.split.trans piece'.split.symm
      rw [text] at split
      exact List.append_cancel_left split
    have kind : piece.kind = other.kind := by
      rcases kind with same | ⟨-, k, literal, spelled⟩
      · exact same.symm
      · rw [h.literal k spelled, literal]
    obtain ⟨_, _, _⟩ := piece
    cases text
    cases rest
    cases kind
    rfl

theorem piece?_eq_none_iff :
    piece? c cs = none ↔ ∀ kind text, Matches kind text → ¬text <+: c :: cs := by
  constructor
  · intro none kind text allowed front
    obtain ⟨piece, found, -⟩ := piece?_of_matches allowed front
    cases none.symm.trans found
  · intro stray
    cases found : piece? c cs with
    | none => rfl
    | some piece =>
      have piece' := isPiece_of_piece? found
      exact absurd ⟨_, piece'.split⟩ (stray _ _ piece'.rule)

theorem isWellSized_iff : isWellSized piece = true ↔ IsSized piece := by
  rw [IsSized, isWellSized, List.length_tail]
  by_cases hex : piece.kind = .token .hex
  · simp only [hex, bne_self_eq_false, Bool.false_or, Bool.or_eq_true, beq_iff_eq, true_imp_iff]
    omega
  · simp [hex]

end Front

section Cutting

variable {cs left : List Char} {pieces : List Piece}

theorem text_of_cuts (cut : Cuts cs pieces left) : pieces.flatMap Piece.text ++ left = cs := by
  induction cut with
  | nil cs => rfl
  | cons first _ _ ih => rw [List.flatMap_cons, List.append_assoc, ih, first.split]

theorem matches_ne_nil {kind : PieceKind} {text : List Char} (h : Matches kind text) :
    text ≠ [] := by
  cases h with
  | literal spelled =>
    rcases word_or_mark_of_spelling? spelled with ⟨word, -⟩ | ⟨c, single, -⟩
    · intro none
      rw [none] at word
      cases word
    · rw [single]
      exact List.cons_ne_nil c []
  | _ => exact List.cons_ne_nil _ _

theorem exists_cons_of_isPiece {piece : Piece} (h : IsPiece cs piece) :
    ∃ c rest, cs = c :: rest := by
  refine List.exists_cons_of_ne_nil ?_
  rw [← h.split]
  exact List.append_ne_nil_of_left_ne_nil (matches_ne_nil h.rule) _

theorem keep_eq (piece : Piece) (p : Position) (earlier : List Token) :
    keep piece p earlier = (piece.token? p).toList.reverse ++ earlier := by
  obtain ⟨kind, text, rest⟩ := piece
  cases kind <;> rfl

/-- Scanning cuts the same pieces off, one after another. -/
theorem scanFrom_of_cuts (cut : Cuts cs pieces left) (before : List Char) (earlier : List Token) :
    scanFrom (.behind before) cs earlier =
      scanFrom (.behind (before ++ pieces.flatMap Piece.text)) left
        ((tokensBehind before pieces).reverse ++ earlier) := by
  induction cut generalizing before earlier with
  | nil cs =>
    rw [List.flatMap_nil, List.append_nil, tokensBehind, List.reverse_nil, List.nil_append]
  | @cons cs left piece pieces first sized _ ih =>
    obtain ⟨c, cs, rfl⟩ := exists_cons_of_isPiece first.toIsPiece
    rw [scanFrom_piece _ earlier (piece?_of_isLongest first) (isWellSized_iff.2 sized),
      Position.after_behind, ih, keep_eq, tokensBehind, List.flatMap_cons, List.reverse_append,
      List.append_assoc, List.append_assoc]

theorem scanFrom_of_blocks {cause : SyntaxFault.Cause} (blocked : Blocks cs cause) (p : Position)
    (earlier : List Token) : scanFrom p cs earlier = .error ⟨cause, p⟩ := by
  cases blocked with
  | stray none => exact scanFrom_stray p earlier (piece?_eq_none_iff.2 none)
  | missized first sized =>
    obtain ⟨c, cs, rfl⟩ := exists_cons_of_isPiece first.toIsPiece
    exact scanFrom_missized p earlier (piece?_of_isLongest first) (mt isWellSized_iff.1 sized)

/-- Cutting goes on to the end of the text, or to a place where it is blocked. -/
theorem exists_cuts (cs : List Char) :
    ∃ pieces left, Cuts cs pieces left ∧ (left = [] ∨ ∃ cause, Blocks left cause) := by
  -- By the length of the text: what is left behind a piece is shorter, though not by one.
  induction size : cs.length using Nat.strongRecOn generalizing cs with
  | ind n ih =>
    subst size
    cases cs with
    | nil => exact ⟨[], [], .nil [], Or.inl rfl⟩
    | cons c cs =>
      cases found : piece? c cs with
      | none => exact ⟨[], _, .nil _, Or.inr ⟨_, .stray (piece?_eq_none_iff.1 found)⟩⟩
      | some piece =>
        have first := isLongest_of_piece? found
        by_cases sized : IsSized piece
        · have less := Nat.lt_succ_of_le (length_piece? found)
          obtain ⟨pieces, left, cut, ending⟩ := ih _ less piece.rest rfl
          exact ⟨piece :: pieces, left, .cons first sized cut, ending⟩
        · exact ⟨[], _, .nil _, Or.inr ⟨_, .missized first sized⟩⟩

/-- The longest piece is spelled as its kind asks: a word that is a keyword is no identifier. -/
theorem spells_of_isLongest {piece : Piece} {kind : Token.Kind} (first : IsLongest cs piece)
    (sized : IsSized piece) (same : piece.kind = .token kind) : Spells kind piece.text := by
  have literal := first.literal
  have rule := first.rule
  rw [IsSized, same] at sized
  rw [same] at literal rule
  generalize piece.text = text at literal rule sized ⊢
  cases rule with
  | literal spelled =>
    rcases word_or_mark_of_spelling? spelled with ⟨word, rfl⟩ | ⟨c, single, mark⟩
    · exact spells_of_isWord word
    · rw [single]
      exact .mark mark
  | string inside => exact .string fun d member => (isInString_iff _).2 (inside d member)
  | hex digits => exact .hex (fun d member => (isHexDigit_iff _).2 (digits d member)) (sized rfl)
  | integer digits =>
    obtain ⟨first, others⟩ := List.forall_mem_cons.1 digits
    exact .integer ((isDigit_iff _).2 first) fun d member => (isDigit_iff _).2 (others d member)
  | @identifier c cs start parts =>
    have plain : Token.Kind.ofWord (String.ofList (c :: cs)) = .identifier := by
      by_cases other : Token.Kind.ofWord (String.ofList (c :: cs)) = .identifier
      · exact other
      · have keyword := literal _ (spelling?_of_ofWord rfl other)
        injection keyword with keyword
        exact keyword.symm
    rw [← plain]
    exact .word ((isWordStart_iff _).2 start) fun d member => (isWordPart_iff _).2 (parts d member)

theorem isSpelled_of_cuts (cut : Cuts cs pieces left) (before : List Char) :
    ∀ t ∈ tokensBehind before pieces, t.lexeme.IsSpelled := by
  induction cut generalizing before with
  | nil cs => simp [tokensBehind]
  | @cons cs left piece pieces first sized _ ih =>
    intro t member
    rcases List.mem_append.1 member with now | later
    · rw [Option.mem_toList, Piece.token?] at now
      split at now
      · next kind same =>
        cases now
        rw [Lexeme.IsSpelled, Token.lexeme, String.toList_ofList]
        exact spells_of_isLongest first sized same
      · cases now
      · cases now
    · exact ih _ t later

end Cutting

end Scan

section Scanning

open Scan

variable {text : String} {pieces : List Piece} {left : List Char}

/-- A text starts right behind nothing. -/
theorem scan_eq_scanFrom (text : String) : scan text = scanFrom (.behind []) text.toList [] :=
  rfl

theorem scan_of_cuts (cut : Cuts text.toList pieces []) :
    scan text = .ok (tokensBehind [] pieces) := by
  rw [scan_eq_scanFrom, scanFrom_of_cuts cut, scanFrom, List.append_nil, List.reverse_reverse]

theorem scan_of_blocks {cause : SyntaxFault.Cause} (cut : Cuts text.toList pieces left)
    (blocked : Blocks left cause) :
    scan text = .error ⟨cause, .behind (pieces.flatMap Piece.text)⟩ := by
  rw [scan_eq_scanFrom, scanFrom_of_cuts cut, scanFrom_of_blocks blocked, List.nil_append]

theorem scan_eq_ok_iff {tokens : List Token} :
    scan text = .ok tokens ↔
      ∃ pieces, Cuts text.toList pieces [] ∧ tokens = tokensBehind [] pieces := by
  constructor
  · intro scanned
    obtain ⟨pieces, left, cut, rfl | ⟨cause, blocked⟩⟩ := exists_cuts text.toList
    · rw [scan_of_cuts cut] at scanned
      cases scanned
      exact ⟨pieces, cut, rfl⟩
    · rw [scan_of_blocks cut blocked] at scanned
      cases scanned
  · rintro ⟨pieces, cut, rfl⟩
    exact scan_of_cuts cut

/-- Every token of a text is spelled as its kind asks. -/
theorem isSpelled_of_scan {tokens : List Token} (scanned : scan text = .ok tokens) :
    ∀ t ∈ tokens, t.lexeme.IsSpelled := by
  obtain ⟨pieces, cut, rfl⟩ := scan_eq_ok_iff.1 scanned
  exact isSpelled_of_cuts cut []

theorem scan_eq_error_iff {fault : SyntaxFault} :
    scan text = .error fault ↔
      ∃ pieces left, Cuts text.toList pieces left ∧ Blocks left fault.cause ∧
        fault.position = .behind (pieces.flatMap Piece.text) := by
  constructor
  · intro scanned
    obtain ⟨pieces, left, cut, rfl | ⟨cause, blocked⟩⟩ := exists_cuts text.toList
    · rw [scan_of_cuts cut] at scanned
      cases scanned
    · rw [scan_of_blocks cut blocked] at scanned
      cases scanned
      exact ⟨pieces, left, cut, blocked, rfl⟩
  · rintro ⟨pieces, left, cut, blocked, place⟩
    rw [scan_of_blocks cut blocked, ← place]

/-- A text is scanned if and only if it can be cut into longest pieces, with hex colors of three or
six digits only, and then into the tokens among them. Otherwise the fault is where no piece can be
cut off, right behind the pieces before. All pieces together are the text. -/
theorem scan_cuts_longest_pieces (text : String) :
    (∀ tokens, scan text = .ok tokens ↔
      ∃ pieces, Cuts text.toList pieces [] ∧ tokens = tokensBehind [] pieces) ∧
    (∀ fault, scan text = .error fault ↔
      ∃ pieces left, Cuts text.toList pieces left ∧ Blocks left fault.cause ∧
        fault.position = .behind (pieces.flatMap Piece.text)) ∧
    ∀ pieces left, Cuts text.toList pieces left →
      pieces.flatMap Piece.text ++ left = text.toList :=
  ⟨fun _ => scan_eq_ok_iff, fun _ => scan_eq_error_iff, fun _ _ => text_of_cuts⟩

end Scanning

end Patchwork
