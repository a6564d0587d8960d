import Patchwork.Proofs.Source.LongestMatch

/-!
# Where tokens stand

Scanning moves its position over each piece as it cuts it off, and so comes to the position that is
found by counting in the text before the next one. So a token is found again by its position, and no
two tokens overlap.
-/

namespace Patchwork

open Scan

namespace Position

def Before (p q : Position) : Prop :=
  p.line < q.line ∨ p.line = q.line ∧ p.column < q.column

section Order

variable {p q r : Position}

theorem Before.trans (h : p.Before q) (h' : q.Before r) : p.Before r := by
  unfold Before at *
  omega

theorem Before.not_before (h : p.Before q) : ¬q.Before p := by
  unfold Before at *
  omega

theorem before_next (p : Position) (c : Char) : p.Before (p.next c) := by
  by_cases newline : c = '\n'
  · rw [next, if_pos newline]
    exact Or.inl (Nat.lt_succ_self p.line)
  · rw [next, if_neg newline]
    exact Or.inr ⟨rfl, Nat.lt_succ_self p.column⟩

theorem before_after (p : Position) {cs : List Char} (some : cs ≠ []) : p.Before (p.after cs) := by
  induction cs generalizing p with
  | nil => exact absurd rfl some
  | cons c cs ih =>
    cases cs with
    | nil => exact before_next p c
    | cons d ds => exact (before_next p c).trans (ih (p.next c) (List.cons_ne_nil d ds))

theorem not_after_before (p : Position) (cs : List Char) : ¬(p.after cs).Before p := by
  by_cases none : cs = []
  · subst none
    exact fun h => h.not_before h
  · exact (before_after p none).not_before

end Order

end Position

namespace Scan

theorem ne_newline {p : Char → Bool} {c : Char} (h : p c) (other : p '\n' = false) : c ≠ '\n' := by
  rintro rfl
  exact absurd h (other ▸ Bool.false_ne_true)

/-- A token ends in the line it starts in. -/
theorem Spells.undivided {kind : Token.Kind} {text : List Char} (h : Spells kind text) :
    '\n' ∉ text := by
  suffices inLine : ∀ d ∈ text, d ≠ '\n' from fun member => inLine _ member rfl
  cases h with
  | word start parts =>
    exact List.forall_mem_cons.2 ⟨ne_newline start (by decide),
      fun d member => ne_newline (parts d member) (by decide)⟩
  | mark mark =>
    have other : ∀ mark ∈ Token.Kind.marks, mark.1 ≠ '\n' := by decide
    exact List.forall_mem_singleton.2 (other _ (mem_marks_of_ofMark? mark))
  | integer first digits =>
    exact List.forall_mem_cons.2 ⟨ne_newline first (by decide),
      fun d member => ne_newline (digits d member) (by decide)⟩
  | string inside =>
    have quote : '"' ≠ '\n' := by decide
    refine List.forall_mem_cons.2 ⟨quote, List.forall_mem_append.2 ⟨fun d member => ?_, ?_⟩⟩
    · exact ne_newline (inside d member) (by decide)
    · exact List.forall_mem_singleton.2 quote
  | hex digits =>
    exact List.forall_mem_cons.2 ⟨by decide,
      fun d member => ne_newline (digits d member) (by decide)⟩

end Scan

section Places

variable {t u : Token} {text : List Char}

/-- The position right behind a token, which ends in the line it starts in. -/
def Token.ending (t : Token) : Position :=
  ⟨t.position.line, t.position.column + t.text.length⟩

/-- The token stands in the text where its position says. -/
structure Token.StandsIn (t : Token) (text : List Char) : Prop where
  counted : ∃ before, before ++ t.text.toList <+: text ∧ t.position = .behind before
  undivided : '\n' ∉ t.text.toList
  shown : ∃ line, (text.splitOn '\n')[t.position.line - 1]? = some line ∧
    t.text.toList <+: line.drop (t.position.column - 1)

/-- The first token starts before the second one and has ended where that starts. -/
def Token.Precedes (t u : Token) : Prop :=
  t.position.Before u.position ∧ ¬u.position.Before t.ending

/-- What a piece that was cut off as a token, right behind a text, is known to be. -/
structure Token.CutBehind (t : Token) (before : List Char) : Prop where
  position : t.position = .behind before
  spelled : t.lexeme.IsSpelled

theorem Token.CutBehind.undivided {before : List Char} (h : t.CutBehind before) :
    '\n' ∉ t.text.toList :=
  h.spelled.undivided

theorem Token.CutBehind.ending_eq {before : List Char} (h : t.CutBehind before) :
    t.ending = .behind (before ++ t.text.toList) := by
  rw [Position.behind_append before h.undivided, ← h.position, ending, String.length_toList]

theorem Token.CutBehind.standsIn {before : List Char} (h : t.CutBehind before)
    (here : before ++ t.text.toList <+: text) : t.StandsIn text := by
  refine ⟨⟨before, here, h.position⟩, h.undivided, ?_⟩
  obtain ⟨rest, rfl⟩ := here
  rw [List.append_assoc, h.position]
  refine ⟨_, getElem?_splitOn_append before _, ?_⟩
  rw [List.takeWhile_append_of_pos (inLine_of_undivided h.undivided), Position.behind,
    Nat.add_sub_cancel, List.drop_left]
  exact List.prefix_append _ _

theorem Token.CutBehind.precedes {before after : List Char} (h : t.CutBehind before)
    (h' : u.CutBehind after) (front : before ++ t.text.toList <+: after) : t.Precedes u := by
  obtain ⟨between, rfl⟩ := front
  have some : t.text.toList ≠ [] := h.spelled.ne_nil
  have first : t.position.Before t.ending := by
    rw [h.ending_eq, h.position, ← Position.after_behind]
    exact Position.before_after _ some
  have last : ¬u.position.Before t.ending := by
    rw [h.ending_eq, h'.position, ← Position.after_behind]
    exact Position.not_after_before _ between
  refine ⟨?_, last⟩
  rw [h.position, h'.position, List.append_assoc, ← Position.after_behind before]
  exact Position.before_after _ (List.append_ne_nil_of_left_ne_nil some between)

end Places

namespace Scan

variable {cs left : List Char} {pieces : List Piece}

theorem cutBehind_of_token? {piece : Piece} {before : List Char} {t : Token}
    (first : IsLongest cs piece) (sized : IsSized piece)
    (h : piece.token? (.behind before) = some t) :
    t.CutBehind before ∧ t.text.toList = piece.text := by
  rw [Piece.token?] at h
  split at h
  · next kind same =>
    cases h
    have text := String.toList_ofList (l := piece.text)
    refine ⟨⟨rfl, ?_⟩, text⟩
    rw [Lexeme.IsSpelled, Token.lexeme, text]
    exact spells_of_isLongest first sized same
  · cases h
  · cases h

theorem cutBehind_of_cuts (cut : Cuts cs pieces left) (before : List Char) :
    ∀ t ∈ tokensBehind before pieces, ∃ reached, t.CutBehind reached ∧ before <+: reached ∧
      reached ++ t.text.toList <+: before ++ cs := by
  induction cut generalizing before with
  | nil cs => simp [tokensBehind]
  | @cons cs left piece pieces first sized _ ih =>
    intro t member
    rcases List.mem_append.1 member with now | later
    · obtain ⟨cutBehind, text⟩ := cutBehind_of_token? first sized (Option.mem_toList.1 now)
      refine ⟨before, cutBehind, List.prefix_rfl, ?_⟩
      rw [text, ← first.split, ← List.append_assoc]
      exact List.prefix_append _ _
    · obtain ⟨reached, cutBehind, front, here⟩ := ih (before ++ piece.text) t later
      refine ⟨reached, cutBehind, (List.prefix_append _ _).trans front, ?_⟩
      rwa [List.append_assoc, first.split] at here

theorem pairwise_of_cuts (cut : Cuts cs pieces left) (before : List Char) :
    (tokensBehind before pieces).Pairwise Token.Precedes := by
  induction cut generalizing before with
  | nil cs => exact .nil
  | @cons cs left piece pieces first sized cut ih =>
    refine List.pairwise_append.2 ⟨?_, ih _, fun t now u later => ?_⟩
    · cases piece.token? (.behind before) with
      | none => exact .nil
      | some t => exact List.pairwise_singleton _ t
    · obtain ⟨cutBehind, text⟩ := cutBehind_of_token? first sized (Option.mem_toList.1 now)
      obtain ⟨reached, cutBehind', front, -⟩ := cutBehind_of_cuts cut _ u later
      exact cutBehind.precedes cutBehind' (text ▸ front)

end Scan

/-- The position of every token, and that of the fault of a text that cannot be scanned, is the one
that counting gives in the text of the pieces cut off before. So every token stands in one line, in
the place that its position says, and each token has ended where a later one starts. -/
theorem scan_counts_positions (text : String) :
    (∀ tokens, scan text = .ok tokens →
      (∃ pieces, Cuts text.toList pieces [] ∧ tokens = tokensBehind [] pieces) ∧
      (∀ t ∈ tokens, t.StandsIn text.toList) ∧
      tokens.Pairwise Token.Precedes) ∧
    ∀ fault, scan text = .error fault →
      ∃ pieces left, Cuts text.toList pieces left ∧
        pieces.flatMap Piece.text ++ left = text.toList ∧ Blocks left fault.cause ∧
        fault.position = .behind (pieces.flatMap Piece.text) := by
  constructor
  · intro tokens scanned
    obtain ⟨pieces, cut, rfl⟩ := scan_eq_ok_iff.1 scanned
    refine ⟨⟨pieces, cut, rfl⟩, fun t member => ?_, pairwise_of_cuts cut []⟩
    obtain ⟨before, cutBehind, -, here⟩ := cutBehind_of_cuts cut [] t member
    exact cutBehind.standsIn here
  · intro fault scanned
    obtain ⟨pieces, left, cut, blocked, place⟩ := scan_eq_error_iff.1 scanned
    exact ⟨pieces, left, cut, text_of_cuts cut, blocked, place⟩

section Accents

/-- More bytes than characters, and a line of its own for a carriage return. -/
def accented : String :=
  "// größer\n\r\n \"größe\" hor"

def accentedTokens : List Token :=
  [⟨.string, "\"größe\"", ⟨3, 2⟩⟩, ⟨.hor, "hor", ⟨3, 10⟩⟩]

theorem accented_positions :
    scan accented = .ok accentedTokens ∧ (∀ t ∈ accentedTokens, t.StandsIn accented.toList) ∧
      accentedTokens.Pairwise Token.Precedes ∧
      scan (accented ++ " @") = .error ⟨.strayCharacter "@", ⟨3, 14⟩⟩ ∧
      ∃ before left, before ++ left = (accented ++ " @").toList ∧
        Blocks left (.strayCharacter "@") ∧ Position.behind before = ⟨3, 14⟩ := by
  have scanned : scan accented = .ok accentedTokens := by with_unfolding_all rfl
  have failed : scan (accented ++ " @") = .error ⟨.strayCharacter "@", ⟨3, 14⟩⟩ := by
    with_unfolding_all rfl
  obtain ⟨-, standing, ordered⟩ := (scan_counts_positions accented).1 _ scanned
  obtain ⟨pieces, left, -, parts, blocked, place⟩ :=
    (scan_counts_positions (accented ++ " @")).2 _ failed
  exact ⟨scanned, standing, ordered, failed, _, left, parts, blocked, place.symm⟩

end Accents

end Patchwork
