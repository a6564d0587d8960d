import Patchwork.Proofs.Source.LongestMatch

/-!
# Gaps

Between two lexemes of a text, before the first and behind the last, there may be any blanks and any
comments that end in a newline. Scanning passes over them, whatever a comment holds, and finds the
lexemes.
-/

namespace Patchwork

/-- The texts of lexemes, each with what stands between it and the next one. -/
def Lexeme.spread (parts : List (Lexeme × List Char)) : List Char :=
  parts.flatMap fun part => part.1.text.toList ++ part.2

namespace Scan

/-- Blanks, and comments with the newlines that end them. -/
inductive IsGap : List Char → Prop
  | nil : IsGap []
  | blank {c : Char} {cs : List Char} : isBlank c → IsGap cs → IsGap (c :: cs)
  | comment {inside cs : List Char} : (∀ d ∈ inside, isInLine d) → IsGap cs →
      IsGap ('/' :: '/' :: (inside ++ '\n' :: cs))

variable {gap : List Char}

theorem separates_of_isGap (h : IsGap gap) (some : gap ≠ []) (rest : List Char) :
    Separates (gap ++ rest) := by
  cases h with
  | nil => exact absurd rfl some
  | blank blank _ =>
    rintro _ ⟨⟩
    exact Or.inl blank
  | comment _ _ =>
    rintro _ ⟨⟩
    exact Or.inr rfl

section Steps

variable (p : Position) (earlier : List Token)

theorem scanFrom_comment {inside : List Char} (h : ∀ d ∈ inside, isInLine d) (rest : List Char) :
    scanFrom p ('/' :: '/' :: (inside ++ '\n' :: rest)) earlier =
      scanFrom (p.after ('/' :: '/' :: inside)) ('\n' :: rest) earlier := by
  have ended : ∀ d ∈ ('\n' :: rest).head?, isInLine d = false := by
    rintro _ ⟨⟩
    rfl
  have piece : piece? '/' ('/' :: (inside ++ '\n' :: rest)) =
      some ⟨.comment, '/' :: '/' :: inside, '\n' :: rest⟩ :=
    congrArg some (run_append h ended .comment ['/', '/'])
  exact scanFrom_piece p earlier piece rfl

/-- Nothing of a gap is kept, and scanning goes on behind it. -/
theorem scanFrom_gap (h : IsGap gap) (rest : List Char) :
    scanFrom p (gap ++ rest) earlier = scanFrom (p.after gap) rest earlier := by
  induction h generalizing p with
  | nil => rfl
  | @blank c cs blank _ ih => rw [List.cons_append, scanFrom_blank p earlier blank, ih]; rfl
  | @comment inside cs inLine _ ih =>
    have newline : isBlank '\n' := rfl
    have moved : p.after ('/' :: '/' :: (inside ++ '\n' :: cs)) =
        ((p.after ('/' :: '/' :: inside)).next '\n').after cs :=
      p.after_append ('/' :: '/' :: inside) ('\n' :: cs)
    rw [List.cons_append, List.cons_append, List.append_assoc, List.cons_append,
      scanFrom_comment p earlier inLine, scanFrom_blank _ _ newline, ih, moved]

/-- The gap behind a lexeme ends it, and is passed over before the next one. -/
theorem scanFrom_spread {parts : List (Lexeme × List Char)}
    (apart : ∀ part ∈ parts, part.1.IsSpelled ∧ IsGap part.2 ∧ part.2 ≠ []) :
    ∃ tokens, tokens.map Token.lexeme = parts.map Prod.fst ∧
      scanFrom p (Lexeme.spread parts) earlier = .ok (earlier.reverse ++ tokens) := by
  induction parts generalizing p earlier with
  | nil => exact ⟨[], rfl, by simp [Lexeme.spread, scanFrom]⟩
  | cons part parts ih =>
    obtain ⟨l, gap⟩ := part
    obtain ⟨⟨spelled, isGap, some⟩, others⟩ := List.forall_mem_cons.1 apart
    obtain ⟨tokens, lexemes, scanned⟩ := ih ((p.after l.text.toList).after gap)
      (⟨l.kind, l.text, p⟩ :: earlier) others
    refine ⟨⟨l.kind, l.text, p⟩ :: tokens, by simp [lexemes, Token.lexeme], ?_⟩
    have split : Lexeme.spread ((l, gap) :: parts) =
        l.text.toList ++ (gap ++ Lexeme.spread parts) := by
      rw [Lexeme.spread, List.flatMap_cons, List.append_assoc, Lexeme.spread]
    rw [split, scanFrom_lexeme p earlier spelled (separates_of_isGap isGap some _),
      scanFrom_gap _ _ isGap, scanned, List.reverse_cons, List.append_assoc,
      List.singleton_append]

end Steps

end Scan

/-- Lexemes that are spelled as their kinds ask, with gaps between and around them that are not
empty, are scanned into themselves. So are the lexemes of any text that can be scanned, with single
spaces between them. -/
theorem scan_spread :
    (∀ (lead : List Char) (parts : List (Lexeme × List Char)), Scan.IsGap lead →
      (∀ part ∈ parts, part.1.IsSpelled ∧ Scan.IsGap part.2 ∧ part.2 ≠ []) →
      ∃ tokens, scan (String.ofList (lead ++ Lexeme.spread parts)) = .ok tokens ∧
        tokens.map Token.lexeme = parts.map Prod.fst) ∧
    ∀ text tokens, scan text = .ok tokens →
      ∃ tokens', scan (Lexeme.spaced (tokens.map Token.lexeme)) = .ok tokens' ∧
        tokens'.map Token.lexeme = tokens.map Token.lexeme := by
  constructor
  · intro lead parts isGap apart
    obtain ⟨tokens, lexemes, scanned⟩ := Scan.scanFrom_spread (Position.start.after lead) [] apart
    refine ⟨tokens, ?_, lexemes⟩
    rw [scan, String.toList_ofList, Scan.scanFrom_gap _ _ isGap, scanned]
    rfl
  · intro text tokens scanned
    exact scan_spaced (List.forall_mem_map.2 (isSpelled_of_scan scanned))

section Scattered

def denseTokens : List Token :=
  [⟨.string, "\"// red\"", ⟨1, 1⟩⟩, ⟨.hor, "hor", ⟨1, 9⟩⟩, ⟨.leftParen, "(", ⟨1, 12⟩⟩]

/-- A comment with a quote and a keyword in it. -/
def remark : List Char :=
  '/' :: '/' :: ([' ', '"', 'h', 'o', 'r'] ++ ['\n'])

/-- The string holds what would start a comment outside of it. -/
def scattered : List (Lexeme × List Char) :=
  [(⟨.string, "\"// red\""⟩, remark), (⟨.hor, "hor"⟩, ['\r', '\n']),
    (⟨.leftParen, "("⟩, '\t' :: remark)]

theorem scattered_scanned :
    scan "\"// red\"hor(" = .ok denseTokens ∧ Scan.IsGap remark ∧
      (∀ part ∈ scattered, part.1.IsSpelled ∧ Scan.IsGap part.2 ∧ part.2 ≠ []) ∧
      (∃ tokens, scan (String.ofList (remark ++ Lexeme.spread scattered)) = .ok tokens ∧
        tokens.map Token.lexeme = denseTokens.map Token.lexeme) ∧
      ∃ tokens, scan (Lexeme.spaced (denseTokens.map Token.lexeme)) = .ok tokens ∧
        tokens.map Token.lexeme = denseTokens.map Token.lexeme := by
  have scanned : scan "\"// red\"hor(" = .ok denseTokens := by with_unfolding_all rfl
  have inLine : ∀ d ∈ [' ', '"', 'h', 'o', 'r'], Scan.isInLine d := by simp [Scan.isInLine]
  have gap : Scan.IsGap remark := .comment inLine .nil
  have apart : ∀ part ∈ scattered, part.1.IsSpelled ∧ Scan.IsGap part.2 ∧ part.2 ≠ [] := by
    have spelled := isSpelled_of_scan scanned
    simp only [denseTokens, List.forall_mem_cons] at spelled
    obtain ⟨string, hor, leftParen, -⟩ := spelled
    simp only [scattered, List.forall_mem_cons]
    refine ⟨⟨string, gap, List.cons_ne_nil _ _⟩, ⟨hor, ?_, List.cons_ne_nil _ _⟩,
      ⟨leftParen, .blank rfl gap, List.cons_ne_nil _ _⟩, List.forall_mem_nil _⟩
    exact .blank rfl (.blank rfl .nil)
  exact ⟨scanned, gap, apart, scan_spread.1 remark scattered gap apart,
    scan_spread.2 _ denseTokens scanned⟩

end Scattered

end Patchwork
