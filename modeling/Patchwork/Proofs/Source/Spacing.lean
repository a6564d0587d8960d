import Patchwork.Drafting
import Patchwork.Proofs.Source.Offense
import Patchwork.Scalar.Binary64

/-!
# Spacing

Two texts with the same lexemes differ in blanks, comments and the places of their tokens. They have
the same design or fail in the same way, and a fault of one of them is found in the other at the
token with the same index.
-/

namespace Patchwork

/-- Any two tokens are the same that differ in their places only. -/
def Comparison.ofSpacing : Comparison where
  same t t' := t.lexeme = t'.lexeme
  lexeme_eq := id
  excused _ := False

/-- The place of the token with this index, or of the last one where there is none. -/
def placeAt (tokens : List Token) (i : Nat) : Position :=
  ((tokens[i]?.or tokens.getLast?).map Token.position).getD .start

namespace Reading

theorem locate_eq_placeAt (cause : SyntaxFault.Cause) (used rest : List Token) :
    (⟨cause, rest⟩ : Failure).locate (used ++ rest) =
      ⟨cause, placeAt (used ++ rest) used.length⟩ := by
  rw [Failure.locate, placeAt, getElem?_length_append]
  cases rest.head?.or (used ++ rest).getLast? with
  | none | some => rfl

/-- What is left of a reading that has failed is the end of what it was given. -/
theorem exists_used_of_failure {limit : Nat} {tokens : List Token} {failure : Failure}
    (ran : (program (expression limit)).run tokens = .error failure) :
    ∃ used, tokens = used ++ failure.rest := by
  obtain ⟨used, parts, -⟩ := foresees_program limit _ _ _ (ends_of_error ran)
  exact ⟨used, parts⟩

end Reading

namespace Program

variable {limit : Nat} {tokens tokens' : List Token}

theorem ofTokens_same_lexemes (same : tokens.map Token.lexeme = tokens'.map Token.lexeme) :
    (∃ p, ofTokens limit tokens = .ok p ∧ ofTokens limit tokens' = .ok p) ∨
      ∃ cause, ∃ i ≤ tokens.length, ofTokens limit tokens = .error ⟨cause, placeAt tokens i⟩ ∧
        ofTokens limit tokens' = .error ⟨cause, placeAt tokens' i⟩ := by
  have paired : List.Forall₂ Comparison.ofSpacing.same tokens tokens' := by
    rw [← List.forall₂_eq_eq_eq, List.forall₂_map_left_iff, List.forall₂_map_right_iff] at same
    exact same
  have follows := Comparison.tracks_program (Comparison.tracks_expression_self limit) _ _ paired
  rw [ofTokens, ofTokens]
  generalize ran : (Reading.program (Reading.expression limit)).run tokens = outcome at follows ⊢
  generalize ran' : (Reading.program (Reading.expression limit)).run tokens' = outcome' at follows ⊢
  cases follows with
  | done value _ =>
    cases value
    exact Or.inl ⟨_, rfl, rfl⟩
  | @failed cause rest rest' rests =>
    obtain ⟨used, parts⟩ := Reading.exists_used_of_failure ran
    obtain ⟨used', parts'⟩ := Reading.exists_used_of_failure ran'
    subst parts parts'
    -- As many tokens are left on both sides, and so as many were used.
    have stopped : used.length = used'.length := by
      have lengths := paired.length_eq
      rw [List.length_append, List.length_append, rests.length_eq] at lengths
      exact Nat.add_right_cancel lengths
    refine Or.inr ⟨cause, used.length, ?_, ?_, ?_⟩
    · rw [List.length_append]
      exact Nat.le_add_right _ _
    · exact congrArg Except.error (Reading.locate_eq_placeAt _ _ _)
    · rw [stopped]
      exact congrArg Except.error (Reading.locate_eq_placeAt _ _ _)
  | gaveUp _ excused => exact excused.elim

end Program

variable {K : Type} [Scalar K]

/-- Texts with the same lexemes have the same design, the same fault of evaluation, or the same
fault of the text at tokens with the same index; where the text has ended too early, at the last
token of each. -/
theorem designOfText_same_lexemes (limits : Limits) {text text' : String}
    {tokens tokens' : List Token} (scanned : scan text = .ok tokens)
    (scanned' : scan text' = .ok tokens')
    (same : tokens.map Token.lexeme = tokens'.map Token.lexeme) :
    (∃ d : Design K, designOfText limits text = .ok d ∧ designOfText limits text' = .ok d) ∨
      (∃ fault : Fault K, designOfText limits text = .error (.failed fault) ∧
        designOfText limits text' = .error (.failed fault)) ∨
      ∃ cause, ∃ i ≤ tokens.length,
        designOfText (K := K) limits text = .error (.malformed ⟨cause, placeAt tokens i⟩) ∧
          designOfText (K := K) limits text' = .error (.malformed ⟨cause, placeAt tokens' i⟩) := by
  unfold designOfText
  rw [Program.ofText_of_scan scanned, Program.ofText_of_scan scanned']
  rcases Program.ofTokens_same_lexemes same with ⟨p, read, read'⟩ | ⟨cause, i, within, bad, bad'⟩
  · rw [read, read']
    dsimp only
    cases p.design (K := K) limits with
    | ok d => exact Or.inl ⟨d, rfl, rfl⟩
    | error fault => exact Or.inr (Or.inl ⟨fault, rfl, rfl⟩)
  · rw [bad, bad']
    exact Or.inr (Or.inr ⟨cause, i, within, rfl, rfl⟩)

/-- A turn of nothing, with the place of its angle. -/
def unfinishedTurn (p : Position) : List Token :=
  [⟨.rot, "rot", ⟨1, 1⟩⟩, ⟨.identifier, "x", p⟩]

/-- In one line, and with a comment in between. -/
theorem unfinished_turn_same_lexemes :
    scan "rot x" = .ok (unfinishedTurn ⟨1, 5⟩) ∧
      scan "rot // right\nx" = .ok (unfinishedTurn ⟨2, 1⟩) ∧
      designOfText (K := Float) ⟨8, 8⟩ "rot x" =
        .error (.malformed ⟨.unexpectedEnd, ⟨1, 5⟩⟩) ∧
      designOfText (K := Float) ⟨8, 8⟩ "rot // right\nx" =
        .error (.malformed ⟨.unexpectedEnd, ⟨2, 1⟩⟩) := by
  have scanned : scan "rot x" = .ok (unfinishedTurn ⟨1, 5⟩) := by with_unfolding_all rfl
  have scanned' : scan "rot // right\nx" = .ok (unfinishedTurn ⟨2, 1⟩) := by with_unfolding_all rfl
  have unread : Program.ofText 8 "rot x" = .error ⟨.unexpectedEnd, ⟨1, 5⟩⟩ := by
    rw [Program.ofText_of_scan scanned]
    rfl
  have failed : designOfText (K := Float) ⟨8, 8⟩ "rot x" =
      .error (.malformed ⟨.unexpectedEnd, ⟨1, 5⟩⟩) := by
    simp only [designOfText, unread]
  refine ⟨scanned, scanned', failed, ?_⟩
  obtain ⟨d, made, -⟩ | ⟨fault, faulty, -⟩ | ⟨cause, i, within, bad, bad'⟩ :=
    designOfText_same_lexemes (K := Float) ⟨8, 8⟩ scanned scanned' rfl
  · cases failed.symm.trans made
  · cases failed.symm.trans faulty
  · rw [bad']
    obtain ⟨rfl, placed⟩ : cause = .unexpectedEnd ∧ placeAt _ i = ⟨1, 5⟩ := by
      injection bad.symm.trans failed with same
      injection same with same
      injection same with cause place
      exact ⟨cause, place⟩
    have within : i ≤ 2 := within
    obtain rfl | rfl | rfl : i = 0 ∨ i = 1 ∨ i = 2 := by omega
    · cases placed
    · rfl
    · rfl

end Patchwork
