import Patchwork.Proofs.Outcome
import Patchwork.Proofs.Source.Tracking

/-!
# Reading under a limit

The limit on nesting is only ever asked "deep enough?" while a program is read from its tokens, and
so can do nothing but cut the reading off: beside a reading with a larger limit, it goes through the
same steps on the same tokens until its levels run out.
-/

namespace Patchwork

/-- The same tokens on both sides, where the limit may end the first reading. -/
def Comparison.ofLimit (limit : Nat) : Comparison where
  same := Eq
  lexeme_eq := congrArg Token.lexeme
  excused cause := cause = .tooDeep limit

theorem Comparison.cutBy_of_follows {A : Type} {limit : Nat}
    {outcome full : Except Reading.Failure (A × List Token)}
    (h : (ofLimit limit).Follows Eq outcome full) :
    CutBy (fun failure => failure.cause = .tooDeep limit) outcome full := by
  cases h with
  | done value same =>
    cases value
    cases List.forall₂_eq_eq_eq ▸ same
    exact cutBy_rfl _
  | failed cause same =>
    cases List.forall₂_eq_eq_eq ▸ same
    exact cutBy_rfl _
  | gaveUp _ excused => exact Or.inr ⟨_, rfl, excused⟩

namespace Reading

theorem program_cutBy {limit limit' : Nat} (h : limit ≤ limit') (tokens : List Token) :
    CutBy (fun failure => failure.cause = .tooDeep limit)
      ((program (expression limit)).run tokens) ((program (expression limit')).run tokens) := by
  apply Comparison.cutBy_of_follows
  apply Comparison.tracks_program (Comparison.tracks_expression_le rfl h)
  exact List.forall₂_same.2 fun _ _ => rfl

theorem cause_locate {tokens : List Token} (failure : Failure) :
    (failure.locate tokens).cause = failure.cause := by
  rw [Failure.locate]
  split
  · rfl
  · rfl

end Reading

def SyntaxFault.IsTooDeep (fault : SyntaxFault) : Prop :=
  ∃ limit, fault.cause = .tooDeep limit

namespace Program

/-- What cuts the reading off is the limit that it has. -/
theorem ofTokens_cutBy_own {limit limit' : Nat} (h : limit ≤ limit') (tokens : List Token) :
    CutBy (fun fault => fault.cause = .tooDeep limit)
      (ofTokens limit tokens) (ofTokens limit' tokens) := by
  rw [ofTokens, ofTokens]
  rcases Reading.program_cutBy h tokens with same | ⟨failure, cut, deep⟩
  · rw [same]
    exact cutBy_rfl _
  · rw [cut]
    exact Or.inr ⟨_, rfl, (Reading.cause_locate failure).trans deep⟩

theorem ofTokens_cutBy {limit limit' : Nat} (h : limit ≤ limit') (tokens : List Token) :
    CutBy SyntaxFault.IsTooDeep (ofTokens limit tokens) (ofTokens limit' tokens) :=
  (ofTokens_cutBy_own h tokens).mono fun _ deep => ⟨limit, deep⟩

/-- A lower limit on nesting reads the same program, finds the same fault in the same place, or
finds the text nested too deep. -/
theorem ofText_cutBy {limit limit' : Nat} (h : limit ≤ limit') (text : String) :
    CutBy SyntaxFault.IsTooDeep (ofText limit text) (ofText limit' text) :=
  cutBy_bind (cutBy_rfl _) fun tokens => ofTokens_cutBy h tokens

end Program

end Patchwork
