import Patchwork.Evaluation
import Patchwork.Source.Program

/-!
# Drafting

From the text of a program to its design.
-/

namespace Patchwork

/-- Why a text has no design: it is no program, or its evaluation fails. -/
inductive Failure (K : Type) where
  | malformed (fault : SyntaxFault)
  | failed (fault : Fault K)
  deriving DecidableEq, Repr

namespace Failure

variable {K : Type}

/-- Only a malformed text has a place where it fails. -/
def position? : Failure K → Option Position
  | malformed fault => some fault.position
  | failed _ => none

variable [Numeral K]

def message : Failure K → String
  | malformed fault => fault.message
  | failed fault => fault.message

end Failure

variable {K : Type} [Scalar K]

/-- The design of a text. The limit on nesting holds both for the text and for its evaluation. -/
def designOfText (limits : Limits) (text : String) : Except (Failure K) (Design K) :=
  match Program.ofText limits.maxDepth text with
  | .error fault => .error (.malformed fault)
  | .ok program =>
    match program.design limits with
    | .error fault => .error (.failed fault)
    | .ok d => .ok d

end Patchwork
