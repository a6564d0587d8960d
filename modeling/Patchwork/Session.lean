import Patchwork.Environment
import Patchwork.Fault

/-!
# Sessions

Evaluation works on a session: the limits, the nesting depth and the environment. A fault does not
undo what happened before it, so the session after a failed step is part of the outcome. A level of
nesting or a call frame is always left again, whatever happened inside.
-/

namespace Patchwork

/-- What a name is bound to. It is a fault to ask for a name that is not bound. -/
def Environment.require {K : Type} (env : Environment (Value K)) (name : String) :
    Except (Fault K) (Value K) :=
  match env.get? name with
  | some v => .ok v
  | none => .error (.unbound name)

structure Limits where
  /-- How deep expressions may be nested, in text and in evaluation. -/
  maxDepth : Nat
  /-- How many patches a design may have. -/
  maxPatches : Nat
  deriving DecidableEq, Repr

def Limits.standard : Limits :=
  ⟨256, 100000⟩

structure Session (K : Type) where
  limits : Limits
  depth : Nat
  environment : Environment (Value K)

def Session.new {K : Type} (limits : Limits) : Session K :=
  ⟨limits, 0, Environment.empty⟩

abbrev Evaluation (K : Type) := ExceptT (Fault K) (StateM (Session K))

namespace Evaluation

variable {K A : Type}

def ofOutcome (outcome : Except (Fault K) A) : Evaluation K A :=
  ExceptT.mk (pure outcome)

/-- Runs a step one level deeper. -/
def nested (step : Evaluation K A) : Evaluation K A :=
  ExceptT.mk fun s =>
    let (outcome, after) := step.run { s with depth := s.depth + 1 }
    (outcome, { after with depth := after.depth - 1 })

/-- Runs a step with a frame of its own. -/
def inFrame (frame : Frame (Value K)) (step : Evaluation K A) : Evaluation K A :=
  ExceptT.mk fun s =>
    let (outcome, after) := step.run { s with environment := s.environment.push frame }
    (outcome, { after with environment := after.environment.pop })

def lookup (name : String) : Evaluation K (Value K) := do
  ofOutcome ((← get).environment.require name)

def define (name : String) (v : Value K) : Evaluation K Unit :=
  modify fun s => { s with environment := s.environment.define name v }

def checkPatches (count : Nat) : Evaluation K Unit := do
  let limit := (← get).limits.maxPatches
  if limit < count then throw (.tooManyPatches limit) else return ()

/-- The check before copies are made, in the arithmetic of scalars. -/
def checkCopies [Scalar K] (copies : K) (patches : Nat) : Evaluation K Unit := do
  let limit := (← get).limits.maxPatches
  if Scalar.ofNat limit < copies * Scalar.ofNat patches then throw (.tooManyPatches limit)
  else return ()

end Evaluation

end Patchwork
