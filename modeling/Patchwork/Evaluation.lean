import Patchwork.Layout
import Patchwork.Rotation
import Patchwork.Session
import Patchwork.Tiling

/-!
# Evaluation

The meaning of expressions, definitions and programs as steps of a session. The nesting of
evaluation is bounded by the levels that the session has left, calls included, so every evaluation
ends.
-/

namespace Patchwork

variable {K : Type} [Scalar K]

/-- Integers beyond 64 bits are taken as the nearest one within. -/
def Turn.clampedDegrees (n : Int) : Int :=
  let highest : Int := 9223372036854775807
  if highest < n then highest
  else if n < -highest then -highest - 1
  else n

/-- A whole number is an angle in degrees. -/
def Value.toTurn : Value K → Except (Fault K) Turn
  | .angle degrees => Turn.ofDegrees degrees
  | .number n =>
    match Scalar.whole? n with
    | some degrees => Turn.ofDegrees (Turn.clampedDegrees degrees)
    | none => .error (.fractionalAngle n)
  | v => .error (.wrongKind .turnAngle v.kind)

def Function.checkArity (fn : Function) (name : String) (found : Nat) : Except (Fault K) Unit :=
  if fn.parameters.length = found then .ok ()
  else .error (.wrongArity name fn.parameters.length found)

namespace Expr

open Evaluation

def checkSize (width height : K) : Except (Fault K) Unit :=
  if Scalar.usable width && Scalar.usable height then .ok ()
  else .error (.unusableSize width height)

/-- A number of copies is whole and positive. -/
def copies (n : K) : Except (Fault K) Nat :=
  match Scalar.whole? n with
  | some count => if 0 < count then .ok count.toNat else .error (.badCount n)
  | none => .error (.badCount n)

section Node

/-!
The meaning of one node, given the meaning `ev` of the expressions below it. Operands are evaluated
from left to right, and the first fault ends the evaluation.
-/

variable (ev : Expr → Evaluation K (Value K))

def evalNumber (place : Place) (e : Expr) : Evaluation K K := do
  match ← ev e with
  | .number n => pure n
  | v => throw (.wrongKind place v.kind)

def evalArithmetic (op : Operator) (left right : Expr) : Evaluation K (Value K) := do
  let a ← evalNumber ev (.operand op) left
  let b ← evalNumber ev (.operand op) right
  match op with
  | .plus => pure (.number (a + b))
  | .times => pure (.number (a * b))

/-- The sides are checked before the color is evaluated. -/
def evalRect (width height color : Expr) : Evaluation K (Value K) := do
  let w ← evalNumber ev .rectWidth width
  let h ← evalNumber ev .rectHeight height
  ofOutcome (checkSize w h)
  match ← ev color with
  | .color c => pure (.patch (Patch.unplaced w h c))
  | v => throw (.wrongKind .rectColor v.kind)

def evalPush (layout : Layout) (base : Design K) (item : Expr) : Evaluation K (Design K) := do
  let v ← ev item
  let joined ← ofOutcome (layout.push base v)
  checkPatches joined.patches.length
  pure joined

/-- The patches are counted after each element but the first. -/
def evalLayout (layout : Layout) : List Expr → Evaluation K (Value K)
  | [] => throw (.emptyArrangement layout.arrangement)
  | item :: items => do
    let v ← ev item
    let first ← ofOutcome (layout.element v)
    let d ← items.foldlM (evalPush ev layout) first
    pure (.design d)

/-- The anchor is read before anything is evaluated. -/
def evalOverlay (anchor : String) (items : List Expr) : Evaluation K (Value K) := do
  let a ← ofOutcome (Anchor.ofName anchor)
  evalLayout ev (.overlay a) items

def evalRot (angle target : Expr) : Evaluation K (Value K) := do
  let v ← ev angle
  let t ← ofOutcome v.toTurn
  let v ← ev target
  ofOutcome (v.turned t)

/-- The count is settled before the target is evaluated, and the ceiling before the kind of the
target is looked at. -/
def evalRep (count target : Expr) : Evaluation K (Value K) := do
  let n ← evalNumber ev .repCount count
  let tiles ← ofOutcome (copies n)
  let v ← ev target
  checkCopies n v.patchCount
  let d ← ofOutcome (v.tiled tiles)
  pure (.design d)

/-- The frame of a call. Of two parameters of one name the later one counts. -/
def evalArguments (bindings : List (String × Expr)) : Evaluation K (Frame (Value K)) :=
  bindings.foldlM (fun frame binding => do
    let v ← ev binding.2
    pure (frame.insert binding.1 v)) Frame.empty

/-- Arguments are evaluated where the call stands, the body in a frame that holds only them. -/
def evalCall (f : String) (arguments : List Expr) : Evaluation K (Value K) := do
  match ← lookup f with
  | .function fn =>
    ofOutcome (fn.checkArity f arguments.length)
    let frame ← evalArguments ev (fn.parameters.zip arguments)
    inFrame frame (ev fn.body)
  | v => throw (.wrongKind (.callee f) v.kind)

def evalNode : Expr → Evaluation K (Value K)
  | number n => pure (.number (Scalar.ofInt n))
  | angle degrees => pure (.angle degrees)
  | color text => pure (.color (Color.ofText text))
  | name x => lookup x
  | call f arguments => evalCall ev f arguments
  | arithmetic op left right => evalArithmetic ev op left right
  | rect width height dye => evalRect ev width height dye
  | strip axis items => evalLayout ev (.strip axis) items
  | overlay anchor items => evalOverlay ev anchor items
  | rot turn target => evalRot ev turn target
  | rep count target => evalRep ev count target

end Node

/-- Evaluation with `levels` levels of nesting left. -/
def evalWithin (levels : Nat) (e : Expr) : Evaluation K (Value K) :=
  match levels with
  | 0 => do throw (.tooDeep (← get).limits.maxDepth)
  | levels + 1 => nested (evalNode (evalWithin levels) e)

def eval (e : Expr) : Evaluation K (Value K) := do
  let s ← get
  evalWithin (s.limits.maxDepth - s.depth) e

end Expr

/-- A definition binds its name only if its value is evaluated and is of the declared kind. -/
def Definition.bind : Definition → Evaluation K Unit
  | .declared kind name value => do
    let v ← value.eval
    if kind.admits v.kind then Evaluation.define name v
    else throw (.wrongKind (.declaration name kind) v.kind)
  | .assigned name value => do
    let v ← value.eval
    Evaluation.define name v
  | .function name parameters body => Evaluation.define name (.function ⟨parameters, body⟩)

/-- Binds the definitions in order and evaluates the goal. -/
def Program.run (program : Program) : Evaluation K (Design K) := do
  program.definitions.forM Definition.bind
  let v ← program.goal.eval
  match v.toDesign? with
  | some d => pure d
  | none => throw (.wrongKind .goal v.kind)

/-- The design of a program in a session of its own. -/
def Program.design (limits : Limits) (program : Program) : Except (Fault K) (Design K) :=
  (program.run.run (Session.new limits)).1

end Patchwork
