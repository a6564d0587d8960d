import Patchwork.Evaluation

/-!
# The meaning of expressions

What an expression stands for, as a function of the limits, of the levels of nesting that are left
and of what its surroundings let it see. There is no session here and nothing to restore: the
frames of callers are out of sight, and a call just exchanges the scope.
-/

namespace Patchwork

/-- What can be seen of an environment: the session frame and the innermost call frame. -/
structure Scope (V : Type) where
  session : Frame V
  call? : Option (Frame V)
  deriving DecidableEq, Repr

namespace Scope

variable {V : Type}

def get? (scope : Scope V) (name : String) : Option V :=
  match scope.call? with
  | none => scope.session.get? name
  | some frame => (frame.get? name).or (scope.session.get? name)

/-- The scope of a function body: the arguments, and the session whatever the caller is. -/
def inCall (scope : Scope V) (frame : Frame V) : Scope V :=
  { scope with call? := some frame }

end Scope

/-- What a name stands for in a scope. -/
def Scope.require {K : Type} (scope : Scope (Value K)) (name : String) :
    Except (Fault K) (Value K) :=
  match scope.get? name with
  | some v => .ok v
  | none => .error (.unbound name)

namespace Environment

variable {V : Type}

def scope (env : Environment V) : Scope V :=
  ⟨env.session, env.calls.head?⟩

theorem scope_push (env : Environment V) (frame : Frame V) :
    (env.push frame).scope = env.scope.inCall frame := rfl

theorem get?_scope (env : Environment V) (name : String) :
    env.scope.get? name = env.get? name := by
  obtain ⟨session, calls⟩ := env
  cases calls <;> rfl

theorem require_scope {K : Type} (env : Environment (Value K)) (name : String) :
    env.scope.require name = env.require name := by
  have same := get?_scope env name
  unfold Scope.require require
  cases found : env.get? name with
  | none => rw [same, found]
  | some v => rw [same, found]

end Environment

variable {K : Type}

namespace Value

def toNumber (place : Place) : Value K → Except (Fault K) K
  | number n => .ok n
  | v => .error (.wrongKind place v.kind)

def toColor : Value K → Except (Fault K) Color
  | color c => .ok c
  | v => .error (.wrongKind .rectColor v.kind)

def toFunction (name : String) : Value K → Except (Fault K) Function
  | function fn => .ok fn
  | v => .error (.wrongKind (.callee name) v.kind)

end Value

namespace Limits

def checkPatches (limits : Limits) (count : Nat) : Except (Fault K) Unit :=
  if limits.maxPatches < count then .error (.tooManyPatches limits.maxPatches) else .ok ()

def checkCopies [Scalar K] (limits : Limits) (copies : K) (patches : Nat) :
    Except (Fault K) Unit :=
  if Scalar.ofNat limits.maxPatches < copies * Scalar.ofNat patches then
    .error (.tooManyPatches limits.maxPatches)
  else .ok ()

end Limits

namespace Meaning

variable [Scalar K]

section Node

/-!
The meaning of one node, given the meaning of the expressions below it in every scope.
-/

variable (limits : Limits) (sub : Scope (Value K) → Expr → Except (Fault K) (Value K))
  (scope : Scope (Value K))

def number (place : Place) (e : Expr) : Except (Fault K) K := do
  let v ← sub scope e
  v.toNumber place

def arithmetic (op : Operator) (left right : Expr) : Except (Fault K) (Value K) := do
  let a ← number sub scope (.operand op) left
  let b ← number sub scope (.operand op) right
  match op with
  | .plus => pure (.number (a + b))
  | .times => pure (.number (a * b))

def rect (width height color : Expr) : Except (Fault K) (Value K) := do
  let w ← number sub scope .rectWidth width
  let h ← number sub scope .rectHeight height
  Expr.checkSize w h
  let v ← sub scope color
  let c ← v.toColor
  pure (.patch (Patch.unplaced w h c))

def push (layout : Layout) (base : Design K) (item : Expr) : Except (Fault K) (Design K) := do
  let v ← sub scope item
  let joined ← layout.push base v
  limits.checkPatches joined.patches.length
  pure joined

def arrange (layout : Layout) : List Expr → Except (Fault K) (Value K)
  | [] => .error (.emptyArrangement layout.arrangement)
  | item :: items => do
    let v ← sub scope item
    let first ← layout.element v
    let d ← items.foldlM (push limits sub scope layout) first
    pure (.design d)

def overlay (anchor : String) (items : List Expr) : Except (Fault K) (Value K) := do
  let a ← Anchor.ofName anchor
  arrange limits sub scope (.overlay a) items

def rot (angle target : Expr) : Except (Fault K) (Value K) := do
  let v ← sub scope angle
  let t ← v.toTurn
  let v ← sub scope target
  v.turned t

def rep (count target : Expr) : Except (Fault K) (Value K) := do
  let n ← number sub scope .repCount count
  let tiles ← Expr.copies n
  let v ← sub scope target
  limits.checkCopies n v.patchCount
  let d ← v.tiled tiles
  pure (.design d)

/-- One more argument in the frame of a call. -/
def argument (frame : Frame (Value K)) (binding : String × Expr) :
    Except (Fault K) (Frame (Value K)) := do
  let v ← sub scope binding.2
  pure (frame.insert binding.1 v)

def call (f : String) (arguments : List Expr) : Except (Fault K) (Value K) := do
  let v ← scope.require f
  let fn ← v.toFunction f
  fn.checkArity f arguments.length
  let frame ← (fn.parameters.zip arguments).foldlM (argument sub scope) Frame.empty
  sub (scope.inCall frame) fn.body

def node : Expr → Except (Fault K) (Value K)
  | .number n => pure (.number (Scalar.ofInt n))
  | .angle degrees => pure (.angle degrees)
  | .color text => pure (.color (Color.ofText text))
  | .name x => scope.require x
  | .call f arguments => call sub scope f arguments
  | .arithmetic op left right => arithmetic sub scope op left right
  | .rect width height color => rect sub scope width height color
  | .strip axis items => arrange limits sub scope (.strip axis) items
  | .overlay anchor items => overlay limits sub scope anchor items
  | .rot angle target => rot sub scope angle target
  | .rep count target => rep limits sub scope count target

end Node

end Meaning

/-- The meaning with `levels` levels of nesting left. -/
def Expr.meaning [Scalar K] (limits : Limits) (levels : Nat) (scope : Scope (Value K)) (e : Expr) :
    Except (Fault K) (Value K) :=
  match levels with
  | 0 => .error (.tooDeep limits.maxDepth)
  | levels + 1 => Meaning.node limits (Expr.meaning limits levels) scope e

/-- The meaning where a session stands, with the levels that it has left. -/
def Session.meaning [Scalar K] (s : Session K) (e : Expr) : Except (Fault K) (Value K) :=
  e.meaning s.limits (s.limits.maxDepth - s.depth) s.environment.scope

end Patchwork
