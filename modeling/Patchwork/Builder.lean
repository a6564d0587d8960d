import Patchwork.Layout

/-!
# Builders

A layout in the making. Elements are pushed one after another, and a push that fails does not end
the work: whoever pushes may go on with what the push left behind. So the builder after a push is
part of its outcome, whether it fails or not.
-/

namespace Patchwork

structure Builder (K : Type) where
  layout : Layout
  /-- The elements so far. -/
  design : Design K
  deriving DecidableEq, Repr

abbrev Building (K : Type) := ExceptT (Fault K) (StateM (Builder K))

namespace Builder

variable {K : Type} [Scalar K]

/-- A layout starts with its first element. -/
def start (layout : Layout) (first : Value K) : Except (Fault K) (Builder K) := do
  return ⟨layout, ← layout.element first⟩

/-- One more element. Nothing is changed before it is known to fit. -/
def push (v : Value K) : Building K Unit := do
  let b ← get
  let design ← b.layout.push b.design v
  set { b with design }

/-- All values in order, each with how its push came out. -/
def pushAll (vs : List (Value K)) : StateM (Builder K) (List (Except (Fault K) Unit)) :=
  vs.mapM fun v => (push v).run

def patchCount (b : Builder K) : Nat :=
  b.design.patches.length

def finish (b : Builder K) : Design K :=
  b.design

end Builder

end Patchwork
