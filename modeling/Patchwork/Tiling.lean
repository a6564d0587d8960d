import Patchwork.Fault

/-!
# Tiling

Copies of a patch or a design in a row. Each copy is placed by a multiple of the width, not by
adding widths up.
-/

namespace Patchwork

variable {K : Type} [Scalar K]

/-- The tiles start where the patch already is. -/
def Patch.tiled (count : Nat) (p : Patch K) : Design K :=
  ⟨p.width * Scalar.ofNat count, p.height,
    (List.range count).map fun i => p.moved (Scalar.ofNat i * p.width) 0⟩

def Design.tiled (count : Nat) (d : Design K) : Design K :=
  ⟨d.width * Scalar.ofNat count, d.height,
    (List.range count).flatMap fun i => d.moved (Scalar.ofNat i * d.width) 0⟩

/-- A count of zero is refused before the target is looked at. -/
def Value.tiled (count : Nat) (v : Value K) : Except (Fault K) (Design K) :=
  if count = 0 then .error .zeroCount
  else match v with
    | .patch p => .ok (p.tiled count)
    | .design d => .ok (d.tiled count)
    | v => .error (.wrongKind .repTarget v.kind)

end Patchwork
