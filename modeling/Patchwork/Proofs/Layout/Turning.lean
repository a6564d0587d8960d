import Mathlib.Dynamics.PeriodicPts.Defs
import Patchwork.Proofs.Layout.Exact

/-!
# Turns in a row

Every turn is a number of quarter turns, and four of these give the design back, wherever its
patches lie. So turns in a row add up modulo the full circle.
-/

namespace Patchwork

namespace Turn

/-- How many quarter turns make the turn. -/
def quarters : Turn → Nat
  | zero => 0
  | quarter => 1
  | half => 2
  | threeQuarter => 3

theorem degrees_eq_quarters (t : Turn) : t.degrees = 90 * t.quarters := by
  cases t <;> rfl

theorem exists_quarters_eq {n : Nat} (h : n < 4) : ∃ t : Turn, t.quarters = n :=
  match n with
  | 0 => ⟨zero, rfl⟩
  | 1 => ⟨quarter, rfl⟩
  | 2 => ⟨half, rfl⟩
  | 3 => ⟨threeQuarter, rfl⟩

end Turn

namespace Design

variable (d : Design Rat)

@[simp] theorem transposed_transposed : d.transposed.transposed = d := by
  simp [transposed, Function.comp_def]

@[simp] theorem mirrored_mirrored : d.mirrored.mirrored = d := by
  have back (p : Patch Rat) : (p.mirrored d.width).mirrored d.width = p := by
    rw [Patch.mirrored, Patch.mirrored]
    congr 1
    ring
  simp [mirrored, Function.comp_def, back]

/-- Left and right on the one hand, top and bottom on the other: it does not matter which of the two
are exchanged first. -/
theorem mirrored_transposed_comm :
    d.transposed.mirrored.transposed.mirrored = d.mirrored.transposed.mirrored.transposed := by
  simp [transposed, mirrored, Function.comp_def, Patch.transposed, Patch.mirrored]

/-- Four quarter turns are none. -/
theorem isPeriodicPt_turned_quarter : Function.IsPeriodicPt (turned .quarter) 4 d := by
  change (((d.turned .quarter).turned .quarter).turned .quarter).turned .quarter = d
  simp only [turned_quarter]
  rw [mirrored_transposed_comm d, transposed_transposed, mirrored_mirrored, transposed_transposed,
    mirrored_mirrored]

theorem turned_eq_iterate (t : Turn) : d.turned t = (turned .quarter)^[t.quarters] d := by
  cases t with
  | zero => exact d.turned_zero
  | quarter => rfl
  | half =>
    change d.turned .half = (d.turned .quarter).turned .quarter
    rw [turned_half, turned_quarter, turned_quarter]
  | threeQuarter =>
    change d.turned .threeQuarter = ((d.turned .quarter).turned .quarter).turned .quarter
    simp only [turned_quarter]
    rw [mirrored_transposed_comm d, transposed_transposed, mirrored_mirrored, turned_threeQuarter]

theorem turned_turned_of_quarters {s t u : Turn}
    (sum : u.quarters = (s.quarters + t.quarters) % 4) : (d.turned t).turned s = d.turned u := by
  calc (d.turned t).turned s
      = (turned .quarter)^[s.quarters + t.quarters] d := by
        rw [turned_eq_iterate d t, turned_eq_iterate _ s, Function.iterate_add_apply]
    _ = (turned .quarter)^[u.quarters] d := by
        rw [sum, d.isPeriodicPt_turned_quarter.iterate_mod_apply]
    _ = d.turned u := (d.turned_eq_iterate u).symm

/-- Two turns in a row are the one turn by the sum of their degrees, up to full circles: the same
box and the same patches in the same order. Four quarter turns undo each other, and three quarters
undo one. -/
theorem turns_add_up :
    (∀ s t : Turn, ∃ u, Turn.ofDegrees? ((s.degrees + t.degrees) % 360) = some u ∧
      (d.turned t).turned s = d.turned u) ∧
    (turned .quarter)^[4] d = d ∧ (d.turned .quarter).turned .threeQuarter = d := by
  refine ⟨fun s t => ?_, d.isPeriodicPt_turned_quarter, ?_⟩
  · obtain ⟨u, sum⟩ := Turn.exists_quarters_eq (Nat.mod_lt (s.quarters + t.quarters) (by decide))
    have degrees : (s.degrees + t.degrees) % 360 = u.degrees := by
      simp only [Turn.degrees_eq_quarters]
      omega
    refine ⟨u, ?_, d.turned_turned_of_quarters sum⟩
    rw [degrees, Turn.ofDegrees?_degrees]
  · have sum : Turn.zero.quarters = (Turn.threeQuarter.quarters + Turn.quarter.quarters) % 4 := rfl
    rw [d.turned_turned_of_quarters sum, turned_zero]

end Design

end Patchwork
