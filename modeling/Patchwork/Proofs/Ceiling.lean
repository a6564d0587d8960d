import Patchwork.Proofs.Binary64.Counting
import Patchwork.Proofs.History

/-!
# The ceiling on patches

No design of a session has more patches than the limit, or than the one that every design has. The
limit is asked about a joined design after each element, and about tiles in scalar arithmetic before
they are made; a rectangle, a turn and a name are never asked about, and do not need to be.
-/

namespace Patchwork

variable {K : Type} [Scalar K]

theorem length_moved (d : Design K) (dx dy : K) : (d.moved dx dy).length = d.patches.length :=
  List.length_map _

theorem length_patches_turned (t : Turn) (d : Design K) :
    (d.turned t).patches.length = d.patches.length :=
  List.length_map _

theorem length_patches_tiledPatch (count : Nat) (p : Patch K) :
    (p.tiled count).patches.length = count := by
  simp [Patch.tiled]

theorem length_patches_tiled (count : Nat) (d : Design K) :
    (d.tiled count).patches.length = count * d.patches.length := by
  simp [Design.tiled, List.length_flatMap, length_moved, List.map_const']

/-- Having no more patches than the limit or one, whichever is more. -/
def ceiling (K : Type) (limits : Limits) : Trait K where
  patch _ := True
  design d := d.patches.length ≤ max 1 limits.maxPatches

/-- Copies that pass the check are not too many: as long as the limit is held exactly, the product
in scalar arithmetic is not rounded down to it. -/
theorem copies_le_of_unchecked [Scalar.Counting K] {limits : Limits} {n : K} {count : Int}
    {patches : Nat} (exact : limits.maxPatches < Scalar.exactLimit)
    (few : patches ≤ max 1 limits.maxPatches) (whole : Scalar.whole? n = some count)
    (positive : 0 < count)
    (unchecked : ¬Scalar.ofNat limits.maxPatches < n * Scalar.ofNat patches) :
    count.toNat * patches ≤ limits.maxPatches := by
  by_contra more
  have one : 1 < Scalar.exactLimit := by decide
  have beyond : (limits.maxPatches : Int) < count * patches := by
    rw [← Int.toNat_of_nonneg positive.le]
    exact_mod_cast Nat.lt_of_not_le more
  exact unchecked (Scalar.Counting.lt_mul whole exact (by omega) beyond)

theorem ceiling_kept [Scalar.Counting K] {limits : Limits}
    (exact : limits.maxPatches < Scalar.exactLimit) : (ceiling K limits).Kept limits where
  unplaced _ _ _ := trivial
  framed _ := Nat.le_max_left 1 _
  joined _ _ _ few := Nat.le_trans few (Nat.le_max_right 1 _)
  turnedPatch _ _ := trivial
  turnedDesign t h := by
    change (Design.turned t _).patches.length ≤ _
    rw [length_patches_turned]
    exact h
  tiledPatch {p n count} _ whole positive unchecked := by
    have bound := copies_le_of_unchecked exact (Nat.le_max_left 1 _) whole positive unchecked
    change (p.tiled count.toNat).patches.length ≤ _
    rw [length_patches_tiledPatch]
    omega
  tiledDesign {d n count} h whole positive unchecked := by
    have bound := copies_le_of_unchecked exact h whole positive unchecked
    change (d.tiled count.toNat).patches.length ≤ _
    rw [length_patches_tiled]
    omega

/-- In double precision no design that a session returns or holds is past the ceiling, whatever the
session, which started empty, has been asked for. -/
theorem patches_within_ceiling {limits : Limits} (exact : limits.maxPatches < 2 ^ 53)
    (steps : List Step) {d : Design Float}
    (seen : (Session.new limits).Encounters steps (.design d)) :
    d.patches.length ≤ max 1 limits.maxPatches := by
  have kept : (ceiling Float (Session.new (K := Float) limits).limits).Kept limits :=
    ceiling_kept exact
  exact kept.has_of_encounters (s := Session.new limits) (Session.has_new _ limits) seen

section Row

/-- A tile that is bound first and then laid in a row of three. -/
def rowSteps : List Step :=
  [.bind (.assigned "tile" (.rect (.number 1) (.number 2) (.color "red"))),
    .run ⟨[], .rep (.number 3) (.name "tile")⟩]

def row : Design Float :=
  (Patch.unplaced (Scalar.ofInt 1) (Scalar.ofInt 2) (Color.ofText "red")).tiled 3

theorem rowSteps_encounter_row :
    (Session.new (K := Float) ⟨8, 3⟩).Encounters rowSteps (.design row) := by
  have outcomes : ((Session.new (K := Float) ⟨8, 3⟩).performAll rowSteps).1 =
      [.ok none, .ok (some (.design row))] := rfl
  refine Or.inl ?_
  rw [outcomes]
  simp

/-- The row is returned under a limit of three, which it reaches. -/
theorem row_within_ceiling :
    3 < 2 ^ 53 ∧ (Session.new (K := Float) ⟨8, 3⟩).Encounters rowSteps (.design row) ∧
      row.patches.length ≤ max 1 3 :=
  have exact : (⟨8, 3⟩ : Limits).maxPatches < 2 ^ 53 := by decide
  ⟨by decide, rowSteps_encounter_row, patches_within_ceiling exact rowSteps rowSteps_encounter_row⟩

end Row

end Patchwork
