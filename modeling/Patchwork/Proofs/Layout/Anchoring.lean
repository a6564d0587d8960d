import Patchwork.Proofs.Layout.Symmetry

/-!
# Anchors under turns

What is anchored in a corner of a box stays in it while the box is turned, and the corner moves to
the next one. So an overlay may be turned as a whole or element by element, as long as its anchor is
turned along.
-/

namespace Patchwork

namespace Anchor

/-- The anchor where left and right are exchanged. -/
def mirrored : Anchor → Anchor
  | topLeft => topRight
  | topRight => topLeft
  | bottomLeft => bottomRight
  | bottomRight => bottomLeft
  | center => center

/-- The corner to which a quarter turn takes a corner. -/
def quarterTurned : Anchor → Anchor
  | topLeft => topRight
  | topRight => bottomRight
  | bottomRight => bottomLeft
  | bottomLeft => topLeft
  | center => center

/-- As many quarter turns as make the turn. -/
def turned (t : Turn) : Anchor → Anchor :=
  quarterTurned^[t.quarters]

theorem mirrored_transposed (anchor : Anchor) :
    anchor.transposed.mirrored = anchor.quarterTurned := by
  cases anchor <;> rfl

/-- The room to the right of a box is to its left where left and right are exchanged. -/
theorem offset_mirrored (anchor : Anchor) (outerWidth outerHeight width height : Rat) :
    anchor.mirrored.offset outerWidth outerHeight width height =
      (outerWidth - (anchor.offset outerWidth outerHeight width height).1 - width,
        (anchor.offset outerWidth outerHeight width height).2) := by
  have left (rest : Rat) : (outerWidth - width, rest) = (outerWidth - 0 - width, rest) := by
    rw [sub_zero]
  have right (rest : Rat) : (0, rest) = (outerWidth - (outerWidth - width) - width, rest) := by
    rw [sub_sub_cancel, sub_self]
  cases anchor with
  | topLeft => exact left 0
  | topRight => exact right 0
  | bottomLeft => exact left (outerHeight - height)
  | bottomRight => exact right (outerHeight - height)
  | center =>
    have middle : outerWidth / 2 - width / 2 =
        outerWidth - (outerWidth / 2 - width / 2) - width := by ring
    exact Prod.ext middle rfl

end Anchor

namespace Design

theorem mirrored_under (lower : Design Rat) (anchor : Anchor) (upper : Design Rat) :
    (lower.under anchor upper).mirrored =
      lower.mirrored.under anchor.mirrored upper.mirrored := by
  simp only [under, mirrored, List.map_append, map_mirrored_moved, Anchor.offset_mirrored]

end Design

namespace Layout

variable {anchor : Anchor} {ds : List (Design Rat)} {d : Design Rat}

theorem joinAll_mirrored_overlay (joined : (overlay anchor).joinAll ds = .ok d) :
    (overlay anchor.mirrored).joinAll (ds.map Design.mirrored) = .ok d.mirrored := by
  refine joinAll_map ?_ joined
  intro base item d joined
  cases joined
  exact congrArg Except.ok (Design.mirrored_under base anchor item).symm

theorem joinAll_quarterTurned_overlay (joined : (overlay anchor).joinAll ds = .ok d) :
    (overlay anchor.quarterTurned).joinAll (ds.map (Design.turned .quarter)) =
      .ok (d.turned .quarter) := by
  rw [← Anchor.mirrored_transposed, Design.map_turned_quarter, Design.turned_quarter]
  exact joinAll_mirrored_overlay (joinAll_transposed joined)

/-- Quarter by quarter, the overlay and its anchor are turned together. -/
theorem joinAll_iterate_overlay (quarters : Nat) (joined : (overlay anchor).joinAll ds = .ok d) :
    (overlay (Anchor.quarterTurned^[quarters] anchor)).joinAll
        (ds.map (Design.turned .quarter)^[quarters]) =
      .ok ((Design.turned .quarter)^[quarters] d) := by
  induction quarters with
  | zero =>
    change (overlay anchor).joinAll (ds.map id) = .ok d
    rw [List.map_id]
    exact joined
  | succ quarters ih =>
    have next := joinAll_quarterTurned_overlay ih
    rw [List.map_map] at next
    rw [Function.iterate_succ', Function.iterate_succ']
    exact next

end Layout

/-- An overlay of designs, at least one, can always be made, and turned as a whole it is the overlay
of the turned designs with the turned anchor: the same box and the same patches in the same
order. -/
theorem overlay_turned (t : Turn) (anchor : Anchor) (base : Design Rat) (ds : List (Design Rat)) :
    ∃ d, (Layout.overlay anchor).compose ((base :: ds).map .design) = .ok d ∧
      (Layout.overlay (anchor.turned t)).compose
        (((base :: ds).map (Design.turned t)).map .design) = .ok (d.turned t) := by
  obtain ⟨d, joined⟩ := Layout.exists_joinAll_overlay anchor base ds
  have turned := Layout.joinAll_iterate_overlay t.quarters joined
  have same : Design.turned t = (Design.turned .quarter)^[t.quarters] :=
    funext fun e => e.turned_eq_iterate t
  refine ⟨d, ?_, ?_⟩
  · rw [Layout.compose_designs]
    exact joined
  · rw [Layout.compose_designs, same]
    exact turned

end Patchwork
