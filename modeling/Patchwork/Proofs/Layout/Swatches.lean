import Patchwork.Proofs.Layout.Nesting
import Patchwork.Scalar.Binary64

/-!
# Swatches

What is left of a patch when its place is forgotten: its sides and its color. Placing a patch does
not touch its swatch and a turn at most exchanges the sides, whatever the arithmetic of scalars is.
So the swatches of a nesting are those of its parts, in order and as many times as they are used:
no patch is lost, made up, reordered, resized or given another color.
-/

namespace Patchwork

structure Swatch (K : Type) where
  width : K
  height : K
  color : Color
  deriving DecidableEq, Repr

variable {K : Type}

def Patch.swatch (p : Patch K) : Swatch K :=
  ⟨p.width, p.height, p.color⟩

/-- A right angle to either side exchanges the sides. -/
def Swatch.turned (t : Turn) (s : Swatch K) : Swatch K :=
  if t.degrees = 90 ∨ t.degrees = 270 then ⟨s.height, s.width, s.color⟩ else s

def Design.swatches (d : Design K) : List (Swatch K) :=
  d.patches.map Patch.swatch

/-- What cannot be drawn has none. -/
def Value.swatches : Value K → List (Swatch K)
  | patch p => [p.swatch]
  | design d => d.swatches
  | _ => []

namespace Nesting

mutual

/-- The swatches of the parts, in the order in which they were put in. -/
def swatches : Nesting K → List (Swatch K)
  | .value v => v.swatches
  | .arranged _ items => swatchesAll items
  | .turned t target => target.swatches.map (Swatch.turned t)
  | .tiled count target => (List.replicate count target.swatches).flatten

def swatchesAll : List (Nesting K) → List (Swatch K)
  | [] => []
  | item :: items => item.swatches ++ swatchesAll items

end

end Nesting

variable [Scalar K]

section Operators

omit [Scalar K] in
theorem swatch_turned (t : Turn) (p : Patch K) : (p.turned t).swatch = p.swatch.turned t := by
  cases t <;> rfl

theorem swatch_turnedWithin (t : Turn) (width height : K) (p : Patch K) :
    (p.turnedWithin t width height).swatch = p.swatch.turned t := by
  cases t <;> rfl

theorem swatches_moved (d : Design K) (dx dy : K) :
    (d.moved dx dy).map Patch.swatch = d.swatches := by
  rw [Design.moved, List.map_map]
  rfl

theorem swatches_turned (t : Turn) (d : Design K) :
    (d.turned t).swatches = d.swatches.map (Swatch.turned t) := by
  simp only [Design.swatches, Design.turned, List.map_map]
  exact List.map_congr_left fun p _ => swatch_turnedWithin t _ _ p

theorem swatches_tiledPatch (count : Nat) (p : Patch K) :
    (p.tiled count).swatches = List.replicate count p.swatch := by
  have same (i : Nat) : (p.moved (Scalar.ofNat i * p.width) 0).swatch = p.swatch := rfl
  simp [Design.swatches, Patch.tiled, Function.comp_def, same, List.map_const']

theorem swatches_tiled (count : Nat) (d : Design K) :
    (d.tiled count).swatches = (List.replicate count d.swatches).flatten := by
  simp only [Design.swatches, Design.tiled, List.map_flatMap, swatches_moved]
  rw [List.flatMap_def, List.map_const', List.length_range]

theorem swatches_join {layout : Layout} {base item d : Design K}
    (joined : layout.join base item = .ok d) : d.swatches = base.swatches ++ item.swatches := by
  have appended (dx dy : K) : (base.patches ++ item.moved dx dy).map Patch.swatch =
      base.swatches ++ item.swatches := by
    rw [List.map_append, swatches_moved]
    rfl
  unfold Layout.join at joined
  split at joined
  · split at joined
    · cases joined
      exact appended base.width 0
    · cases joined
  · split at joined
    · cases joined
      exact appended 0 base.height
    · cases joined
  · cases joined
    exact appended _ _

end Operators

section Values

/-- A patch is framed where it is, and its swatch does not show it. -/
theorem swatches_of_toDesign? {v : Value K} {d : Design K} (h : v.toDesign? = some d) :
    d.swatches = v.swatches := by
  cases v with
  | patch p =>
    cases h
    rfl
  | design d =>
    cases h
    rfl
  | _ => cases h

theorem ensures_swatches_element (layout : Layout) (v : Value K) :
    Ensures (layout.element v) fun d => d.swatches = v.swatches := by
  rw [Layout.element]
  cases drawn : v.toDesign? with
  | none => exact ensures_error _ _
  | some d => exact ensures_ok (swatches_of_toDesign? drawn)

theorem ensures_swatches_push (layout : Layout) (base : Design K) (v : Value K) :
    Ensures (layout.push base v) fun d => d.swatches = base.swatches ++ v.swatches := by
  refine ensures_bind (ensures_swatches_element layout v) fun item same => ?_
  intro d joined
  rw [swatches_join joined, same]

theorem ensures_swatches_compose (layout : Layout) (vs : List (Value K)) :
    Ensures (layout.compose vs) fun d => d.swatches = vs.flatMap Value.swatches := by
  cases vs with
  | nil => exact ensures_error _ _
  | cons v vs =>
    refine ensures_bind (ensures_swatches_element layout v) fun base same => ?_
    rw [List.flatMap_cons, ← same]
    clear same
    induction vs generalizing base with
    | nil => exact ensures_ok (List.append_nil _).symm
    | cons item vs ih =>
      rw [List.foldlM_cons]
      refine ensures_bind (ensures_swatches_push layout base item) fun next same => ?_
      rw [List.flatMap_cons, ← List.append_assoc, ← same]
      exact ih next

theorem ensures_swatches_turned (t : Turn) (v : Value K) :
    Ensures (v.turned t) fun w => w.swatches = v.swatches.map (Swatch.turned t) := by
  cases v with
  | patch p => exact ensures_ok (congrArg (fun s => [s]) (swatch_turned t p))
  | design d => exact ensures_ok (swatches_turned t d)
  | _ => exact ensures_error _ _

theorem ensures_swatches_tiled (count : Nat) (v : Value K) :
    Ensures (v.tiled count) fun d => d.swatches = (List.replicate count v.swatches).flatten := by
  refine ensures_ite (fun _ => ensures_error _ _) fun _ => ?_
  cases v with
  | patch p =>
    refine ensures_ok ?_
    rw [swatches_tiledPatch, Value.swatches, List.flatten_replicate_singleton]
  | design d => exact ensures_ok (swatches_tiled count d)
  | _ => exact ensures_error _ _

end Values

namespace Nesting

mutual

/-- The nesting says which swatches its value has, if it can be built. -/
theorem ensures_swatches_build (n : Nesting K) :
    Ensures n.build fun v => v.swatches = n.swatches := by
  cases n with
  | value v => exact ensures_ok rfl
  | arranged layout items =>
    refine ensures_bind (ensures_swatches_buildAll items) fun vs parts => ?_
    refine ensures_bind (ensures_swatches_compose layout vs) fun d whole => ?_
    exact ensures_ok (whole.trans parts)
  | turned t target =>
    refine ensures_bind (ensures_swatches_build target) fun v same => ?_
    rw [swatches, ← same]
    exact ensures_swatches_turned t v
  | tiled count target =>
    refine ensures_bind (ensures_swatches_build target) fun v same => ?_
    rw [swatches, ← same]
    exact ensures_bind (ensures_swatches_tiled count v) fun d copies => ensures_ok copies

theorem ensures_swatches_buildAll (items : List (Nesting K)) :
    Ensures (buildAll items) fun vs => vs.flatMap Value.swatches = swatchesAll items := by
  cases items with
  | nil => exact ensures_ok rfl
  | cons item items =>
    refine ensures_bind (ensures_swatches_build item) fun v first => ?_
    refine ensures_bind (ensures_swatches_buildAll items) fun vs others => ?_
    refine ensures_ok ?_
    rw [List.flatMap_cons, swatchesAll, first, others]

end

/-- Whatever is built, from patches and designs of any size and place and with any arithmetic, has
the swatches of its parts: in order, all of them, none twice, and each with its color and its sides,
exchanged only by turns. -/
theorem swatches_of_build {n : Nesting K} {v : Value K} (built : n.build = .ok v) :
    v.swatches = n.swatches :=
  ensures_swatches_build n v built

section Border

/-- A square with a patch of its own that sticks out, and two tiles over it; all turned. -/
def border : Nesting Float :=
  .turned .threeQuarter
    (.arranged (.overlay .center)
      [.value (.design ⟨6, 6, [⟨0, 0, 6, 6, .css "teal"⟩, ⟨-1, 5, 1, 4, .dyed .blue⟩]⟩),
        .tiled 2 (.value (.patch ⟨7, 7, 3, 2, .dyed .pink⟩))])

def borderDesign : Design Float :=
  (Design.under ⟨6, 6, [⟨0, 0, 6, 6, .css "teal"⟩, ⟨-1, 5, 1, 4, .dyed .blue⟩]⟩ .center
    (Patch.tiled 2 ⟨7, 7, 3, 2, .dyed .pink⟩)).turned .threeQuarter

/-- All sides are exchanged by the one turn around them. -/
theorem border_swatches :
    border.build = .ok (.design borderDesign) ∧
      (Value.design borderDesign).swatches = [⟨6, 6, .css "teal"⟩, ⟨4, 1, .dyed .blue⟩,
        ⟨2, 3, .dyed .pink⟩, ⟨2, 3, .dyed .pink⟩] := by
  have built : border.build = .ok (.design borderDesign) := rfl
  exact ⟨built, swatches_of_build built⟩

end Border

end Nesting

end Patchwork
