import Mathlib.Data.List.Forall2
import Patchwork.Proofs.Layout.Exact
import Patchwork.Proofs.Outcome

/-!
# Nestings

How a value is put together by layouts, turns and copies, to any depth. Where all that goes in are
patches that no layout has placed, a value may be taken for the design that frames it at every step:
what designs hand on from the parts to the whole is then true of all that is built.
-/

namespace Patchwork

inductive Nesting (K : Type) where
  | value (v : Value K)
  | arranged (layout : Layout) (items : List (Nesting K))
  | turned (t : Turn) (target : Nesting K)
  | tiled (count : Nat) (target : Nesting K)

namespace Nesting

section Building

variable {K : Type} [Scalar K]

mutual

/-- The value, or the first fault on the way to it. -/
def build : Nesting K → Except (Fault K) (Value K)
  | .value v => .ok v
  | .arranged layout items => do
    let vs ← buildAll items
    return .design (← layout.compose vs)
  | .turned t target => do
    let v ← target.build
    v.turned t
  | .tiled count target => do
    let v ← target.build
    return .design (← v.tiled count)

def buildAll : List (Nesting K) → Except (Fault K) (List (Value K))
  | [] => .ok []
  | item :: items => do
    let v ← item.build
    let vs ← buildAll items
    return v :: vs

end

/-- Nestings that use only such layouts and start from such values. -/
inductive MadeOf (layouts : Layout → Prop) (leaves : Value K → Prop) : Nesting K → Prop
  | value {v : Value K} : leaves v → MadeOf layouts leaves (.value v)
  | arranged {layout : Layout} {items : List (Nesting K)} :
      layouts layout → (∀ item ∈ items, MadeOf layouts leaves item) →
      MadeOf layouts leaves (.arranged layout items)
  | turned {target : Nesting K} (t : Turn) :
      MadeOf layouts leaves target → MadeOf layouts leaves (.turned t target)
  | tiled {target : Nesting K} (count : Nat) :
      MadeOf layouts leaves target → MadeOf layouts leaves (.tiled count target)

end Building

end Nesting

section Standing

/-- A patch that still lies at the origin stands for the design that it frames. -/
inductive Value.StandsFor : Value Rat → Design Rat → Prop
  | patch (p : Patch Rat) : p.x = 0 → p.y = 0 → StandsFor (.patch p) (Design.ofPatch p)
  | design (d : Design Rat) : StandsFor (.design d) d

variable {v : Value Rat} {d : Design Rat}

theorem toDesign?_of_standsFor (h : v.StandsFor d) : v.toDesign? = some d := by
  cases h with
  | patch p x y => rfl
  | design => rfl

theorem element_of_standsFor (layout : Layout) (h : v.StandsFor d) : layout.element v = .ok d := by
  rw [Layout.element, toDesign?_of_standsFor h]

theorem transposed_ofPatch (p : Patch Rat) :
    (Design.ofPatch p).transposed = Design.ofPatch p.swapped := by
  rfl

theorem mirrored_ofPatch (p : Patch Rat) : (Design.ofPatch p).mirrored = Design.ofPatch p := by
  have mirrored : (Design.ofPatch p).mirrored =
      ⟨p.width, p.height, [⟨p.width - (0 + p.width), 0, p.width, p.height, p.color⟩]⟩ := rfl
  rw [mirrored, zero_add, sub_self]
  rfl

/-- Inside the box that it frames, a patch is turned onto the box. -/
theorem turned_ofPatch (t : Turn) (p : Patch Rat) :
    (Design.ofPatch p).turned t = Design.ofPatch (p.turned t) := by
  cases t with
  | zero => exact Design.turned_zero _
  | quarter =>
    rw [Design.turned_quarter, transposed_ofPatch, mirrored_ofPatch]
    rfl
  | half =>
    rw [Design.turned_half, transposed_ofPatch, mirrored_ofPatch, transposed_ofPatch,
      mirrored_ofPatch]
    rfl
  | threeQuarter =>
    rw [Design.turned_threeQuarter, mirrored_ofPatch, transposed_ofPatch]
    rfl

theorem turned_of_standsFor (t : Turn) (h : v.StandsFor d) :
    ∃ w, v.turned t = .ok w ∧ w.StandsFor (d.turned t) := by
  cases h with
  | patch p x y =>
    refine ⟨_, rfl, ?_⟩
    rw [turned_ofPatch]
    have kept : (p.turned t).x = p.x ∧ (p.turned t).y = p.y := by
      cases t <;> exact ⟨rfl, rfl⟩
    exact .patch _ (kept.1.trans x) (kept.2.trans y)
  | design => exact ⟨_, rfl, .design _⟩

theorem tiled_ofPatch (count : Nat) {p : Patch Rat} (x : p.x = 0) (y : p.y = 0) :
    p.tiled count = (Design.ofPatch p).tiled count := by
  obtain ⟨_, _, w, h, c⟩ := p
  cases x
  cases y
  rw [Design.tiled_eq, Patch.tiled, List.map_eq_flatMap]
  rfl

theorem tiled_of_standsFor {count : Nat} (some : count ≠ 0) (h : v.StandsFor d) :
    v.tiled count = .ok (d.tiled count) := by
  unfold Value.tiled
  rw [if_neg some]
  cases h with
  | patch p x y => exact congrArg Except.ok (tiled_ofPatch count x y)
  | design => rfl

/-- The designs that the elements stand for, joined in order. -/
def Layout.joinAll (layout : Layout) : List (Design Rat) → Except (Fault Rat) (Design Rat)
  | [] => .error (.emptyArrangement layout.arrangement)
  | d :: ds => ds.foldlM layout.join d

/-- Copies are a row of their own. -/
theorem joinAll_replicate {count : Nat} (some : count ≠ 0) (d : Design Rat) :
    (Layout.strip .horizontal).joinAll (List.replicate count d) = .ok (d.tiled count) := by
  have joined (more first : Nat) :
      (List.replicate more d).foldlM (Layout.strip .horizontal).join (d.tiled first) =
        .ok (d.tiled (first + more)) := by
    induction more generalizing first with
    | zero => rfl
    | succ more ih =>
      have next : (Layout.strip .horizontal).join (d.tiled first) d = .ok (d.tiled (first + 1)) :=
        Layout.join_horizontal_eq_ok.2 ⟨rfl, (Design.tiled_succ d first).symm⟩
      rw [List.replicate_succ, List.foldlM_cons, next]
      have later := ih (first + 1)
      rwa [Nat.add_right_comm] at later
  obtain ⟨more, rfl⟩ := Nat.exists_eq_succ_of_ne_zero some
  have all := joined more 1
  rw [Design.tiled_one, Nat.add_comm] at all
  exact all

/-- What each joining keeps, all of them keep. -/
theorem Layout.ensures_joinAll {layout : Layout} {P : Design Rat → Prop}
    (joined : ∀ {base item}, P base → P item → Ensures (layout.join base item) P)
    {ds : List (Design Rat)} (h : ∀ d ∈ ds, P d) : Ensures (layout.joinAll ds) P := by
  cases ds with
  | nil => exact ensures_error _ _
  | cons d ds =>
    obtain ⟨first, others⟩ := List.forall_mem_cons.1 h
    change Ensures (ds.foldlM layout.join d) P
    induction ds generalizing d with
    | nil => exact ensures_ok first
    | cons next ds ih =>
      obtain ⟨second, others⟩ := List.forall_mem_cons.1 others
      rw [List.foldlM_cons]
      refine ensures_bind (joined first second) ?_
      intro d holds
      exact ih d (List.forall_mem_cons.2 ⟨holds, others⟩) holds others

/-- What joining in a row keeps, copies keep. -/
theorem tiled_of_joined {P : Design Rat → Prop}
    (joined : ∀ {base item}, P base → P item →
      Ensures ((Layout.strip .horizontal).join base item) P)
    {count : Nat} (some : count ≠ 0) {d : Design Rat} (h : P d) : P (d.tiled count) := by
  have copies : ∀ copy ∈ List.replicate count d, P copy := by
    intro copy mem
    rw [List.eq_of_mem_replicate mem]
    exact h
  exact Layout.ensures_joinAll joined copies _ (joinAll_replicate some d)

theorem compose_of_standsFor (layout : Layout) {vs : List (Value Rat)} {ds : List (Design Rat)}
    (h : List.Forall₂ Value.StandsFor vs ds) : layout.compose vs = layout.joinAll ds := by
  cases h with
  | nil => rfl
  | @cons v d vs ds first others =>
    have pushed (base : Design Rat) : vs.foldlM layout.push base = ds.foldlM layout.join base := by
      induction others generalizing base with
      | nil => rfl
      | cons next _ ih =>
        rw [List.foldlM_cons, List.foldlM_cons, Layout.push, element_of_standsFor layout next]
        exact congrArg _ (funext ih)
    rw [Layout.compose, element_of_standsFor layout first]
    exact pushed d

end Standing

namespace Nesting

/-- What designs hand on from the parts of a nesting to the whole. -/
structure Carried (layouts : Layout → Prop) (leaves : Value Rat → Prop)
    (P : Nesting Rat → Design Rat → Prop) : Prop where
  value {v : Value Rat} : leaves v → ∃ d, v.StandsFor d ∧ P (.value v) d
  arranged {layout : Layout} {items : List (Nesting Rat)} {ds : List (Design Rat)}
    {d : Design Rat} : layouts layout → List.Forall₂ P items ds → layout.joinAll ds = .ok d →
    P (.arranged layout items) d
  turned {target : Nesting Rat} {d : Design Rat} (t : Turn) :
    P target d → P (.turned t target) (d.turned t)
  tiled {target : Nesting Rat} {d : Design Rat} {count : Nat} :
    count ≠ 0 → P target d → P (.tiled count target) (d.tiled count)

section Carried

variable {layouts : Layout → Prop} {leaves : Value Rat → Prop}
  {P : Nesting Rat → Design Rat → Prop}

theorem ensures_buildAll {items : List (Nesting Rat)}
    (h : ∀ item ∈ items, Ensures item.build fun v => ∃ d, v.StandsFor d ∧ P item d) :
    Ensures (buildAll items) fun vs => ∃ ds, List.Forall₂ Value.StandsFor vs ds ∧
      List.Forall₂ P items ds := by
  induction items with
  | nil => exact ensures_ok ⟨[], .nil, .nil⟩
  | cons item items ih =>
    obtain ⟨first, others⟩ := List.forall_mem_cons.1 h
    refine ensures_bind first ?_
    rintro v ⟨d, stands, holds⟩
    refine ensures_bind (ih others) ?_
    rintro vs ⟨ds, stand, hold⟩
    exact ensures_ok ⟨d :: ds, .cons stands stand, .cons holds hold⟩

/-- What is handed on is true of everything that is built. -/
theorem Carried.ensures_build (carried : Carried layouts leaves P) {n : Nesting Rat}
    (made : n.MadeOf layouts leaves) :
    Ensures n.build fun v => ∃ d, v.StandsFor d ∧ P n d := by
  induction made with
  | value leaf => exact ensures_ok (carried.value leaf)
  | @arranged layout items allowed _ ih =>
    refine ensures_bind (ensures_buildAll ih) ?_
    rintro vs ⟨ds, stand, hold⟩
    have joined : Ensures (layout.compose vs) fun d => P (.arranged layout items) d := by
      rw [compose_of_standsFor layout stand]
      intro d ok
      exact carried.arranged allowed hold ok
    refine ensures_bind joined ?_
    intro d holds
    exact ensures_ok ⟨d, .design d, holds⟩
  | turned t _ ih =>
    refine ensures_bind ih ?_
    rintro v ⟨d, stands, holds⟩
    obtain ⟨w, turned, stands⟩ := turned_of_standsFor t stands
    rw [turned]
    exact ensures_ok ⟨d.turned t, stands, carried.turned t holds⟩
  | tiled count _ ih =>
    refine ensures_bind ih ?_
    rintro v ⟨d, stands, holds⟩
    by_cases none : count = 0
    · have refused : v.tiled count = .error .zeroCount := by
        subst none
        rfl
      rw [refused]
      exact ensures_error _ _
    · rw [tiled_of_standsFor none stands]
      exact ensures_ok ⟨d.tiled count, .design _, carried.tiled none holds⟩

end Carried

end Nesting

end Patchwork
