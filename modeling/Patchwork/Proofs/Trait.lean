import Patchwork.Proofs.Meaning
import Patchwork.Proofs.Outcome

/-!
# Traits of values

A trait says something about patches and about designs. If the operators hand a trait on, then every
value that an expression stands for has it as soon as the values in scope have it: sizes are only
checked where a patch is made, and everything else rests on what its operands are.
-/

namespace Patchwork

/-- Something that holds of patches and of designs. -/
structure Trait (K : Type) where
  patch : Patch K → Prop
  design : Design K → Prop

variable {K : Type}

/-- Values that cannot be drawn have every trait. -/
def Value.Has (trait : Trait K) : Value K → Prop
  | patch p => trait.patch p
  | design d => trait.design d
  | _ => True

/-- Every value that is bound in the frame has the trait. -/
def Frame.Has (trait : Trait K) (frame : Frame (Value K)) : Prop :=
  ∀ binding ∈ frame.bindings, binding.2.Has trait

/-- Every value that is in sight has the trait. -/
structure Scope.Has (trait : Trait K) (scope : Scope (Value K)) : Prop where
  session : scope.session.Has trait
  call : ∀ frame, scope.call? = some frame → frame.Has trait

section Frames

variable {trait : Trait K}

theorem Frame.has_empty : (Frame.empty : Frame (Value K)).Has trait := by
  intro binding h
  cases h

theorem Frame.has_insert {frame : Frame (Value K)} (h : frame.Has trait) (name : String)
    {v : Value K} (hv : v.Has trait) : (frame.insert name v).Has trait := by
  intro binding member
  rcases List.mem_cons.1 member with rfl | kept
  · exact hv
  · exact h binding (List.mem_filter.1 kept).1

theorem Frame.has_of_get? {frame : Frame (Value K)} (h : frame.Has trait) {name : String}
    {v : Value K} (found : frame.get? name = some v) : v.Has trait := by
  obtain ⟨before, after, split, _⟩ := List.lookup_eq_some_iff.1 found
  apply h (name, v)
  rw [split]
  simp

theorem Scope.has_inCall {scope : Scope (Value K)} (h : scope.Has trait)
    {frame : Frame (Value K)} (hf : frame.Has trait) : (scope.inCall frame).Has trait where
  session := h.session
  call := by
    intro inner same
    cases same
    exact hf

theorem Scope.has_of_get? {scope : Scope (Value K)} (h : scope.Has trait) {name : String}
    {v : Value K} (found : scope.get? name = some v) : v.Has trait := by
  obtain ⟨session, call?⟩ := scope
  cases call? with
  | none => exact Frame.has_of_get? h.session found
  | some frame =>
    rcases Option.or_eq_some_iff.1 found with inner | ⟨_, outer⟩
    · exact Frame.has_of_get? (h.call frame rfl) inner
    · exact Frame.has_of_get? h.session outer

theorem Scope.ensures_require {scope : Scope (Value K)} (h : scope.Has trait) (name : String) :
    Ensures (scope.require name) (Value.Has trait) := by
  rw [require]
  cases found : scope.get? name with
  | none => exact ensures_error _ _
  | some v => exact ensures_ok (has_of_get? h found)

end Frames

variable [Scalar K]

/-- A trait that the operators hand on under the given limits. -/
structure Trait.Kept (trait : Trait K) (limits : Limits) : Prop where
  unplaced : ∀ {w h : K} (c : Color), Scalar.usable w = true → Scalar.usable h = true →
    trait.patch (Patch.unplaced w h c)
  framed : ∀ {p : Patch K}, trait.patch p → trait.design (Design.ofPatch p)
  joined : ∀ {layout : Layout} {base item d : Design K}, trait.design base → trait.design item →
    layout.join base item = .ok d → d.patches.length ≤ limits.maxPatches → trait.design d
  turnedPatch : ∀ {p : Patch K} (t : Turn), trait.patch p → trait.patch (p.turned t)
  turnedDesign : ∀ {d : Design K} (t : Turn), trait.design d → trait.design (d.turned t)
  tiledPatch : ∀ {p : Patch K} {n : K} {count : Int}, trait.patch p →
    Scalar.whole? n = some count → 0 < count →
    ¬Scalar.ofNat limits.maxPatches < n * Scalar.ofNat 1 → trait.design (p.tiled count.toNat)
  tiledDesign : ∀ {d : Design K} {n : K} {count : Int}, trait.design d →
    Scalar.whole? n = some count → 0 < count →
    ¬Scalar.ofNat limits.maxPatches < n * Scalar.ofNat d.patches.length →
    trait.design (d.tiled count.toNat)

section Checks

variable {limits : Limits}

omit [Scalar K] in
theorem ensures_checkPatches (count : Nat) :
    Ensures (limits.checkPatches (K := K) count) fun _ => count ≤ limits.maxPatches :=
  ensures_ite (fun _ => ensures_error _ _) fun few => ensures_ok (Nat.le_of_not_lt few)

theorem ensures_checkCopies (copies : K) (patches : Nat) :
    Ensures (limits.checkCopies copies patches)
      fun _ => ¬Scalar.ofNat limits.maxPatches < copies * Scalar.ofNat patches :=
  ensures_ite (fun _ => ensures_error _ _) fun few => ensures_ok few

theorem ensures_checkSize (width height : K) :
    Ensures (Expr.checkSize width height)
      fun _ => Scalar.usable width = true ∧ Scalar.usable height = true := by
  refine ensures_ite (fun usable => ensures_ok ?_) fun _ => ensures_error _ _
  simpa using usable

theorem ensures_copies (n : K) :
    Ensures (Expr.copies n)
      fun tiles => ∃ count, Scalar.whole? n = some count ∧ 0 < count ∧ tiles = count.toNat := by
  rw [Expr.copies]
  cases whole : Scalar.whole? n with
  | none => exact ensures_error _ _
  | some count =>
    refine ensures_ite (fun positive => ?_) fun _ => ensures_error _ _
    exact ensures_ok ⟨count, rfl, positive, rfl⟩

end Checks

namespace Trait.Kept

variable {trait : Trait K} {limits : Limits} (kept : trait.Kept limits)

include kept

theorem design_of_toDesign? {v : Value K} (h : v.Has trait) {d : Design K}
    (drawn : v.toDesign? = some d) : trait.design d := by
  cases v with
  | patch p =>
    cases drawn
    exact kept.framed h
  | design d =>
    cases drawn
    exact h
  | _ => cases drawn

theorem ensures_element (layout : Layout) {v : Value K} (h : v.Has trait) :
    Ensures (layout.element v) trait.design := by
  rw [Layout.element]
  cases drawn : v.toDesign? with
  | none => exact ensures_error _ _
  | some d => exact ensures_ok (kept.design_of_toDesign? h drawn)

theorem ensures_turned (t : Turn) {v : Value K} (h : v.Has trait) :
    Ensures (v.turned t) (Value.Has trait) := by
  cases v with
  | patch p => exact ensures_ok (kept.turnedPatch t h)
  | design d => exact ensures_ok (kept.turnedDesign t h)
  | _ => exact ensures_error _ _

theorem ensures_tiled {n : K} {count : Int} (whole : Scalar.whole? n = some count)
    (positive : 0 < count) {v : Value K} (h : v.Has trait)
    (few : ¬Scalar.ofNat limits.maxPatches < n * Scalar.ofNat v.patchCount) :
    Ensures (v.tiled count.toNat) trait.design := by
  refine ensures_ite (fun _ => ensures_error _ _) fun _ => ?_
  cases v with
  | patch p => exact ensures_ok (kept.tiledPatch h whole positive few)
  | design d => exact ensures_ok (kept.tiledDesign h whole positive few)
  | _ => exact ensures_error _ _

/-!
One node, where the values of the expressions below it have the trait.
-/

/-- Only here are sizes looked at. -/
theorem ensures_rect (sub : Scope (Value K) → Expr → Except (Fault K) (Value K))
    (scope : Scope (Value K)) (width height color : Expr) :
    Ensures (Meaning.rect sub scope width height color) (Value.Has trait) := by
  refine ensures_bind (ensures_true _) fun w _ => ensures_bind (ensures_true _) fun h _ => ?_
  refine ensures_bind (ensures_checkSize w h) fun _ sizes => ?_
  refine ensures_bind (ensures_true _) fun _ _ => ensures_bind (ensures_true _) fun c _ => ?_
  exact ensures_ok (kept.unplaced c sizes.1 sizes.2)

variable {sub : Scope (Value K) → Expr → Except (Fault K) (Value K)}
  (has : ∀ scope, scope.Has trait → ∀ e, Ensures (sub scope e) (Value.Has trait))
  {scope : Scope (Value K)} (visible : scope.Has trait)

include has visible

/-- The limit is asked about the design that was joined, not about its parts. -/
theorem ensures_push (layout : Layout) {base : Design K} (h : trait.design base) (item : Expr) :
    Ensures (Meaning.push limits sub scope layout base item) trait.design := by
  refine ensures_bind (has scope visible item) fun v hv => ?_
  have joining : Ensures (layout.push base v) fun d =>
      ∃ item, trait.design item ∧ layout.join base item = .ok d :=
    ensures_bind (kept.ensures_element layout hv) fun item fits d joined => ⟨item, fits, joined⟩
  refine ensures_bind joining fun d ⟨item, fits, joined⟩ => ?_
  refine ensures_bind (ensures_checkPatches _) fun _ few => ?_
  exact ensures_ok (kept.joined h fits joined few)

theorem ensures_arrange (layout : Layout) (items : List Expr) :
    Ensures (Meaning.arrange limits sub scope layout items) (Value.Has trait) := by
  cases items with
  | nil => exact ensures_error _ _
  | cons item items =>
    refine ensures_bind (has scope visible item) fun v hv => ?_
    refine ensures_bind (kept.ensures_element layout hv) fun first hf => ?_
    refine ensures_bind (ensures_foldlM (fun base item h => ?_) items hf) fun d hd => ensures_ok hd
    exact kept.ensures_push has visible layout h item

theorem ensures_overlay (anchor : String) (items : List Expr) :
    Ensures (Meaning.overlay limits sub scope anchor items) (Value.Has trait) :=
  ensures_bind (ensures_true _) fun a _ => kept.ensures_arrange has visible (.overlay a) items

theorem ensures_rot (angle target : Expr) :
    Ensures (Meaning.rot sub scope angle target) (Value.Has trait) := by
  refine ensures_bind (ensures_true _) fun v _ => ensures_bind (ensures_true _) fun t _ => ?_
  exact ensures_bind (has scope visible target) fun v hv => kept.ensures_turned t hv

theorem ensures_rep (count target : Expr) :
    Ensures (Meaning.rep limits sub scope count target) (Value.Has trait) := by
  refine ensures_bind (ensures_true _) fun n _ => ?_
  refine ensures_bind (ensures_copies n) fun tiles ⟨count, whole, positive, same⟩ => ?_
  refine ensures_bind (has scope visible target) fun v hv => ?_
  refine ensures_bind (ensures_checkCopies n v.patchCount) fun _ few => ?_
  subst same
  exact ensures_bind (kept.ensures_tiled whole positive hv few) fun d hd => ensures_ok hd

omit [Scalar K] kept in
theorem ensures_arguments (bindings : List (String × Expr)) :
    Ensures (bindings.foldlM (Meaning.argument sub scope) Frame.empty) (Frame.Has trait) := by
  have argument (frame : Frame (Value K)) (binding : String × Expr) (hf : frame.Has trait) :
      Ensures (Meaning.argument sub scope frame binding) (Frame.Has trait) :=
    ensures_bind (has scope visible binding.2) fun v hv =>
      ensures_ok (Frame.has_insert hf binding.1 hv)
  exact ensures_foldlM argument bindings Frame.has_empty

omit [Scalar K] kept in
theorem ensures_call (f : String) (arguments : List Expr) :
    Ensures (Meaning.call sub scope f arguments) (Value.Has trait) := by
  refine ensures_bind (ensures_true _) fun v _ => ensures_bind (ensures_true _) fun fn _ => ?_
  refine ensures_bind (ensures_true _) fun _ _ => ?_
  refine ensures_bind (ensures_arguments has visible _) fun frame hf => ?_
  exact has _ (Scope.has_inCall visible hf) fn.body

theorem ensures_node (e : Expr) :
    Ensures (Meaning.node limits sub scope e) (Value.Has trait) := by
  cases e with
  | number n => exact ensures_ok trivial
  | angle degrees => exact ensures_ok trivial
  | color text => exact ensures_ok trivial
  | name x => exact Scope.ensures_require visible x
  | call f arguments => exact ensures_call has visible f arguments
  | arithmetic op left right =>
    refine ensures_bind (ensures_true _) fun a _ => ensures_bind (ensures_true _) fun b _ => ?_
    cases op <;> exact ensures_ok trivial
  | rect width height color => exact kept.ensures_rect sub scope width height color
  | strip axis items => exact kept.ensures_arrange has visible (.strip axis) items
  | overlay anchor items => exact kept.ensures_overlay has visible anchor items
  | rot angle target => exact kept.ensures_rot has visible angle target
  | rep count target => exact kept.ensures_rep has visible count target

omit has visible in
theorem ensures_meaning (levels : Nat) {scope : Scope (Value K)} (visible : scope.Has trait)
    (e : Expr) : Ensures (e.meaning limits levels scope) (Value.Has trait) := by
  induction levels generalizing scope e with
  | zero => exact ensures_error _ _
  | succ levels ih => exact kept.ensures_node (fun _ h e => ih h e) visible e

end Trait.Kept

end Patchwork
