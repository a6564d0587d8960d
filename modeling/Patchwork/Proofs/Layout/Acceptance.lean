import Patchwork.Proofs.Layout.Grouping

/-!
# Which strips can be laid out

A strip can be laid out if it has elements, all of them can be drawn and none of the others differs
from the first across the axis. If not, the fault is that of the first element for which it does not
hold, whatever comes after it. No law of arithmetic is assumed: the extents are added up from left
to right, beginning with that of the first element, and the first element stays where it is.
-/

namespace Patchwork

variable {K : Type} [Scalar K] {axis : Axis}

/-- A value as it is drawn: a patch at the origin of a box of its size. -/
inductive Value.Draws : Value K → Design K → Prop
  | patch (p : Patch K) :
      Draws (.patch p) ⟨p.width, p.height, [⟨0, 0, p.width, p.height, p.color⟩]⟩
  | design (d : Design K) : Draws (.design d) d

theorem Value.draws_iff {v : Value K} {d : Design K} : v.Draws d ↔ v.toDesign? = some d := by
  constructor
  · rintro (p | d) <;> rfl
  · intro drawn
    cases v with
    | patch p =>
      cases drawn
      exact .patch p
    | design d =>
      cases drawn
      exact .design d
    | _ => cases drawn

theorem Value.not_draws_iff {v : Value K} : (∀ d, ¬v.Draws d) ↔ v.toDesign? = none := by
  simp only [draws_iff, Option.eq_none_iff_forall_ne_some, ne_eq]

/-- The patch that much further along the axis. Across it the scalar that is added is zero. -/
def Patch.shifted (axis : Axis) (distance : K) (p : Patch K) : Patch K :=
  match axis with
  | .horizontal => ⟨p.x + distance, p.y + 0, p.width, p.height, p.color⟩
  | .vertical => ⟨p.x + 0, p.y + distance, p.width, p.height, p.color⟩

namespace Design

theorem movedAlong_eq_shifted (distance : K) (d : Design K) :
    d.movedAlong axis distance = d.patches.map (Patch.shifted axis distance) := by
  cases axis <;> rfl

/-- The extents added up from left to right. -/
def total (axis : Axis) : List (Design K) → K
  | [] => 0
  | d :: ds => reach axis (d.extent axis) ds

/-- The patches of each design in a strip: those of the first as they are, those of any other
further along the axis by the total of the designs before it. -/
def landed (axis : Axis) (ds : List (Design K)) : List (List (Patch K)) :=
  ds.mapIdx fun i d =>
    if i = 0 then d.patches else d.patches.map (Patch.shifted axis (total axis (ds.take i)))

/-- The strip of designs that are all as large as the first across the axis. -/
def row (axis : Axis) (first : Design K) (others : List (Design K)) : Design K :=
  ofExtents axis (total axis (first :: others)) (first.across axis)
    (landed axis (first :: others)).flatten

theorem blocks_eq_mapIdx (start : K) (ds : List (Design K)) :
    blocks axis start ds =
      ds.mapIdx fun i d => d.patches.map (Patch.shifted axis (reach axis start (ds.take i))) := by
  induction ds generalizing start with
  | nil => rfl
  | cons d ds ih =>
    rw [blocks, ih, List.mapIdx_cons, movedAlong_eq_shifted]
    rfl

theorem landed_cons (first : Design K) (others : List (Design K)) :
    landed axis (first :: others) = first.patches :: blocks axis (first.extent axis) others := by
  rw [blocks_eq_mapIdx, landed, List.mapIdx_cons]
  rfl

end Design

namespace Layout

/-- The values can be drawn as these designs, none of which differs from the first across the
axis. -/
structure AreLevel (axis : Axis) (vs : List (Value K)) (ds : List (Design K)) : Prop where
  drawn : List.Forall₂ Value.Draws vs ds
  level : ∀ first ∈ ds.head?, ∀ d ∈ ds.tail, (d.across axis == first.across axis) = true

/-- Why these values do not make a strip: there are none, or behind level ones there is one that
cannot be drawn, or that differs from the first across the axis. -/
inductive Refused (axis : Axis) : List (Value K) → Fault.Category → Fault K → Prop
  | empty : Refused axis [] .invalidArgument (.emptyArrangement (.strip axis))
  | undrawable {before : List (Value K)} {ds : List (Design K)} {v : Value K}
      (after : List (Value K)) (level : AreLevel axis before ds) (undrawn : ∀ d, ¬v.Draws d) :
      Refused axis (before ++ v :: after) .type (.wrongKind (.element (.strip axis)) v.kind)
  | uneven {before : List (Value K)} {first d : Design K} {others : List (Design K)} {v : Value K}
      (after : List (Value K)) (level : AreLevel axis before (first :: others))
      (drawn : v.Draws d) (uneven : (d.across axis == first.across axis) = false) :
      Refused axis (before ++ v :: after) .dimensionMismatch
        (.unequalSides axis (first.across axis) (d.across axis))

theorem AreLevel.nil_iff {ds : List (Design K)} : AreLevel axis [] ds ↔ ds = [] := by
  constructor
  · rintro ⟨drawn, -⟩
    exact List.forall₂_nil_left_iff.1 drawn
  · rintro rfl
    exact ⟨.nil, nofun⟩

theorem areLevel_cons {v : Value K} {vs : List (Value K)} {first : Design K}
    {others : List (Design K)} : AreLevel axis (v :: vs) (first :: others) ↔
      v.Draws first ∧ List.Forall₂ Value.Draws vs others ∧
      ∀ d ∈ others, (d.across axis == first.across axis) = true := by
  constructor
  · rintro ⟨drawn, level⟩
    obtain ⟨now, more⟩ := List.forall₂_cons.1 drawn
    exact ⟨now, more, level first rfl⟩
  · rintro ⟨now, more, level⟩
    refine ⟨.cons now more, ?_⟩
    rintro _ ⟨⟩
    exact level

/-- The values that can be drawn are drawn as the designs found in them. -/
theorem drawn_iff {vs : List (Value K)} {ds : List (Design K)} :
    (∀ v ∈ vs, v.toDesign?.isSome) ∧ vs.filterMap Value.toDesign? = ds ↔
      List.Forall₂ Value.Draws vs ds := by
  constructor
  · rintro ⟨drawn, rfl⟩
    induction vs with
    | nil => exact .nil
    | cons v vs ih =>
      obtain ⟨now, more⟩ := List.forall_mem_cons.1 drawn
      obtain ⟨d, now⟩ := Option.isSome_iff_exists.1 now
      rw [List.filterMap_cons_some now]
      exact .cons (Value.draws_iff.2 now) (ih more)
  · intro drawn
    induction drawn with
    | nil => exact ⟨nofun, rfl⟩
    | cons now _ ih =>
      obtain ⟨some, found⟩ := ih
      have now := Value.draws_iff.1 now
      rw [List.filterMap_cons_some now, found]
      exact ⟨List.forall_mem_cons.2 ⟨now ▸ rfl, some⟩, rfl⟩

theorem element_eq_ok_iff_draws {layout : Layout} {v : Value K} {d : Design K} :
    layout.element v = .ok d ↔ v.Draws d :=
  element_eq_ok.trans Value.draws_iff.symm

theorem element_eq_error {layout : Layout} {v : Value K} {fault : Fault K} :
    layout.element v = .error fault ↔
      (∀ d, ¬v.Draws d) ∧ .wrongKind (.element layout.arrangement) v.kind = fault := by
  rw [element, Value.not_draws_iff]
  cases v.toDesign? with
  | none => rw [Except.error.injEq, eq_self, true_and]
  | some d => simp only [reduceCtorEq, false_and]

theorem compose_strip_eq_ok {vs : List (Value K)} {d : Design K} :
    (strip axis).compose vs = .ok d ↔
      ∃ first others, AreLevel axis vs (first :: others) ∧ d = .row axis first others := by
  cases vs with
  | nil => simp [compose, AreLevel.nil_iff]
  | cons v vs =>
    simp only [compose, bind_eq_ok, element_eq_ok_iff_draws, foldlM_push_eq_ok,
      foldlM_join_strip_eq_ok, areLevel_cons, Design.row, Design.landed_cons, List.flatten_cons]
    constructor
    · rintro ⟨first, now, more, level, rfl⟩
      exact ⟨first, _, ⟨now, drawn_iff.1 ⟨more, rfl⟩, level⟩, rfl⟩
    · rintro ⟨first, others, ⟨now, more, level⟩, rfl⟩
      obtain ⟨drawn, rfl⟩ := drawn_iff.2 more
      exact ⟨first, now, drawn, level, rfl⟩

/-- A layout fails at its start, or at one element behind those that have been laid out. -/
theorem compose_eq_error {layout : Layout} {vs : List (Value K)} {fault : Fault K} :
    layout.compose vs = .error fault ↔
      vs = [] ∧ .emptyArrangement layout.arrangement = fault ∨
      (∃ v after, vs = v :: after ∧ layout.element v = .error fault) ∨
      ∃ before v after d, vs = before ++ v :: after ∧ layout.compose before = .ok d ∧
        layout.push d v = .error fault := by
  cases vs with
  | nil => simp [compose]
  | cons v vs =>
    rw [compose, bind_eq_error]
    simp only [foldlM_eq_error]
    constructor
    · rintro (failed | ⟨first, drawn, before, u, after, d, rfl, reached, failed⟩)
      · exact .inr (.inl ⟨v, vs, rfl, failed⟩)
      · exact .inr (.inr ⟨v :: before, u, after, d, rfl, bind_eq_ok.2 ⟨first, drawn, reached⟩,
          failed⟩)
    · rintro (⟨⟨⟩, -⟩ | ⟨_, _, ⟨⟩, failed⟩ | ⟨before, u, after, d, parts, reached, failed⟩)
      · exact .inl failed
      · cases before with
        | nil => cases reached
        | cons first before =>
          cases parts
          obtain ⟨start, drawn, reached⟩ := bind_eq_ok.1 reached
          exact .inr ⟨start, drawn, before, u, after, d, rfl, reached, failed⟩

theorem push_strip_eq_error {base : Design K} {v : Value K} {fault : Fault K} :
    (strip axis).push base v = .error fault ↔
      (∀ d, ¬v.Draws d) ∧ .wrongKind (.element (.strip axis)) v.kind = fault ∨
      ∃ d, v.Draws d ∧ (d.across axis == base.across axis) = false ∧
        .unequalSides axis (base.across axis) (d.across axis) = fault := by
  rw [push, bind_eq_error, element_eq_error]
  refine or_congr Iff.rfl (exists_congr fun d => and_congr element_eq_ok_iff_draws ?_)
  rw [join_strip]
  cases d.across axis == base.across axis <;> simp

theorem compose_strip_eq_error {vs : List (Value K)} {fault : Fault K} :
    (strip axis).compose vs = .error fault ↔ Refused axis vs fault.category fault := by
  rw [compose_eq_error]
  simp only [element_eq_error, push_strip_eq_error, compose_strip_eq_ok]
  constructor
  · rintro (⟨rfl, rfl⟩ | ⟨v, after, rfl, undrawn, rfl⟩ |
      ⟨before, v, after, _, rfl, ⟨first, others, level, rfl⟩, failed⟩)
    · exact .empty
    · have none : AreLevel axis ([] : List (Value K)) [] := AreLevel.nil_iff.2 rfl
      exact Refused.undrawable after none undrawn
    · rcases failed with ⟨undrawn, rfl⟩ | ⟨d, drawn, uneven, rfl⟩
      · exact .undrawable after level undrawn
      · rw [Design.row, Design.across_ofExtents] at uneven ⊢
        exact .uneven after level drawn uneven
  · generalize fault.category = category
    rintro (_ | @⟨before, ds, v, after, level, undrawn⟩ |
      @⟨before, first, d, others, v, after, level, drawn, uneven⟩)
    · exact .inl ⟨rfl, rfl⟩
    · cases ds with
      | nil =>
        obtain rfl := List.forall₂_nil_right_iff.1 level.drawn
        exact .inr (.inl ⟨v, after, rfl, undrawn, rfl⟩)
      | cons first others =>
        exact .inr (.inr ⟨before, v, after, _, rfl, ⟨first, others, level, rfl⟩,
          .inl ⟨undrawn, rfl⟩⟩)
    · refine .inr (.inr ⟨before, v, after, _, rfl, ⟨first, others, level, rfl⟩, .inr ?_⟩)
      rw [Design.row, Design.across_ofExtents]
      exact ⟨d, drawn, uneven, rfl⟩

end Layout

/-- A strip can be laid out if and only if there are elements, all of them can be drawn and none
differs from the first across the axis; it is then as large as they are together, and each of them
lands where those before it end. Otherwise the first element that is not like this is at fault. -/
theorem strip_accepted_iff (axis : Axis) (vs : List (Value K)) :
    (∀ d, (Layout.strip axis).compose vs = .ok d ↔
      ∃ first others, Layout.AreLevel axis vs (first :: others) ∧
        d = .ofExtents axis (Design.total axis (first :: others)) (first.across axis)
          (Design.landed axis (first :: others)).flatten) ∧
    ∀ fault, (Layout.strip axis).compose vs = .error fault ↔
      Layout.Refused axis vs fault.category fault :=
  ⟨fun _ => Layout.compose_strip_eq_ok, fun _ => Layout.compose_strip_eq_error⟩

section Panels

/-- A design of which the patch is not at the origin, a patch that is elsewhere, and a design of
which the patch sticks out. -/
def panel : List (Value Rat) :=
  [.design ⟨3, 2, [⟨1, 0, 2, 2, .dyed .pink⟩]⟩, .patch ⟨7, 7, 1, 2, .dyed .red⟩,
    .design ⟨2, 2, [⟨1, -1, 1, 4, .dyed .green⟩]⟩]

def panelRow : Design Rat :=
  ⟨6, 2, [⟨1, 0, 2, 2, .dyed .pink⟩, ⟨3, 0, 1, 2, .dyed .red⟩, ⟨5, -1, 1, 4, .dyed .green⟩]⟩

/-- Behind the same elements, the first that is too high or cannot be drawn is at fault. -/
theorem panel_accepted :
    (Layout.strip .horizontal).compose panel = .ok panelRow ∧
      (Layout.strip .horizontal).compose (panel ++ [.design ⟨1, 3, []⟩, .number 5]) =
        .error (.unequalSides .horizontal 2 3) ∧
      (Layout.strip .horizontal).compose (panel ++ [.number 5, .design ⟨1, 3, []⟩]) =
        .error (.wrongKind (.element (.strip .horizontal)) .number) := by
  have drawn : List.Forall₂ Value.Draws panel
      [⟨3, 2, [⟨1, 0, 2, 2, .dyed .pink⟩]⟩, ⟨1, 2, [⟨0, 0, 1, 2, .dyed .red⟩]⟩,
        ⟨2, 2, [⟨1, -1, 1, 4, .dyed .green⟩]⟩] :=
    .cons (.design _) (.cons (.patch _) (.cons (.design _) .nil))
  have level : Layout.AreLevel .horizontal panel _ := ⟨drawn, by decide⟩
  have row := (strip_accepted_iff .horizontal panel).1 panelRow
  refine ⟨row.2 ⟨_, _, level, by with_unfolding_all rfl⟩, ?_, ?_⟩
  · refine ((strip_accepted_iff .horizontal _).2 _).2 ?_
    exact .uneven _ level (.design _) (by decide)
  · refine ((strip_accepted_iff .horizontal _).2 _).2 ?_
    exact .undrawable _ level nofun

end Panels

end Patchwork
