import Patchwork.Proofs.History
import Patchwork.Proofs.Layout.Swatches
import Patchwork.Scalar.Binary64

/-!
# Well-made values

The sides of a rectangle are looked at once, where it is made. All other operators, names, arguments
and stored functions hand on what they are given, at most with the sides exchanged: so every patch
that a session ever deals with has sides that pass, one that no layout has placed still lies at the
origin, and no design is empty. This holds inside of calls as well.
-/

namespace Patchwork

variable {K : Type}

section Sessions

variable {trait : Trait K}

theorem Session.Has.push {s : Session K} (h : s.Has trait) {frame : Frame (Value K)}
    (hf : frame.Has trait) (depth : Nat) :
    Session.Has trait { s with depth := depth, environment := s.environment.push frame } :=
  List.forall_mem_cons.2 ⟨hf, h⟩

end Sessions

variable [Scalar K]

/-- The sessions that evaluation goes through: the session itself, at any depth, and the one in
which the body of a call is evaluated, with a frame of the arguments on top. -/
inductive Session.Within (s : Session K) : Session K → Prop
  | here (depth : Nat) : Within s { s with depth := depth }
  | call {t : Session K} {f : String} {fn : Function} {arguments : List Expr}
      {frame : Frame (Value K)} (depth : Nat) : Within s t →
      t.environment.get? f = some (.function fn) →
      ((Expr.evalArguments Expr.eval (fn.parameters.zip arguments)).run t).1 = .ok frame →
      Within s { t with depth := depth, environment := t.environment.push frame }

/-- The value is returned by one of the steps or, behind them, held in a frame or found by an
evaluation, inside of calls or not. -/
def Session.Meets (s : Session K) (steps : List Step) (v : Value K) : Prop :=
  .ok (some v) ∈ (s.performAll steps).1 ∨
    ∃ t, (s.performAll steps).2.Within t ∧ (t.Holds v ∨ ∃ e : Expr, (e.eval.run t).1 = .ok v)

namespace Trait.Kept

variable {trait : Trait K} {s t : Session K}

theorem ensures_evalArguments (kept : trait.Kept t.limits) (h : t.Has trait)
    (bindings : List (String × Expr)) :
    Ensures ((Expr.evalArguments Expr.eval bindings).run t).1 (Frame.Has trait) := by
  let sub : Scope (Value K) → Expr → Except (Fault K) (Value K) := fun scope e =>
    e.meaning t.limits (t.limits.maxDepth - t.depth) scope
  have sound (env : Environment (Value K)) (e : Expr) :
      Evaluation.Yields e.eval { t with environment := env } (sub env.scope e) :=
    e.eval_run { t with environment := env }
  have has (scope : Scope (Value K)) (visible : scope.Has trait) (e : Expr) :
      Ensures (sub scope e) (Value.Has trait) :=
    kept.ensures_meaning _ visible e
  rw [Expr.yields_evalArguments sound bindings]
  exact ensures_arguments has h.scope bindings

/-- A frame of arguments adds nothing that was not evaluated in the frames below it. -/
theorem has_within (kept : trait.Kept s.limits) (h : s.Has trait) (within : s.Within t) :
    t.Has trait ∧ t.limits = s.limits := by
  -- The limits are carried along, since what is kept depends on them.
  induction within with
  | here depth => exact ⟨h, rfl⟩
  | @call t f fn arguments frame depth _ _ evaluated ih =>
    obtain ⟨below, limits⟩ := ih
    have kept : trait.Kept t.limits := limits ▸ kept
    exact ⟨below.push (kept.ensures_evalArguments below _ frame evaluated) depth, limits⟩

theorem has_of_meets (kept : trait.Kept s.limits) (h : s.Has trait) {steps : List Step}
    {v : Value K} (met : s.Meets steps v) : v.Has trait := by
  obtain ⟨returned, last⟩ := kept.performAll h steps
  rcases met with now | ⟨t, within, found⟩
  · exact returned v now
  · have kept : trait.Kept (s.performAll steps).2.limits := (s.limits_performAll steps).symm ▸ kept
    obtain ⟨has, limits⟩ := kept.has_within last within
    rcases found with held | ⟨e, evaluated⟩
    · exact has.of_holds held
    · rw [Expr.eval_run] at evaluated
      exact Trait.Kept.ensures_session_meaning (limits.symm ▸ kept) has e v evaluated

end Trait.Kept

/-- The sides are such as a rectangle may have. -/
def Swatch.IsUsable (s : Swatch K) : Prop :=
  Scalar.usable s.width = true ∧ Scalar.usable s.height = true

/-- What is true of every value, as soon as it is true of those that it is made from. -/
def wellMade (K : Type) [Scalar K] : Trait K where
  patch p := p.x = 0 ∧ p.y = 0 ∧ p.swatch.IsUsable
  design d := d.patches ≠ [] ∧ ∀ p ∈ d.patches, p.swatch.IsUsable

section Operators

theorem isUsable_turned {s : Swatch K} (t : Turn) (h : s.IsUsable) : (s.turned t).IsUsable := by
  cases t with
  | zero => exact h
  | quarter => exact h.symm
  | half => exact h
  | threeQuarter => exact h.symm

/-- Where the patches of a design are does not matter. -/
theorem wellMade_design_iff {d : Design K} :
    (wellMade K).design d ↔ d.swatches ≠ [] ∧ ∀ s ∈ d.swatches, s.IsUsable := by
  rw [Design.swatches, List.forall_mem_map, Ne, List.map_eq_nil_iff]
  rfl

/-- Copies are of a patch that is there, and there is at least one. -/
theorem wellMade_copies {d : Design K} {count : Int} {swatches : List (Swatch K)}
    (positive : 0 < count) (some : swatches ≠ []) (usable : ∀ s ∈ swatches, s.IsUsable)
    (same : d.swatches = (List.replicate count.toNat swatches).flatten) :
    (wellMade K).design d := by
  rw [wellMade_design_iff, same]
  refine ⟨?_, ?_⟩
  · obtain ⟨more, several⟩ := Nat.exists_eq_succ_of_ne_zero (n := count.toNat) (by omega)
    rw [several, List.replicate_succ, List.flatten_cons]
    exact List.append_ne_nil_of_left_ne_nil some _
  · intro s member
    obtain ⟨copy, isCopy, within⟩ := List.mem_flatten.1 member
    rw [List.eq_of_mem_replicate isCopy] at within
    exact usable s within

/-- No operator asks about sides again, and none has to. -/
theorem wellMade_kept (limits : Limits) : (wellMade K).Kept limits where
  unplaced _ width height := ⟨rfl, rfl, width, height⟩
  framed h := wellMade_design_iff.2 ⟨List.cons_ne_nil _ _, List.forall_mem_singleton.2 h.2.2⟩
  joined := by
    intro layout base item d first second joined _
    obtain ⟨some, usable⟩ := wellMade_design_iff.1 first
    rw [wellMade_design_iff, swatches_join joined]
    refine ⟨List.append_ne_nil_of_left_ne_nil some _, ?_⟩
    exact List.forall_mem_append.2 ⟨usable, (wellMade_design_iff.1 second).2⟩
  turnedPatch := by
    intro p t h
    have place : (p.turned t).x = p.x ∧ (p.turned t).y = p.y := by
      cases t <;> exact ⟨rfl, rfl⟩
    refine ⟨place.1.trans h.1, place.2.trans h.2.1, ?_⟩
    rw [swatch_turned]
    exact isUsable_turned t h.2.2
  turnedDesign := by
    intro d t h
    obtain ⟨some, usable⟩ := wellMade_design_iff.1 h
    rw [wellMade_design_iff, swatches_turned]
    refine ⟨mt List.map_eq_nil_iff.1 some, List.forall_mem_map.2 ?_⟩
    intro s member
    exact isUsable_turned t (usable s member)
  tiledPatch := by
    intro p n count h _ positive _
    refine wellMade_copies positive (List.cons_ne_nil p.swatch [])
      (List.forall_mem_singleton.2 h.2.2) ?_
    rw [swatches_tiledPatch, List.flatten_replicate_singleton]
  tiledDesign := by
    intro d n count h _ positive _
    obtain ⟨some, usable⟩ := wellMade_design_iff.1 h
    exact wellMade_copies positive some usable (swatches_tiled _ d)

end Operators

/-- Whatever a session, which started empty, has been asked for, in vain or not: every value that it
returns, holds or comes across is well-made. -/
theorem wellMade_of_meets {limits : Limits} {steps : List Step} {v : Value K}
    (met : (Session.new limits).Meets steps v) : v.Has (wellMade K) := by
  have kept : (wellMade K).Kept (Session.new (K := K) limits).limits := wellMade_kept limits
  exact kept.has_of_meets (Session.has_new _ limits) met

section Tile

/-- A failure, a function that takes a tile twice, and a tile that is turned and bound. -/
def tileSteps : List Step :=
  [.run ⟨[], .rot (.angle 45) (.name "tile")⟩,
    .bind (.function "twice" ["a"] (.rep (.number 2) (.name "a"))),
    .bind (.assigned "tile" (.rot (.angle 90) (.rect (.number 1) (.number 2) (.color "red"))))]

def tile : Patch Float :=
  (Patch.unplaced (Scalar.ofInt 1) (Scalar.ofInt 2) (Color.ofText "red")).turned .quarter

def tileSession : Session Float where
  limits := ⟨8, 3⟩
  depth := 0
  environment := ⟨⟨[("tile", .patch tile),
    ("twice", .function ⟨["a"], .rep (.number 2) (.name "a")⟩)]⟩, []⟩

/-- The tile is held by the frame in which the body of the function is evaluated. -/
theorem tileSteps_meet_tile :
    (Session.new (K := Float) ⟨8, 3⟩).Meets tileSteps (.patch tile) := by
  have last : ((Session.new (K := Float) ⟨8, 3⟩).performAll tileSteps).2 = tileSession := rfl
  have found : tileSession.environment.get? "twice" =
      some (.function ⟨["a"], .rep (.number 2) (.name "a")⟩) := rfl
  have evaluated : ((Expr.evalArguments Expr.eval (["a"].zip [.name "tile"])).run tileSession).1 =
      .ok ⟨[("a", .patch tile)]⟩ := rfl
  rw [Session.Meets, last]
  refine Or.inr ⟨_, .call 1 (.here 0) found evaluated, Or.inl ⟨_, List.mem_cons_self, "a", ?_⟩⟩
  exact List.mem_singleton_self _

theorem tile_wellMade :
    (Session.new (K := Float) ⟨8, 3⟩).Meets tileSteps (.patch tile) ∧
      (Value.patch tile).Has (wellMade Float) :=
  ⟨tileSteps_meet_tile, wellMade_of_meets tileSteps_meet_tile⟩

end Tile

end Patchwork
