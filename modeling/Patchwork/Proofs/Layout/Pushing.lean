import Patchwork.Builder
import Patchwork.Proofs.Layout.Blocks

/-!
# Pushing and going on

What a strip asks of its elements is settled by the first of them, and an overlay asks for nothing.
So how a push comes out does not depend on the pushes before it, and those that fail may as well be
left out: whoever goes on after them ends with the layout of all the others.
-/

namespace Patchwork

variable {K : Type} [Scalar K]

namespace Layout

variable {layout : Layout} {base next : Design K}

/-- A joined element leaves what is asked of the next one as it was. -/
theorem join_after_join {item : Design K} (joined : layout.join base item = .ok next)
    (other : Design K) :
    (layout.join next other).map (fun _ => ()) = (layout.join base other).map fun _ => () := by
  cases layout with
  | strip axis =>
    rw [join_strip] at joined
    split at joined
    · cases joined
      rw [join_strip, join_strip, Design.across_ofExtents]
      split <;> rfl
    · cases joined
  | overlay anchor => rfl

theorem push_after_push {v : Value K} (pushed : layout.push base v = .ok next) (w : Value K) :
    (layout.push next w).map (fun _ => ()) = (layout.push base w).map fun _ => () := by
  obtain ⟨item, -, joined⟩ := bind_eq_ok.1 pushed
  unfold push
  cases layout.element w with
  | error fault => rfl
  | ok other => exact join_after_join joined other

end Layout

namespace Builder

/-- How pushing the value next comes out. -/
def verdict (b : Builder K) (v : Value K) : Except (Fault K) Unit :=
  ((push v).run b).1

/-- The values whose push came out well. -/
def accepted (vs : List (Value K)) (outcomes : List (Except (Fault K) Unit)) : List (Value K) :=
  ((vs.zip outcomes).filter fun pushed => pushed.2.isOk).map Prod.fst

theorem run_push (b : Builder K) (v : Value K) : (push v).run b =
    match b.layout.push b.design v with
    | .ok d => (.ok (), { b with design := d })
    | .error fault => (.error fault, b) := by
  let next (d : Design K) : Building K Unit := set { b with design := d }
  change ExceptT.bindCont next (b.layout.push b.design v) b = _
  cases b.layout.push b.design v <;> rfl

theorem verdict_eq (b : Builder K) (v : Value K) :
    b.verdict v = (b.layout.push b.design v).map fun _ => () := by
  rw [verdict, run_push]
  cases b.layout.push b.design v <;> rfl

/-- A push that came out well leaves all later ones as they would have come out without it. -/
theorem verdict_of_push {b : Builder K} {v : Value K} {d : Design K}
    (pushed : b.layout.push b.design v = .ok d) :
    verdict { b with design := d } = b.verdict := by
  funext w
  rw [verdict_eq, verdict_eq]
  exact Layout.push_after_push pushed w

theorem run_pushAll_cons (b : Builder K) (v : Value K) (vs : List (Value K)) :
    (pushAll (v :: vs)).run b =
      let (outcome, next) := (push v).run b
      let (outcomes, last) := (pushAll vs).run next
      (outcome :: outcomes, last) := by
  rw [pushAll, List.mapM_cons]
  rfl

/-- Going on after every failure is the same as never having tried what fails. -/
theorem run_pushAll (b : Builder K) (vs : List (Value K)) :
    ∃ d, (pushAll vs).run b = (vs.map b.verdict, { b with design := d }) ∧
      (accepted vs (vs.map b.verdict)).foldlM b.layout.push b.design = .ok d := by
  induction vs generalizing b with
  | nil => exact ⟨b.design, rfl, rfl⟩
  | cons v vs ih =>
    cases pushed : b.layout.push b.design v with
    | error fault =>
      obtain ⟨d, others, composed⟩ := ih b
      have refused : (push v).run b = (.error fault, b) := by
        rw [run_push, pushed]
      have outcome : b.verdict v = .error fault := congrArg Prod.fst refused
      refine ⟨d, ?_, ?_⟩
      · rw [run_pushAll_cons, refused, List.map_cons, outcome]
        simp only [others]
      · rw [List.map_cons, outcome]
        exact composed
    | ok next =>
      obtain ⟨d, others, composed⟩ := ih { b with design := next }
      rw [verdict_of_push pushed] at others composed
      have taken : (push v).run b = (.ok (), { b with design := next }) := by
        rw [run_push, pushed]
      have outcome : b.verdict v = .ok () := congrArg Prod.fst taken
      refine ⟨d, ?_, ?_⟩
      · rw [run_pushAll_cons, taken, List.map_cons, outcome]
        simp only [others]
      · rw [List.map_cons, outcome]
        exact foldlM_cons_eq_ok.2 ⟨next, pushed, composed⟩

theorem start_eq_ok {layout : Layout} {first : Value K} {b : Builder K} :
    start layout first = .ok b ↔ ∃ d, layout.element first = .ok d ∧ b = ⟨layout, d⟩ := by
  rw [start, bind_eq_ok]
  constructor
  · rintro ⟨d, drawn, same⟩
    exact ⟨d, drawn, (Except.ok.inj same).symm⟩
  · rintro ⟨d, drawn, rfl⟩
    exact ⟨d, drawn, rfl⟩

end Builder

/-- Values of all kinds are pushed one after another behind a first element, whether the ones before
came out well or not. Each comes out as it would right behind the first element. What is built in
the end is what composing the first element and just those values gives whose push came out well,
and its patches have been counted. -/
theorem failed_pushes_leave_no_trace {layout : Layout} {first : Value K} {b : Builder K}
    (started : Builder.start layout first = .ok b) (vs : List (Value K)) :
    ∃ outcomes last d, (Builder.pushAll vs).run b = (outcomes, last) ∧
      outcomes = vs.map b.verdict ∧
      layout.compose (first :: Builder.accepted vs outcomes) = .ok d ∧
      last.patchCount = d.patches.length ∧ last.finish = d := by
  obtain ⟨base, drawn, rfl⟩ := Builder.start_eq_ok.1 started
  obtain ⟨d, run, joined⟩ := Builder.run_pushAll ⟨layout, base⟩ vs
  refine ⟨_, _, d, run, rfl, ?_, rfl, rfl⟩
  exact bind_eq_ok.2 ⟨base, drawn, joined⟩

section Fence

def gatepost : Value Rat :=
  .patch (.unplaced 1 2 (.dyed .red))

def fenceStart : Builder Rat :=
  ⟨.strip .horizontal, ⟨1, 2, [⟨0, 0, 1, 2, .dyed .red⟩]⟩⟩

/-- What is no board, one board, one that is too high, and a pair of boards. -/
def boards : List (Value Rat) :=
  [.number 2, .patch ⟨5, 5, 3, 2, .dyed .blue⟩, .patch (.unplaced 1 5 (.dyed .pink)),
    .design ⟨4, 2, [⟨0, 0, 2, 2, .dyed .blue⟩, ⟨2, 0, 2, 2, .dyed .blue⟩]⟩]

def fence : Design Rat :=
  ⟨8, 2, [⟨0, 0, 1, 2, .dyed .red⟩, ⟨1, 0, 3, 2, .dyed .blue⟩, ⟨4, 0, 2, 2, .dyed .blue⟩,
    ⟨6, 0, 2, 2, .dyed .blue⟩]⟩

/-- The two values that do not fit are passed over, and the pair stands where the board ends. -/
theorem fence_left_no_trace :
    Builder.start (.strip .horizontal) gatepost = .ok fenceStart ∧
      ∃ last, (Builder.pushAll boards).run fenceStart =
          ([.error (.wrongKind (.element (.strip .horizontal)) .number), .ok (),
            .error (.unequalSides .horizontal 2 5), .ok ()], last) ∧
        last.patchCount = 4 ∧ last.finish = fence := by
  have started : Builder.start (.strip .horizontal) gatepost = .ok fenceStart := by
    with_unfolding_all rfl
  have verdicts : boards.map fenceStart.verdict =
      [.error (.wrongKind (.element (.strip .horizontal)) .number), .ok (),
        .error (.unequalSides .horizontal 2 5), .ok ()] := by
    with_unfolding_all rfl
  obtain ⟨outcomes, last, d, run, same, composed, count, finish⟩ :=
    failed_pushes_leave_no_trace started boards
  rw [verdicts] at same
  subst same
  have laid : Except.ok d = .ok fence := composed.symm.trans (by with_unfolding_all rfl)
  cases laid
  exact ⟨started, last, run, count, finish⟩

end Fence

end Patchwork
