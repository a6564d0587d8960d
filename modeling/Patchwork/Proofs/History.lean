import Patchwork.Proofs.Binding
import Patchwork.Proofs.Trait

/-!
# Histories of a session

A session is asked for one thing after another, and what fails on the way does not end it. A trait
that the operators hand on holds of everything that the session ever returns or holds.
-/

namespace Patchwork

open Evaluation

variable {K : Type}

section Frames

variable {trait : Trait K}

/-- All frames of an environment, the innermost first. -/
def Environment.frames {V : Type} (env : Environment V) : List (Frame V) :=
  env.calls ++ [env.session]

namespace Session

/-- The value is bound in a frame of the session. -/
def Holds (s : Session K) (v : Value K) : Prop :=
  ∃ frame ∈ s.environment.frames, ∃ name, (name, v) ∈ frame.bindings

def Has (trait : Trait K) (s : Session K) : Prop :=
  ∀ frame ∈ s.environment.frames, frame.Has trait

theorem has_new (trait : Trait K) (limits : Limits) : (Session.new limits).Has trait := by
  intro frame member
  obtain rfl := List.mem_singleton.1 member
  exact Frame.has_empty

theorem Has.of_holds {s : Session K} (h : s.Has trait) {v : Value K} (held : s.Holds v) :
    v.Has trait := by
  obtain ⟨frame, member, name, bound⟩ := held
  exact h frame member (name, v) bound

theorem Has.scope {s : Session K} (h : s.Has trait) : s.environment.scope.Has trait where
  session := h _ (List.mem_append_right _ (List.mem_singleton.2 rfl))
  call := by
    intro frame innermost
    exact h frame (List.mem_append_left _ (List.mem_of_head? innermost))

/-- Only the innermost frame changes. -/
theorem Has.define {s : Session K} (h : s.Has trait) (name : String) {v : Value K}
    (hv : v.Has trait) : (s.define name v).Has trait := by
  obtain ⟨limits, depth, session, calls⟩ := s
  intro frame member
  cases calls with
  | nil =>
    obtain rfl := List.mem_singleton.1 member
    exact Frame.has_insert (h session (List.mem_singleton.2 rfl)) name hv
  | cons innermost outer =>
    rcases List.mem_cons.1 member with rfl | same
    · exact Frame.has_insert (h innermost List.mem_cons_self) name hv
    · exact h frame (List.mem_cons_of_mem _ same)

end Session

end Frames

/-- What a session can be asked for. -/
inductive Step where
  | bind (d : Definition)
  | eval (e : Expr)
  | run (program : Program)
  deriving Repr

variable [Scalar K]

/-- A step with the value that it returns. A binding returns none. -/
def Step.perform : Step → Evaluation K (Option (Value K))
  | bind d => do
    d.bind
    pure none
  | eval e => do
    let v ← e.eval
    pure (some v)
  | run program => do
    let d ← program.run
    pure (some (.design d))

namespace Step

variable (s : Session K)

theorem run_perform_bind (d : Definition) :
    (bind d).perform.run s =
      ((s.bindAll [d]).1 >>= fun _ => .ok none, (s.bindAll [d]).2) := by
  rw [perform, run_bind, Definition.bind_run, Session.bindAll]
  cases s.value d with
  | error fault => rfl
  | ok v => rfl

theorem run_perform_eval (e : Expr) :
    (eval e).perform.run s = (s.meaning e >>= fun v => .ok (some v), s) := by
  rw [perform, run_bind, Expr.eval_run]
  cases s.meaning e with
  | error fault => rfl
  | ok v => rfl

theorem run_perform_run (program : Program) :
    (run program).perform.run s =
      ((do
          (s.bindAll program.definitions).1
          let v ← (s.bindAll program.definitions).2.meaning program.goal
          let d ← v.toGoal
          .ok (some (.design d))),
        (s.bindAll program.definitions).2) := by
  rw [perform, run_bind, Program.run_run]
  rcases s.bindAll program.definitions with ⟨fault | _, after⟩
  · rfl
  · change _ = (after.meaning program.goal >>= _, after)
    dsimp only
    cases after.meaning program.goal with
    | error fault => rfl
    | ok v =>
      have drawn : (Except.ok v >>= Value.toGoal) = v.toGoal := rfl
      change _ = (v.toGoal >>= fun d => .ok (some (Value.design d)), after)
      rw [drawn]
      cases v.toGoal with
      | error fault => rfl
      | ok d => rfl

end Step

namespace Session

/-- The outcomes of all steps and the session after the last. -/
def performAll : List Step → Session K →
    List (Except (Fault K) (Option (Value K))) × Session K
  | [], s => ([], s)
  | step :: steps, s =>
    let (outcome, after) := step.perform.run s
    let (outcomes, last) := performAll steps after
    (outcome :: outcomes, last)

/-- A step returns the value, or it is held after all steps. -/
def Encounters (s : Session K) (steps : List Step) (v : Value K) : Prop :=
  .ok (some v) ∈ (s.performAll steps).1 ∨ (s.performAll steps).2.Holds v

theorem limits_bindAll (s : Session K) (ds : List Definition) :
    (s.bindAll ds).2.limits = s.limits := by
  induction ds generalizing s with
  | nil => rfl
  | cons d ds ih =>
    rw [bindAll]
    cases s.value d with
    | error fault => rfl
    | ok v => exact ih (s.define d.name v)

theorem limits_perform (s : Session K) (step : Step) :
    (step.perform.run s).2.limits = s.limits := by
  cases step with
  | bind d =>
    rw [Step.run_perform_bind]
    exact s.limits_bindAll [d]
  | eval e => rw [Step.run_perform_eval]
  | run program =>
    rw [Step.run_perform_run]
    exact s.limits_bindAll program.definitions

theorem limits_performAll (s : Session K) (steps : List Step) :
    (s.performAll steps).2.limits = s.limits := by
  induction steps generalizing s with
  | nil => rfl
  | cons step steps ih => exact (ih _).trans (s.limits_perform step)

end Session

namespace Trait.Kept

variable {trait : Trait K} {s : Session K} (kept : trait.Kept s.limits)

include kept

theorem ensures_session_meaning (h : s.Has trait) (e : Expr) :
    Ensures (s.meaning e) (Value.Has trait) :=
  kept.ensures_meaning _ h.scope e

theorem ensures_value (h : s.Has trait) (d : Definition) :
    Ensures (s.value d) (Value.Has trait) := by
  cases d with
  | declared kind name e =>
    refine ensures_bind (kept.ensures_session_meaning h e) fun v hv => ?_
    exact ensures_ite (fun _ => ensures_ok hv) fun _ => ensures_error _ _
  | assigned name e => exact kept.ensures_session_meaning h e
  | function name parameters body => exact ensures_ok trivial

theorem has_bindAll (h : s.Has trait) (ds : List Definition) : (s.bindAll ds).2.Has trait := by
  induction ds generalizing s with
  | nil => exact h
  | cons d ds ih =>
    rw [Session.bindAll]
    cases found : s.value d with
    | error fault => exact h
    | ok v => exact ih kept (h.define d.name (kept.ensures_value h d v found))

theorem ensures_toGoal {v : Value K} (h : v.Has trait) : Ensures v.toGoal trait.design := by
  rw [Value.toGoal]
  cases drawn : v.toDesign? with
  | none => exact ensures_error _ _
  | some d => exact ensures_ok (kept.design_of_toDesign? h drawn)

/-- One step hands the trait on, whether it succeeds or not. -/
theorem perform (h : s.Has trait) (step : Step) :
    Ensures (step.perform.run s).1 (fun answer => ∀ v, answer = some v → v.Has trait) ∧
      (step.perform.run s).2.Has trait := by
  have answered {v : Value K} (hv : v.Has trait) : ∀ w, some v = some w → w.Has trait := by
    intro w same
    cases same
    exact hv
  cases step with
  | bind d =>
    rw [Step.run_perform_bind]
    refine ⟨ensures_bind (ensures_true _) fun _ _ => ensures_ok ?_, kept.has_bindAll h [d]⟩
    intro v none
    cases none
  | eval e =>
    rw [Step.run_perform_eval]
    refine ⟨ensures_bind (kept.ensures_session_meaning h e) fun v hv => ?_, h⟩
    exact ensures_ok (answered hv)
  | run program =>
    have bound := kept.has_bindAll h program.definitions
    have same := s.limits_bindAll program.definitions
    have kept' : trait.Kept (s.bindAll program.definitions).2.limits := same ▸ kept
    rw [Step.run_perform_run]
    refine ⟨ensures_bind (ensures_true _) fun _ _ => ?_, bound⟩
    refine ensures_bind (kept'.ensures_session_meaning bound program.goal) fun v hv => ?_
    exact ensures_bind (kept.ensures_toGoal hv) fun d hd => ensures_ok (answered hd)

/-- A whole history hands the trait on, from whatever session it starts. -/
theorem performAll (h : s.Has trait) (steps : List Step) :
    (∀ v, .ok (some v) ∈ (s.performAll steps).1 → v.Has trait) ∧
      (s.performAll steps).2.Has trait := by
  induction steps generalizing s with
  | nil =>
    refine ⟨?_, h⟩
    intro v returned
    cases returned
  | cons step steps ih =>
    obtain ⟨now, after⟩ := kept.perform h step
    obtain ⟨later, last⟩ := ih ((s.limits_perform step).symm ▸ kept) after
    refine ⟨?_, last⟩
    intro v returned
    rcases List.mem_cons.1 returned with first | rest
    · exact now _ first.symm v rfl
    · exact later v rest

theorem has_of_encounters (h : s.Has trait) {steps : List Step} {v : Value K}
    (seen : s.Encounters steps v) : v.Has trait := by
  obtain ⟨returned, last⟩ := kept.performAll h steps
  rcases seen with now | held
  · exact returned v now
  · exact last.of_holds held

end Trait.Kept

end Patchwork
