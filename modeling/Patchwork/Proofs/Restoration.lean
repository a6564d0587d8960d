import Patchwork.Proofs.Meaning

/-!
# Evaluation leaves the session as it was

An evaluation yields the meaning of its expression and puts every call frame and every level of
nesting back, whether it ends in a value or in a fault. The induction is on the levels left; the
frames and levels opened inside are closed by the two combinators that open them.
-/

namespace Patchwork

variable {K A B : Type}

namespace Evaluation

/-- The step has this outcome in this session, and the session is the same after it. -/
def Yields (step : Evaluation K A) (s : Session K) (outcome : Except (Fault K) A) : Prop :=
  step.run s = (outcome, s)

theorem run_bind (step : Evaluation K A) (next : A → Evaluation K B) (s : Session K) :
    (step >>= next).run s =
      match step.run s with
      | (.ok a, after) => (next a).run after
      | (.error fault, after) => (.error fault, after) := by
  change ExceptT.bindCont next (step.run s).1 (step.run s).2 = _
  rcases step.run s with ⟨_ | _, _⟩ <;> rfl

theorem yields_pure (a : A) (s : Session K) : Yields (pure a) s (.ok a) := rfl

theorem yields_throw (fault : Fault K) (s : Session K) :
    Yields (throw fault : Evaluation K A) s (.error fault) := rfl

theorem yields_ofOutcome (outcome : Except (Fault K) A) (s : Session K) :
    Yields (ofOutcome outcome) s outcome := rfl

theorem yields_get (s : Session K) : Yields get s (.ok s) := rfl

theorem yields_ite {p : Prop} [Decidable p] {yes no : Evaluation K A} {s : Session K}
    {outcome other : Except (Fault K) A} (pos : Yields yes s outcome) (neg : Yields no s other) :
    Yields (if p then yes else no) s (if p then outcome else other) := by
  split
  · exact pos
  · exact neg

theorem yields_bind {step : Evaluation K A} {next : A → Evaluation K B} {s : Session K}
    {outcome : Except (Fault K) A} {rest : A → Except (Fault K) B}
    (first : Yields step s outcome) (second : ∀ a, Yields (next a) s (rest a)) :
    Yields (step >>= next) s (outcome >>= rest) := by
  have same : step.run s = (outcome, s) := first
  change (step >>= next).run s = _
  rw [run_bind, same]
  cases outcome with
  | ok a => exact second a
  | error fault => rfl

theorem yields_foldlM {step : B → A → Evaluation K B} {s : Session K}
    {pureStep : B → A → Except (Fault K) B} (each : ∀ b a, Yields (step b a) s (pureStep b a))
    (items : List A) (initial : B) :
    Yields (items.foldlM step initial) s (items.foldlM pureStep initial) := by
  induction items generalizing initial with
  | nil => exact yields_pure initial s
  | cons item items ih =>
    rw [List.foldlM_cons, List.foldlM_cons]
    exact yields_bind (each initial item) ih

theorem yields_lookup (name : String) (s : Session K) :
    Yields (lookup name) s (s.environment.scope.require name) := by
  rw [Environment.require_scope]
  exact yields_bind (yields_get s) fun s' => rfl

theorem yields_checkPatches (count : Nat) (s : Session K) :
    Yields (checkPatches count) s (s.limits.checkPatches count) := by
  have check (t : Session K) : Yields (if t.limits.maxPatches < count then
      throw (.tooManyPatches t.limits.maxPatches) else pure ()) s (t.limits.checkPatches count) :=
    yields_ite (yields_throw _ s) (yields_pure () s)
  exact yields_bind (yields_get s) check

theorem yields_checkCopies [Scalar K] (copies : K) (patches : Nat) (s : Session K) :
    Yields (checkCopies copies patches) s (s.limits.checkCopies copies patches) := by
  have check (t : Session K) :
      Yields (if Scalar.ofNat t.limits.maxPatches < copies * Scalar.ofNat patches then
        throw (.tooManyPatches t.limits.maxPatches) else pure ()) s
        (t.limits.checkCopies copies patches) :=
    yields_ite (yields_throw _ s) (yields_pure () s)
  exact yields_bind (yields_get s) check

/-- A level that was opened is closed again. -/
theorem yields_nested {step : Evaluation K A} {s : Session K} {outcome : Except (Fault K) A}
    (inside : Yields step { s with depth := s.depth + 1 } outcome) :
    Yields (nested step) s outcome := by
  let after := step.run { s with depth := s.depth + 1 }
  have same : after = (outcome, { s with depth := s.depth + 1 }) := inside
  change (after.1, { after.2 with depth := after.2.depth - 1 }) = _
  rw [same]
  rfl

/-- A frame that was pushed is popped again. -/
theorem yields_inFrame {step : Evaluation K A} {s : Session K} {frame : Frame (Value K)}
    {outcome : Except (Fault K) A}
    (inside : Yields step { s with environment := s.environment.push frame } outcome) :
    Yields (inFrame frame step) s outcome := by
  let after := step.run { s with environment := s.environment.push frame }
  have same : after = (outcome, { s with environment := s.environment.push frame }) := inside
  change (after.1, { after.2 with environment := after.2.environment.pop }) = _
  rw [same]
  rfl

end Evaluation

namespace Expr

open Evaluation

section Node

/-!
One node, where the expressions below it yield their meaning at the same limits and the same depth
in every environment.
-/

variable {ev : Expr → Evaluation K (Value K)}
  {sub : Scope (Value K) → Expr → Except (Fault K) (Value K)} {s : Session K}
  (sound : ∀ env e, Yields (ev e) { s with environment := env } (sub env.scope e))

include sound

theorem yields_evalNumber (place : Place) (e : Expr) :
    Yields (evalNumber ev place e) s (Meaning.number sub s.environment.scope place e) := by
  refine yields_bind (sound s.environment e) fun v => ?_
  cases v <;> rfl

theorem yields_evalArguments (bindings : List (String × Expr)) :
    Yields (evalArguments ev bindings) s
      (bindings.foldlM (Meaning.argument sub s.environment.scope) Frame.empty) := by
  refine yields_foldlM (fun frame binding => ?_) bindings Frame.empty
  exact yields_bind (sound s.environment binding.2) fun v => yields_pure _ s

/-- The body runs in a frame above all others, of which it sees the session frame only. -/
theorem yields_evalCall (f : String) (arguments : List Expr) :
    Yields (evalCall ev f arguments) s
      (Meaning.call sub s.environment.scope f arguments) := by
  refine yields_bind (yields_lookup f s) fun v => ?_
  cases v with
  | function fn =>
    refine yields_bind (yields_ofOutcome _ s) fun _ => ?_
    refine yields_bind (yields_evalArguments sound _) fun frame => ?_
    exact yields_inFrame (sound (s.environment.push frame) fn.body)
  | _ => exact yields_throw _ s

variable [Scalar K]

theorem yields_evalArithmetic (op : Operator) (left right : Expr) :
    Yields (evalArithmetic ev op left right) s
      (Meaning.arithmetic sub s.environment.scope op left right) := by
  refine yields_bind (yields_evalNumber sound _ left) fun a => ?_
  refine yields_bind (yields_evalNumber sound _ right) fun b => ?_
  cases op <;> rfl

theorem yields_evalRect (width height color : Expr) :
    Yields (evalRect ev width height color) s
      (Meaning.rect sub s.environment.scope width height color) := by
  refine yields_bind (yields_evalNumber sound _ width) fun w => ?_
  refine yields_bind (yields_evalNumber sound _ height) fun h => ?_
  refine yields_bind (yields_ofOutcome _ s) fun _ => ?_
  refine yields_bind (sound s.environment color) fun v => ?_
  cases v <;> rfl

theorem yields_evalPush (layout : Layout) (base : Design K) (item : Expr) :
    Yields (evalPush ev layout base item) s
      (Meaning.push s.limits sub s.environment.scope layout base item) := by
  refine yields_bind (sound s.environment item) fun v => ?_
  refine yields_bind (yields_ofOutcome _ s) fun joined => ?_
  refine yields_bind (yields_checkPatches _ s) fun _ => ?_
  exact yields_pure joined s

theorem yields_evalLayout (layout : Layout) (items : List Expr) :
    Yields (evalLayout ev layout items) s
      (Meaning.arrange s.limits sub s.environment.scope layout items) := by
  cases items with
  | nil => exact yields_throw _ s
  | cons item items =>
    refine yields_bind (sound s.environment item) fun v => ?_
    refine yields_bind (yields_ofOutcome _ s) fun first => ?_
    refine yields_bind (yields_foldlM (yields_evalPush sound layout) items first) fun d => ?_
    exact yields_pure _ s

theorem yields_evalOverlay (anchor : String) (items : List Expr) :
    Yields (evalOverlay ev anchor items) s
      (Meaning.overlay s.limits sub s.environment.scope anchor items) :=
  yields_bind (yields_ofOutcome _ s) fun a => yields_evalLayout sound (.overlay a) items

theorem yields_evalRot (angle target : Expr) :
    Yields (evalRot ev angle target) s
      (Meaning.rot sub s.environment.scope angle target) := by
  refine yields_bind (sound s.environment angle) fun v => ?_
  refine yields_bind (yields_ofOutcome _ s) fun t => ?_
  refine yields_bind (sound s.environment target) fun w => ?_
  exact yields_ofOutcome _ s

theorem yields_evalRep (count target : Expr) :
    Yields (evalRep ev count target) s
      (Meaning.rep s.limits sub s.environment.scope count target) := by
  refine yields_bind (yields_evalNumber sound _ count) fun n => ?_
  refine yields_bind (yields_ofOutcome _ s) fun tiles => ?_
  refine yields_bind (sound s.environment target) fun v => ?_
  refine yields_bind (yields_checkCopies _ _ s) fun _ => ?_
  refine yields_bind (yields_ofOutcome _ s) fun d => ?_
  exact yields_pure _ s

theorem yields_evalNode (e : Expr) :
    Yields (evalNode ev e) s (Meaning.node s.limits sub s.environment.scope e) := by
  cases e with
  | number n => exact yields_pure _ s
  | angle degrees => exact yields_pure _ s
  | color text => exact yields_pure _ s
  | name x => exact yields_lookup x s
  | call f arguments => exact yields_evalCall sound f arguments
  | arithmetic op left right => exact yields_evalArithmetic sound op left right
  | rect width height color => exact yields_evalRect sound width height color
  | strip axis items => exact yields_evalLayout sound (.strip axis) items
  | overlay anchor items => exact yields_evalOverlay sound anchor items
  | rot angle target => exact yields_evalRot sound angle target
  | rep count target => exact yields_evalRep sound count target

end Node

variable [Scalar K]

theorem yields_evalWithin (levels : Nat) (e : Expr) (s : Session K) :
    Yields (e.evalWithin levels) s (e.meaning s.limits levels s.environment.scope) := by
  induction levels generalizing e s with
  | zero => exact yields_bind (yields_get s) fun s' => rfl
  | succ levels ih =>
    have sound : ∀ env e, Yields (evalWithin levels e) ⟨s.limits, s.depth + 1, env⟩
        (e.meaning s.limits levels env.scope) := fun env e => ih e ⟨s.limits, s.depth + 1, env⟩
    exact yields_nested (yields_evalNode (s := { s with depth := s.depth + 1 }) sound e)

/-- What evaluation does to a session: it finds the meaning and leaves everything as it was. -/
theorem eval_run (e : Expr) (s : Session K) : e.eval.run s = (s.meaning e, s) := by
  rw [eval, run_bind, yields_get s]
  exact yields_evalWithin _ e s

/-- Every evaluation, at any nesting, asks the depth counter of the session it runs in: the levels
left are never anything else than what the counter leaves of the limit. -/
theorem eval_eq (e : Expr) (s : Session K) :
    e.eval.run s =
      if s.limits.maxDepth ≤ s.depth then (.error (.tooDeep s.limits.maxDepth), s)
      else (nested (evalNode eval e)).run s := by
  rw [eval_run, Session.meaning]
  split
  · next spent => rw [Nat.sub_eq_zero_of_le spent, meaning]
  · next left =>
    have sound : ∀ (env : Environment (Value K)) e, Yields (eval e) ⟨s.limits, s.depth + 1, env⟩
        (e.meaning s.limits (s.limits.maxDepth - (s.depth + 1)) env.scope) :=
      fun env e => eval_run e ⟨s.limits, s.depth + 1, env⟩
    have inside : Yields (nested (evalNode eval e)) s _ :=
      yields_nested (yields_evalNode (s := { s with depth := s.depth + 1 }) sound e)
    have step : s.limits.maxDepth - s.depth = s.limits.maxDepth - (s.depth + 1) + 1 := by omega
    rw [inside, step]
    rfl

/-- Whatever the outcome, the frames, their bindings and the depth counter are those from before:
no fault in an argument, in a body, in nested calls or at the limit leaves anything behind. -/
theorem eval_restores_session (e : Expr) (s : Session K) : (e.eval.run s).2 = s := by
  rw [eval_run]

end Expr

end Patchwork
