import Patchwork.Proofs.Restoration
import Patchwork.Scalar.Exact

/-!
# Callers are out of sight

Two environments that agree in the session frame and in the innermost call frame give every
expression the same outcome, whatever frames lie in between and however many there are.
-/

namespace Patchwork

open Evaluation

variable {K : Type} [Scalar K]

/-- An outcome depends on the limits, the depth and what is in scope, and on nothing else. -/
theorem outcome_eq_of_scope_eq {s s' : Session K} (limits : s.limits = s'.limits)
    (depth : s.depth = s'.depth) (scope : s.environment.scope = s'.environment.scope)
    (e : Expr) : (e.eval.run s).1 = (e.eval.run s').1 := by
  rw [Expr.eval_run, Expr.eval_run]
  simp only [Session.meaning, limits, depth, scope]

theorem inFrame_eval_run (frame : Frame (Value K)) (body : Expr) (s : Session K) :
    (inFrame frame body.eval).run s =
      (Session.meaning { s with environment := s.environment.push frame } body, s) :=
  yields_inFrame (Expr.eval_run body _)

/-- A function body computes from its arguments and the session frame alone: no caller, of whom
there may be any number, has a say in it. -/
theorem body_outcome_independent_of_callers {s s' : Session K} (limits : s.limits = s'.limits)
    (depth : s.depth = s'.depth) (session : s.environment.session = s'.environment.session)
    (frame : Frame (Value K)) (body : Expr) :
    ((inFrame frame body.eval).run s).1 = ((inFrame frame body.eval).run s').1 := by
  have scope : (s.environment.push frame).scope = (s'.environment.push frame).scope := by
    rw [Environment.scope_push, Environment.scope_push]
    simp only [Environment.scope, Scope.inCall, session]
  rw [inFrame_eval_run, inFrame_eval_run]
  simp only [Session.meaning, limits, depth, scope]

/-- Either no call is in progress in both sessions, or the innermost frames are the same; what lies
between the innermost frame and the session frame may differ in any way. -/
theorem outcome_independent_of_outer_calls {s s' : Session K} (limits : s.limits = s'.limits)
    (depth : s.depth = s'.depth) (session : s.environment.session = s'.environment.session)
    (innermost : s.environment.calls.head? = s'.environment.calls.head?) (e : Expr) :
    (e.eval.run s).1 = (e.eval.run s').1 := by
  have scope : s.environment.scope = s'.environment.scope := by
    simp only [Environment.scope, session, innermost]
  exact outcome_eq_of_scope_eq limits depth scope e

/-- A session in the middle of calls by callers that all bind `a`, where the innermost frame binds
`b` only and the session frame holds a function that asks for both names. -/
def sessionWithin (callers : List (Frame (Value Rat))) : Session Rat where
  limits := .standard
  depth := 2
  environment := {
    session := .ofList [("f", .function ⟨["b"], .arithmetic .plus (.name "a") (.name "b")⟩)]
    calls := .ofList [("b", .number 3)] :: callers }

/-- Two callers that bind `a` differently, and none at all, cannot be told apart from inside. -/
theorem outcome_independent_of_two_outer_calls :
    ((Expr.call "f" [.name "b"]).eval.run
        (sessionWithin [.ofList [("a", .number 1)], .ofList [("a", .number 2)]])).1 =
      ((Expr.call "f" [.name "b"]).eval.run (sessionWithin [])).1 :=
  outcome_independent_of_outer_calls rfl rfl rfl rfl _

end Patchwork
