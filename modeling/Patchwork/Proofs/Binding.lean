import Patchwork.Proofs.Restoration

/-!
# What definitions and programs do to a session

A definition finds its value where the session stands and binds it in the innermost frame, or fails
and changes nothing. A program binds its definitions up to the first that fails; its goal is
evaluated behind them and leaves the session alone.
-/

namespace Patchwork

open Evaluation

variable {K : Type}

/-- The value of a declaration, if it is of the declared kind. -/
def DeclaredKind.check (kind : DeclaredKind) (name : String) (v : Value K) :
    Except (Fault K) (Value K) :=
  if kind.admits v.kind then .ok v else .error (.wrongKind (.declaration name kind) v.kind)

def Session.define (s : Session K) (name : String) (v : Value K) : Session K :=
  { s with environment := s.environment.define name v }

variable [Scalar K]

namespace Session

/-- What a definition binds its name to, if it succeeds where the session stands. -/
def value (s : Session K) : Definition → Except (Fault K) (Value K)
  | .declared kind name e => s.meaning e >>= kind.check name
  | .assigned _ e => s.meaning e
  | .function _ parameters body => pure (.function ⟨parameters, body⟩)

/-- The definitions bound in order, up to the first that fails. -/
def bindAll : List Definition → Session K → Except (Fault K) Unit × Session K
  | [], s => (.ok (), s)
  | d :: ds, s =>
    match s.value d with
    | .ok v => bindAll ds (s.define d.name v)
    | .error fault => (.error fault, s)

end Session

theorem Definition.bind_run (d : Definition) (s : Session K) :
    d.bind.run s =
      match s.value d with
      | .ok v => (.ok (), s.define d.name v)
      | .error fault => (.error fault, s) := by
  cases d with
  | declared kind name e =>
    simp only [Definition.bind, Session.value, run_bind, Expr.eval_run]
    cases s.meaning e with
    | error fault => rfl
    | ok v =>
      have checked : (Except.ok v >>= kind.check name) = kind.check name v := rfl
      rw [checked, DeclaredKind.check]
      by_cases admitted : kind.admits v.kind = true
      · simp only [admitted, if_true]; rfl
      · simp only [admitted]; rfl
  | assigned name e =>
    simp only [Definition.bind, Session.value, run_bind, Expr.eval_run]
    cases s.meaning e <;> rfl
  | function name parameters body => rfl

theorem forM_bind_run (ds : List Definition) (s : Session K) :
    (ds.forM Definition.bind).run s = s.bindAll ds := by
  induction ds generalizing s with
  | nil => rfl
  | cons d ds ih =>
    change (d.bind >>= fun _ => ds.forM Definition.bind).run s = _
    rw [run_bind, Definition.bind_run, Session.bindAll]
    cases s.value d with
    | error fault => rfl
    | ok v => exact ih (s.define d.name v)

/-- A goal that can be drawn. -/
def Value.toGoal (v : Value K) : Except (Fault K) (Design K) :=
  match v.toDesign? with
  | some d => .ok d
  | none => .error (.wrongKind .goal v.kind)

theorem Program.run_run (program : Program) (s : Session K) :
    program.run.run s =
      match s.bindAll program.definitions with
      | (.ok (), after) => (after.meaning program.goal >>= Value.toGoal, after)
      | (.error fault, after) => (.error fault, after) := by
  rw [Program.run, run_bind, forM_bind_run]
  rcases s.bindAll program.definitions with ⟨fault | _, after⟩
  · rfl
  · dsimp only
    rw [run_bind, Expr.eval_run]
    cases after.meaning program.goal with
    | error fault => rfl
    | ok v =>
      have drawn : (Except.ok v >>= Value.toGoal) = v.toGoal := rfl
      rw [drawn, Value.toGoal]
      dsimp only
      cases v.toDesign? <;> rfl

end Patchwork
