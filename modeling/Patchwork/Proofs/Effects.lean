import Patchwork.Proofs.Binding
import Patchwork.Scalar.Exact

/-!
# What a program leaves behind

Where no call is in progress, a definition that succeeds changes the session binding of its own name
and nothing else, and one that fails changes nothing. A program binds its definitions in order up to
the first that fails, and reports that fault, or else what comes of its goal. So a program may as
well be bound in parts: what is bound already need not be part of it.
-/

namespace Patchwork

variable {K : Type}

namespace Session

/-- The sessions differ in what the session frame binds the name to, and in nothing else. -/
structure Rebinds (s : Session K) (name : String) (v : Value K) (t : Session K) : Prop where
  bound : t.environment.session.get? name = some v
  others : ∀ other, other ≠ name →
    t.environment.session.get? other = s.environment.session.get? other
  calls : t.environment.calls = s.environment.calls
  depth : t.depth = s.depth
  limits : t.limits = s.limits

theorem rebinds_define {s : Session K} (idle : s.environment.calls = []) (name : String)
    (v : Value K) : s.Rebinds name v (s.define name v) := by
  obtain ⟨limits, depth, session, calls⟩ := s
  cases idle
  constructor
  · exact session.get?_insert_self name v
  · intro other h
    exact session.get?_insert_of_ne v h
  · rfl
  · rfl
  · rfl

variable [Scalar K]

/-- The definitions are bound one after another, and none of them fails. -/
inductive Binds : Session K → List Definition → Session K → Prop
  | nil (s : Session K) : Binds s [] s
  | cons {s t u : Session K} {d : Definition} {ds : List Definition} :
      d.bind.run s = (.ok (), t) → Binds t ds u → Binds s (d :: ds) u

/-- How a program ends in the session where its definitions `left` are still to be bound: with the
fault of the first of them, or with its goal where none is left. -/
def Ends (t : Session K) (left : List Definition) (goal : Expr)
    (result : Except (Fault K) (Design K) × Session K) : Prop :=
  match left with
  | [] => result = ((goal.eval.run t).1 >>= Value.toGoal, t)
  | d :: _ => ∃ fault, d.bind.run t = (.error fault, t) ∧ result = (.error fault, t)

section Steps

variable {s t u : Session K} {d : Definition}

theorem bind_run_of_value {v : Value K} (h : s.value d = .ok v) :
    d.bind.run s = (.ok (), s.define d.name v) := by
  rw [d.bind_run, h]

theorem bind_run_of_fault {fault : Fault K} (h : s.value d = .error fault) :
    d.bind.run s = (.error fault, s) := by
  rw [d.bind_run, h]

theorem bind_run_eq_ok_iff :
    d.bind.run s = (.ok (), t) ↔ ∃ v, s.value d = .ok v ∧ t = s.define d.name v := by
  constructor
  · intro bound
    cases found : s.value d with
    | error fault =>
      rw [bind_run_of_fault found] at bound
      cases bound
    | ok v =>
      rw [bind_run_of_value found] at bound
      cases bound
      exact ⟨v, rfl, rfl⟩
  · rintro ⟨v, found, rfl⟩
    exact bind_run_of_value found

/-- One definition, whether it succeeds or not. -/
theorem bind_effect (idle : s.environment.calls = []) (d : Definition) :
    (∃ v t, s.value d = .ok v ∧ d.bind.run s = (.ok (), t) ∧ s.Rebinds d.name v t) ∨
      ∃ fault, s.value d = .error fault ∧ d.bind.run s = (.error fault, s) := by
  cases found : s.value d with
  | error fault => exact Or.inr ⟨fault, rfl, bind_run_of_fault found⟩
  | ok v => exact Or.inl ⟨v, _, rfl, bind_run_of_value found, rebinds_define idle d.name v⟩

end Steps

section Runs

variable {s t : Session K} {ds more : List Definition}

/-- No frame is opened by binding, so all of it goes on at session level. -/
theorem Binds.idle (bound : s.Binds ds t) (idle : s.environment.calls = []) :
    t = { s with environment := ⟨t.environment.session, []⟩ } := by
  induction bound with
  | nil s =>
    obtain ⟨limits, depth, session, calls⟩ := s
    cases idle
    rfl
  | @cons s t u d ds first _ ih =>
    obtain ⟨v, -, rfl⟩ := bind_run_eq_ok_iff.1 first
    have rebound := rebinds_define idle d.name v
    have last := ih (rebound.calls.trans idle)
    rwa [rebound.depth, rebound.limits] at last

theorem bindAll_append (bound : s.Binds ds t) : s.bindAll (ds ++ more) = t.bindAll more := by
  induction bound with
  | nil s => rfl
  | cons first _ ih =>
    obtain ⟨v, found, rfl⟩ := bind_run_eq_ok_iff.1 first
    rw [List.cons_append, bindAll, found]
    exact ih

/-- Where binding stops: behind the last definition, or at one that fails. -/
theorem exists_binds (s : Session K) (ds : List Definition) :
    ∃ before left t, ds = before ++ left ∧ s.Binds before t ∧
      ∀ d ∈ left.head?, ∃ fault, t.value d = .error fault := by
  induction ds generalizing s with
  | nil => exact ⟨[], [], s, rfl, .nil s, by simp⟩
  | cons d ds ih =>
    cases found : s.value d with
    | error fault =>
      refine ⟨[], d :: ds, s, rfl, .nil s, ?_⟩
      intro d' same
      cases same
      exact ⟨fault, found⟩
    | ok v =>
      obtain ⟨before, left, t, rfl, bound, stopped⟩ := ih (s.define d.name v)
      exact ⟨d :: before, left, t, rfl, .cons (bind_run_of_value found) bound, stopped⟩

end Runs

end Session

namespace Program

variable [Scalar K] {s t : Session K}

/-- What is bound beforehand may be left out of a program. -/
theorem run_of_binds {program : Program} {before left : List Definition}
    (same : program.definitions = before ++ left) (bound : s.Binds before t) :
    program.run.run s = (⟨left, program.goal⟩ : Program).run.run t := by
  rw [run_run, run_run, same, Session.bindAll_append bound]

theorem run_ends (goal : Expr) {left : List Definition}
    (stopped : ∀ d ∈ left.head?, ∃ fault, t.value d = .error fault) :
    t.Ends left goal ((⟨left, goal⟩ : Program).run.run t) := by
  cases left with
  | nil => rw [Session.Ends, run_run, Session.bindAll, Expr.eval_run]
  | cons d left =>
    obtain ⟨fault, found⟩ := stopped d rfl
    refine ⟨fault, Session.bind_run_of_fault found, ?_⟩
    rw [run_run, Session.bindAll, found]

/-- What a program does to a session in which no call is in progress: the definitions before the
first that fails are bound, that one leaves no trace, and its fault or the outcome of the goal is
reported; each of them changes one binding or none; and to bind some of them first is the same. -/
theorem effects_of_run (program : Program) (idle : s.environment.calls = []) :
    (∃ before left t, program.definitions = before ++ left ∧ s.Binds before t ∧
      t = { s with environment := ⟨t.environment.session, []⟩ } ∧
      t.Ends left program.goal (program.run.run s)) ∧
    (∀ (d : Definition) (t : Session K), t.environment.calls = [] →
      (∃ v u, t.value d = .ok v ∧ d.bind.run t = (.ok (), u) ∧ t.Rebinds d.name v u) ∨
        ∃ fault, t.value d = .error fault ∧ d.bind.run t = (.error fault, t)) ∧
    (∀ before left t, program.definitions = before ++ left → s.Binds before t →
      program.run.run s = (⟨left, program.goal⟩ : Program).run.run t) := by
  refine ⟨?_, fun d t idle => Session.bind_effect idle d, fun _ _ _ => run_of_binds⟩
  obtain ⟨before, left, t, same, bound, stopped⟩ := s.exists_binds program.definitions
  refine ⟨before, left, t, same, bound, bound.idle idle, ?_⟩
  rw [run_of_binds same bound]
  exact run_ends program.goal stopped

section Stopping

/-- The second of three definitions asks for a color and finds a number. -/
def stopping : Program :=
  ⟨[.assigned "n" (.number 2), .declared .color "c" (.name "n"), .assigned "m" (.name "n")],
    .name "n"⟩

def stoppedSession : Session Rat where
  limits := ⟨8, 3⟩
  depth := 0
  environment := ⟨⟨[("n", .number (Scalar.ofInt 2))]⟩, []⟩

/-- The first definition stays bound and the third is never looked at. -/
theorem stopping_effects :
    (Session.new (K := Rat) ⟨8, 3⟩).environment.calls = [] ∧
      (Session.new ⟨8, 3⟩).Binds [.assigned "n" (.number 2)] stoppedSession ∧
      stopping.run.run (Session.new ⟨8, 3⟩) =
        (.error (.wrongKind (.declaration "c" .color) .number), stoppedSession) := by
  have idle : (Session.new (K := Rat) ⟨8, 3⟩).environment.calls = [] := rfl
  have bound : (Session.new (K := Rat) ⟨8, 3⟩).Binds [.assigned "n" (.number 2)] stoppedSession :=
    .cons rfl (.nil _)
  obtain ⟨-, -, resumed⟩ := effects_of_run stopping idle
  refine ⟨idle, bound, ?_⟩
  rw [resumed _ _ _ rfl bound]
  rfl

end Stopping

end Program

end Patchwork
