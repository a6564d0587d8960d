import Patchwork.Proofs.Agreement
import Patchwork.Proofs.Faulting
import Patchwork.Scalar.Exact

/-!
# Well-scoped programs

A program is well-scoped if it asks only for names of earlier definitions, where the body of a
function may ask for its parameters and for its own name as well. Then no name is ever found
unbound. A body is evaluated long after it was defined, behind any name that its function was passed
on under; but what it asks for is bound by its own call or by the session frame, in which names are
only ever added.
-/

namespace Patchwork

def Expr.AsksWithin (known : List String) (e : Expr) : Prop :=
  ∀ u ∈ e.uses, u.name ∈ known

namespace Definition

/-- The names that are asked for are known, or come with the function that is defined. -/
def ScopedIn (known : List String) : Definition → Prop
  | declared _ _ value => value.AsksWithin known
  | assigned _ value => value.AsksWithin known
  | function f parameters body => body.AsksWithin (parameters ++ f :: known)

end Definition

namespace Program

/-- Each definition makes its name known to those behind it and to the goal. -/
def ScopedIn (known : List String) (goal : Expr) : List Definition → Prop
  | [] => goal.AsksWithin known
  | d :: ds => d.ScopedIn known ∧ ScopedIn (d.name :: known) goal ds

def WellScoped (p : Program) : Prop :=
  ScopedIn [] p.goal p.definitions

end Program

section Decidable

instance (known : List String) (e : Expr) : Decidable (e.AsksWithin known) :=
  inferInstanceAs (Decidable (∀ u ∈ e.uses, u.name ∈ known))

instance (known : List String) (d : Definition) : Decidable (d.ScopedIn known) :=
  match d with
  | .declared _ _ value => inferInstanceAs (Decidable (value.AsksWithin known))
  | .assigned _ value => inferInstanceAs (Decidable (value.AsksWithin known))
  | .function f parameters body =>
    inferInstanceAs (Decidable (body.AsksWithin (parameters ++ f :: known)))

instance decidableScopedIn (goal : Expr) (known : List String) (ds : List Definition) :
    Decidable (Program.ScopedIn known goal ds) :=
  match ds with
  | [] => inferInstanceAs (Decidable (goal.AsksWithin known))
  | d :: ds =>
    have := decidableScopedIn goal (d.name :: known) ds
    inferInstanceAs (Decidable (d.ScopedIn known ∧ Program.ScopedIn (d.name :: known) goal ds))

instance (p : Program) : Decidable p.WellScoped :=
  decidableScopedIn p.goal [] p.definitions

end Decidable

variable {K V : Type}

section Frames

def Frame.Binds (frame : Frame V) (x : String) : Prop :=
  ∃ v, frame.get? x = some v

/-- Every name that the body asks for is a parameter, or the session frame binds it. -/
def Function.ClosedIn (session : Frame V) (fn : Function) : Prop :=
  ∀ u ∈ fn.body.uses, u.name ∈ fn.parameters ∨ session.Binds u.name

/-- Every function that is bound in the frame is closed. -/
def Frame.ClosedIn (session frame : Frame (Value K)) : Prop :=
  ∀ x v, frame.get? x = some v → v.Fits (Function.ClosedIn session)

variable {frame : Frame V} {x y : String}

theorem Frame.binds_insert_self (frame : Frame V) (x : String) (v : V) :
    (frame.insert x v).Binds x :=
  ⟨v, frame.get?_insert_self x v⟩

/-- Names are only added. -/
theorem Frame.Binds.insert (h : frame.Binds y) (x : String) (v : V) :
    (frame.insert x v).Binds y := by
  by_cases same : y = x
  · subst same
    exact frame.binds_insert_self y v
  · obtain ⟨w, found⟩ := h
    exact ⟨w, (frame.get?_insert_of_ne v same).trans found⟩

theorem Function.ClosedIn.insert {fn : Function} (h : fn.ClosedIn frame) (x : String) (v : V) :
    fn.ClosedIn (frame.insert x v) := by
  intro u used
  exact (h u used).imp_right fun bound => bound.insert x v

theorem Value.Fits.mono {fit fit' : Function → Prop} {v : Value K} (h : v.Fits fit)
    (more : ∀ fn, fit fn → fit' fn) : v.Fits fit' := by
  cases v with
  | function fn => exact more fn h
  | _ => trivial

end Frames

section Evaluation

variable {session : Frame (Value K)} {scope : Scope (Value K)} {e : Expr} {x : String}

/-- All that the expression asks for is bound in the scope, and functions in scope are closed. -/
structure Scope.Serves (session : Frame (Value K)) (scope : Scope (Value K)) (e : Expr) : Prop where
  session_eq : scope.session = session
  closed : ∀ x v, scope.get? x = some v → v.Fits (Function.ClosedIn session)
  bound : ∀ u ∈ e.uses, ∃ v, scope.get? u.name = some v

def Fault.NotUnbound (fault : Fault K) : Prop :=
  fault.category ≠ .unboundName

theorem Scope.Serves.promises_require (h : scope.Serves session e) {u : Use} (used : u ∈ e.uses) :
    Promises (scope.require u.name) (Value.Fits (Function.ClosedIn session)) Fault.NotUnbound := by
  obtain ⟨v, found⟩ := h.bound u used
  rw [require_eq_ok.2 found]
  exact h.closed _ v found

/-- In a call the parameters are bound, and the session frame is in sight as ever. -/
theorem Scope.Serves.inCall (h : scope.Serves session e) (closed : session.ClosedIn session)
    {fn : Function} {vs : List (Value K)} (fits : fn.ClosedIn session)
    (enough : vs.length = fn.parameters.length)
    (fitting : ∀ v ∈ vs, v.Fits (Function.ClosedIn session)) :
    (scope.inCall (fn.frame vs)).Serves session fn.body where
  session_eq := h.session_eq
  closed := by
    intro x v found
    rcases Option.or_eq_some_iff.1 found with inner | ⟨-, outer⟩
    · exact fitting v (Function.mem_of_get?_frame inner)
    · have found : session.get? x = some v := h.session_eq ▸ outer
      exact closed x v found
  bound := by
    intro u used
    change ∃ v, ((fn.frame vs).get? u.name).or (scope.session.get? u.name) = some v
    rcases fits u used with parameter | ⟨v, found⟩
    · obtain ⟨v, found⟩ := Function.get?_frame_of_mem enough parameter
      exact ⟨v, by simp [found]⟩
    · rw [h.session_eq, found]
      cases (fn.frame vs).get? u.name with
      | none => exact ⟨v, rfl⟩
      | some w => exact ⟨w, rfl⟩

theorem admission_serves (closed : session.ClosedIn session) :
    Admission Fault.NotUnbound (Function.ClosedIn session)
      fun _ scope e => scope.Serves session e where
  own := by
    intro fault own
    cases fault with
    | unbound => exact own.elim
    | _ => nofun
  spent := nofun
  part h member :=
    ⟨h.session_eq, h.closed, fun u used => h.bound u (Expr.mem_uses_of_part member used)⟩
  name h := h.promises_require List.mem_cons_self
  callee h := h.promises_require List.mem_cons_self
  body h fn vs fits enough fitting := h.inCall closed fits enough fitting

end Evaluation

namespace Session

variable {s : Session K} {known : List String}

/-- No call is in progress, the known names are bound, and functions are closed. -/
structure Knows (s : Session K) (known : List String) : Prop where
  idle : s.environment.calls = []
  bound : ∀ x ∈ known, s.environment.session.Binds x
  closed : s.environment.session.ClosedIn s.environment.session

theorem knows_new (limits : Limits) : (new (K := K) limits).Knows [] where
  idle := rfl
  bound := nofun
  closed := nofun

theorem Knows.define (h : s.Knows known) (x : String) {v : Value K}
    (fits : v.Fits (Function.ClosedIn (s.environment.session.insert x v))) :
    (s.define x v).Knows (x :: known) := by
  obtain ⟨limits, depth, session, calls⟩ := s
  obtain ⟨idle, bound, closed⟩ := h
  cases idle
  constructor
  · rfl
  · rw [List.forall_mem_cons]
    exact ⟨session.binds_insert_self x v, fun y member => (bound y member).insert x v⟩
  · intro y w found
    change (session.insert x v).get? y = some w at found
    by_cases same : y = x
    · subst same
      rw [session.get?_insert_self] at found
      cases found
      exact fits
    · rw [session.get?_insert_of_ne v same] at found
      exact (closed y w found).mono fun fn closed => closed.insert x v

variable [Scalar K]

theorem Knows.promises_meaning (h : s.Knows known) {e : Expr} (asks : e.AsksWithin known) :
    Promises (s.meaning e) (Value.Fits (Function.ClosedIn s.environment.session))
      Fault.NotUnbound := by
  obtain ⟨limits, depth, session, calls⟩ := s
  obtain ⟨idle, bound, closed⟩ := h
  cases idle
  have serves : (⟨session, none⟩ : Scope (Value K)).Serves session e :=
    ⟨rfl, closed, fun u used => bound _ (asks u used)⟩
  exact (admission_serves closed).promises_meaning limits serves

/-- One definition: its value is found, and it may ask for itself from then on. -/
theorem Knows.promises_extend (h : s.Knows known) {d : Definition} (wellScoped : d.ScopedIn known) :
    Promises (s.extend d) (fun t => t.Knows (d.name :: known)) Fault.NotUnbound := by
  have later {v : Value K} (fits : v.Fits (Function.ClosedIn s.environment.session)) :
      v.Fits (Function.ClosedIn (s.environment.session.insert d.name v)) :=
    fits.mono fun fn closed => closed.insert d.name v
  cases d with
  | declared kind x e =>
    refine Promises.bind ?_ fun v fits => h.define x (later fits)
    refine (h.promises_meaning wellScoped).bind fun v fits => ?_
    exact (promises_check kind x fits).mono (fun _ => id) (admission_serves h.closed).own
  | assigned x e => exact (h.promises_meaning wellScoped).bind fun v fits => h.define x (later fits)
  | function f parameters body =>
    refine h.define f (v := .function ⟨parameters, body⟩) ?_
    intro u used
    have asked := wellScoped u used
    simp only [List.mem_append, List.mem_cons] at asked
    rcases asked with parameter | same | earlier
    · exact Or.inl parameter
    · rw [same]
      exact Or.inr (Frame.binds_insert_self _ f _)
    · exact Or.inr ((h.bound _ earlier).insert f _)

theorem Knows.promises_outcome (h : s.Knows known) {goal : Expr} {ds : List Definition}
    (wellScoped : Program.ScopedIn known goal ds) :
    Promises (s.outcome ⟨ds, goal⟩) (fun _ => True) Fault.NotUnbound := by
  induction ds generalizing s known with
  | nil =>
    refine (h.promises_meaning wellScoped).bind fun v _ => ?_
    exact (owned_toGoal v).mono (fun _ => id) (admission_serves h.closed).own
  | cons d ds ih =>
    rw [outcome_cons]
    exact (h.promises_extend wellScoped.1).bind fun t knows => ih knows wellScoped.2

end Session

namespace Program

/-- A well-scoped program may fail, but never for a name that is not bound: whatever the limits,
however often names are bound again, and whatever functions are called by themselves or by other
names that they are passed on under. -/
theorem names_bound_of_wellScoped [Scalar K] {p : Program} (wellScoped : p.WellScoped)
    (limits : Limits) {fault : Fault K}
    (failed : (p.run.run (Session.new limits)).1 = .error fault) :
    fault.category ≠ .unboundName := by
  have outcome : (Session.new limits).outcome p = .error fault :=
    (p.design_eq_outcome limits).symm.trans failed
  have promised := (Session.knows_new (K := K) limits).promises_outcome wellScoped
  rw [outcome] at promised
  exact promised

section Passing

/-- A function that is passed to itself, behind a number that is bound twice. -/
def passing : Program where
  definitions := [
    .function "again" ["f", "n"] (.call "f" [.name "f", .name "n"]),
    .declared .number "n" (.number 1),
    .assigned "n" (.arithmetic .plus (.name "n") (.name "n"))]
  goal := .call "again" [.name "again", .name "n"]

/-- It goes on until no level is left. -/
theorem passing_names_bound : passing.WellScoped ∧
    (passing.run.run (Session.new (K := Rat) ⟨8, 3⟩)).1 = .error (.tooDeep 8) ∧
    (Fault.tooDeep 8 : Fault Rat).category ≠ .unboundName := by
  have wellScoped : passing.WellScoped := by decide
  have failed : (passing.run.run (Session.new (K := Rat) ⟨8, 3⟩)).1 = .error (.tooDeep 8) := by
    decide +kernel
  exact ⟨wellScoped, failed, names_bound_of_wellScoped wellScoped _ failed⟩

end Passing

end Program

end Patchwork
