import Patchwork.Proofs.Mirroring
import Patchwork.Proofs.Restoration
import Patchwork.Scalar.Exact

/-!
# Arguments in the places of parameters

A call that has a value may as well be written out: the body with the arguments themselves where the
parameters are has the same value. An argument is then evaluated as often as its parameter is asked
for, and deeper than before, so that more levels may be needed; how many depends on the call alone.
-/

namespace Patchwork

variable {K : Type}

section Kept

variable {excused : Fault K → Prop} {limits limits' : Limits} {base : Nat}

theorem mirrors_itself (outcome : Except (Fault K) (Value K)) :
    Mirrors excused (Value.Like Eq) outcome outcome :=
  (mirrors_self outcome).mono fun _ _ => Value.like_eq_iff.2

variable [Scalar K]

theorem answers_self (e : Expr) (scope : Scope (Value K)) :
    Answers excused Eq limits base e scope scope .name id where
  value x _ _ := mirrors_itself (scope.require x)
  callee f _ := mirrors_itself (scope.require f)

/-- Where no function is exchanged for another, every function is akin to itself only. -/
theorem kinship_eq (session : Frame (Value K)) :
    Kinship excused Eq limits base session session where
  arity := by
    rintro fn _ rfl
    rfl
  body := by
    rintro fn _ vs vs' rfl - related
    obtain rfl : vs = vs' := by
      rw [← List.forall₂_eq_eq_eq]
      exact related.imp fun _ _ => Value.like_eq_iff.1
    exact ⟨.name, id, fn.body.exchange_self.symm, answers_self _ _⟩

/-- A value stays the same where more levels are left. -/
theorem Expr.meaning_kept (samePatches : limits'.maxPatches = limits.maxPatches) {levels more : Nat}
    (h : levels ≤ more) {e : Expr} {scope : Scope (Value K)} {v : Value K}
    (found : e.meaning limits levels scope = .ok v) : e.meaning limits' more scope = .ok v := by
  obtain ⟨base, rfl⟩ := Nat.exists_eq_add_of_le h
  have mirrored : Mirrors (fun _ => True) (Value.Like Eq) (e.meaning limits levels scope)
      ((e.exchange .name id).meaning limits' (levels + base) scope) :=
    meaning_mirrors samePatches (Or.inr fun _ => trivial) (kinship_eq scope.session) levels
      (answers_self e scope)
  rw [exchange_self] at mirrored
  obtain ⟨v', found', same⟩ := mirrored.exists_ok found
  rw [found', Value.like_eq_iff.1 same]

/-- In the body of a call the names are answered by what is written in their places, in the session
frame alone: a parameter by its argument, any other name by itself. -/
theorem answers_substitute (samePatches : limits'.maxPatches = limits.maxPatches)
    {session : Frame (Value K)} {fn : Function} {arguments : List Expr} {vs : List (Value K)}
    {levels : Nat} (enough : fn.parameters.length = arguments.length)
    (distinct : fn.parameters.Nodup) (notCalled : ∀ x ∈ fn.parameters, .callee x ∉ fn.body.uses)
    (evaluated : List.Forall₂ (fun e v => Expr.meaning limits levels ⟨session, none⟩ e = .ok v)
      arguments vs) (room : levels ≤ base) :
    Answers excused Eq limits' base fn.body ⟨session, some (fn.frame vs)⟩ ⟨session, none⟩
      (fun x => ((fn.parameters.zip arguments).lookup x).getD (.name x)) id where
  value x _ more := by
    have keys : ((fn.parameters.zip arguments).map Prod.fst).Nodup := by
      rwa [List.map_fst_zip (Nat.le_of_eq enough)]
    have apart : ∀ y ∈ fn.parameters, id x = id y → x = y := fun _ _ same => same
    have related := lookup_zip_related evaluated apart
    rw [List.map_id, id_eq, lookup_reverse_of_nodup keys, ← Frame.get?_ofList] at related
    rw [Function.frame]
    generalize argument_eq : (fn.parameters.zip arguments).lookup x = argument at related
    generalize bound_eq : (Frame.ofList (fn.parameters.zip vs)).get? x = bound at related
    cases related with
    | none =>
      rw [Scope.require_of_unbound bound_eq]
      exact mirrors_itself _
    | @some argument v found =>
      have kept : argument.meaning limits' (more + base + 1) ⟨session, none⟩ = .ok v :=
        Expr.meaning_kept samePatches (by omega) found
      rw [Scope.require_of_bound bound_eq, Option.getD_some, kept]
      exact mirrors_itself _
  callee f used := by
    have other : f ∉ fn.parameters := fun parameter => notCalled f parameter used
    rw [Scope.require_of_unbound (Function.get?_frame_of_not_mem other)]
    exact mirrors_itself _

theorem meaning_substitute (samePatches : limits'.maxPatches = limits.maxPatches)
    {session : Frame (Value K)} {f : String} {fn : Function} {arguments : List Expr} {v : Value K}
    {levels more : Nat} (bound : session.get? f = some (.function fn))
    (distinct : fn.parameters.Nodup) (notCalled : ∀ x ∈ fn.parameters, .callee x ∉ fn.body.uses)
    (called : (Expr.call f arguments).meaning limits (levels + 1) ⟨session, none⟩ = .ok v)
    (room : levels + levels ≤ more) :
    (fn.body.substitute (fn.parameters.zip arguments)).meaning limits' more ⟨session, none⟩ =
      .ok v := by
  obtain ⟨fn', vs, found, enough, evaluated, body⟩ := Meaning.call_eq_ok.1 called
  obtain rfl : fn = fn' := Value.function.inj (Option.some.inj (bound.symm.trans found))
  have body : fn.body.meaning limits levels ⟨session, some (fn.frame vs)⟩ = .ok v := body
  obtain ⟨base, rfl⟩ := Nat.exists_eq_add_of_le (Nat.le_trans (Nat.le_add_right _ _) room)
  have answers : Answers (fun _ => True) Eq limits' base fn.body ⟨session, some (fn.frame vs)⟩
      ⟨session, none⟩ (fun x => ((fn.parameters.zip arguments).lookup x).getD (.name x)) id :=
    answers_substitute samePatches enough distinct notCalled evaluated (by omega)
  have mirrored := Expr.meaning_mirrors samePatches (Or.inr fun _ => trivial)
    (kinship_eq session) levels answers
  obtain ⟨v', found', same⟩ := mirrored.exists_ok body
  rw [Expr.substitute, found', Value.like_eq_iff.1 same]

end Kept

/-- The session under another limit on nesting. -/
def Session.withDepth (s : Session K) (maxDepth : Nat) : Session K :=
  { s with limits := { s.limits with maxDepth := maxDepth } }

/-- Where no call is in progress, a call of a function with distinct parameters, none of which it
calls, can be written out: if the call has a value, the body with the arguments in the places of the
parameters has it too, from some limit on nesting on. -/
theorem call_written_out [Scalar K] {s : Session K} (idle : s.environment.calls = []) {f : String}
    {fn : Function} {arguments : List Expr} {v : Value K}
    (bound : s.environment.session.get? f = some (.function fn))
    (distinct : fn.parameters.Nodup) (notCalled : ∀ x ∈ fn.parameters, .callee x ∉ fn.body.uses)
    (called : ((Expr.call f arguments).eval.run s).1 = .ok v) :
    ∃ least, ∀ maxDepth, least ≤ maxDepth →
      (fn.body.substitute (fn.parameters.zip arguments)).eval.run (s.withDepth maxDepth) =
        (.ok v, s.withDepth maxDepth) := by
  obtain ⟨limits, depth, session, calls⟩ := s
  cases idle
  rw [Expr.eval_run] at called
  have called : (Expr.call f arguments).meaning limits (limits.maxDepth - depth) ⟨session, none⟩ =
      .ok v := called
  cases left : limits.maxDepth - depth with
  | zero =>
    rw [left] at called
    cases called
  | succ levels =>
    rw [left] at called
    refine ⟨depth + (levels + levels), fun maxDepth enough => ?_⟩
    have samePatches : { limits with maxDepth := maxDepth }.maxPatches = limits.maxPatches := rfl
    have written : (fn.body.substitute (fn.parameters.zip arguments)).meaning
        { limits with maxDepth := maxDepth } (maxDepth - depth) ⟨session, none⟩ = .ok v :=
      meaning_substitute samePatches bound distinct notCalled called (by omega)
    rw [Expr.eval_run]
    exact congrArg (Prod.mk · _) written

section Shadow

/-- The function `f` asks for its parameter `n` and calls `g`, which asks for the `n` of the
session. -/
def shadowSession : Session Rat where
  limits := .standard
  depth := 0
  environment := ⟨⟨[("n", .number 5),
    ("g", .function ⟨["x"], .arithmetic .times (.name "x") (.name "n")⟩),
    ("f", .function ⟨["n"], .call "g" [.arithmetic .plus (.name "n") (.name "n")]⟩)]⟩, []⟩

/-- The argument is the `n` of the session too, and stands twice where the parameter stood. -/
theorem shadow_written_out :
    shadowSession.environment.calls = [] ∧
      ((Expr.call "f" [.arithmetic .plus (.name "n") (.number 1)]).eval.run shadowSession).1 =
        .ok (.number 60) ∧
      ∃ least, ∀ maxDepth, least ≤ maxDepth →
        (Expr.call "g" [.arithmetic .plus (.arithmetic .plus (.name "n") (.number 1))
          (.arithmetic .plus (.name "n") (.number 1))]).eval.run
            (shadowSession.withDepth maxDepth) =
          (.ok (.number 60), shadowSession.withDepth maxDepth) := by
  have bound : shadowSession.environment.session.get? "f" = some (.function
      ⟨["n"], .call "g" [.arithmetic .plus (.name "n") (.name "n")]⟩) := rfl
  have called : ((Expr.call "f" [.arithmetic .plus (.name "n") (.number 1)]).eval.run
      shadowSession).1 = .ok (.number 60) := by
    rw [Expr.eval_run]
    have total : ((5 + Scalar.ofInt 1 + (5 + Scalar.ofInt 1)) * 5 : Rat) = 60 := by decide +kernel
    rw [← total]
    rfl
  exact ⟨rfl, called, call_written_out rfl bound (by decide) (by decide) called⟩

end Shadow

end Patchwork
