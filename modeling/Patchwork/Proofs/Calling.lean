import Mathlib.Data.List.Induction
import Patchwork.Proofs.Meaning
import Patchwork.Proofs.Outcome

/-!
# Calls

A call is settled in steps: the callee is a function, it has as many parameters as there are
arguments, the arguments have values, and the body has one in the frame that binds the parameters to
them. In such a frame all parameters are bound and nothing else is.
-/

namespace Patchwork

section Lookup

variable {V : Type}

theorem lookup_cons_of_ne {x y : String} (other : x ≠ y) (v : V) (bindings : List (String × V)) :
    ((y, v) :: bindings).lookup x = bindings.lookup x := by
  rw [List.lookup_cons, beq_eq_false_iff_ne.2 other]

theorem lookup_eq_none_of_not_mem {bindings : List (String × V)} {x : String}
    (unbound : x ∉ bindings.map Prod.fst) : bindings.lookup x = none := by
  rw [List.lookup_eq_none_iff]
  intro binding member
  have other : x ≠ binding.1 := by
    rintro rfl
    exact unbound (List.mem_map_of_mem member)
  simpa using other

/-- Where no name is bound twice, the first binding is the last one too. -/
theorem lookup_reverse_of_nodup {bindings : List (String × V)}
    (distinct : (bindings.map Prod.fst).Nodup) (x : String) :
    bindings.reverse.lookup x = bindings.lookup x := by
  induction bindings with
  | nil => rfl
  | cons binding bindings ih =>
    obtain ⟨y, v⟩ := binding
    obtain ⟨apart, distinct⟩ := List.nodup_cons.1 distinct
    rw [List.reverse_cons, List.lookup_append, ih distinct]
    by_cases same : x = y
    · subst same
      rw [lookup_eq_none_of_not_mem apart, List.lookup_cons_self, List.lookup_cons_self,
        Option.none_or]
    · rw [lookup_cons_of_ne same, lookup_cons_of_ne same, List.lookup_nil, Option.or_none]

/-- The binding that was made last is the one that counts. -/
theorem Frame.get?_ofList (bindings : List (String × V)) (x : String) :
    (Frame.ofList bindings).get? x = bindings.reverse.lookup x := by
  induction bindings using List.reverseRecOn with
  | nil => rfl
  | append_singleton bindings binding ih =>
    obtain ⟨y, v⟩ := binding
    have last : Frame.ofList (bindings ++ [(y, v)]) = (Frame.ofList bindings).insert y v := by
      rw [Frame.ofList, Frame.ofList, List.foldl_append, List.foldl_cons, List.foldl_nil]
    rw [last, List.reverse_append, List.reverse_singleton, List.singleton_append]
    by_cases same : x = y
    · subst same
      rw [get?_insert_self, List.lookup_cons_self]
    · rw [get?_insert_of_ne _ v same, lookup_cons_of_ne same, ih]

theorem rel_or {A B : Type} {R : A → B → Prop} {o p : Option A} {o' p' : Option B}
    (h : Option.Rel R o o') (h' : Option.Rel R p p') : Option.Rel R (o.or p) (o'.or p') := by
  cases h with
  | none => exact h'
  | some related => exact .some related

/-- Lists that are related bind related things, also under other names, as long as no two names
become one. -/
theorem lookup_zip_related {A B : Type} {R : A → B → Prop} {as : List A} {bs : List B}
    (related : List.Forall₂ R as bs) {naming : String → String} {xs : List String} {x : String}
    (apart : ∀ y ∈ xs, naming x = naming y → x = y) :
    Option.Rel R ((xs.zip as).reverse.lookup x)
      (((xs.map naming).zip bs).reverse.lookup (naming x)) := by
  induction related generalizing xs with
  | nil =>
    rw [List.zip_nil_right, List.zip_nil_right]
    exact .none
  | @cons a b as bs first _ ih =>
    cases xs with
    | nil => exact .none
    | cons y xs =>
      obtain ⟨here, apart⟩ := List.forall_mem_cons.1 apart
      rw [List.map_cons, List.zip_cons_cons, List.zip_cons_cons, List.reverse_cons,
        List.reverse_cons, List.lookup_append, List.lookup_append]
      refine rel_or (ih apart) ?_
      by_cases same : x = y
      · subst same
        rw [List.lookup_cons_self, List.lookup_cons_self]
        exact .some first
      · rw [lookup_cons_of_ne same, lookup_cons_of_ne (mt here same)]
        exact .none

end Lookup

variable {K : Type}

/-- The frame of a call with these values for the parameters. -/
def Function.frame (fn : Function) (vs : List (Value K)) : Frame (Value K) :=
  .ofList (fn.parameters.zip vs)

namespace Function

variable {fn : Function} {vs : List (Value K)}

theorem get?_frame_of_not_mem {x : String} (other : x ∉ fn.parameters) :
    (fn.frame vs).get? x = none := by
  rw [frame, Frame.get?_ofList]
  apply lookup_eq_none_of_not_mem
  intro member
  obtain ⟨⟨y, v⟩, within, rfl⟩ := List.mem_map.1 member
  exact other (List.of_mem_zip (List.mem_reverse.1 within)).1

theorem get?_frame_of_mem (enough : vs.length = fn.parameters.length) {x : String}
    (parameter : x ∈ fn.parameters) : ∃ v, (fn.frame vs).get? x = some v := by
  rw [← Option.isSome_iff_exists, frame, Frame.get?_ofList, List.lookup_isSome_iff]
  rw [← List.map_fst_zip (Nat.le_of_eq enough.symm)] at parameter
  obtain ⟨binding, member, rfl⟩ := List.mem_map.1 parameter
  exact ⟨binding, List.mem_reverse.2 member, beq_self_eq_true _⟩

theorem mem_of_get?_frame {x : String} {v : Value K} (found : (fn.frame vs).get? x = some v) :
    v ∈ vs := by
  rw [frame, Frame.get?_ofList] at found
  obtain ⟨before, after, split, -⟩ := List.lookup_eq_some_iff.1 found
  have member : (x, v) ∈ (fn.parameters.zip vs).reverse := by simp [split]
  exact (List.of_mem_zip (List.mem_reverse.1 member)).2

end Function

theorem require_eq_ok {scope : Scope (Value K)} {x : String} {v : Value K} :
    scope.require x = .ok v ↔ scope.get? x = some v := by
  rw [Scope.require]
  cases scope.get? x with
  | none => exact ⟨nofun, nofun⟩
  | some w => exact ⟨fun same => congrArg some (Except.ok.inj same), fun same => by cases same; rfl⟩

namespace Scope

variable {session frame : Frame (Value K)} {x : String}

theorem require_of_bound {v : Value K} (bound : frame.get? x = some v) :
    (⟨session, some frame⟩ : Scope (Value K)).require x = .ok v := by
  rw [require_eq_ok]
  change (frame.get? x).or (session.get? x) = some v
  rw [bound, Option.some_or]

/-- What the innermost frame does not bind is the affair of the session frame. -/
theorem require_of_unbound (unbound : frame.get? x = none) :
    (⟨session, some frame⟩ : Scope (Value K)).require x =
      (⟨session, none⟩ : Scope (Value K)).require x := by
  have same : (⟨session, some frame⟩ : Scope (Value K)).get? x = session.get? x := by
    change (frame.get? x).or (session.get? x) = session.get? x
    rw [unbound, Option.none_or]
  rw [require, require, same]
  rfl

end Scope

theorem checkArity_eq_ok {fn : Function} {f : String} {found : Nat} :
    (fn.checkArity f found : Except (Fault K) Unit) = .ok () ↔ fn.parameters.length = found := by
  rw [Function.checkArity]
  split
  · next same => exact iff_of_true rfl same
  · next different => exact iff_of_false nofun different

namespace Meaning

variable (sub : Scope (Value K) → Expr → Except (Fault K) (Value K)) (scope : Scope (Value K))

/-- Arguments may as well all be evaluated before the first of them is bound. -/
theorem foldlM_argument {xs : List String} {es : List Expr} (enough : xs.length = es.length)
    (frame : Frame (Value K)) :
    (xs.zip es).foldlM (argument sub scope) frame = (do
      let vs ← es.mapM (sub scope)
      pure ((xs.zip vs).foldl (fun frame binding => frame.insert binding.1 binding.2) frame)) := by
  induction xs generalizing es frame with
  | nil =>
    obtain rfl : es = [] := List.eq_nil_of_length_eq_zero enough.symm
    rfl
  | cons x xs ih =>
    cases es with
    | nil => cases enough
    | cons e es =>
      rw [List.zip_cons_cons, List.foldlM_cons, argument, bind_assoc, List.mapM_cons, bind_assoc]
      refine bind_congr fun v => ?_
      rw [pure_bind, ih (Nat.succ.inj enough), bind_assoc]
      refine bind_congr fun vs => ?_
      rw [pure_bind, List.zip_cons_cons, List.foldl_cons]

theorem call_eq (f : String) (arguments : List Expr) :
    call sub scope f arguments = (do
      let v ← scope.require f
      let fn ← v.toFunction f
      fn.checkArity f arguments.length
      let vs ← arguments.mapM (sub scope)
      sub (scope.inCall (fn.frame vs)) fn.body) := by
  rw [call]
  refine bind_congr fun v => bind_congr fun fn => ?_
  rw [Function.checkArity]
  by_cases enough : fn.parameters.length = arguments.length
  · rw [if_pos enough]
    change ((fn.parameters.zip arguments).foldlM (argument sub scope) Frame.empty >>= _) =
      arguments.mapM (sub scope) >>= _
    rw [foldlM_argument sub scope enough, bind_assoc]
    rfl
  · rw [if_neg enough]
    rfl

variable {sub scope} in
/-- What a call that succeeds has found. -/
theorem call_eq_ok {f : String} {arguments : List Expr} {v : Value K} :
    call sub scope f arguments = .ok v ↔ ∃ fn vs, scope.get? f = some (.function fn) ∧
      fn.parameters.length = arguments.length ∧
      List.Forall₂ (fun e v => sub scope e = .ok v) arguments vs ∧
      sub (scope.inCall (fn.frame vs)) fn.body = .ok v := by
  rw [call_eq, bind_eq_ok]
  constructor
  · rintro ⟨w, found, rest⟩
    obtain ⟨fn, callee, rest⟩ := bind_eq_ok.1 rest
    obtain ⟨_, arity, rest⟩ := bind_eq_ok.1 rest
    obtain ⟨vs, evaluated, body⟩ := bind_eq_ok.1 rest
    refine ⟨fn, vs, ?_, ?_, mapM_eq_ok.1 evaluated, body⟩
    · cases w with
      | function fn' =>
        cases callee
        exact require_eq_ok.1 found
      | _ => cases callee
    · exact checkArity_eq_ok.1 arity
  · rintro ⟨fn, vs, found, enough, evaluated, body⟩
    refine ⟨.function fn, require_eq_ok.2 found, bind_eq_ok.2 ⟨fn, rfl, ?_⟩⟩
    refine bind_eq_ok.2 ⟨(), checkArity_eq_ok.2 enough, ?_⟩
    exact bind_eq_ok.2 ⟨vs, mapM_eq_ok.2 evaluated, body⟩

end Meaning

end Patchwork
