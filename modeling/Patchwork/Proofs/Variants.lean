import Patchwork.Proofs.Mirroring

/-!
# Variants of functions

A variant of a function has other names for its parameters and is the same function otherwise.
Sessions agree off some names if all other names are bound to the same values or to variants in
both. What does not ask for the names that are left out, not even inside of calls, cannot tell such
sessions apart.
-/

namespace Patchwork

variable {K : Type}

/-- A naming that suits a function: no parameter becomes another name that the body asks for, and
what the body asks its surroundings for keeps its name, which is none of the hidden ones. -/
structure Function.Suits (fn : Function) (hidden : List String) (naming : String → String) :
    Prop where
  apart : ∀ x, fn.body.Mentions x → ∀ y ∈ fn.parameters, naming x = naming y → x = y
  outside : ∀ x, fn.body.Mentions x → x ∉ fn.parameters → naming x = x ∧ x ∉ hidden

def Function.Variant (hidden : List String) (fn fn' : Function) : Prop :=
  ∃ naming, fn.Suits hidden naming ∧ fn' = fn.rename naming

namespace Function

variable {fn : Function} {hidden : List String} {naming : String → String}

theorem variant_self (unasked : ∀ x ∈ hidden, ¬fn.body.Mentions x) : fn.Variant hidden fn := by
  refine ⟨id, ?_, fn.rename_id.symm⟩
  constructor
  · intro x _ y _ same
    exact same
  · intro x asked _
    exact ⟨rfl, fun member => unasked x member asked⟩

/-- A parameter can be given any name that the function has no use for. -/
theorem variant_replacing {a b : String} (parameter : a ∈ fn.parameters) (other : b ∉ fn.parameters)
    (unasked : ¬fn.body.Mentions b) : fn.Variant [] (fn.rename (replacing a b)) := by
  refine ⟨replacing a b, ?_, rfl⟩
  constructor
  · intro x asked y listed same
    have hx : x ≠ b := by
      rintro rfl
      exact unasked asked
    have hy : y ≠ b := by
      rintro rfl
      exact other listed
    rw [replacing, replacing] at same
    split at same
    · next xa =>
      split at same
      · next ya => exact xa.trans ya.symm
      · exact (hy same.symm).elim
    · split at same
      · exact (hx same).elim
      · exact same
  · intro x _ outside
    have hx : x ≠ a := by
      rintro rfl
      exact outside parameter
    exact ⟨if_neg hx, List.not_mem_nil⟩

end Function

/-- What is bound is the same in both frames, or a variant, except for some names. -/
def Frame.AgreeOff (hidden off : List String) (frame frame' : Frame (Value K)) : Prop :=
  ∀ x, x ∉ off → Option.Rel (Value.Like (Function.Variant hidden)) (frame.get? x) (frame'.get? x)

namespace Frame

variable {hidden off : List String} {frame frame' : Frame (Value K)}

theorem agreeOff_empty : (empty : Frame (Value K)).AgreeOff hidden off empty :=
  fun _ _ => .none

theorem AgreeOff.insert (h : frame.AgreeOff hidden off frame') {v v' : Value K}
    (related : v.Like (Function.Variant hidden) v') (name : String) :
    (frame.insert name v).AgreeOff hidden off (frame'.insert name v') := by
  intro x outside
  by_cases same : x = name
  · subst same
    rw [get?_insert_self, get?_insert_self]
    exact .some related
  · rw [get?_insert_of_ne _ v same, get?_insert_of_ne _ v' same]
    exact h x outside

/-- A name that is left out may be bound anew on one side alone. -/
theorem AgreeOff.insert_left (h : frame.AgreeOff hidden off frame') {name : String}
    (left : name ∈ off) (v : Value K) : (frame.insert name v).AgreeOff hidden off frame' := by
  intro x outside
  rw [get?_insert_of_ne _ v (ne_of_mem_of_not_mem left outside).symm]
  exact h x outside

theorem AgreeOff.insert_right (h : frame.AgreeOff hidden off frame') {name : String}
    (left : name ∈ off) (v : Value K) : frame.AgreeOff hidden off (frame'.insert name v) := by
  intro x outside
  rw [get?_insert_of_ne _ v (ne_of_mem_of_not_mem left outside).symm]
  exact h x outside

theorem AgreeOff.mono {off' : List String} (h : frame.AgreeOff hidden off frame')
    (more : off ⊆ off') : frame.AgreeOff hidden off' frame' :=
  fun x outside => h x fun member => outside (more member)

theorem AgreeOff.insert_swap (h : frame.AgreeOff hidden off frame') {a b : String}
    (different : a ≠ b) {v v' w w' : Value K} (first : v.Like (Function.Variant hidden) v')
    (second : w.Like (Function.Variant hidden) w') :
    ((frame.insert a v).insert b w).AgreeOff hidden off ((frame'.insert b w').insert a v') := by
  intro x outside
  by_cases xb : x = b
  · subst xb
    rw [get?_insert_self, get?_insert_of_ne _ v' different.symm, get?_insert_self]
    exact .some second
  · rw [get?_insert_of_ne _ w xb]
    by_cases xa : x = a
    · subst xa
      rw [get?_insert_self, get?_insert_self]
      exact .some first
    · rw [get?_insert_of_ne _ v xa, get?_insert_of_ne _ v' xa, get?_insert_of_ne _ w' xb]
      exact h x outside

end Frame

variable [Scalar K] {excused : Fault K → Prop} {limits : Limits} {hidden off : List String}

/-- In sessions that agree off hidden names, a function and its variant answer each other: a
parameter by the parameter in its place, any other name by itself. -/
theorem kinship_variant {session session' : Frame (Value K)}
    (agree : session.AgreeOff hidden off session') (covered : off ⊆ hidden) :
    Kinship excused (Function.Variant hidden) limits 0 session session' where
  arity := by
    rintro fn _ ⟨naming, -, rfl⟩
    exact List.length_map naming
  body := by
    rintro fn _ vs vs' ⟨naming, suits, rfl⟩ enough related
    refine ⟨fun x => .name (naming x), naming, rfl, ?_⟩
    have found : ∀ x, fn.body.Mentions x → Option.Rel (Value.Like (Function.Variant hidden))
        ((⟨session, some (fn.frame vs)⟩ : Scope (Value K)).get? x)
        ((⟨session', some ((fn.rename naming).frame vs')⟩ : Scope (Value K)).get? (naming x)) := by
      intro x asked
      have parameter := lookup_zip_related related (suits.apart x asked)
      rw [← Frame.get?_ofList, ← Frame.get?_ofList] at parameter
      change Option.Rel _ (((fn.frame vs).get? x).or (session.get? x))
        ((((fn.rename naming).frame vs').get? (naming x)).or (session'.get? (naming x)))
      by_cases listed : x ∈ fn.parameters
      · obtain ⟨v, bound⟩ := Function.get?_frame_of_mem enough listed
        change Option.Rel _ ((fn.frame vs).get? x)
          (((fn.rename naming).frame vs').get? (naming x)) at parameter
        rw [bound] at parameter ⊢
        generalize ((fn.rename naming).frame vs').get? (naming x) = bound' at parameter ⊢
        cases parameter with
        | some like => exact .some like
      · obtain ⟨kept, shown⟩ := suits.outside x asked listed
        refine rel_or parameter ?_
        rw [kept]
        exact agree x fun member => shown (covered member)
    exact ⟨fun x used _ => mirrors_require (found x (Expr.mentions_value used)),
      fun f used => mirrors_require (found f (Expr.mentions_callee used))⟩

theorem answers_agree {session session' : Frame (Value K)}
    (agree : session.AgreeOff hidden off session') {e : Expr} (unasked : ∀ x ∈ off, ¬e.Mentions x) :
    Answers excused (Function.Variant hidden) limits 0 e ⟨session, none⟩ ⟨session', none⟩ .name id
    where
  value x used _ := mirrors_require <|
    agree x fun member => unasked x member (Expr.mentions_value used)
  callee f used := mirrors_require <|
    agree f fun member => unasked f member (Expr.mentions_callee used)

end Patchwork
