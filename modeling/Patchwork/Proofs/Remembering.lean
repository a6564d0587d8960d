import Mathlib.Data.List.Dedup
import Patchwork.Proofs.Calling

/-!
# What an environment remembers

An environment is the work of the operations on it so far. Of these, two stretches can be seen: what
was defined while nothing but the session frame was there, and what was defined since the innermost
frame was pushed, frames that were pushed and dropped on top of it apart. A frame that is not
dropped is like the session frame of an environment of its own, so that the one is known from the
other.
-/

namespace Patchwork

namespace Frame

variable {V : Type}

/-- Definitions in order, on top of what is bound already. -/
def defineAll (frame : Frame V) (made : List (String × V)) : Frame V :=
  made.foldl (fun frame binding => frame.insert binding.1 binding.2) frame

/-- The latest of the definitions of the name. -/
def latest? (made : List (String × V)) (name : String) : Option V :=
  made.reverse.lookup name

theorem latest?_cons (binding : String × V) (made : List (String × V)) (name : String) :
    latest? (binding :: made) name = (latest? made name).or (latest? [binding] name) := by
  rw [latest?, List.reverse_cons, List.lookup_append]
  rfl

theorem get?_insert (frame : Frame V) (binding : String × V) (name : String) :
    (frame.insert binding.1 binding.2).get? name =
      (latest? [binding] name).or (frame.get? name) := by
  obtain ⟨other, v⟩ := binding
  rw [latest?, List.reverse_singleton]
  by_cases same : name = other
  · subst same
    rw [get?_insert_self, List.lookup_cons_self, Option.some_or]
  · rw [get?_insert_of_ne frame v same, lookup_cons_of_ne same, List.lookup_nil, Option.none_or]

theorem get?_defineAll (frame : Frame V) (made : List (String × V)) (name : String) :
    (frame.defineAll made).get? name = (latest? made name).or (frame.get? name) := by
  induction made generalizing frame with
  | nil => rfl
  | cons binding made ih =>
    have later : frame.defineAll (binding :: made) =
        (frame.insert binding.1 binding.2).defineAll made := rfl
    rw [later, ih, get?_insert, latest?_cons binding made, Option.or_assoc]

def names (frame : Frame V) : List String :=
  frame.bindings.map Prod.fst

theorem names_insert (frame : Frame V) (name : String) (v : V) :
    (frame.insert name v).names = name :: frame.names.filter (· != name) := by
  rw [names, insert, List.map_cons, names, List.filter_map]
  rfl

/-- A frame that was started empty binds each name that was defined, and binds it once. -/
theorem names_defineAll {frame : Frame V} (distinct : frame.names.Nodup)
    (made : List (String × V)) :
    (frame.defineAll made).names.Nodup ∧
      ∀ name, name ∈ (frame.defineAll made).names ↔
        name ∈ frame.names ∨ name ∈ made.map Prod.fst := by
  induction made generalizing frame with
  | nil => exact ⟨distinct, by simp [defineAll]⟩
  | cons binding made ih =>
    have kept : (frame.insert binding.1 binding.2).names.Nodup := by
      rw [names_insert, List.nodup_cons]
      exact ⟨by simp, distinct.filter _⟩
    obtain ⟨distinct, bound⟩ := ih kept
    refine ⟨distinct, fun name => (bound name).trans ?_⟩
    rw [names_insert, List.map_cons, List.mem_cons, List.mem_cons, List.mem_filter]
    by_cases same : name = binding.1 <;> simp [same]

theorem size_defineAll_empty (made : List (String × V)) :
    ((empty : Frame V).defineAll made).size = (made.map Prod.fst).dedup.length := by
  have none : (empty : Frame V).names.Nodup := List.nodup_nil
  obtain ⟨distinct, bound⟩ := names_defineAll none made
  have same : ((empty : Frame V).defineAll made).names.Perm (made.map Prod.fst).dedup := by
    rw [List.perm_ext_iff_of_nodup distinct (List.nodup_dedup _)]
    intro name
    rw [bound, List.mem_dedup]
    exact or_iff_right List.not_mem_nil
  rw [← same.length_eq, names, List.length_map]
  rfl

end Frame

/-- What can be done to an environment. -/
inductive Operation (V : Type) where
  | define (name : String) (v : V)
  | push (frame : Frame V)
  | pop
  deriving DecidableEq, Repr

namespace Operation

variable {V : Type}

/-- How many frames are open behind the operations, of `opened` before them and the pushed ones.
To drop a frame where none is open has no effect. -/
def openAfter (opened : Nat) : List (Operation V) → Nat
  | [] => opened
  | define _ _ :: later => openAfter opened later
  | push _ :: later => openAfter (opened + 1) later
  | pop :: later => openAfter (opened - 1) later

/-- The definitions that are made where no frame is open, of `opened` at first. -/
def outermost (opened : Nat) : List (Operation V) → List (String × V)
  | [] => []
  | define name v :: later =>
    if opened = 0 then (name, v) :: outermost opened later else outermost opened later
  | push _ :: later => outermost (opened + 1) later
  | pop :: later => outermost (opened - 1) later

/-- The operations drop the `opened` frames and all that they push, and none besides. -/
def Closes (opened : Nat) : List (Operation V) → Prop
  | [] => opened = 0
  | define _ _ :: later => Closes opened later
  | push _ :: later => Closes (opened + 1) later
  | pop :: later => ∃ others, opened = others + 1 ∧ Closes others later

/-- Of the frames that are still open, the one that was pushed last, with what was done since. -/
def Innermost (history : List (Operation V)) (frame : Frame V) (since : List (Operation V)) :
    Prop :=
  ∃ before, history = before ++ push frame :: since ∧ Closes 0 since

section Stretches

variable {ops later : List (Operation V)} {opened : Nat}

theorem openAfter_append : openAfter opened (ops ++ later) =
    openAfter (openAfter opened ops) later := by
  induction ops generalizing opened with
  | nil => rfl
  | cons op ops ih => cases op <;> exact ih

theorem outermost_append : outermost opened (ops ++ later) =
    outermost opened ops ++ outermost (openAfter opened ops) later := by
  induction ops generalizing opened with
  | nil => rfl
  | cons op ops ih =>
    cases op with
    | define name v =>
      by_cases none : opened = 0
      · simp [outermost, openAfter, none, ih]
      · simp [outermost, openAfter, none, ih]
    | push frame | pop => exact ih

theorem Closes.append (h : Closes opened ops) (h' : Closes 0 later) :
    Closes opened (ops ++ later) := by
  induction ops generalizing opened with
  | nil =>
    obtain rfl : opened = 0 := h
    exact h'
  | cons op ops ih =>
    cases op with
    | define name v | push frame => exact ih h
    | pop =>
      obtain ⟨others, rfl, h⟩ := h
      exact ⟨others, rfl, ih h⟩

/-- One frame more is dropped last. -/
theorem Closes.concat_pop (h : Closes opened ops) : Closes (opened + 1) (ops ++ [pop]) := by
  induction ops generalizing opened with
  | nil => exact ⟨opened, rfl, h⟩
  | cons op ops ih =>
    cases op with
    | define name v | push frame => exact ih h
    | pop =>
      obtain ⟨others, rfl, h⟩ := h
      exact ⟨others + 1, rfl, ih h⟩

/-- Frames below those that are dropped stay open. -/
theorem Closes.openAfter_add (h : Closes opened ops) (below : Nat) :
    openAfter (opened + below) ops = below := by
  induction ops generalizing opened with
  | nil =>
    obtain rfl : opened = 0 := h
    exact Nat.zero_add below
  | cons op ops ih =>
    cases op with
    | define name v => exact ih h
    | push frame =>
      rw [openAfter, Nat.add_right_comm]
      exact ih h
    | pop =>
      obtain ⟨others, rfl, h⟩ := h
      rw [openAfter, Nat.add_right_comm, Nat.add_sub_cancel]
      exact ih h

theorem Closes.outermost_add (h : Closes opened ops) (below : Nat) :
    outermost (opened + below + 1) ops = [] := by
  induction ops generalizing opened with
  | nil => rfl
  | cons op ops ih =>
    cases op with
    | define name v =>
      rw [outermost, if_neg (Nat.succ_ne_zero _)]
      exact ih h
    | push frame =>
      rw [outermost, Nat.add_right_comm opened]
      exact ih h
    | pop =>
      obtain ⟨others, rfl, h⟩ := h
      rw [outermost, Nat.add_right_comm others, Nat.add_sub_cancel]
      exact ih h

theorem openAfter_innermost {before since : List (Operation V)} (frame : Frame V)
    (closed : Closes 0 since) :
    openAfter 0 (before ++ push frame :: since) = openAfter 0 before + 1 := by
  have kept := closed.openAfter_add (openAfter 0 before + 1)
  rw [Nat.zero_add] at kept
  rw [openAfter_append, openAfter, kept]

theorem outermost_innermost {before since : List (Operation V)} (frame : Frame V)
    (closed : Closes 0 since) :
    outermost 0 (before ++ push frame :: since) = outermost 0 before := by
  have hidden := closed.outermost_add (openAfter 0 before)
  rw [Nat.zero_add] at hidden
  rw [outermost_append, outermost, hidden, List.append_nil]

/-- Where frames are open, one of them was pushed last. -/
theorem exists_innermost {history : List (Operation V)} (some : openAfter 0 history ≠ 0) :
    ∃ frame since, Innermost history frame since := by
  induction length : history.length using Nat.strongRecOn generalizing history with
  | ind n ih =>
    subst length
    obtain rfl | ⟨earlier, last, rfl⟩ := List.eq_nil_or_concat' history
    · exact (some rfl).elim
    have shorter : earlier.length < (earlier ++ [last]).length := by simp
    rw [openAfter_append] at some
    cases last with
    | define name v =>
      obtain ⟨frame, since, before, rfl, closed⟩ := ih _ shorter some rfl
      exact ⟨frame, since ++ [define name v], before, by simp, closed.append rfl⟩
    | push frame => exact ⟨frame, [], earlier, rfl, rfl⟩
    | pop =>
      -- The innermost frame is dropped, and the one that was innermost when it was pushed is left.
      have more : openAfter 0 earlier - 1 ≠ 0 := some
      obtain ⟨dropped, since, before, rfl, closed⟩ := ih _ shorter (by omega) rfl
      rw [openAfter_innermost dropped closed, Nat.add_sub_cancel] at more
      have shorter' : before.length < (before ++ push dropped :: since ++ [pop]).length := by
        simp only [List.length_append, List.length_cons]
        omega
      obtain ⟨frame, since', before', rfl, closed'⟩ := ih _ shorter' more rfl
      refine ⟨frame, since' ++ push dropped :: (since ++ [pop]), before', by simp, ?_⟩
      exact closed'.append closed.concat_pop

end Stretches

end Operation

namespace Environment

open Operation

variable {V : Type}

def apply (env : Environment V) : Operation V → Environment V
  | .define name v => env.define name v
  | .push frame => env.push frame
  | .pop => env.pop

def applyAll (env : Environment V) (ops : List (Operation V)) : Environment V :=
  ops.foldl apply env

/-- The frames of the inner environment on top of those of the outer one. The session frame of the
inner one is an ordinary frame there. -/
def onTop (inner outer : Environment V) : Environment V :=
  ⟨outer.session, inner.calls ++ inner.session :: outer.calls⟩

theorem applyAll_append (env : Environment V) (ops later : List (Operation V)) :
    env.applyAll (ops ++ later) = (env.applyAll ops).applyAll later :=
  List.foldl_append

theorem calls_applyAll (env : Environment V) (ops : List (Operation V)) :
    (env.applyAll ops).calls.length = openAfter env.calls.length ops := by
  induction ops generalizing env with
  | nil => rfl
  | cons op ops ih =>
    obtain ⟨session, calls⟩ := env
    refine (ih _).trans ?_
    cases op with
    | define name v => cases calls <;> rfl
    | push frame => rfl
    | pop => rw [apply, pop, List.length_tail, openAfter]

theorem session_applyAll (env : Environment V) (ops : List (Operation V)) :
    (env.applyAll ops).session = env.session.defineAll (outermost env.calls.length ops) := by
  induction ops generalizing env with
  | nil => rfl
  | cons op ops ih =>
    obtain ⟨session, calls⟩ := env
    refine (ih _).trans ?_
    cases op with
    | define name v => cases calls <;> rfl
    | push frame => rfl
    | pop => rw [apply, pop, List.length_tail, outermost]

/-- What does not drop a frame does the same to it, and to those above it, as if it were the session
frame. -/
theorem applyAll_onTop (inner outer : Environment V) {ops : List (Operation V)}
    (closes : Closes inner.calls.length ops) :
    (inner.onTop outer).applyAll ops = (inner.applyAll ops).onTop outer := by
  induction ops generalizing inner with
  | nil => rfl
  | cons op ops ih =>
    obtain ⟨session, calls⟩ := inner
    cases op with
    | define name v =>
      cases calls with
      | nil => exact ih ⟨session.insert name v, []⟩ closes
      | cons frame calls => exact ih ⟨session, frame.insert name v :: calls⟩ closes
    | push frame => exact ih ⟨session, frame :: calls⟩ closes
    | pop =>
      obtain ⟨others, more, closes⟩ := closes
      cases calls with
      | nil => cases more
      | cons frame calls =>
        cases more
        exact ih ⟨session, calls⟩ closes

/-- Of what was done since a frame was pushed, only definitions in this frame are left. -/
theorem applyAll_push (env : Environment V) (frame : Frame V) {since : List (Operation V)}
    (closed : Closes 0 since) :
    (env.push frame).applyAll since = env.push (frame.defineAll (outermost 0 since)) := by
  have session := session_applyAll ⟨frame, []⟩ since
  have calls := calls_applyAll ⟨frame, []⟩ since
  have none : openAfter 0 since = 0 := closed.openAfter_add 0
  have kept : (env.push frame).applyAll since =
      ((⟨frame, []⟩ : Environment V).applyAll since).onTop env :=
    applyAll_onTop ⟨frame, []⟩ env closed
  rw [List.length_nil, none, List.length_eq_zero_iff] at calls
  rw [kept, onTop, session, calls]
  rfl

theorem get?_of_none_open {history : List (Operation V)} (none : openAfter 0 history = 0)
    (name : String) :
    (empty.applyAll history).get? name = Frame.latest? (outermost 0 history) name := by
  have alone : (empty.applyAll history).calls = [] :=
    List.length_eq_zero_iff.1 ((calls_applyAll empty history).trans none)
  rw [get?, alone, session_applyAll, Frame.get?_defineAll]
  exact Option.or_none

theorem get?_of_innermost {history since : List (Operation V)} {frame : Frame V}
    (innermost : Innermost history frame since) (name : String) :
    (empty.applyAll history).get? name =
      ((Frame.latest? (outermost 0 since) name).or (frame.get? name)).or
        (Frame.latest? (outermost 0 history) name) := by
  obtain ⟨before, rfl, closed⟩ := innermost
  have inside : empty.applyAll (before ++ .push frame :: since) =
      (empty.applyAll before).push (frame.defineAll (outermost 0 since)) := by
    rw [applyAll_append]
    exact applyAll_push _ frame closed
  rw [inside, get?, push, session_applyAll]
  dsimp only
  rw [Frame.get?_defineAll, Frame.get?_defineAll, outermost_innermost frame closed]
  exact congrArg _ Option.or_none

/-- Whatever has been done to a new environment, the session frame is there, and a frame that is
pushed now and, after any operations that do not drop it, dropped again leaves no trace. A name
stands for what it was last defined as in the innermost frame, or else for what this frame was
pushed with, or else for what it was last defined as while there was only the session frame, or else
for nothing. The size is the number of names defined while there was only the session frame. -/
theorem remembers_history (history : List (Operation V)) :
    let env := empty.applyAll history
    (1 ≤ env.depth ∧ env.depth = openAfter 0 history + 1) ∧
      (∀ frame between, Closes 0 between →
        empty.applyAll (history ++ .push frame :: (between ++ [.pop])) = env) ∧
      ((openAfter 0 history = 0 →
          ∀ name, env.get? name = Frame.latest? (outermost 0 history) name) ∧
        (openAfter 0 history ≠ 0 → ∃ frame since, Innermost history frame since) ∧
        ∀ frame since, Innermost history frame since →
          ∀ name, env.get? name =
            ((Frame.latest? (outermost 0 since) name).or (frame.get? name)).or
              (Frame.latest? (outermost 0 history) name)) ∧
      env.size = ((outermost 0 history).map Prod.fst).dedup.length := by
  refine ⟨⟨Nat.le_add_left 1 _, congrArg (· + 1) (calls_applyAll empty history)⟩, ?_, ?_, ?_⟩
  · intro frame between closed
    have dropped : ((empty.applyAll history).push frame).applyAll (between ++ [.pop]) =
        empty.applyAll history := by
      rw [applyAll_append, applyAll_push _ frame closed]
      exact pop_push _ _
    rw [applyAll_append]
    exact dropped
  · exact ⟨get?_of_none_open, exists_innermost, fun frame since => get?_of_innermost⟩
  · rw [size, session_applyAll]
    exact Frame.size_defineAll_empty _

section Rebinding

/-- Nothing is dropped first. Then a name is bound twice, and once more in a frame. -/
def rebinding : List (Operation Nat) :=
  [.pop, .define "w" 1, .define "w" 2, .define "s" 5, .push ⟨[("a", 9)]⟩, .define "w" 7]

/-- A frame that goes and another that comes and goes, with definitions in both. -/
def visit : List (Operation Nat) :=
  [.define "s" 4, .push ⟨[("w", 8)]⟩, .define "a" 6, .pop, .define "w" 0]

/-- Without the visit and with it, the frame counts first, and then the session frame. -/
theorem rebinding_remembered :
    Closes 0 visit ∧ Innermost rebinding ⟨[("a", 9)]⟩ [.define "w" 7] ∧
      let env := empty.applyAll (rebinding ++ .push ⟨[("a", 3)]⟩ :: (visit ++ [.pop]))
      env = empty.applyAll rebinding ∧ env.depth = 2 ∧ env.size = 2 ∧
        env.get? "w" = some 7 ∧ env.get? "a" = some 9 ∧ env.get? "s" = some 5 ∧
        env.get? "b" = none := by
  have closes : Closes 0 visit := ⟨0, rfl, rfl⟩
  have innermost : Innermost rebinding ⟨[("a", 9)]⟩ [.define "w" 7] :=
    ⟨[.pop, .define "w" 1, .define "w" 2, .define "s" 5], rfl, rfl⟩
  obtain ⟨⟨-, depth⟩, kept, ⟨-, -, looked⟩, size⟩ := remembers_history rebinding
  have same := kept ⟨[("a", 3)]⟩ visit closes
  refine ⟨closes, innermost, same, ?_⟩
  rw [same, depth, size]
  have found := looked _ _ innermost
  rw [found, found, found, found]
  decide

end Rebinding

end Environment

end Patchwork
