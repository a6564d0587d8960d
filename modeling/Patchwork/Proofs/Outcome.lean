import Mathlib.Data.List.Forall2

/-!
# Outcomes

Steps in a row succeed where each of them does. An outcome is cut by a limit if it is an error that
the limit makes; otherwise the limit has had no influence on it. An outcome ensures a property if
its value has it, should there be one, and promises it if, besides, its error is an allowed one,
should there be one. All of these are carried through sequences of steps.
-/

namespace Patchwork

variable {E A A' B B' : Type}

section Success

theorem bind_eq_ok {outcome : Except E A} {next : A → Except E B} {b : B} :
    (outcome >>= next) = .ok b ↔ ∃ a, outcome = .ok a ∧ next a = .ok b := by
  cases outcome with
  | error e =>
    constructor
    · nofun
    · rintro ⟨a, same, -⟩
      cases same
  | ok a =>
    constructor
    · exact fun h => ⟨a, rfl, h⟩
    · rintro ⟨_, same, h⟩
      cases same
      exact h

theorem mapM_eq_ok {f : A → Except E B} {as : List A} {bs : List B} :
    as.mapM f = .ok bs ↔ List.Forall₂ (fun a b => f a = .ok b) as bs := by
  induction as generalizing bs with
  | nil =>
    rw [List.mapM_nil, List.forall₂_nil_left_iff]
    exact ⟨fun same => (Except.ok.inj same).symm, fun same => congrArg Except.ok same.symm⟩
  | cons a as ih =>
    rw [List.mapM_cons, bind_eq_ok, List.forall₂_cons_left_iff]
    constructor
    · rintro ⟨b, first, more⟩
      obtain ⟨bs', others, same⟩ := bind_eq_ok.1 more
      exact ⟨b, bs', first, ih.1 others, (Except.ok.inj same).symm⟩
    · rintro ⟨b, bs', first, others, rfl⟩
      exact ⟨b, first, bind_eq_ok.2 ⟨bs', ih.2 others, rfl⟩⟩

theorem foldlM_cons_eq_ok {step : B → A → Except E B} {a : A} {as : List A} {b c : B} :
    (a :: as).foldlM step b = .ok c ↔
      ∃ next, step b a = .ok next ∧ as.foldlM step next = .ok c := by
  rw [List.foldlM_cons, bind_eq_ok]

theorem bind_eq_error {outcome : Except E A} {next : A → Except E B} {e : E} :
    (outcome >>= next) = .error e ↔
      outcome = .error e ∨ ∃ a, outcome = .ok a ∧ next a = .error e := by
  cases outcome with
  | error e' =>
    constructor
    · exact fun failed => Or.inl (congrArg Except.error (Except.error.inj failed))
    · rintro (same | ⟨a, same, -⟩)
      · exact congrArg Except.error (Except.error.inj same)
      · cases same
  | ok a =>
    constructor
    · exact fun failed => Or.inr ⟨a, rfl, failed⟩
    · rintro (same | ⟨_, same, failed⟩)
      · cases same
      · cases same
        exact failed

/-- What goes wrong in a loop goes wrong at one item; what comes after it is not looked at. -/
theorem foldlM_eq_error {step : B → A → Except E B} {as : List A} {b : B} {e : E} :
    as.foldlM step b = .error e ↔ ∃ before a after c,
      as = before ++ a :: after ∧ before.foldlM step b = .ok c ∧ step c a = .error e := by
  constructor
  · intro failed
    induction as generalizing b with
    | nil => cases failed
    | cons a as ih =>
      cases now : step b a with
      | error e' =>
        rw [List.foldlM_cons, now] at failed
        exact ⟨[], a, as, b, rfl, rfl, now.trans failed⟩
      | ok next =>
        rw [List.foldlM_cons, now] at failed
        obtain ⟨before, a', after, c, rfl, reached, later⟩ := ih failed
        exact ⟨a :: before, a', after, c, rfl, foldlM_cons_eq_ok.2 ⟨next, now, reached⟩, later⟩
  · rintro ⟨before, a, after, c, rfl, reached, now⟩
    rw [List.foldlM_append, reached]
    change (a :: after).foldlM step c = _
    rw [List.foldlM_cons, now]
    rfl

end Success

section Cutting

/-- The outcome under a limit against the outcome without it or under a larger one. -/
def CutBy (limitError : E → Prop) (outcome full : Except E A) : Prop :=
  outcome = full ∨ ∃ e, outcome = .error e ∧ limitError e

variable {limitError : E → Prop}

theorem cutBy_rfl (outcome : Except E A) : CutBy limitError outcome outcome := Or.inl rfl

theorem cutBy_error {e : E} (h : limitError e) (full : Except E A) :
    CutBy limitError (.error e) full := Or.inr ⟨e, rfl, h⟩

theorem CutBy.mono {limitError' : E → Prop} {outcome full : Except E A}
    (h : CutBy limitError outcome full) (more : ∀ e, limitError e → limitError' e) :
    CutBy limitError' outcome full := by
  rcases h with same | ⟨e, cut, limit⟩
  · exact Or.inl same
  · exact Or.inr ⟨e, cut, more e limit⟩

theorem cutBy_bind {outcome full : Except E A} {next fullNext : A → Except E B}
    (first : CutBy limitError outcome full) (second : ∀ a, CutBy limitError (next a) (fullNext a)) :
    CutBy limitError (outcome >>= next) (full >>= fullNext) := by
  rcases first with rfl | ⟨e, rfl, h⟩
  · cases outcome with
    | error e => exact cutBy_rfl _
    | ok a => exact second a
  · exact cutBy_error h _

theorem cutBy_foldlM {step fullStep : B → A → Except E B}
    (each : ∀ b a, CutBy limitError (step b a) (fullStep b a)) (items : List A) (initial : B) :
    CutBy limitError (items.foldlM step initial) (items.foldlM fullStep initial) := by
  induction items generalizing initial with
  | nil => exact cutBy_rfl _
  | cons item items ih =>
    rw [List.foldlM_cons, List.foldlM_cons]
    exact cutBy_bind (each initial item) ih

/-- A check against a limit, beside a check that refuses less. -/
theorem cutBy_check {p q : Prop} [Decidable p] [Decidable q] {e e' : E} (limit : limitError e)
    (refused : q → p) (a : A) :
    CutBy limitError (if p then .error e else .ok a) (if q then .error e' else .ok a) := by
  by_cases h : p
  · rw [if_pos h]
    exact cutBy_error limit _
  · rw [if_neg h, if_neg (mt refused h)]
    exact cutBy_rfl _

/-- A success, and an error of another kind, is never the work of a limit. -/
theorem eq_of_cutBy {outcome full : Except E A} (h : CutBy limitError outcome full)
    (settled : ∀ e, outcome = .error e → ¬limitError e) : full = outcome := by
  rcases h with h | ⟨e, h, limit⟩
  · exact h.symm
  · exact absurd limit (settled e h)

end Cutting

section Ensuring

/-- What a success promises of its value. -/
def Ensures (outcome : Except E A) (post : A → Prop) : Prop :=
  ∀ a, outcome = .ok a → post a

theorem ensures_true (outcome : Except E A) : Ensures outcome fun _ => True :=
  fun _ _ => trivial

theorem ensures_ok {a : A} {post : A → Prop} (h : post a) :
    Ensures (.ok a : Except E A) post := by
  intro b same
  cases same
  exact h

theorem ensures_error (e : E) (post : A → Prop) : Ensures (.error e : Except E A) post := by
  intro a h
  cases h

theorem ensures_ite {p : Prop} [Decidable p] {yes no : Except E A} {post : A → Prop}
    (pos : p → Ensures yes post) (neg : ¬p → Ensures no post) :
    Ensures (if p then yes else no) post := by
  by_cases h : p
  · rw [if_pos h]
    exact pos h
  · rw [if_neg h]
    exact neg h

theorem ensures_bind {outcome : Except E A} {next : A → Except E B} {mid : A → Prop}
    {post : B → Prop} (first : Ensures outcome mid) (second : ∀ a, mid a → Ensures (next a) post) :
    Ensures (outcome >>= next) post := by
  intro b h
  cases outcome with
  | error e => cases h
  | ok a => exact second a (first a rfl) b h

theorem ensures_foldlM {step : B → A → Except E B} {inv : B → Prop}
    (each : ∀ b a, inv b → Ensures (step b a) inv) (items : List A) {initial : B}
    (start : inv initial) : Ensures (items.foldlM step initial) inv := by
  induction items generalizing initial with
  | nil => exact ensures_ok start
  | cons item items ih =>
    rw [List.foldlM_cons]
    exact ensures_bind (each initial item start) fun _ h => ih h

end Ensuring

section Promising

/-- What holds of the value, and of the error where there is none. -/
def Promises (outcome : Except E A) (post : A → Prop) (allowed : E → Prop) : Prop :=
  match outcome with
  | .ok a => post a
  | .error e => allowed e

variable {allowed allowed' : E → Prop}

theorem Promises.mono {outcome : Except E A} {post post' : A → Prop}
    (h : Promises outcome post allowed) (more : ∀ a, post a → post' a)
    (others : ∀ e, allowed e → allowed' e) : Promises outcome post' allowed' := by
  cases outcome with
  | ok a => exact more a h
  | error e => exact others e h

theorem Promises.bind {outcome : Except E A} {next : A → Except E B} {mid : A → Prop}
    {post : B → Prop} (first : Promises outcome mid allowed)
    (second : ∀ a, mid a → Promises (next a) post allowed) :
    Promises (outcome >>= next) post allowed := by
  cases outcome with
  | ok a => exact second a first
  | error e => exact first

theorem promises_foldlM {step : B → A → Except E B} {inv : B → Prop} {items : List A}
    (each : ∀ b, ∀ a ∈ items, inv b → Promises (step b a) inv allowed) {initial : B}
    (start : inv initial) : Promises (items.foldlM step initial) inv allowed := by
  induction items generalizing initial with
  | nil => exact start
  | cons item items ih =>
    rw [List.foldlM_cons]
    refine (each initial item List.mem_cons_self start).bind fun b h => ?_
    exact ih (fun b a member => each b a (List.mem_cons_of_mem _ member)) h

theorem promises_mapM {f : A → Except E B} {post : B → Prop} {items : List A}
    (each : ∀ a ∈ items, Promises (f a) post allowed) :
    Promises (items.mapM f) (fun bs => bs.length = items.length ∧ ∀ b ∈ bs, post b) allowed := by
  induction items with
  | nil => exact ⟨rfl, by simp⟩
  | cons item items ih =>
    obtain ⟨first, others⟩ := List.forall_mem_cons.1 each
    rw [List.mapM_cons]
    refine first.bind fun b h => (ih others).bind fun bs hs => ?_
    exact ⟨congrArg Nat.succ hs.1, List.forall_mem_cons.2 ⟨h, hs.2⟩⟩

end Promising

section Agreeing

/-- The same error, or values that are related. -/
inductive Agrees (related : A → A' → Prop) : Except E A → Except E A' → Prop
  | ok {a : A} {a' : A'} : related a a' → Agrees related (.ok a) (.ok a')
  | error (e : E) : Agrees related (.error e) (.error e)

variable {related : A → A' → Prop} {related' : B → B' → Prop}

theorem agrees_self (outcome : Except E A) : Agrees Eq outcome outcome := by
  cases outcome with
  | ok a => exact .ok rfl
  | error e => exact .error e

theorem Agrees.bind {outcome : Except E A} {outcome' : Except E A'} {next : A → Except E B}
    {next' : A' → Except E B'} (first : Agrees related outcome outcome')
    (second : ∀ a a', related a a' → Agrees related' (next a) (next' a')) :
    Agrees related' (outcome >>= next) (outcome' >>= next') := by
  cases first with
  | ok h => exact second _ _ h
  | error e => exact .error e

end Agreeing

end Patchwork
