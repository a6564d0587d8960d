import Patchwork.Proofs.Binding
import Patchwork.Proofs.Variants

/-!
# Programs side by side

Two programs whose definitions are the same but for variants of functions have the same design, or
fail with the same category of fault. Their sessions agree after each definition; what a definition
binds is settled by the names that it asks for.
-/

namespace Patchwork

variable {K : Type}

namespace Definition

/-- The name occurs in the expression whose value is bound. -/
def AsksFor (d : Definition) (x : String) : Prop :=
  match d with
  | declared _ _ e => e.Mentions x
  | assigned _ e => e.Mentions x
  | function _ _ _ => False

/-- The name occurs in the body of the function that is bound. -/
def BodyMentions (d : Definition) (x : String) : Prop :=
  match d with
  | declared _ _ _ => False
  | assigned _ _ => False
  | function _ _ body => body.Mentions x

/-- The same definition, or that of a variant. -/
inductive Variant (hidden : List String) : Definition → Definition → Prop
  | declared (kind : DeclaredKind) (name : String) (e : Expr) :
      Variant hidden (.declared kind name e) (.declared kind name e)
  | assigned (name : String) (e : Expr) : Variant hidden (.assigned name e) (.assigned name e)
  | function (name : String) {fn fn' : Function} : fn.Variant hidden fn' →
      Variant hidden (.function name fn.parameters fn.body)
        (.function name fn'.parameters fn'.body)

variable {hidden : List String} {d d' : Definition}

theorem Variant.name_eq (h : d.Variant hidden d') : d'.name = d.name := by
  cases h with
  | declared | assigned | function => rfl

theorem variant_self (unasked : ∀ x ∈ hidden, ¬d.BodyMentions x) : d.Variant hidden d := by
  cases d with
  | declared kind name e => exact .declared kind name e
  | assigned name e => exact .assigned name e
  | function name parameters body =>
    have self : Function.Variant hidden ⟨parameters, body⟩ ⟨parameters, body⟩ :=
      Function.variant_self unasked
    exact .function name self

end Definition

namespace Session

/-- Nothing is being called in either session, and they differ in what they bind some names to at
most. -/
inductive AgreeOff (hidden off : List String) : Session K → Session K → Prop
  | intro (limits : Limits) (depth : Nat) {session session' : Frame (Value K)} :
      session.AgreeOff hidden off session' →
      AgreeOff hidden off ⟨limits, depth, ⟨session, []⟩⟩ ⟨limits, depth, ⟨session', []⟩⟩

variable {hidden off : List String} {s s' : Session K}

theorem agreeOff_new (limits : Limits) :
    (new (K := K) limits).AgreeOff hidden off (new limits) :=
  .intro limits 0 Frame.agreeOff_empty

theorem AgreeOff.define (h : s.AgreeOff hidden off s') {v v' : Value K}
    (related : v.Like (Function.Variant hidden) v') (name : String) :
    (s.define name v).AgreeOff hidden off (s'.define name v') := by
  cases h with
  | intro limits depth agree => exact .intro limits depth (agree.insert related name)

theorem AgreeOff.define_left (h : s.AgreeOff hidden [] s') (name : String) (v : Value K) :
    (s.define name v).AgreeOff hidden [name] s' := by
  cases h with
  | intro limits depth agree =>
    have more : ([] : List String) ⊆ [name] := List.nil_subset _
    exact .intro limits depth ((agree.mono more).insert_left (List.mem_singleton_self name) v)

theorem AgreeOff.define_right (h : s.AgreeOff hidden [] s') (name : String) (v : Value K) :
    s.AgreeOff hidden [name] (s'.define name v) := by
  cases h with
  | intro limits depth agree =>
    have more : ([] : List String) ⊆ [name] := List.nil_subset _
    exact .intro limits depth ((agree.mono more).insert_right (List.mem_singleton_self name) v)

/-- Of two names the order in which they are bound does not matter. -/
theorem AgreeOff.define_swap (h : s.AgreeOff hidden [] s') {a b : String} (different : a ≠ b)
    {v v' w w' : Value K} (first : v.Like (Function.Variant hidden) v')
    (second : w.Like (Function.Variant hidden) w') :
    ((s.define a v).define b w).AgreeOff hidden [] ((s'.define b w').define a v') := by
  cases h with
  | intro limits depth agree => exact .intro limits depth (agree.insert_swap different first second)

variable {excused : Fault K → Prop}

theorem mirrors_check {v v' : Value K} (related : v.Like (Function.Variant hidden) v')
    (kind : DeclaredKind) (name : String) :
    Mirrors excused (Value.Like (Function.Variant hidden)) (kind.check name v)
      (kind.check name v') := by
  cases related with
  | plain h =>
    rw [DeclaredKind.check]
    split
    · exact .value (.plain h)
    · exact .fault rfl
  | function =>
    cases kind with
    | rect | design | number | color | angle => exact .fault rfl

variable [Scalar K]

/-- An expression that does not ask for the names that are left out. -/
theorem AgreeOff.meaning (h : s.AgreeOff hidden off s') (covered : off ⊆ hidden) {e : Expr}
    (unasked : ∀ x ∈ off, ¬e.Mentions x) :
    Mirrors excused (Value.Like (Function.Variant hidden)) (s.meaning e) (s'.meaning e) := by
  cases h with
  | @intro limits depth session session' agree =>
    have answers : Answers excused (Function.Variant hidden) limits 0 e ⟨session, none⟩
        ⟨session', none⟩ .name id := answers_agree agree unasked
    have samePatches : limits.maxPatches = limits.maxPatches := rfl
    have mirrored := Expr.meaning_mirrors samePatches (Or.inl rfl) (kinship_variant agree covered)
      (limits.maxDepth - depth) answers
    rwa [e.exchange_self] at mirrored

/-- What a definition binds its name to. -/
theorem AgreeOff.value (h : s.AgreeOff hidden off s') (covered : off ⊆ hidden) {d d' : Definition}
    (variant : d.Variant hidden d') (unasked : ∀ x ∈ off, ¬d.AsksFor x) :
    Mirrors excused (Value.Like (Function.Variant hidden)) (s.value d) (s'.value d') := by
  cases variant with
  | declared kind name e =>
    exact (h.meaning covered unasked).bind fun _ _ related => mirrors_check related kind name
  | assigned name e => exact h.meaning covered unasked
  | function name related => exact .value (.function related)

/-- Binds one more definition. -/
def extend (s : Session K) (d : Definition) : Except (Fault K) (Session K) := do
  let v ← s.value d
  pure (s.define d.name v)

theorem AgreeOff.extend (h : s.AgreeOff hidden [] s') {d d' : Definition}
    (variant : d.Variant hidden d') :
    Mirrors excused (AgreeOff hidden []) (s.extend d) (s'.extend d') := by
  have value : Mirrors excused (Value.Like (Function.Variant hidden)) (s.value d) (s'.value d') :=
    h.value (List.nil_subset _) variant fun _ member => (List.not_mem_nil member).elim
  refine value.bind fun v v' related => ?_
  rw [variant.name_eq]
  exact .value (h.define related d.name)

theorem foldlM_extend (ds : List Definition) (s : Session K) :
    ds.foldlM extend s = (s.bindAll ds).1 >>= fun _ => pure (s.bindAll ds).2 := by
  induction ds generalizing s with
  | nil => rfl
  | cons d ds ih =>
    rw [List.foldlM_cons, extend, bindAll]
    cases s.value d with
    | error fault => rfl
    | ok v => exact ih (s.define d.name v)

/-- What comes of a program that goes on in this session. -/
def outcome (s : Session K) (program : Program) : Except (Fault K) (Design K) := do
  let t ← program.definitions.foldlM extend s
  let v ← t.meaning program.goal
  v.toGoal

theorem outcome_cons (s : Session K) (d : Definition) (ds : List Definition) (goal : Expr) :
    s.outcome ⟨d :: ds, goal⟩ = s.extend d >>= fun t => t.outcome ⟨ds, goal⟩ := by
  rw [outcome, List.foldlM_cons, bind_assoc]
  rfl

theorem outcome_append (s : Session K) (before after : List Definition) (goal : Expr) :
    s.outcome ⟨before ++ after, goal⟩ =
      before.foldlM extend s >>= fun t => t.outcome ⟨after, goal⟩ := by
  rw [outcome, List.foldlM_append, bind_assoc]
  rfl

theorem AgreeOff.outcome (h : s.AgreeOff hidden [] s') {ds ds' : List Definition}
    (variants : List.Forall₂ (Definition.Variant hidden) ds ds') (goal : Expr) :
    Mirrors excused Eq (s.outcome ⟨ds, goal⟩) (s'.outcome ⟨ds', goal⟩) := by
  have bound : Mirrors excused (AgreeOff hidden []) (ds.foldlM Session.extend s)
      (ds'.foldlM Session.extend s') :=
    mirrors_foldlM (fun _ _ _ _ agree variant => agree.extend variant) variants h
  refine bound.bind fun t t' agree => ?_
  have value : Mirrors excused (Value.Like (Function.Variant hidden)) (t.meaning goal)
      (t'.meaning goal) :=
    agree.meaning (List.nil_subset _) fun _ member => (List.not_mem_nil member).elim
  exact value.bind fun v v' related => mirrors_of_eq (related.same Value.toGoal fun _ _ => rfl)

end Session

theorem Program.design_eq_outcome [Scalar K] (limits : Limits) (program : Program) :
    (program.design limits : Except (Fault K) (Design K)) =
      (Session.new limits).outcome program := by
  rw [Program.design, Program.run_run, Session.outcome, Session.foldlM_extend]
  rcases (Session.new limits).bindAll program.definitions with ⟨fault | _, after⟩
  · rfl
  · rfl

end Patchwork
