import Patchwork.Proofs.Commuting
import Patchwork.Proofs.Effects
import Patchwork.Proofs.Faulting

/-!
# Definitions that can be left out

A name that no expression and no function in sight asks for might as well be bound to anything, or
not at all: evaluation comes to the same value, or to the same fault, and what it comes to does not
ask for the name either. So a definition that nothing else asks for can be left out, unless the
program fails at that very definition.
-/

namespace Patchwork

variable {K : Type}

section Steps

variable {A B : Type}

/-- Only what the first step promises has to be gone on with in the same way. -/
theorem bind_congr_of_promises {outcome : Except (Fault K) A} {next next' : A → Except (Fault K) B}
    {post : A → Prop} {allowed : Fault K → Prop} (h : Promises outcome post allowed)
    (same : ∀ a, post a → next a = next' a) : outcome >>= next = outcome >>= next' := by
  cases outcome with
  | error fault => rfl
  | ok a => exact same a h

theorem foldlM_congr_of_mem {step step' : B → A → Except (Fault K) B} {items : List A}
    (same : ∀ a ∈ items, ∀ b, step b a = step' b a) (initial : B) :
    items.foldlM step initial = items.foldlM step' initial := by
  induction items generalizing initial with
  | nil => rfl
  | cons item items ih =>
    obtain ⟨first, others⟩ := List.forall_mem_cons.1 same
    rw [List.foldlM_cons, List.foldlM_cons, first]
    exact bind_congr fun b => ih others b

theorem mapM_congr_of_mem {f f' : A → Except (Fault K) B} {items : List A}
    (same : ∀ a ∈ items, f a = f' a) : items.mapM f = items.mapM f' := by
  induction items with
  | nil => rfl
  | cons item items ih =>
    obtain ⟨first, others⟩ := List.forall_mem_cons.1 same
    rw [List.mapM_cons, List.mapM_cons, first, ih others]

end Steps

namespace Meaning

/-!
One node in two scopes, where the expressions below it come to the same in both.
-/

variable {sub : Scope (Value K) → Expr → Except (Fault K) (Value K)}
  {scope scope' : Scope (Value K)}

variable (sub scope scope') in
def Same (e : Expr) : Prop :=
  sub scope e = sub scope' e

theorem number_congr (place : Place) {e : Expr} (h : Same sub scope scope' e) :
    number sub scope place e = number sub scope' place e := by
  rw [number, number, h]

/-- The bodies of functions that fit are all that a call can get to. -/
theorem call_congr {fit : Function → Prop} {allowed : Fault K → Prop} {f : String}
    {arguments : List Expr} (callee : scope.require f = scope'.require f)
    (found : Promises (scope.require f) (Value.Fits fit) allowed)
    (own : ∀ fault, fault.IsOwn → allowed fault)
    (h : ∀ e ∈ arguments, Same sub scope scope' e)
    (fitting : ∀ e ∈ arguments, Promises (sub scope e) (Value.Fits fit) allowed)
    (body : ∀ fn vs, fit fn → (∀ v ∈ vs, v.Fits fit) →
      sub (scope.inCall (fn.frame vs)) fn.body = sub (scope'.inCall (fn.frame vs)) fn.body) :
    call sub scope f arguments = call sub scope' f arguments := by
  rw [call_eq, call_eq, ← callee, ← mapM_congr_of_mem h]
  refine bind_congr_of_promises found fun v fits => ?_
  have callable := (promises_toFunction fits f).mono (fun _ => id) own
  refine bind_congr_of_promises callable fun fn fits => bind_congr fun _ => ?_
  exact bind_congr_of_promises (promises_mapM fitting) fun vs found => body fn vs fits found.2

variable [Scalar K] {limits : Limits}

theorem arithmetic_congr (op : Operator) {a b : Expr} (ha : Same sub scope scope' a)
    (hb : Same sub scope scope' b) :
    arithmetic sub scope op a b = arithmetic sub scope' op a b := by
  rw [arithmetic, arithmetic, number_congr _ ha, number_congr _ hb]

theorem rect_congr {a b c : Expr} (ha : Same sub scope scope' a) (hb : Same sub scope scope' b)
    (hc : Same sub scope scope' c) : rect sub scope a b c = rect sub scope' a b c := by
  rw [rect, rect, number_congr _ ha, number_congr _ hb, hc]

theorem arrange_congr (layout : Layout) {items : List Expr}
    (h : ∀ e ∈ items, Same sub scope scope' e) :
    arrange limits sub scope layout items = arrange limits sub scope' layout items := by
  cases items with
  | nil => rfl
  | cons item items =>
    obtain ⟨first, others⟩ := List.forall_mem_cons.1 h
    have pushed (base : Design K) : items.foldlM (push limits sub scope layout) base =
        items.foldlM (push limits sub scope' layout) base := by
      refine foldlM_congr_of_mem (fun e member d => ?_) base
      rw [push, push, others e member]
    simp only [arrange, pushed]
    rw [first]

theorem rot_congr {a b : Expr} (ha : Same sub scope scope' a) (hb : Same sub scope scope' b) :
    rot sub scope a b = rot sub scope' a b := by
  rw [rot, rot, ha, hb]

theorem rep_congr {a b : Expr} (ha : Same sub scope scope' a) (hb : Same sub scope scope' b) :
    rep limits sub scope a b = rep limits sub scope' a b := by
  rw [rep, rep, number_congr _ ha, hb]

/-- Names and calls apart, a node only looks at its parts. -/
theorem node_congr {e : Expr} (parts : ∀ part ∈ e.parts, Same sub scope scope' part)
    (name : ∀ x, e = .name x → scope.require x = scope'.require x)
    (called : ∀ f arguments, e = .call f arguments →
      call sub scope f arguments = call sub scope' f arguments) :
    node limits sub scope e = node limits sub scope' e := by
  cases e with
  | number n | angle degrees | color text => rfl
  | name x => exact name x rfl
  | call f arguments => exact called f arguments rfl
  | strip axis items => exact arrange_congr (.strip axis) parts
  | overlay anchor items => exact bind_congr fun a => arrange_congr (.overlay a) parts
  | arithmetic op a b =>
    simp only [Expr.parts, List.forall_mem_cons] at parts
    exact arithmetic_congr op parts.1 parts.2.1
  | rect a b c =>
    simp only [Expr.parts, List.forall_mem_cons] at parts
    exact rect_congr parts.1 parts.2.1 parts.2.2.1
  | rot a b =>
    simp only [Expr.parts, List.forall_mem_cons] at parts
    exact rot_congr parts.1 parts.2.1
  | rep a b =>
    simp only [Expr.parts, List.forall_mem_cons] at parts
    exact rep_congr parts.1 parts.2.1

end Meaning

section Ignoring

def Function.Ignores (x : String) (fn : Function) : Prop :=
  ¬fn.body.Mentions x

/-- No function that is bound under another name asks for this one. -/
def Frame.Ignores (frame : Frame (Value K)) (x : String) : Prop :=
  ∀ y, y ≠ x → ∀ v, frame.get? y = some v → v.Fits (Function.Ignores x)

/-- No other name in sight stands for a function that asks for this one. -/
structure Scope.Ignores (scope : Scope (Value K)) (x : String) : Prop where
  session : scope.session.Ignores x
  call : ∀ frame ∈ scope.call?, frame.Ignores x

variable {x : String}

theorem Frame.ignores_empty : (Frame.empty : Frame (Value K)).Ignores x :=
  fun _ _ _ found => nomatch found

theorem Frame.Ignores.insert {frame : Frame (Value K)} (h : frame.Ignores x) (name : String)
    {v : Value K} (fits : v.Fits (Function.Ignores x)) : (frame.insert name v).Ignores x := by
  intro y other w found
  by_cases same : y = name
  · subst same
    rw [Frame.get?_insert_self] at found
    cases found
    exact fits
  · rw [Frame.get?_insert_of_ne _ v same] at found
    exact h y other w found

theorem Scope.Ignores.promises_require {scope : Scope (Value K)} (h : scope.Ignores x) {y : String}
    (other : y ≠ x) : Promises (scope.require y) (Value.Fits (Function.Ignores x))
      fun _ => True := by
  obtain ⟨session, call?⟩ := scope
  rw [require]
  cases found : Scope.get? ⟨session, call?⟩ y with
  | none => trivial
  | some v =>
    cases call? with
    | none => exact h.session y other v found
    | some frame =>
      rcases Option.or_eq_some_iff.1 found with inner | ⟨-, outer⟩
      · exact h.call frame rfl y other v inner
      · exact h.session y other v outer

theorem Scope.Ignores.inCall {scope : Scope (Value K)} (h : scope.Ignores x) {fn : Function}
    {vs : List (Value K)} (fits : ∀ v ∈ vs, v.Fits (Function.Ignores x)) :
    (scope.inCall (fn.frame vs)).Ignores x where
  session := h.session
  call := by
    rintro _ ⟨⟩ y - v found
    exact fits v (Function.mem_of_get?_frame found)

theorem Expr.not_mentions_part {e part : Expr} (unasked : ¬e.Mentions x) (member : part ∈ e.parts) :
    ¬part.Mentions x := by
  intro asked
  obtain ⟨u, used, same⟩ := List.mem_map.1 asked
  exact unasked (List.mem_map.2 ⟨u, Expr.mem_uses_of_part member used, same⟩)

theorem Expr.ne_of_not_mentions {e : Expr} {u : Use} (unasked : ¬e.Mentions x) (used : u ∈ e.uses) :
    u.name ≠ x := by
  rintro rfl
  exact unasked (List.mem_map_of_mem used)

/-- Whatever is evaluated under these conditions keeps to them. -/
theorem admission_ignores (x : String) : Admission (K := K) (fun _ => True) (Function.Ignores x)
    fun _ scope e => scope.Ignores x ∧ ¬e.Mentions x where
  own _ _ := trivial
  spent _ _ := trivial
  part h member := ⟨h.1, Expr.not_mentions_part h.2 member⟩
  name h := h.1.promises_require (Expr.ne_of_not_mentions h.2 List.mem_cons_self)
  callee h := h.1.promises_require (Expr.ne_of_not_mentions h.2 List.mem_cons_self)
  body h _ _ ignores _ fits := ⟨h.1.inCall fits, ignores⟩

variable {session session' : Frame (Value K)}

theorem Scope.require_congr (agree : ∀ y, y ≠ x → session.get? y = session'.get? y)
    (call? : Option (Frame (Value K))) {y : String} (other : y ≠ x) :
    (⟨session, call?⟩ : Scope (Value K)).require y = (⟨session', call?⟩ : Scope _).require y := by
  rw [require, require, get?, get?, agree y other]

variable [Scalar K]

/-- What the session frame binds the name to makes no difference. The induction is on the levels
left, since the bodies of functions are evaluated as well. -/
theorem Expr.meaning_congr (limits : Limits) (levels : Nat)
    (agree : ∀ y, y ≠ x → session.get? y = session'.get? y) {call? : Option (Frame (Value K))}
    (ignores : (⟨session, call?⟩ : Scope (Value K)).Ignores x) {e : Expr}
    (unasked : ¬e.Mentions x) :
    e.meaning limits levels ⟨session, call?⟩ = e.meaning limits levels ⟨session', call?⟩ := by
  induction levels generalizing e call? with
  | zero => rfl
  | succ levels ih =>
    refine Meaning.node_congr (fun part member => ?_) ?_ ?_
    · exact ih ignores (not_mentions_part unasked member)
    · rintro y rfl
      exact Scope.require_congr agree call? (ne_of_not_mentions unasked List.mem_cons_self)
    · rintro f arguments rfl
      have other : f ≠ x := ne_of_not_mentions unasked List.mem_cons_self
      have below : ∀ e ∈ arguments, ¬e.Mentions x :=
        fun e member => not_mentions_part unasked member
      refine Meaning.call_congr (Scope.require_congr agree call? other)
        (ignores.promises_require other) (fun _ _ => trivial) (fun e member => ?_) ?_ ?_
      · exact ih ignores (below e member)
      · exact fun e member =>
          (admission_ignores x).promises_meaning limits ⟨ignores, below e member⟩
      · exact fun fn vs unasked fits => ih (ignores.inCall fits) unasked

end Ignoring

namespace Session

variable {x : String} {s s' : Session K}

/-- Nothing is being called in either session, they differ in what they bind the name to at most,
and no function that they bind under another name asks for it. -/
inductive AgreeBut (x : String) : Session K → Session K → Prop
  | intro (limits : Limits) (depth : Nat) {session session' : Frame (Value K)} :
      (∀ y, y ≠ x → session.get? y = session'.get? y) → session.Ignores x →
      AgreeBut x ⟨limits, depth, ⟨session, []⟩⟩ ⟨limits, depth, ⟨session', []⟩⟩

theorem agreeBut_new (x : String) (limits : Limits) :
    (new (K := K) limits).AgreeBut x (new limits) :=
  .intro limits 0 (fun _ _ => rfl) Frame.ignores_empty

theorem AgreeBut.define (h : s.AgreeBut x s') (name : String) {v : Value K}
    (fits : v.Fits (Function.Ignores x)) : (s.define name v).AgreeBut x (s'.define name v) := by
  cases h with
  | @intro limits depth session session' agree ignores =>
    refine .intro limits depth (fun y other => ?_) (ignores.insert name fits)
    by_cases same : y = name
    · subst same
      rw [Frame.get?_insert_self, Frame.get?_insert_self]
    · rw [Frame.get?_insert_of_ne _ v same, Frame.get?_insert_of_ne _ v same, agree y other]

/-- The name itself may be bound on one side alone, to anything. -/
theorem AgreeBut.define_left (h : s.AgreeBut x s') (v : Value K) :
    (s.define x v).AgreeBut x s' := by
  cases h with
  | @intro limits depth session session' agree ignores =>
    refine .intro limits depth (fun y other => ?_) fun y other w found => ?_
    · rw [Frame.get?_insert_of_ne _ v other, agree y other]
    · rw [Frame.get?_insert_of_ne _ v other] at found
      exact ignores y other w found

variable [Scalar K]

theorem AgreeBut.meaning (h : s.AgreeBut x s') {e : Expr} (unasked : ¬e.Mentions x) :
    s.meaning e = s'.meaning e ∧
      Promises (s.meaning e) (Value.Fits (Function.Ignores x)) fun _ => True := by
  cases h with
  | @intro limits depth session session' agree ignores =>
    have inSight : (⟨session, none⟩ : Scope (Value K)).Ignores x := ⟨ignores, nofun⟩
    exact ⟨Expr.meaning_congr limits _ agree inSight unasked,
      (admission_ignores x).promises_meaning limits ⟨inSight, unasked⟩⟩

theorem AgreeBut.value (h : s.AgreeBut x s') {d : Definition} (unasked : ¬d.content.Mentions x) :
    s.value d = s'.value d ∧
      Promises (s.value d) (Value.Fits (Function.Ignores x)) fun _ => True := by
  cases d with
  | declared kind name e =>
    have unasked : ¬e.Mentions x := unasked
    obtain ⟨same, fits⟩ := h.meaning unasked
    refine ⟨?_, fits.bind fun v fits => ?_⟩
    · rw [Session.value, Session.value, same]
    · exact (promises_check kind name fits).mono (fun _ => id) fun _ _ => trivial
  | assigned name e => exact h.meaning unasked
  | function name parameters body => exact ⟨rfl, unasked⟩

theorem AgreeBut.extend (h : s.AgreeBut x s') {d : Definition} (unasked : ¬d.content.Mentions x) :
    Agrees (AgreeBut x) (s.extend d) (s'.extend d) := by
  obtain ⟨same, fits⟩ := h.value unasked
  rw [Session.extend, Session.extend, ← same]
  cases found : s.value d with
  | error fault => exact .error fault
  | ok v =>
    rw [found] at fits
    exact .ok (h.define d.name fits)

theorem AgreeBut.extendAll (h : s.AgreeBut x s') {ds : List Definition}
    (unasked : ∀ d ∈ ds, ¬d.content.Mentions x) :
    Agrees (AgreeBut x) (ds.foldlM Session.extend s) (ds.foldlM Session.extend s') := by
  induction ds generalizing s s' with
  | nil => exact .ok h
  | cons d ds ih =>
    obtain ⟨first, others⟩ := List.forall_mem_cons.1 unasked
    rw [List.foldlM_cons, List.foldlM_cons]
    exact (h.extend first).bind fun t t' agree => ih agree others

/-- The rest of a program comes to the same design or to the same fault. -/
theorem AgreeBut.outcome (h : s.AgreeBut x s') {ds : List Definition} {goal : Expr}
    (unasked : ∀ d ∈ ds, ¬d.content.Mentions x) (goal_unasked : ¬goal.Mentions x) :
    s.outcome ⟨ds, goal⟩ = s'.outcome ⟨ds, goal⟩ := by
  have bound := h.extendAll unasked
  rw [Session.outcome, Session.outcome]
  generalize ds.foldlM Session.extend s = reached, ds.foldlM Session.extend s' = reached' at bound
  cases bound with
  | error fault => rfl
  | @ok t t' agree =>
    change (t.meaning goal >>= Value.toGoal) = (t'.meaning goal >>= Value.toGoal)
    rw [(agree.meaning goal_unasked).1]

section Definition

variable {t : Session K} {d : Definition} {ds : List Definition} {goal : Expr}

theorem outcome_cons_of_fault {fault : Fault K} (found : t.value d = .error fault) :
    t.outcome ⟨d :: ds, goal⟩ = .error fault := by
  rw [outcome_cons, Session.extend, found]
  rfl

/-- A definition that has a value is as good as left out where nothing asks for its name. -/
theorem AgreeBut.outcome_cons_of_value (self : t.AgreeBut d.name t) {v : Value K}
    (found : t.value d = .ok v) (unasked : ∀ d' ∈ ds, ¬d'.content.Mentions d.name)
    (goal_unasked : ¬goal.Mentions d.name) :
    t.outcome ⟨d :: ds, goal⟩ = t.outcome ⟨ds, goal⟩ := by
  rw [outcome_cons, Session.extend, found]
  exact (self.define_left v).outcome unasked goal_unasked

theorem value_of_isFunction (function : d.IsFunction) : ∃ v, t.value d = .ok v := by
  cases d with
  | declared | assigned => exact function.elim
  | function => exact ⟨_, rfl⟩

end Definition

theorem binds_of_foldlM {t : Session K} {ds : List Definition}
    (h : ds.foldlM Session.extend s = .ok t) : s.Binds ds t := by
  induction ds generalizing s with
  | nil =>
    cases h
    exact .nil _
  | cons d ds ih =>
    obtain ⟨u, extended, others⟩ := foldlM_cons_eq_ok.1 h
    obtain ⟨v, found, same⟩ := bind_eq_ok.1 extended
    cases same
    exact .cons (bind_run_of_value found) (ih others)

end Session

variable [Scalar K]

/-- A definition whose name occurs neither in the goal nor in the value or body of any other
definition can be left out: the program comes to the same design, or fails with the same fault, as
long as it does not fail at that very definition; and no program fails at the definition of a
function. -/
theorem design_without_definition (limits : Limits) (before after : List Definition)
    (d : Definition) (goal : Expr)
    (unasked : ∀ e ∈ Program.contents ⟨before ++ after, goal⟩, ¬e.Mentions d.name) :
    (Program.design (K := K) limits ⟨before ++ d :: after, goal⟩ =
        Program.design limits ⟨before ++ after, goal⟩ ∨
      ∃ (t : Session K) (fault : Fault K), (Session.new limits).Binds before t ∧
        d.bind.run t = (.error fault, t) ∧
        Program.design limits ⟨before ++ d :: after, goal⟩ = .error fault) ∧
    (d.IsFunction → Program.design (K := K) limits ⟨before ++ d :: after, goal⟩ =
      Program.design limits ⟨before ++ after, goal⟩) := by
  obtain ⟨definitions, goal_unasked⟩ := Program.forall_mem_contents_iff.1 unasked
  obtain ⟨first, last⟩ := List.forall_mem_append.1 definitions
  simp only [Program.design_eq_outcome, Session.outcome_append]
  have bound := (Session.agreeBut_new (K := K) d.name limits).extendAll first
  cases reached : before.foldlM Session.extend (Session.new (K := K) limits) with
  | error fault => exact ⟨Or.inl rfl, fun _ => rfl⟩
  | ok t =>
    have self : t.AgreeBut d.name t := by
      rw [reached] at bound
      cases bound with
      | ok agree => exact agree
    cases found : t.value d with
    | ok v =>
      have skipped := self.outcome_cons_of_value found last goal_unasked
      exact ⟨Or.inl skipped, fun _ => skipped⟩
    | error fault =>
      refine ⟨Or.inr ⟨t, fault, Session.binds_of_foldlM reached, Session.bind_run_of_fault found,
        Session.outcome_cons_of_fault found⟩, fun function => ?_⟩
      obtain ⟨v, bound⟩ := Session.value_of_isFunction (t := t) function
      cases found.symm.trans bound

section Spare

/-- The function has a parameter of the name that nothing asks for. -/
def beforeSpare : List Definition :=
  [.assigned "spare" (.number 2),
    .function "square" ["spare", "n"] (.rect (.name "n") (.name "n") (.color "red"))]

/-- Asks for an earlier definition of the same name. -/
def spareDefinition : Definition :=
  .assigned "spare" (.arithmetic .times (.name "spare") (.name "spare"))

def afterSpare : List Definition :=
  [.declared .rect "tile" (.call "square" [.number 1, .number 3])]

theorem tiles_without_spare :
    (∀ e ∈ Program.contents ⟨beforeSpare ++ afterSpare, .rep (.number 2) (.name "tile")⟩,
      ¬e.Mentions spareDefinition.name) ∧
    ∃ d : Design Rat,
      Program.design .standard ⟨beforeSpare ++ spareDefinition :: afterSpare,
        .rep (.number 2) (.name "tile")⟩ = .ok d ∧
      Program.design .standard ⟨beforeSpare ++ afterSpare, .rep (.number 2) (.name "tile")⟩ =
        .ok d := by
  have unasked : ∀ e ∈ Program.contents ⟨beforeSpare ++ afterSpare,
      .rep (.number 2) (.name "tile")⟩, ¬e.Mentions spareDefinition.name := by decide
  have drawn : (Program.design .standard ⟨beforeSpare ++ spareDefinition :: afterSpare,
      .rep (.number 2) (.name "tile")⟩ : Except (Fault Rat) (Design Rat)).isOk := by
    decide +kernel
  obtain ⟨same | ⟨t, fault, -, -, failed⟩, -⟩ :=
    design_without_definition (K := Rat) .standard beforeSpare afterSpare spareDefinition _ unasked
  · cases found : (Program.design .standard ⟨beforeSpare ++ spareDefinition :: afterSpare,
        .rep (.number 2) (.name "tile")⟩ : Except (Fault Rat) (Design Rat)) with
    | error fault =>
      rw [found] at drawn
      cases drawn
    | ok d => exact ⟨unasked, d, rfl, same.symm.trans found⟩
  · rw [failed] at drawn
    cases drawn

end Spare

end Patchwork
