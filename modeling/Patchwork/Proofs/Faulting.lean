import Patchwork.Proofs.Binding
import Patchwork.Proofs.Calling
import Patchwork.Proofs.Outcome
import Patchwork.Proofs.Shape

/-!
# Where faults come from

Most faults a node finds by itself, in the values of its parts. Two come from elsewhere: that a name
is not bound is a matter of the scope, and that no level is left a matter of what stands around. So
an expression can only fail in ways that are allowed if all faults are allowed that nodes find by
themselves, and the other two cannot come about where they are not.
-/

namespace Patchwork

variable {K A B : Type}

/-- A fault that a node finds in the values of its parts. -/
def Fault.IsOwn : Fault K → Prop
  | unbound _ => False
  | tooDeep _ => False
  | _ => True

/-- A fault of elements that cannot be laid out. -/
def Fault.IsMisfit : Fault K → Prop
  | wrongKind _ _ => True
  | unequalSides _ _ _ => True
  | emptyArrangement _ => True
  | _ => False

theorem Fault.IsMisfit.isOwn {fault : Fault K} (h : fault.IsMisfit) : fault.IsOwn := by
  cases fault with
  | unbound name => exact h
  | tooDeep limit => exact h
  | _ => trivial

/-- The functions among the values are such as the condition says. -/
def Value.Fits (fit : Function → Prop) : Value K → Prop
  | function fn => fit fn
  | _ => True

/-- The only faults are such as a node finds by itself. -/
def Owned (outcome : Except (Fault K) A) : Prop :=
  Promises outcome (fun _ => True) Fault.IsOwn

section Steps

theorem Owned.bind {outcome : Except (Fault K) A} {next : A → Except (Fault K) B}
    {post : B → Prop} {allowed : Fault K → Prop} (own : ∀ fault, fault.IsOwn → allowed fault)
    (h : Owned outcome) (rest : ∀ a, Promises (next a) post allowed) :
    Promises (outcome >>= next) post allowed :=
  (h.mono (fun _ _ => trivial) own).bind fun a _ => rest a

theorem owned_toNumber (place : Place) (v : Value K) : Owned (v.toNumber place) := by
  cases v <;> trivial

theorem owned_toColor (v : Value K) : Owned v.toColor := by
  cases v <;> trivial

theorem promises_toFunction {fit : Function → Prop} {v : Value K} (fits : v.Fits fit)
    (f : String) : Promises (v.toFunction f) fit Fault.IsOwn := by
  cases v with
  | function fn => exact fits
  | _ => trivial

theorem owned_ofDegrees (degrees : Int) :
    Owned (Turn.ofDegrees degrees : Except (Fault K) Turn) := by
  rw [Turn.ofDegrees]
  cases Turn.ofDegrees? degrees <;> trivial

theorem owned_checkPatches (limits : Limits) (count : Nat) :
    Owned (limits.checkPatches count : Except (Fault K) Unit) := by
  rw [Limits.checkPatches]
  split <;> trivial

theorem owned_anchor (text : String) : Owned (Anchor.ofName text : Except (Fault K) Anchor) := by
  rw [Anchor.ofName]
  cases Anchor.ofName? text <;> trivial

theorem promises_check (kind : DeclaredKind) (x : String) {fit : Function → Prop} {v : Value K}
    (fits : v.Fits fit) : Promises (kind.check x v) (Value.Fits fit) Fault.IsOwn := by
  rw [DeclaredKind.check]
  split
  · exact fits
  · trivial

variable [Scalar K]

theorem owned_checkCopies (limits : Limits) (copies : K) (patches : Nat) :
    Owned (limits.checkCopies copies patches) := by
  rw [Limits.checkCopies]
  split <;> trivial

theorem owned_checkSize (width height : K) : Owned (Expr.checkSize width height) := by
  rw [Expr.checkSize]
  split <;> trivial

theorem owned_copies (n : K) : Owned (Expr.copies n) := by
  rw [Expr.copies]
  cases Scalar.whole? n with
  | none => trivial
  | some count =>
    dsimp only
    split <;> trivial

theorem owned_toTurn (v : Value K) : Owned v.toTurn := by
  cases v with
  | angle degrees => exact owned_ofDegrees degrees
  | number n =>
    rw [Value.toTurn]
    cases Scalar.whole? n with
    | none => trivial
    | some degrees => exact owned_ofDegrees _
  | _ => trivial

theorem promises_element (layout : Layout) (v : Value K) :
    Promises (layout.element v) (fun _ => True) Fault.IsMisfit := by
  rw [Layout.element]
  cases v.toDesign? <;> trivial

theorem promises_join (layout : Layout) (base item : Design K) :
    Promises (layout.join base item) (fun _ => True) Fault.IsMisfit := by
  cases layout with
  | strip axis =>
    cases axis with
    | horizontal | vertical =>
      rw [Layout.join]
      split <;> trivial
  | overlay anchor => trivial

theorem promises_push (layout : Layout) (base : Design K) (v : Value K) :
    Promises (layout.push base v) (fun _ => True) Fault.IsMisfit :=
  (promises_element layout v).bind fun item _ => promises_join layout base item

theorem owned_element (layout : Layout) (v : Value K) : Owned (layout.element v) :=
  (promises_element layout v).mono (fun _ => id) fun _ => Fault.IsMisfit.isOwn

theorem owned_push (layout : Layout) (base : Design K) (v : Value K) :
    Owned (layout.push base v) :=
  (promises_push layout base v).mono (fun _ => id) fun _ => Fault.IsMisfit.isOwn

theorem promises_turned (fit : Function → Prop) (t : Turn) (v : Value K) :
    Promises (v.turned t) (Value.Fits fit) Fault.IsOwn := by
  cases v <;> trivial

theorem owned_tiled (tiles : Nat) (v : Value K) : Owned (v.tiled tiles) := by
  unfold Value.tiled
  split
  · trivial
  · cases v <;> trivial

theorem owned_toGoal (v : Value K) : Owned v.toGoal := by
  rw [Value.toGoal]
  cases v.toDesign? <;> trivial

end Steps

namespace Meaning

section Node

/-!
One node, where the parts promise what they should.
-/

variable {allowed : Fault K → Prop} (own : ∀ fault, fault.IsOwn → allowed fault)
  {fit : Function → Prop} {sub : Scope (Value K) → Expr → Except (Fault K) (Value K)}
  {scope : Scope (Value K)}

variable (allowed fit sub scope) in
/-- Its value fits, or its fault is allowed. -/
def Behaves (e : Expr) : Prop :=
  Promises (sub scope e) (Value.Fits fit) allowed

include own

theorem promises_number (place : Place) {e : Expr} (h : Behaves allowed fit sub scope e) :
    Promises (number sub scope place e) (fun _ => True) allowed :=
  h.bind fun v _ => (owned_toNumber place v).mono (fun _ => id) own

theorem promises_call {f : String} {arguments : List Expr}
    (callee : Promises (scope.require f) (Value.Fits fit) allowed)
    (h : ∀ e ∈ arguments, Behaves allowed fit sub scope e)
    (body : ∀ fn vs, fit fn → vs.length = fn.parameters.length → (∀ v ∈ vs, v.Fits fit) →
      Behaves allowed fit sub (scope.inCall (fn.frame vs)) fn.body) :
    Promises (call sub scope f arguments) (Value.Fits fit) allowed := by
  rw [call_eq]
  refine callee.bind fun v fits => ?_
  refine ((promises_toFunction fits f).mono (fun _ => id) own).bind fun fn fits => ?_
  have checked : Promises (fn.checkArity f arguments.length)
      (fun _ => fn.parameters.length = arguments.length) allowed := by
    rw [Function.checkArity]
    split
    · assumption
    · exact own _ trivial
  refine checked.bind fun _ enough => (promises_mapM h).bind fun vs found => ?_
  exact body fn vs fits (found.1.trans enough.symm) found.2

variable [Scalar K] {limits : Limits}

theorem promises_arithmetic (op : Operator) {a b : Expr} (ha : Behaves allowed fit sub scope a)
    (hb : Behaves allowed fit sub scope b) :
    Promises (arithmetic sub scope op a b) (Value.Fits fit) allowed := by
  refine (promises_number own _ ha).bind fun m _ => (promises_number own _ hb).bind fun n _ => ?_
  cases op <;> trivial

theorem promises_rect {a b c : Expr} (ha : Behaves allowed fit sub scope a)
    (hb : Behaves allowed fit sub scope b) (hc : Behaves allowed fit sub scope c) :
    Promises (rect sub scope a b c) (Value.Fits fit) allowed := by
  refine (promises_number own _ ha).bind fun width _ => ?_
  refine (promises_number own _ hb).bind fun height _ => ?_
  refine (owned_checkSize width height).bind own fun _ => hc.bind fun v _ => ?_
  exact (owned_toColor v).bind own fun color => trivial

theorem promises_arrange (layout : Layout) {items : List Expr}
    (h : ∀ e ∈ items, Behaves allowed fit sub scope e) :
    Promises (arrange limits sub scope layout items) (Value.Fits fit) allowed := by
  cases items with
  | nil => exact own _ trivial
  | cons item items =>
    obtain ⟨first, others⟩ := List.forall_mem_cons.1 h
    refine first.bind fun v _ => (owned_element layout v).bind own fun base => ?_
    have pushed : Promises (items.foldlM (push limits sub scope layout) base) (fun _ => True)
        allowed := by
      refine promises_foldlM (fun base item member _ => ?_) trivial
      refine (others item member).bind fun v _ => (owned_push layout base v).bind own fun d => ?_
      exact (owned_checkPatches limits _).bind own fun _ => trivial
    exact pushed.bind fun d _ => trivial

theorem promises_rot {a b : Expr} (ha : Behaves allowed fit sub scope a)
    (hb : Behaves allowed fit sub scope b) :
    Promises (rot sub scope a b) (Value.Fits fit) allowed := by
  refine ha.bind fun v _ => (owned_toTurn v).bind own fun t => hb.bind fun v _ => ?_
  exact (promises_turned fit t v).mono (fun _ => id) own

theorem promises_rep {a b : Expr} (ha : Behaves allowed fit sub scope a)
    (hb : Behaves allowed fit sub scope b) :
    Promises (rep limits sub scope a b) (Value.Fits fit) allowed := by
  refine (promises_number own _ ha).bind fun n _ => (owned_copies n).bind own fun tiles => ?_
  refine hb.bind fun v _ => (owned_checkCopies limits n _).bind own fun _ => ?_
  exact (owned_tiled tiles v).bind own fun d => trivial

end Node

end Meaning

/-- What is admitted to evaluation hands on to its parts, and to the bodies of functions that it
calls, all that keeps their faults allowed. -/
structure Admission (allowed : Fault K → Prop) (fit : Function → Prop)
    (admits : Nat → Scope (Value K) → Expr → Prop) : Prop where
  own : ∀ fault, fault.IsOwn → allowed fault
  spent : ∀ {scope e}, admits 0 scope e → ∀ limit, allowed (.tooDeep limit)
  part : ∀ {levels scope e part}, admits (levels + 1) scope e → part ∈ e.parts →
    admits levels scope part
  name : ∀ {levels scope x}, admits (levels + 1) scope (.name x) →
    Promises (scope.require x) (Value.Fits fit) allowed
  callee : ∀ {levels scope f arguments}, admits (levels + 1) scope (.call f arguments) →
    Promises (scope.require f) (Value.Fits fit) allowed
  body : ∀ {levels scope f arguments}, admits (levels + 1) scope (.call f arguments) →
    ∀ fn vs, fit fn → vs.length = fn.parameters.length → (∀ v ∈ vs, v.Fits fit) →
      admits levels (scope.inCall (fn.frame vs)) fn.body

/-- What is admitted has a value that fits or fails in a way that is allowed. The induction is on
the levels, since a body is no part of the call. -/
theorem Admission.promises_meaning [Scalar K] {allowed : Fault K → Prop} {fit : Function → Prop}
    {admits : Nat → Scope (Value K) → Expr → Prop} (h : Admission allowed fit admits)
    (limits : Limits) {levels : Nat} {scope : Scope (Value K)} {e : Expr}
    (admitted : admits levels scope e) :
    Promises (e.meaning limits levels scope) (Value.Fits fit) allowed := by
  induction levels generalizing scope e with
  | zero => exact h.spent admitted limits.maxDepth
  | succ levels ih =>
    have parts : ∀ part ∈ e.parts,
        Meaning.Behaves allowed fit (Expr.meaning limits levels) scope part :=
      fun part member => ih (h.part admitted member)
    cases e with
    | number n | angle degrees | color text => trivial
    | name x => exact h.name admitted
    | call f arguments =>
      refine Meaning.promises_call h.own (h.callee admitted) parts ?_
      exact fun fn vs fits enough fitting => ih (h.body admitted fn vs fits enough fitting)
    | strip axis items => exact Meaning.promises_arrange h.own (.strip axis) parts
    | overlay anchor items =>
      refine (owned_anchor anchor).bind h.own fun a => ?_
      exact Meaning.promises_arrange h.own (.overlay a) parts
    | arithmetic op a b =>
      have ha := parts a (by simp [Expr.parts])
      have hb := parts b (by simp [Expr.parts])
      exact Meaning.promises_arithmetic h.own op ha hb
    | rect a b c =>
      have ha := parts a (by simp [Expr.parts])
      have hb := parts b (by simp [Expr.parts])
      have hc := parts c (by simp [Expr.parts])
      exact Meaning.promises_rect h.own ha hb hc
    | rot a b =>
      have ha := parts a (by simp [Expr.parts])
      have hb := parts b (by simp [Expr.parts])
      exact Meaning.promises_rot h.own ha hb
    | rep a b =>
      have ha := parts a (by simp [Expr.parts])
      have hb := parts b (by simp [Expr.parts])
      exact Meaning.promises_rep h.own ha hb

end Patchwork
