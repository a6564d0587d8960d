import Mathlib.Data.List.Forall2
import Patchwork.Proofs.Calling
import Patchwork.Proofs.Names

/-!
# Two evaluations side by side

The second evaluation mirrors the first if it ends in a value that is like the value of the first,
or fails in the same category; some faults of the first may be excused, and then the second may end
as it likes. Values are alike if they are the same, but for functions, of which it is left open when
they are alike: no operator looks into them, only a call does. Then an expression is mirrored by one
that has other names in it as soon as every name in it is.
-/

namespace Patchwork

variable {K A A' B B' : Type}

section Outcomes

variable (excused : Fault K → Prop)

/-- How the second outcome has to answer the first. -/
inductive Mirrors (alike : A → A' → Prop) : Except (Fault K) A → Except (Fault K) A' → Prop
  | value {a : A} {a' : A'} : alike a a' → Mirrors alike (.ok a) (.ok a')
  | fault {fault fault' : Fault K} :
      fault'.category = fault.category → Mirrors alike (.error fault) (.error fault')
  | excused {fault : Fault K} (outcome : Except (Fault K) A') :
      excused fault → Mirrors alike (.error fault) outcome

variable {excused} {alike : A → A' → Prop} {alike' : B → B' → Prop}

theorem mirrors_self (outcome : Except (Fault K) A) : Mirrors excused Eq outcome outcome := by
  cases outcome with
  | ok a => exact .value rfl
  | error fault => exact .fault rfl

theorem mirrors_of_eq {outcome outcome' : Except (Fault K) A} (same : outcome = outcome') :
    Mirrors excused Eq outcome outcome' :=
  same ▸ mirrors_self outcome

theorem Mirrors.mono {outcome : Except (Fault K) A} {outcome' : Except (Fault K) A'}
    {weaker : A → A' → Prop} (h : Mirrors excused alike outcome outcome')
    (imp : ∀ a a', alike a a' → weaker a a') : Mirrors excused weaker outcome outcome' := by
  cases h with
  | value related => exact .value (imp _ _ related)
  | fault same => exact .fault same
  | excused _ h => exact .excused _ h

/-- A value is never answered by a fault. -/
theorem Mirrors.exists_ok {outcome : Except (Fault K) A} {outcome' : Except (Fault K) A'}
    (h : Mirrors excused alike outcome outcome') {a : A} (found : outcome = .ok a) :
    ∃ a', outcome' = .ok a' ∧ alike a a' := by
  cases h with
  | value related =>
    cases found
    exact ⟨_, rfl, related⟩
  | fault | excused => cases found

/-- Where every fault is excused, only values have to be answered. -/
theorem mirrors_of_ok {outcome : Except (Fault K) A} {outcome' : Except (Fault K) A'}
    (answered : ∀ a, outcome = .ok a → ∃ a', outcome' = .ok a' ∧ alike a a') :
    Mirrors (fun _ => True) alike outcome outcome' := by
  cases outcome with
  | error fault => exact .excused _ trivial
  | ok a =>
    obtain ⟨a', found, related⟩ := answered a rfl
    rw [found]
    exact .value related

/-- Where nothing is excused, both evaluations succeed or both fail. -/
theorem Mirrors.same_or_fault {outcome outcome' : Except (Fault K) A}
    (h : Mirrors (fun _ => False) Eq outcome outcome') :
    (∃ a, outcome = .ok a ∧ outcome' = .ok a) ∨ ∃ fault fault', outcome = .error fault ∧
      outcome' = .error fault' ∧ fault'.category = fault.category := by
  cases h with
  | value same => exact Or.inl ⟨_, rfl, congrArg Except.ok same.symm⟩
  | fault same => exact Or.inr ⟨_, _, rfl, rfl, same⟩
  | excused _ h => exact h.elim

theorem Mirrors.bind {outcome : Except (Fault K) A} {outcome' : Except (Fault K) A'}
    {next : A → Except (Fault K) B} {next' : A' → Except (Fault K) B'}
    (first : Mirrors excused alike outcome outcome')
    (second : ∀ a a', alike a a' → Mirrors excused alike' (next a) (next' a')) :
    Mirrors excused alike' (outcome >>= next) (outcome' >>= next') := by
  cases first with
  | value related => exact second _ _ related
  | fault same => exact .fault same
  | excused _ h => exact .excused _ h

/-- A step that both evaluations take in the same way. -/
theorem Mirrors.bind_self (outcome : Except (Fault K) A) {next : A → Except (Fault K) B}
    {next' : A → Except (Fault K) B'} (second : ∀ a, Mirrors excused alike' (next a) (next' a)) :
    Mirrors excused alike' (outcome >>= next) (outcome >>= next') := by
  refine (mirrors_self outcome).bind ?_
  rintro a _ rfl
  exact second a

theorem mirrors_foldlM {step : B → A → Except (Fault K) B} {step' : B' → A' → Except (Fault K) B'}
    (each : ∀ b b' a a', alike' b b' → alike a a' → Mirrors excused alike' (step b a) (step' b' a'))
    {items : List A} {items' : List A'} (items_alike : List.Forall₂ alike items items')
    {initial : B} {initial' : B'} (start : alike' initial initial') :
    Mirrors excused alike' (items.foldlM step initial) (items'.foldlM step' initial') := by
  induction items_alike generalizing initial initial' with
  | nil => exact .value start
  | cons first _ ih =>
    rw [List.foldlM_cons, List.foldlM_cons]
    exact (each _ _ _ _ start first).bind fun b b' h => ih h

theorem mirrors_mapM {f : A → Except (Fault K) B} {f' : A' → Except (Fault K) B'}
    {items : List A} {items' : List A'}
    (each : List.Forall₂ (fun a a' => Mirrors excused alike' (f a) (f' a')) items items') :
    Mirrors excused (fun bs bs' => bs.length = items.length ∧ List.Forall₂ alike' bs bs')
      (items.mapM f) (items'.mapM f') := by
  induction each with
  | nil => exact .value ⟨rfl, .nil⟩
  | cons first _ ih =>
    rw [List.mapM_cons, List.mapM_cons]
    refine first.bind fun b b' related => ih.bind fun bs bs' others => ?_
    exact .value ⟨congrArg Nat.succ others.1, .cons related others.2⟩

end Outcomes

namespace Value

/-- The same value, or two functions that are akin. -/
inductive Like (akin : Function → Function → Prop) : Value K → Value K → Prop
  | plain {v : Value K} : v.kind ≠ .function → Like akin v v
  | function {fn fn' : Function} : akin fn fn' → Like akin (.function fn) (.function fn')

variable {akin : Function → Function → Prop} {v v' : Value K}

/-- What does not look into functions cannot tell values apart that are alike. -/
theorem Like.same (h : Like akin v v') (f : Value K → A)
    (blind : ∀ fn fn', f (.function fn) = f (.function fn')) : f v = f v' := by
  cases h with
  | plain => rfl
  | function => exact blind _ _

theorem like_of_akin_self (akin_self : ∀ fn, akin fn fn) (v : Value K) : Like akin v v := by
  cases v with
  | function fn => exact .function (akin_self fn)
  | _ => exact .plain nofun

theorem like_eq_iff : Like Eq v v' ↔ v = v' := by
  constructor
  · rintro (_ | rfl)
    · rfl
    · rfl
  · rintro rfl
    exact like_of_akin_self (fun _ => rfl) v

end Value

variable {excused : Fault K → Prop} {akin : Function → Function → Prop}

theorem mirrors_toFunction {v v' : Value K} (h : v.Like akin v') (f f' : String) :
    Mirrors excused akin (v.toFunction f) (v'.toFunction f') := by
  cases h with
  | @plain v plain =>
    cases v with
    | function fn => exact (plain rfl).elim
    | _ => exact .fault rfl
  | function related => exact .value related

/-- What a name or a callee stands for in two scopes. -/
theorem mirrors_require {scope scope' : Scope (Value K)} {x x' : String}
    (h : Option.Rel (Value.Like akin) (scope.get? x) (scope'.get? x')) :
    Mirrors excused (Value.Like akin) (scope.require x) (scope'.require x') := by
  rw [Scope.require, Scope.require]
  generalize scope.get? x = found, scope'.get? x' = found' at h
  cases h with
  | none => exact .fault rfl
  | some related => exact .value related

namespace Meaning

/-!
One node, where the expressions below it are mirrored.
-/

variable {sub sub' : Scope (Value K) → Expr → Except (Fault K) (Value K)}
  {scope scope' : Scope (Value K)}

variable (excused akin sub sub' scope scope') in
/-- What becomes of one expression in the first scope is mirrored by what becomes of the other in
the second. -/
def Reflects (e e' : Expr) : Prop :=
  Mirrors excused (Value.Like akin) (sub scope e) (sub' scope' e')

theorem mirrors_number {e e' : Expr} (place : Place)
    (h : Reflects excused akin sub sub' scope scope' e e') :
    Mirrors excused Eq (number sub scope place e) (number sub' scope' place e') :=
  h.bind fun _ _ related => mirrors_of_eq (related.same (Value.toNumber place) fun _ _ => rfl)

/-- A call is mirrored where the bodies of functions that are akin mirror each other for all values
that are alike. -/
theorem mirrors_call {f f' : String} {arguments arguments' : List Expr}
    (callee : Mirrors excused (Value.Like akin) (scope.require f) (scope'.require f'))
    (h : List.Forall₂ (Reflects excused akin sub sub' scope scope') arguments arguments')
    (arity : ∀ fn fn', akin fn fn' → fn'.parameters.length = fn.parameters.length)
    (body : ∀ fn fn' vs vs', akin fn fn' → vs.length = fn.parameters.length →
      List.Forall₂ (Value.Like akin) vs vs' →
      Reflects excused akin sub sub' (scope.inCall (fn.frame vs)) (scope'.inCall (fn'.frame vs'))
        fn.body fn'.body) :
    Mirrors excused (Value.Like akin) (call sub scope f arguments)
      (call sub' scope' f' arguments') := by
  rw [call_eq, call_eq]
  refine callee.bind fun v v' related => ?_
  refine (mirrors_toFunction related f f').bind fun fn fn' kin => ?_
  rw [Function.checkArity, Function.checkArity, arity fn fn' kin, ← h.length_eq]
  split
  · next enough =>
    refine (mirrors_mapM h).bind fun vs vs' found => ?_
    exact body fn fn' vs vs' kin (found.1.trans enough.symm) found.2
  · exact .fault rfl

variable [Scalar K] {limits limits' : Limits}

section Operands

variable {a b c a' b' c' : Expr} (ha : Reflects excused akin sub sub' scope scope' a a')
  (hb : Reflects excused akin sub sub' scope scope' b b')

include ha hb

theorem mirrors_arithmetic (op : Operator) :
    Mirrors excused (Value.Like akin) (arithmetic sub scope op a b)
      (arithmetic sub' scope' op a' b') := by
  refine (mirrors_number _ ha).bind ?_
  rintro m _ rfl
  refine (mirrors_number _ hb).bind ?_
  rintro n _ rfl
  cases op with
  | plus => exact .value (.plain nofun)
  | times => exact .value (.plain nofun)

theorem mirrors_rect (hc : Reflects excused akin sub sub' scope scope' c c') :
    Mirrors excused (Value.Like akin) (rect sub scope a b c) (rect sub' scope' a' b' c') := by
  refine (mirrors_number _ ha).bind ?_
  rintro width _ rfl
  refine (mirrors_number _ hb).bind ?_
  rintro height _ rfl
  refine .bind_self _ fun _ => hc.bind fun v v' related => ?_
  rw [related.same Value.toColor fun _ _ => rfl]
  exact .bind_self _ fun color => .value (.plain nofun)

theorem mirrors_rot :
    Mirrors excused (Value.Like akin) (rot sub scope a b) (rot sub' scope' a' b') := by
  refine ha.bind fun v v' related => ?_
  rw [related.same Value.toTurn fun _ _ => rfl]
  refine .bind_self _ fun t => hb.bind fun v v' related => ?_
  cases related with
  | @plain v _ =>
    cases v with
    | patch p => exact .value (.plain nofun)
    | design d => exact .value (.plain nofun)
    | _ => exact .fault rfl
  | function => exact .fault rfl

theorem mirrors_rep (samePatches : limits'.maxPatches = limits.maxPatches) :
    Mirrors excused (Value.Like akin) (rep limits sub scope a b)
      (rep limits' sub' scope' a' b') := by
  refine (mirrors_number _ ha).bind ?_
  rintro n _ rfl
  refine .bind_self _ fun tiles => hb.bind fun v v' related => ?_
  have sameCheck : limits'.checkCopies n v'.patchCount = limits.checkCopies n v.patchCount := by
    rw [Limits.checkCopies, Limits.checkCopies, samePatches,
      related.same Value.patchCount fun _ _ => rfl]
  have sameTiles : v.tiled tiles = v'.tiled tiles :=
    related.same (Value.tiled tiles) fun _ _ => rfl
  rw [sameCheck, sameTiles]
  exact .bind_self _ fun _ => .bind_self _ fun d => .value (.plain nofun)

end Operands

section Elements

variable (samePatches : limits'.maxPatches = limits.maxPatches)

include samePatches

theorem mirrors_push {e e' : Expr} (layout : Layout) (base : Design K)
    (h : Reflects excused akin sub sub' scope scope' e e') :
    Mirrors excused Eq (push limits sub scope layout base e)
      (push limits' sub' scope' layout base e') := by
  refine h.bind fun v v' related => ?_
  have samePush : layout.push base v = layout.push base v' :=
    related.same (layout.push base) fun _ _ => rfl
  rw [samePush]
  refine .bind_self _ fun joined => ?_
  have sameCheck : limits'.checkPatches (K := K) joined.patches.length =
      limits.checkPatches joined.patches.length := by
    rw [Limits.checkPatches, Limits.checkPatches, samePatches]
  rw [sameCheck]
  exact .bind_self _ fun _ => .value rfl

theorem mirrors_arrange {items items' : List Expr} (layout : Layout)
    (h : List.Forall₂ (Reflects excused akin sub sub' scope scope') items items') :
    Mirrors excused (Value.Like akin) (arrange limits sub scope layout items)
      (arrange limits' sub' scope' layout items') := by
  cases h with
  | nil => exact .fault rfl
  | @cons item item' items items' first others =>
    refine first.bind fun v v' related => ?_
    have sameElement : layout.element v = layout.element v' :=
      related.same layout.element fun _ _ => rfl
    rw [sameElement]
    refine .bind_self _ fun base => ?_
    have pushed : Mirrors excused Eq (items.foldlM (push limits sub scope layout) base)
        (items'.foldlM (push limits' sub' scope' layout) base) := by
      refine mirrors_foldlM ?_ others rfl
      rintro base _ e e' rfl h
      exact mirrors_push samePatches layout base h
    refine pushed.bind ?_
    rintro d _ rfl
    exact .value (.plain nofun)

theorem mirrors_overlay {items items' : List Expr} (anchor : String)
    (h : List.Forall₂ (Reflects excused akin sub sub' scope scope') items items') :
    Mirrors excused (Value.Like akin) (overlay limits sub scope anchor items)
      (overlay limits' sub' scope' anchor items') :=
  .bind_self _ fun a => mirrors_arrange samePatches (.overlay a) h

end Elements

end Meaning

section Exchange

variable [Scalar K] {limits limits' : Limits} {base : Nat}

variable (excused akin limits' base) in
/-- Whatever the names of an expression stand for in the first scope, what they are exchanged for
stands for something like it in the second. An expression in the place of a name may need `base`
levels more than the name. -/
structure Answers (e : Expr) (scope scope' : Scope (Value K)) (values : String → Expr)
    (callees : String → String) : Prop where
  value : ∀ x, .value x ∈ e.uses → ∀ levels,
    Mirrors excused (Value.Like akin) (scope.require x)
      ((values x).meaning limits' (levels + base + 1) scope')
  callee : ∀ f, .callee f ∈ e.uses →
    Mirrors excused (Value.Like akin) (scope.require f) (scope'.require (callees f))

variable (excused akin limits' base) in
/-- Functions that are akin in these sessions: called with values that are alike, the names in the
body of the one are answered by those in the body of the other. -/
structure Kinship (session session' : Frame (Value K)) : Prop where
  arity : ∀ fn fn', akin fn fn' → fn'.parameters.length = fn.parameters.length
  body : ∀ fn fn' vs vs', akin fn fn' → vs.length = fn.parameters.length →
    List.Forall₂ (Value.Like akin) vs vs' → ∃ values callees,
      fn'.body = fn.body.exchange values callees ∧
        Answers excused akin limits' base fn.body ⟨session, some (fn.frame vs)⟩
          ⟨session', some (fn'.frame vs')⟩ values callees

theorem Answers.mono {e part : Expr} {scope scope' : Scope (Value K)} {values : String → Expr}
    {callees : String → String}
    (h : Answers excused akin limits' base e scope scope' values callees)
    (within : ∀ u ∈ part.uses, u ∈ e.uses) :
    Answers excused akin limits' base part scope scope' values callees where
  value x used := h.value x (within _ used)
  callee f used := h.callee f (within _ used)

/-- An expression is mirrored by the one with the exchanged names, in sessions whose functions are
akin. The levels are what the induction is on: below a call stands a body, of which the expression
itself says nothing. -/
theorem Expr.meaning_mirrors (samePatches : limits'.maxPatches = limits.maxPatches)
    (short : base = 0 ∨ ∀ limit, excused (.tooDeep limit)) {scope scope' : Scope (Value K)}
    (kinship : Kinship excused akin limits' base scope.session scope'.session) (levels : Nat)
    {e : Expr} {values : String → Expr} {callees : String → String}
    (answers : Answers excused akin limits' base e scope scope' values callees) :
    Mirrors excused (Value.Like akin) (e.meaning limits levels scope)
      ((e.exchange values callees).meaning limits' (levels + base) scope') := by
  induction levels generalizing e scope scope' values callees with
  | zero =>
    rcases short with rfl | excuse
    · exact .fault rfl
    · exact .excused _ (excuse _)
  | succ levels ih =>
    rw [Nat.add_right_comm]
    have part {a : Expr} (within : ∀ u ∈ a.uses, u ∈ e.uses) :
        Meaning.Reflects excused akin (meaning limits levels) (meaning limits' (levels + base))
          scope scope' a (a.exchange values callees) :=
      ih kinship (answers.mono within)
    have parts {es : List Expr} (within : ∀ u ∈ usesAll es, u ∈ e.uses) :
        List.Forall₂ (Meaning.Reflects excused akin (meaning limits levels)
          (meaning limits' (levels + base)) scope scope') es (exchangeAll values callees es) := by
      rw [exchangeAll_eq_map, List.forall₂_map_right_iff, List.forall₂_same]
      intro a member
      exact part fun u used => within u (mem_usesAll.2 ⟨a, member, used⟩)
    cases e with
    | number n => exact .value (.plain nofun)
    | angle degrees => exact .value (.plain nofun)
    | color text => exact .value (.plain nofun)
    | name x => exact answers.value x (List.mem_singleton_self _) levels
    | call f arguments =>
      refine Meaning.mirrors_call (answers.callee f List.mem_cons_self)
        (parts fun u used => List.mem_cons_of_mem _ used) kinship.arity ?_
      intro fn fn' vs vs' kin enough related
      obtain ⟨values, callees, same, answered⟩ := kinship.body fn fn' vs vs' kin enough related
      have inside : Kinship excused akin limits' base (scope.inCall (fn.frame vs)).session
          (scope'.inCall (fn'.frame vs')).session := kinship
      rw [same]
      exact ih inside answered
    | arithmetic op a b =>
      exact Meaning.mirrors_arithmetic (part fun u used => List.mem_append_left _ used)
        (part fun u used => List.mem_append_right _ used) op
    | rect a b c =>
      exact Meaning.mirrors_rect
        (part fun u used => List.mem_append_left _ (List.mem_append_left _ used))
        (part fun u used => List.mem_append_left _ (List.mem_append_right _ used))
        (part fun u used => List.mem_append_right _ used)
    | strip axis items =>
      exact Meaning.mirrors_arrange samePatches (.strip axis) (parts fun _ used => used)
    | overlay anchor items =>
      exact Meaning.mirrors_overlay samePatches anchor (parts fun _ used => used)
    | rot a b =>
      exact Meaning.mirrors_rot (part fun u used => List.mem_append_left _ used)
        (part fun u used => List.mem_append_right _ used)
    | rep a b =>
      exact Meaning.mirrors_rep (part fun u used => List.mem_append_left _ used)
        (part fun u used => List.mem_append_right _ used) samePatches

end Exchange

end Patchwork
