import Mathlib.Data.Set.Insert
import Patchwork.Proofs.Calling
import Patchwork.Proofs.Restoration
import Patchwork.Proofs.Shape
import Patchwork.Scalar.Exact

/-!
# Recursion without an end

No node skips an operand, so an expression with a value has a value for each of its parts. A set of
functions that all call one of the set somewhere in their bodies can therefore never return: each
level of nesting hands the value that is missing on to the next one, and the levels are finite.
-/

namespace Patchwork

namespace Expr

/-- Somewhere in the expression one of the functions is called. -/
def CallsOneOf (names : Set String) (e : Expr) : Prop :=
  ∃ f ∈ names, Use.callee f ∈ e.uses

theorem eq_call_or_part_of_callee {e : Expr} {f : String} (used : .callee f ∈ e.uses) :
    (∃ arguments, e = call f arguments) ∨ ∃ part ∈ e.parts, .callee f ∈ part.uses := by
  cases e with
  | number n | angle degrees | color text | name x => simp [uses] at used
  | call g arguments =>
    rcases List.mem_cons.1 used with same | below
    · cases same
      exact Or.inl ⟨arguments, rfl⟩
    · exact Or.inr (mem_usesAll.1 below)
  | strip axis items | overlay anchor items => exact Or.inr (mem_usesAll.1 used)
  | arithmetic op left right | rot left right | rep left right =>
    rcases List.mem_append.1 used with below | below
    · exact Or.inr ⟨left, by simp [parts], below⟩
    · exact Or.inr ⟨right, by simp [parts], below⟩
  | rect width height fill =>
    rcases List.mem_append.1 used with below | below
    · rcases List.mem_append.1 below with below | below
      · exact Or.inr ⟨width, by simp [parts], below⟩
      · exact Or.inr ⟨height, by simp [parts], below⟩
    · exact Or.inr ⟨fill, by simp [parts], below⟩

end Expr

variable {K : Type}

namespace Meaning

section Strict

/-!
What has a value below a node that has one.
-/

variable {limits : Limits} {sub : Scope (Value K) → Expr → Except (Fault K) (Value K)}
  {scope : Scope (Value K)} {v : Value K}

variable (sub scope) in
def HasValue (e : Expr) : Prop :=
  ∃ v, sub scope e = .ok v

theorem hasValue_of_bind {B : Type} {e : Expr} {next : Value K → Except (Fault K) B} {b : B}
    (h : sub scope e >>= next = .ok b) :
    HasValue sub scope e ∧ ∃ v, next v = .ok b := by
  obtain ⟨v, evaluated, rest⟩ := bind_eq_ok.1 h
  exact ⟨⟨v, evaluated⟩, v, rest⟩

theorem hasValue_of_number {place : Place} {e : Expr} {n : K}
    (h : number sub scope place e = .ok n) : HasValue sub scope e :=
  (hasValue_of_bind h).1

variable [Scalar K]

theorem hasValue_of_arithmetic {op : Operator} {a b : Expr}
    (h : arithmetic sub scope op a b = .ok v) : HasValue sub scope a ∧ HasValue sub scope b := by
  obtain ⟨m, left, h⟩ := bind_eq_ok.1 h
  obtain ⟨n, right, -⟩ := bind_eq_ok.1 h
  exact ⟨hasValue_of_number left, hasValue_of_number right⟩

theorem hasValue_of_rect {a b c : Expr} (h : rect sub scope a b c = .ok v) :
    HasValue sub scope a ∧ HasValue sub scope b ∧ HasValue sub scope c := by
  obtain ⟨m, width, h⟩ := bind_eq_ok.1 h
  obtain ⟨n, height, h⟩ := bind_eq_ok.1 h
  obtain ⟨_, -, h⟩ := bind_eq_ok.1 h
  exact ⟨hasValue_of_number width, hasValue_of_number height, (hasValue_of_bind h).1⟩

theorem hasValue_of_pushes {layout : Layout} {items : List Expr} {base d : Design K}
    (h : items.foldlM (push limits sub scope layout) base = .ok d) :
    ∀ item ∈ items, HasValue sub scope item := by
  induction items generalizing base with
  | nil => nofun
  | cons item items ih =>
    rw [List.foldlM_cons] at h
    obtain ⟨next, pushed, others⟩ := bind_eq_ok.1 h
    exact List.forall_mem_cons.2 ⟨(hasValue_of_bind pushed).1, ih others⟩

theorem hasValue_of_arrange {layout : Layout} {items : List Expr}
    (h : arrange limits sub scope layout items = .ok v) :
    ∀ item ∈ items, HasValue sub scope item := by
  cases items with
  | nil => nofun
  | cons item items =>
    obtain ⟨first, w, h⟩ := hasValue_of_bind h
    obtain ⟨base, -, h⟩ := bind_eq_ok.1 h
    obtain ⟨d, pushed, -⟩ := bind_eq_ok.1 h
    exact List.forall_mem_cons.2 ⟨first, hasValue_of_pushes pushed⟩

theorem hasValue_of_rot {a b : Expr} (h : rot sub scope a b = .ok v) :
    HasValue sub scope a ∧ HasValue sub scope b := by
  obtain ⟨angle, w, h⟩ := hasValue_of_bind h
  obtain ⟨t, -, h⟩ := bind_eq_ok.1 h
  exact ⟨angle, (hasValue_of_bind h).1⟩

theorem hasValue_of_rep {a b : Expr} (h : rep limits sub scope a b = .ok v) :
    HasValue sub scope a ∧ HasValue sub scope b := by
  obtain ⟨n, count, h⟩ := bind_eq_ok.1 h
  obtain ⟨tiles, -, h⟩ := bind_eq_ok.1 h
  exact ⟨hasValue_of_number count, (hasValue_of_bind h).1⟩

/-- A node that has a value has evaluated each of its parts, where it stands itself. -/
theorem hasValue_of_node {e : Expr} (h : node limits sub scope e = .ok v) :
    ∀ part ∈ e.parts, HasValue sub scope part := by
  cases e with
  | number n | angle degrees | color text | name x => nofun
  | call f arguments =>
    intro argument member
    obtain ⟨fn, vs, -, -, evaluated, -⟩ := call_eq_ok.1 h
    obtain ⟨enough, each⟩ := List.forall₂_iff_get.1 evaluated
    obtain ⟨i, rfl⟩ := List.mem_iff_get.1 member
    exact ⟨_, each i i.2 (enough ▸ i.2)⟩
  | strip axis items => exact hasValue_of_arrange h
  | overlay anchor items =>
    obtain ⟨a, -, h⟩ := bind_eq_ok.1 h
    exact hasValue_of_arrange h
  | arithmetic op a b => simpa [Expr.parts] using hasValue_of_arithmetic h
  | rect a b c => simpa [Expr.parts] using hasValue_of_rect h
  | rot a b => simpa [Expr.parts] using hasValue_of_rot h
  | rep a b => simpa [Expr.parts] using hasValue_of_rep h

end Strict

end Meaning

/-- Each of the names is bound to a function whose body calls one of them again and whose parameters
hide none of them. -/
def Frame.Recurs (frame : Frame (Value K)) (names : Set String) : Prop :=
  ∀ f ∈ names, ∃ fn, frame.get? f = some (.function fn) ∧ fn.body.CallsOneOf names ∧
    ∀ x ∈ fn.parameters, x ∉ names

namespace Frame.Recurs

variable {session : Frame (Value K)} {names : Set String} (recurs : session.Recurs names)

include recurs

/-- A call that finds the function of the session frame needs a value of its body, in a frame that
binds none of the names. -/
theorem call_ne_ok {sub : Scope (Value K) → Expr → Except (Fault K) (Value K)}
    (bodies : ∀ (frame : Frame (Value K)) (body : Expr), (∀ g ∈ names, frame.get? g = none) →
      body.CallsOneOf names → ∀ v, sub ⟨session, some frame⟩ body ≠ .ok v)
    {scope : Scope (Value K)} (same : scope.session = session) {f : String} (member : f ∈ names)
    (seen : scope.get? f = session.get? f) (arguments : List Expr) (v : Value K) :
    Meaning.call sub scope f arguments ≠ .ok v := by
  intro returned
  obtain ⟨fn, vs, found, -, -, body⟩ := Meaning.call_eq_ok.1 returned
  obtain ⟨fn', bound, calls, apart⟩ := recurs f member
  have equal : fn' = fn := by
    rw [seen, bound] at found
    exact Value.function.inj (Option.some.inj found)
  subst equal
  have bare : ∀ g ∈ names, (fn'.frame vs).get? g = none := fun g hidden =>
    Function.get?_frame_of_not_mem fun parameter => apart g parameter hidden
  rw [Scope.inCall, same] at body
  exact bodies _ _ bare calls v body

variable [Scalar K]

/-- The induction is on the levels left: a call hands the missing value on to its body, any other
node to the part in which the call stands. -/
theorem meaning_ne_ok (limits : Limits) (levels : Nat) {frame : Frame (Value K)}
    (bare : ∀ g ∈ names, frame.get? g = none) {e : Expr} (calls : e.CallsOneOf names)
    (v : Value K) : e.meaning limits levels ⟨session, some frame⟩ ≠ .ok v := by
  induction levels generalizing frame e v with
  | zero => nofun
  | succ levels ih =>
    intro returned
    obtain ⟨f, member, used⟩ := calls
    rcases Expr.eq_call_or_part_of_callee used with ⟨arguments, rfl⟩ | ⟨part, below, used⟩
    · have seen : (⟨session, some frame⟩ : Scope (Value K)).get? f = session.get? f := by
        simp [Scope.get?, bare f member]
      have bodies (frame : Frame (Value K)) (body : Expr) (bare : ∀ g ∈ names, frame.get? g = none)
          (calls : body.CallsOneOf names) := ih bare calls
      exact recurs.call_ne_ok bodies rfl member seen arguments v returned
    · obtain ⟨w, evaluated⟩ := Meaning.hasValue_of_node returned part below
      exact ih bare ⟨f, member, used⟩ w evaluated

end Frame.Recurs

variable [Scalar K]

/-- A call of a function that can only return if it is called again, by itself or through others,
ends in a fault: whatever the limits are, and where the call stands only as long as the innermost
frame does not bind that very name anew. -/
theorem recursion_never_returns {s : Session K} {names : Set String}
    (recurs : s.environment.session.Recurs names) {f : String} (member : f ∈ names)
    (visible : ∀ frame ∈ s.environment.calls.head?, frame.get? f = none) (arguments : List Expr) :
    ∃ fault, ((Expr.call f arguments).eval.run s).1 = .error fault := by
  have seen : s.environment.scope.get? f = s.environment.session.get? f := by
    rw [Environment.scope, Scope.get?]
    cases innermost : s.environment.calls.head? with
    | none => rfl
    | some frame => simp [visible frame innermost]
  have missing (v : Value K) : s.meaning (.call f arguments) ≠ .ok v := by
    rw [Session.meaning]
    cases s.limits.maxDepth - s.depth with
    | zero =>
      intro returned
      cases returned
    | succ levels =>
      have bodies (frame : Frame (Value K)) (body : Expr) (bare : ∀ g ∈ names, frame.get? g = none)
          (calls : body.CallsOneOf names) := recurs.meaning_ne_ok s.limits levels bare calls
      exact recurs.call_ne_ok bodies rfl member seen arguments v
  rw [Expr.eval_run]
  cases outcome : s.meaning (.call f arguments) with
  | ok v => exact (missing v outcome).elim
  | error fault => exact ⟨fault, rfl⟩

section Weaving

/-- A row that goes on with columns, and a column that goes on with rows, each behind a patch. -/
def weaving : Frame (Value Rat) := .ofList [
  ("row", .function ⟨["n"], .strip .horizontal
    [.rect (.name "n") (.number 1) (.color "red"), .call "column" [.name "n"]]⟩),
  ("column", .function ⟨["n"], .strip .vertical
    [.rect (.number 1) (.name "n") (.color "blue"),
      .rep (.number 2) (.call "row" [.arithmetic .plus (.name "n") (.number 1)])]⟩)]

/-- In the middle of a call whose argument hides one of the two functions, the other one still calls
the function of the session. -/
theorem weaving_never_returns : weaving.Recurs {"row", "column"} ∧
    ∃ fault, ((Expr.call "row" [.number 1]).eval.run
      ⟨.standard, 1, weaving, [.ofList [("column", .number 3)]]⟩).1 = .error fault := by
  have recurs : weaving.Recurs {"row", "column"} := by
    rintro f (rfl | rfl)
    · exact ⟨_, rfl, ⟨"column", Or.inr rfl, by decide⟩, by decide⟩
    · exact ⟨_, rfl, ⟨"row", Or.inl rfl, by decide⟩, by decide⟩
  exact ⟨recurs, recursion_never_returns recurs (Or.inl rfl) (by rintro _ ⟨⟩; rfl) _⟩

end Weaving

end Patchwork
