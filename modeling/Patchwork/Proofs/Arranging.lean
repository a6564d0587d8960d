import Mathlib.Data.List.Infix
import Patchwork.Proofs.Faulting
import Patchwork.Scalar.Exact

/-!
# Layouts of expressions

An expression that lays out its items evaluates, joins and counts them one by one. Where all items
have values, it does what composing the values does, fault for fault, unless the limit on patches
comes first: and it does so exactly where two or more of the values from the front on compose to a
design beyond the limit, whatever is the matter with the values behind them.
-/

namespace Patchwork

variable {K : Type} [Scalar K]

namespace Layout

/-- The expression that lays out its items in this way. -/
def expr : Layout → List Expr → Expr
  | strip axis, items => .strip axis items
  | overlay anchor, items => .overlay anchor.name items

/-- Some of the values from the front on, two at least, compose to a design beyond the limit. -/
def Overflows (layout : Layout) (limits : Limits) (vs : List (Value K)) : Prop :=
  ∃ part, part <+: vs ∧ 2 ≤ part.length ∧
    ∃ d, layout.compose part = .ok d ∧ limits.maxPatches < d.patches.length

instance (limit : Nat) (outcome : Except (Fault K) (Design K)) :
    Decidable (∃ d, outcome = .ok d ∧ limit < d.patches.length) :=
  match outcome with
  | .ok d => decidable_of_iff (limit < d.patches.length)
      ⟨fun many => ⟨d, rfl, many⟩, fun ⟨_, same, many⟩ => Except.ok.inj same ▸ many⟩
  | .error _ => isFalse nofun

instance (layout : Layout) (limits : Limits) (vs : List (Value K)) :
    Decidable (layout.Overflows limits vs) :=
  decidable_of_iff (∃ part ∈ vs.inits, 2 ≤ part.length ∧
    ∃ d, layout.compose part = .ok d ∧ limits.maxPatches < d.patches.length)
    (exists_congr fun _ => and_congr_left fun _ => List.mem_inits _ _)

section Counting

variable (layout : Layout) (limits : Limits)

/-- One more element, and the patches counted behind it. -/
def pushWithin (base : Design K) (v : Value K) : Except (Fault K) (Design K) := do
  let joined ← layout.push base v
  limits.checkPatches joined.patches.length
  pure joined

/-- All elements in order, with the patches counted behind each but the first. -/
def composeWithin : List (Value K) → Except (Fault K) (Design K)
  | [] => .error (.emptyArrangement layout.arrangement)
  | v :: vs => do
    let first ← layout.element v
    vs.foldlM (layout.pushWithin limits) first

/-- The same as overflowing, of values that are joined to a design. -/
def OverflowsFrom (base : Design K) (vs : List (Value K)) : Prop :=
  ∃ part, part <+: vs ∧ part ≠ [] ∧
    ∃ d, part.foldlM layout.push base = .ok d ∧ limits.maxPatches < d.patches.length

end Counting

variable {layout : Layout} {limits : Limits}

section Overflow

variable {base : Design K} {v : Value K} {vs : List (Value K)}

theorem not_overflowsFrom_nil : ¬layout.OverflowsFrom limits base [] := by
  rintro ⟨part, front, some, -⟩
  exact some (List.prefix_nil.1 front)

/-- Either the next value goes beyond the limit, or those behind it do. -/
theorem overflowsFrom_cons_iff : layout.OverflowsFrom limits base (v :: vs) ↔
    ∃ next, layout.push base v = .ok next ∧
      (limits.maxPatches < next.patches.length ∨ layout.OverflowsFrom limits next vs) := by
  constructor
  · rintro ⟨part, front, some, d, composed, many⟩
    rcases List.prefix_cons_iff.1 front with none | ⟨others, rfl, behind⟩
    · exact (some none).elim
    · rw [List.foldlM_cons] at composed
      obtain ⟨next, pushed, composed⟩ := bind_eq_ok.1 composed
      refine ⟨next, pushed, ?_⟩
      cases others with
      | nil =>
        cases composed
        exact Or.inl many
      | cons w others => exact Or.inr ⟨w :: others, behind, by simp, d, composed, many⟩
  · rintro ⟨next, pushed, many | ⟨part, front, -, d, composed, many⟩⟩
    · refine ⟨[v], List.prefix_cons_iff.2 (Or.inr ⟨[], rfl, List.nil_prefix⟩), by simp, next, ?_⟩
      rw [List.foldlM_cons]
      exact ⟨bind_eq_ok.2 ⟨next, pushed, rfl⟩, many⟩
    · refine ⟨v :: part, List.prefix_cons_iff.2 (Or.inr ⟨part, rfl, front⟩), by simp, d, ?_⟩
      rw [List.foldlM_cons]
      exact ⟨bind_eq_ok.2 ⟨next, pushed, composed⟩, many⟩

theorem overflows_cons_iff : layout.Overflows limits (v :: vs) ↔
    ∃ first, layout.element v = .ok first ∧ layout.OverflowsFrom limits first vs := by
  constructor
  · rintro ⟨part, front, two, d, composed, many⟩
    rcases List.prefix_cons_iff.1 front with rfl | ⟨others, rfl, behind⟩
    · cases two
    · obtain ⟨first, drawn, composed⟩ := bind_eq_ok.1 composed
      have some : others ≠ [] := by
        rintro rfl
        exact absurd two (by simp)
      exact ⟨first, drawn, others, behind, some, d, composed, many⟩
  · rintro ⟨first, drawn, part, front, some, d, composed, many⟩
    have two : 2 ≤ (v :: part).length := Nat.succ_le_succ (List.length_pos_iff.2 some)
    refine ⟨v :: part, List.prefix_cons_iff.2 (Or.inr ⟨part, rfl, front⟩), two, d, ?_, many⟩
    exact bind_eq_ok.2 ⟨first, drawn, composed⟩

theorem not_overflows_nil : ¬layout.Overflows limits ([] : List (Value K)) := by
  rintro ⟨part, front, two, -⟩
  rw [List.prefix_nil.1 front] at two
  cases two

end Overflow

section Counting

variable {base : Design K} {vs : List (Value K)}

theorem pushWithin_of_ok {v : Value K} {next : Design K} (pushed : layout.push base v = .ok next) :
    layout.pushWithin limits base v =
      if limits.maxPatches < next.patches.length then .error (.tooManyPatches limits.maxPatches)
      else .ok next := by
  rw [pushWithin, pushed]
  change (limits.checkPatches next.patches.length >>= fun _ => pure next) = _
  rw [Limits.checkPatches]
  split <;> rfl

theorem pushWithin_of_error {v : Value K} {fault : Fault K}
    (refused : layout.push base v = .error fault) :
    layout.pushWithin limits base v = .error fault := by
  rw [pushWithin, refused]
  rfl

theorem foldlM_pushWithin_of_overflows (many : layout.OverflowsFrom limits base vs) :
    vs.foldlM (layout.pushWithin limits) base = .error (.tooManyPatches limits.maxPatches) := by
  induction vs generalizing base with
  | nil => exact (not_overflowsFrom_nil many).elim
  | cons v vs ih =>
    obtain ⟨next, pushed, many⟩ := overflowsFrom_cons_iff.1 many
    rw [List.foldlM_cons, pushWithin_of_ok pushed]
    by_cases beyond : limits.maxPatches < next.patches.length
    · rw [if_pos beyond]
      rfl
    · rw [if_neg beyond]
      exact ih (many.resolve_left beyond)

theorem foldlM_pushWithin (few : ¬layout.OverflowsFrom limits base vs) :
    vs.foldlM (layout.pushWithin limits) base = vs.foldlM layout.push base := by
  induction vs generalizing base with
  | nil => rfl
  | cons v vs ih =>
    rw [List.foldlM_cons, List.foldlM_cons]
    cases pushed : layout.push base v with
    | error fault =>
      rw [pushWithin_of_error pushed]
      rfl
    | ok next =>
      have within : ¬limits.maxPatches < next.patches.length := fun beyond =>
        few (overflowsFrom_cons_iff.2 ⟨next, pushed, Or.inl beyond⟩)
      have later : ¬layout.OverflowsFrom limits next vs := fun many =>
        few (overflowsFrom_cons_iff.2 ⟨next, pushed, Or.inr many⟩)
      rw [pushWithin_of_ok pushed, if_neg within]
      exact ih later

theorem composeWithin_of_overflows (many : layout.Overflows limits vs) :
    layout.composeWithin limits vs = .error (.tooManyPatches limits.maxPatches) := by
  cases vs with
  | nil => exact (not_overflows_nil many).elim
  | cons v vs =>
    obtain ⟨first, drawn, many⟩ := overflows_cons_iff.1 many
    rw [composeWithin, drawn]
    exact foldlM_pushWithin_of_overflows many

theorem composeWithin_eq (few : ¬layout.Overflows limits vs) :
    layout.composeWithin limits vs = layout.compose vs := by
  cases vs with
  | nil => rfl
  | cons v vs =>
    rw [composeWithin, compose]
    cases drawn : layout.element v with
    | error fault => rfl
    | ok first =>
      exact foldlM_pushWithin fun many => few (overflows_cons_iff.2 ⟨first, drawn, many⟩)

end Counting

section Faults

theorem promises_compose (layout : Layout) (vs : List (Value K)) :
    Promises (layout.compose vs) (fun _ => True) Fault.IsMisfit := by
  cases vs with
  | nil => trivial
  | cons v vs =>
    refine (promises_element layout v).bind fun first _ => promises_foldlM ?_ trivial
    exact fun base w _ _ => promises_push layout base w

/-- No limit is asked about when values are composed. -/
theorem compose_ne_tooManyPatches (layout : Layout) (vs : List (Value K)) (limit : Nat) :
    layout.compose vs ≠ .error (.tooManyPatches limit) := by
  intro failed
  have misfit := promises_compose layout vs
  rw [failed] at misfit
  exact misfit

end Faults

end Layout

namespace Meaning

variable {limits : Limits} {sub : Scope (Value K) → Expr → Except (Fault K) (Value K)}
  {scope : Scope (Value K)} {layout : Layout} {items : List Expr} {vs : List (Value K)}

theorem foldlM_push_of_values
    (evaluated : List.Forall₂ (fun e v => sub scope e = .ok v) items vs) (base : Design K) :
    items.foldlM (push limits sub scope layout) base =
      vs.foldlM (layout.pushWithin limits) base := by
  induction evaluated generalizing base with
  | nil => rfl
  | cons first _ ih =>
    rw [List.foldlM_cons, List.foldlM_cons, push, first]
    exact bind_congr ih

/-- Once all items have values, what is left is to join and count these. -/
theorem arrange_of_values
    (evaluated : List.Forall₂ (fun e v => sub scope e = .ok v) items vs) :
    arrange limits sub scope layout items =
      (layout.composeWithin limits vs).map Value.design := by
  cases evaluated with
  | nil => rfl
  | @cons item v items vs first others =>
    rw [arrange, first, Layout.composeWithin]
    change (layout.element v >>= fun base => _) = _
    cases layout.element v with
    | error fault => rfl
    | ok base =>
      change (items.foldlM (push limits sub scope layout) base >>= fun d => pure (.design d)) =
        (vs.foldlM (layout.pushWithin limits) base).map Value.design
      rw [foldlM_push_of_values others]
      cases vs.foldlM (layout.pushWithin limits) base <;> rfl

theorem node_expr (layout : Layout) (items : List Expr) :
    node limits sub scope (layout.expr items) = arrange limits sub scope layout items := by
  cases layout with
  | strip axis => rfl
  | overlay anchor =>
    have read : Anchor.ofName (K := K) anchor.name = .ok anchor := by
      rw [Anchor.ofName, Anchor.ofName?_name]
    change (Anchor.ofName anchor.name >>= fun a => arrange limits sub scope (.overlay a) items) = _
    rw [read]
    rfl

end Meaning

/-- A value takes a level of nesting at least. -/
theorem Expr.pos_of_meaning_eq_ok {limits : Limits} {levels : Nat} {scope : Scope (Value K)}
    {e : Expr} {v : Value K} (found : e.meaning limits levels scope = .ok v) : 0 < levels := by
  cases levels with
  | zero => cases found
  | succ levels => exact Nat.succ_pos levels

section Arranged

variable {s : Session K} {items : List Expr} {vs : List (Value K)}

theorem eval_run_expr (layout : Layout) (some : items ≠ [])
    (evaluated : List.Forall₂
      (fun e v => (e.eval.run { s with depth := s.depth + 1 }).1 = .ok v) items vs) :
    ((layout.expr items).eval.run s).1 =
      (layout.composeWithin s.limits vs).map Value.design := by
  let levels := s.limits.maxDepth - (s.depth + 1)
  have below : List.Forall₂
      (fun e v => e.meaning s.limits levels s.environment.scope = .ok v) items vs := by
    refine evaluated.imp fun e v found => ?_
    rw [Expr.eval_run] at found
    exact found
  have positive : 0 < levels := by
    cases below with
    | nil => exact (some rfl).elim
    | cons first _ => exact Expr.pos_of_meaning_eq_ok first
  have left : s.limits.maxDepth - s.depth = levels + 1 := by omega
  rw [Expr.eval_run, Session.meaning, left, Expr.meaning, Meaning.node_expr,
    Meaning.arrange_of_values below]

/-- A strip or an overlay of items that all have values, on the level on which they stand, comes out
as composing the values does, with the same design or the same fault. Only where two or more of the
values from the front on compose to more patches than allowed, and nowhere else, the limit says so
instead. -/
theorem arranged_as_composed (layout : Layout) (some : items ≠ [])
    (evaluated : List.Forall₂
      (fun e v => (e.eval.run { s with depth := s.depth + 1 }).1 = .ok v) items vs) :
    (((layout.expr items).eval.run s).1 = .error (.tooManyPatches s.limits.maxPatches) ↔
      layout.Overflows s.limits vs) ∧
    (¬layout.Overflows s.limits vs →
      ((layout.expr items).eval.run s).1 = (layout.compose vs).map Value.design) := by
  rw [eval_run_expr layout some evaluated]
  by_cases many : layout.Overflows s.limits vs
  · rw [Layout.composeWithin_of_overflows many]
    exact ⟨iff_of_true rfl many, fun few => (few many).elim⟩
  · rw [Layout.composeWithin_eq many]
    refine ⟨iff_of_false ?_ many, fun _ => rfl⟩
    cases composed : layout.compose vs with
    | ok d => nofun
    | error fault =>
      rintro ⟨⟩
      exact Layout.compose_ne_tooManyPatches layout vs _ composed

end Arranged

section Shelf

/-- A session with a design of two patches, in which a design may have three. -/
def shelfSession : Session Rat :=
  ⟨⟨3, 3⟩, 0, ⟨.ofList [("pair", .design (Patch.tiled 2 (.unplaced 1 1 (.dyed .blue))))], []⟩⟩

/-- A rectangle, the pair, another rectangle that is too high, and what is no design at all. -/
def shelf : List Expr :=
  [.rect (.number 1) (.number 1) (.color "red"), .name "pair",
    .rect (.number 1) (.number 2) (.color "red"), .number 7]

def shelfValues : List (Value Rat) :=
  [.patch (.unplaced 1 1 (.dyed .red)), .design (Patch.tiled 2 (.unplaced 1 1 (.dyed .blue))),
    .patch (.unplaced 1 2 (.dyed .red)), .number 7]

theorem shelf_evaluated : List.Forall₂
    (fun e v => (e.eval.run { shelfSession with depth := 1 }).1 = .ok v) shelf shelfValues := by
  refine .cons ?_ (.cons ?_ (.cons ?_ (.cons ?_ .nil)))
  all_goals with_unfolding_all rfl

/-- In a row the third item does not fit behind the three patches before it, which are just as many
as there may be. Laid over these it would fit, and is one patch too many. -/
theorem shelf_arranged :
    List.Forall₂ (fun e v => (e.eval.run { shelfSession with depth := 1 }).1 = .ok v)
      shelf shelfValues ∧
    (((Layout.strip .horizontal).expr shelf).eval.run shelfSession).1 =
      .error (.unequalSides .horizontal 1 2) ∧
    (((Layout.overlay .center).expr shelf).eval.run shelfSession).1 =
      .error (.tooManyPatches 3) := by
  have some : shelf ≠ [] := List.cons_ne_nil _ _
  have few : ¬(Layout.strip .horizontal).Overflows shelfSession.limits shelfValues := by
    decide +kernel
  have many : (Layout.overlay .center).Overflows shelfSession.limits shelfValues := by
    decide +kernel
  have row := (arranged_as_composed (.strip .horizontal) some shelf_evaluated).2 few
  have overlay := (arranged_as_composed (.overlay .center) some shelf_evaluated).1.2 many
  refine ⟨shelf_evaluated, row.trans ?_, overlay⟩
  with_unfolding_all rfl

end Shelf

end Patchwork
