import Patchwork.Proofs.Agreement
import Patchwork.Scalar.Exact

/-!
# Neighbours that change places

Two neighbouring definitions can be swapped if neither is needed for the value of the other. Then
the session after both is the same in either order, up to what nobody can tell apart, though it came
about through different sessions. What the program fails with may change: of two definitions that
fail the first one counts.
-/

namespace Patchwork

namespace Definition

def IsFunction : Definition → Prop
  | function _ _ _ => True
  | _ => False

/-- Neither definition asks for the name of the other for its value, and no function body of the
program mentions either name. -/
structure Independent (definitions : List Definition) (first second : Definition) : Prop where
  first_asks : ¬first.AsksFor second.name
  second_asks : ¬second.AsksFor first.name
  bodies : ∀ d ∈ definitions, ¬d.BodyMentions first.name ∧ ¬d.BodyMentions second.name

theorem Independent.variant_self {definitions : List Definition} {first second : Definition}
    (h : Independent definitions first second) {d : Definition} (member : d ∈ definitions) :
    d.Variant [first.name, second.name] d := by
  apply Definition.variant_self
  intro x hidden
  obtain ⟨no_first, no_second⟩ := h.bodies d member
  rcases List.mem_pair.1 hidden with rfl | rfl
  · exact no_first
  · exact no_second

theorem Independent.symm {before after : List Definition} {first second : Definition}
    (h : Independent (before ++ first :: second :: after) first second) :
    Independent (before ++ second :: first :: after) second first where
  first_asks := h.second_asks
  second_asks := h.first_asks
  bodies d member := by
    have same :
        List.Perm (before ++ second :: first :: after) (before ++ first :: second :: after) :=
      (List.Perm.swap first second after).append_left before
    exact (h.bodies d (same.mem_iff.1 member)).symm

end Definition

variable {K : Type} [Scalar K]

namespace Session

variable {hidden : List String} {s : Session K} {before after : List Definition}
  {first second : Definition}

/-- The value of neither definition depends on whether the other is bound already. -/
structure Swappable (hidden : List String) (s : Session K) (first second : Definition) : Prop where
  second_value : ∀ v, Mirrors (fun _ => True) (Value.Like (Function.Variant hidden))
    ((s.define first.name v).value second) (s.value second)
  first_value : ∀ w, Mirrors (fun _ => True) (Value.Like (Function.Variant hidden))
    (s.value first) ((s.define second.name w).value first)

theorem swappable_of_functions (h : first.IsFunction) (h' : second.IsFunction) :
    s.Swappable [] first second := by
  have self (fn : Function) : fn.Variant [] fn :=
    Function.variant_self fun _ member => nomatch member
  cases first with
  | declared | assigned => exact h.elim
  | function =>
    cases second with
    | declared | assigned => exact h'.elim
    | function => exact ⟨fun _ => .value (.function (self _)), fun _ => .value (.function (self _))⟩

theorem swappable_of_independent (h : Definition.Independent (before ++ first :: second :: after)
    first second) (self : s.AgreeOff [first.name, second.name] [] s) :
    s.Swappable [first.name, second.name] first second := by
  have first_covered : [first.name] ⊆ [first.name, second.name] := by simp
  have second_covered : [second.name] ⊆ [first.name, second.name] := by simp
  have variant {d : Definition} (member : d ∈ before ++ first :: second :: after) :
      d.Variant [first.name, second.name] d := h.variant_self member
  constructor
  · intro v
    refine (self.define_left first.name v).value first_covered (variant (by simp)) ?_
    rintro x member
    rw [List.mem_singleton.1 member]
    exact h.second_asks
  · intro w
    refine (self.define_right second.name w).value second_covered (variant (by simp)) ?_
    rintro x member
    rw [List.mem_singleton.1 member]
    exact h.first_asks

theorem foldlM_extend_pair : [first, second].foldlM extend s = (do
    let v ← s.value first
    let w ← (s.define first.name v).value second
    pure ((s.define first.name v).define second.name w)) := by
  rw [List.foldlM_cons, extend, bind_assoc]
  refine bind_congr fun v => ?_
  rw [pure_bind, List.foldlM_cons, extend, bind_assoc]
  refine bind_congr fun w => ?_
  rw [pure_bind, List.foldlM_nil]

/-- What the one order comes to, the other comes to as well. -/
theorem Swappable.extend (h : s.Swappable hidden first second) (self : s.AgreeOff hidden [] s)
    (different : first.name ≠ second.name) :
    Mirrors (fun _ => True) (AgreeOff hidden []) ([first, second].foldlM extend s)
      ([second, first].foldlM extend s) := by
  rw [foldlM_extend_pair, foldlM_extend_pair]
  refine mirrors_of_ok fun t bound => ?_
  obtain ⟨v, found, bound⟩ := bind_eq_ok.1 bound
  obtain ⟨w, found_second, same⟩ := bind_eq_ok.1 bound
  cases same
  obtain ⟨w', found_second', related_second⟩ := (h.second_value v).exists_ok found_second
  obtain ⟨v', found', related⟩ := (h.first_value w').exists_ok found
  refine ⟨_, bind_eq_ok.2 ⟨w', found_second', bind_eq_ok.2 ⟨v', found', rfl⟩⟩, ?_⟩
  exact self.define_swap different related related_second

/-- The program goes on behind its two definitions as if they had not changed places. -/
theorem outcome_swap (variants : ∀ d ∈ before ++ first :: second :: after, d.Variant hidden d)
    (swappable : ∀ t : Session K, t.AgreeOff hidden [] t → t.Swappable hidden first second)
    (different : first.name ≠ second.name) (self : s.AgreeOff hidden [] s) {goal : Expr}
    {d : Design K} (drawn : s.outcome ⟨before ++ first :: second :: after, goal⟩ = .ok d) :
    s.outcome ⟨before ++ second :: first :: after, goal⟩ = .ok d := by
  rw [outcome_append, bind_eq_ok] at drawn ⊢
  obtain ⟨t, bound, drawn⟩ := drawn
  have before_variants : List.Forall₂ (Definition.Variant hidden) before before :=
    List.forall₂_same.2 fun d member => variants d (List.mem_append_left _ member)
  have after_variants : List.Forall₂ (Definition.Variant hidden) after after :=
    List.forall₂_same.2 fun d member => variants d <|
      List.mem_append_right _ (List.mem_cons_of_mem _ (List.mem_cons_of_mem _ member))
  have self : t.AgreeOff hidden [] t := by
    have mirrored : Mirrors (fun _ => True) (AgreeOff hidden []) _ _ :=
      mirrors_foldlM (fun _ _ _ _ agree variant => agree.extend variant) before_variants self
    obtain ⟨t', bound', agree⟩ := mirrored.exists_ok bound
    cases bound.symm.trans bound'
    exact agree
  refine ⟨t, bound, ?_⟩
  have swapped : Mirrors (fun _ => True) Eq (t.outcome ⟨[first, second] ++ after, goal⟩)
      (t.outcome ⟨[second, first] ++ after, goal⟩) := by
    rw [outcome_append, outcome_append]
    exact ((swappable t self).extend self different).bind fun _ _ agree =>
      agree.outcome after_variants goal
  obtain ⟨d', drawn', same⟩ := swapped.exists_ok drawn
  cases same
  exact drawn'

end Session

theorem design_of_swapped {limits : Limits} {before after : List Definition}
    {first second : Definition} {goal : Expr} (different : first.name ≠ second.name)
    (independent : first.IsFunction ∧ second.IsFunction ∨
      Definition.Independent (before ++ first :: second :: after) first second) {d : Design K}
    (drawn : Program.design limits ⟨before ++ first :: second :: after, goal⟩ = .ok d) :
    Program.design limits ⟨before ++ second :: first :: after, goal⟩ = .ok d := by
  rw [Program.design_eq_outcome] at drawn ⊢
  rcases independent with ⟨function, function'⟩ | independent
  · have variants : ∀ d ∈ before ++ first :: second :: after, d.Variant [] d :=
      fun _ _ => Definition.variant_self fun _ hidden => nomatch hidden
    exact Session.outcome_swap variants
      (fun _ _ => Session.swappable_of_functions function function') different
      (Session.agreeOff_new limits) drawn
  · exact Session.outcome_swap (fun _ member => independent.variant_self member)
      (fun _ self => Session.swappable_of_independent independent self) different
      (Session.agreeOff_new limits) drawn

/-- Definitions of different names can be swapped if both are functions, or if neither name is asked
for by the other definition or by any function of the program: the program has the same design, if
it has one. -/
theorem design_swap_definitions (limits : Limits) (before after : List Definition)
    (first second : Definition) (goal : Expr) (different : first.name ≠ second.name)
    (independent : first.IsFunction ∧ second.IsFunction ∨
      Definition.Independent (before ++ first :: second :: after) first second) (d : Design K) :
    Program.design limits ⟨before ++ first :: second :: after, goal⟩ = .ok d ↔
      Program.design limits ⟨before ++ second :: first :: after, goal⟩ = .ok d :=
  ⟨design_of_swapped different independent,
    design_of_swapped different.symm (independent.imp And.symm Definition.Independent.symm)⟩

section Tiles

def squareFunction : Definition :=
  .function "square" ["n"] (.rect (.name "n") (.name "n") (.color "red"))

def countDefinition : Definition :=
  .assigned "count" (.number 2)

def tileDefinition : Definition :=
  .declared .rect "tile" (.call "square" [.number 3])

/-- The function that is called in one of the two neighbours stands before both, and the goal asks
for both. -/
theorem tiles_swap_definitions :
    countDefinition.name ≠ tileDefinition.name ∧
      Definition.Independent [squareFunction, countDefinition, tileDefinition] countDefinition
        tileDefinition ∧
      ∃ d : Design Rat,
        Program.design .standard ⟨[squareFunction, countDefinition, tileDefinition],
          .rep (.name "count") (.name "tile")⟩ = .ok d ∧
        Program.design .standard ⟨[squareFunction, tileDefinition, countDefinition],
          .rep (.name "count") (.name "tile")⟩ = .ok d := by
  have different : countDefinition.name ≠ tileDefinition.name := by decide
  have independent : Definition.Independent [squareFunction, countDefinition, tileDefinition]
      countDefinition tileDefinition := by
    constructor
    · exact (by decide : ¬(Expr.number 2).Mentions "tile")
    · exact (by decide : ¬(Expr.call "square" [.number 3]).Mentions "count")
    · intro d member
      simp only [List.mem_cons, List.not_mem_nil, or_false] at member
      rcases member with rfl | rfl | rfl
      · exact (by decide : ¬(Expr.rect (.name "n") (.name "n") (.color "red")).Mentions "count" ∧
          ¬(Expr.rect (.name "n") (.name "n") (.color "red")).Mentions "tile")
      · exact ⟨id, id⟩
      · exact ⟨id, id⟩
  have drawn : (Program.design .standard ⟨[squareFunction, countDefinition, tileDefinition],
      .rep (.name "count") (.name "tile")⟩ : Except (Fault Rat) (Design Rat)).isOk := by
    decide +kernel
  cases found : (Program.design .standard ⟨[squareFunction, countDefinition, tileDefinition],
      .rep (.name "count") (.name "tile")⟩ : Except (Fault Rat) (Design Rat)) with
  | error fault =>
    rw [found] at drawn
    cases drawn
  | ok d =>
    refine ⟨different, independent, d, rfl, ?_⟩
    exact (design_swap_definitions .standard [squareFunction] [] countDefinition tileDefinition _
      different (Or.inr independent) d).1 found

end Tiles

end Patchwork
