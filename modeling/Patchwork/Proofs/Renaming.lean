import Patchwork.Proofs.Agreement
import Patchwork.Scalar.Exact

/-!
# Parameters under other names

The names of parameters are the affair of their function: whichever way it is called, and whatever
it is bound to on the way, it does the same under other names.
-/

namespace Patchwork

variable {K : Type} [Scalar K]

/-- Where one definition is exchanged for that of a variant. -/
theorem outcome_exchange_function (s : Session K) {excused : Fault K → Prop}
    (self : s.AgreeOff [] [] s) (before after : List Definition) (goal : Expr) (f : String)
    {fn fn' : Function} (variant : fn.Variant [] fn') :
    Mirrors excused Eq (s.outcome ⟨before ++ .function f fn.parameters fn.body :: after, goal⟩)
      (s.outcome ⟨before ++ .function f fn'.parameters fn'.body :: after, goal⟩) := by
  have others (ds : List Definition) : List.Forall₂ (Definition.Variant []) ds ds :=
    List.forall₂_same.2 fun d _ => Definition.variant_self fun _ member => nomatch member
  exact self.outcome (List.rel_append (others before) (.cons (.function f variant) (others after)))
    goal

/-- A parameter can be renamed in its function to any name that is neither a parameter nor asked for
in the body: the program has the same design, or fails with the same category of fault. -/
theorem design_rename_parameter (limits : Limits) (before after : List Definition) (goal : Expr)
    (f : String) {parameters : List String} {body : Expr} {a b : String}
    (parameter : a ∈ parameters) (other : b ∉ parameters) (unasked : ¬body.Mentions b) :
    (∃ d : Design K,
      Program.design limits ⟨before ++ .function f parameters body :: after, goal⟩ = .ok d ∧
      Program.design limits ⟨before ++ .function f (parameters.map (replacing a b))
        (body.rename (replacing a b)) :: after, goal⟩ = .ok d) ∨
    ∃ fault fault' : Fault K,
      Program.design limits ⟨before ++ .function f parameters body :: after, goal⟩ =
        .error fault ∧
      Program.design limits ⟨before ++ .function f (parameters.map (replacing a b))
        (body.rename (replacing a b)) :: after, goal⟩ = .error fault' ∧
      fault'.category = fault.category := by
  rw [Program.design_eq_outcome, Program.design_eq_outcome]
  have variant : Function.Variant [] ⟨parameters, body⟩ _ :=
    Function.variant_replacing parameter other unasked
  exact (outcome_exchange_function _ (Session.agreeOff_new limits) before after goal f
    variant).same_or_fault

/-- Here the function is called under another name and in the argument of a call of itself. -/
def doubling (parameter : String) : Program where
  definitions := [
    .function "pair" [parameter] (.strip .horizontal [.name parameter, .name parameter]),
    .assigned "twice" (.name "pair")]
  goal := .call "twice" [.call "pair" [.rect (.number 1) (.number 2) (.color "red")]]

theorem doubling_rename_parameter :
    "x" ∈ ["x"] ∧ "pair" ∉ ["x"] ∧
      ¬(Expr.strip .horizontal [.name "x", .name "x"]).Mentions "pair" ∧
      ∃ d : Design Rat, (doubling "x").design .standard = .ok d ∧
        (doubling "pair").design .standard = .ok d := by
  have parameter : "x" ∈ ["x"] := by decide
  have other : "pair" ∉ ["x"] := by decide
  have unasked : ¬(Expr.strip .horizontal [.name "x", .name "x"]).Mentions "pair" := by decide
  refine ⟨parameter, other, unasked, ?_⟩
  have renamed := design_rename_parameter (K := Rat) .standard [] [.assigned "twice" (.name "pair")]
    (doubling "x").goal "pair" parameter other unasked
  rcases renamed with drawn | ⟨fault, -, failed, -, -⟩
  · exact drawn
  · have drawn : ((doubling "x").design .standard : Except (Fault Rat) (Design Rat)).isOk := by
      decide +kernel
    have failed : (doubling "x").design .standard = .error fault := failed
    rw [failed] at drawn
    cases drawn

end Patchwork
