import Patchwork.Proofs.Shape
import Patchwork.Proofs.Source.Grammar

/-!
# What trees inherit from their tokens

A property of expressions that holds of every node whose parts have it, given that the tokens of the
node are good ones, holds of all that good tokens derive. It may depend on the levels of nesting
that are left. The same is said of the names that definitions bind.
-/

namespace Patchwork

/-- The names that stand in front of the content. -/
def Definition.binders : Definition → List String
  | declared _ x _ => [x]
  | assigned x _ => [x]
  | function f xs _ => f :: xs

namespace Grammar

/-- What is asked of each node, and of each name. -/
structure Inherited (good : Token → Prop) (named : String → Prop) (holds : Nat → Expr → Prop) :
    Prop where
  bound {t : Token} : good t → t.kind = .identifier → ¬Reading.isDyeName t.text → named t.text
  number {levels n : Nat} : n < Nat.pow 2 63 → holds (levels + 1) (.number n)
  color {levels : Nat} {t : Token} : good t →
    t.kind = .string ∨ t.kind = .hex ∨ t.kind = .identifier → holds (levels + 1) (.color t.content)
  name {levels : Nat} {x : String} : named x → holds (levels + 1) (.name x)
  call {levels : Nat} {f : String} {es : List Expr} : named f → (∀ e ∈ es, holds levels e) →
    holds (levels + 1) (.call f es)
  arithmetic {levels : Nat} {t : Token} {op : Operator} {left right : Expr} : good t →
    t.kind = .plus ∨ t.kind = .star → holds levels left → holds levels right →
    holds levels (.arithmetic op left right)
  group {levels : Nat} {e : Expr} : holds levels e → holds (levels + 1) e
  rect {levels : Nat} {width height color : Expr} : holds levels width → holds levels height →
    holds levels color → holds (levels + 1) (.rect width height color)
  strip {levels : Nat} {axis : Axis} {es : List Expr} : es ≠ [] → (∀ e ∈ es, holds levels e) →
    holds (levels + 1) (.strip axis es)
  overlay {levels : Nat} {t : Token} {es : List Expr} : good t →
    t.kind = .identifier ∨ t.kind = .string → es ≠ [] → (∀ e ∈ es, holds levels e) →
    holds (levels + 1) (.overlay t.content es)
  rot {levels : Nat} {angle target : Expr} : holds levels angle → holds levels target →
    holds (levels + 1) (.rot (Reading.asAngle angle) target)
  rep {levels : Nat} {count target : Expr} : holds levels count → holds levels target →
    holds (levels + 1) (.rep count target)

/-- What the phrase takes from good tokens has the property, and good tokens are left. -/
def Carries {A : Type} (good : Token → Prop) (phrase : Phrase A) (post : A → Prop) : Prop :=
  ∀ ⦃tokens a rest⦄, phrase tokens a rest → (∀ t ∈ tokens, good t) →
    post a ∧ ∀ t ∈ rest, good t

variable {good : Token → Prop} {named : String → Prop} {holds : Nat → Expr → Prop}

theorem good_after {kind : Token.Kind} {tokens rest : List Token} (sign : Sign kind tokens rest)
    (h : ∀ t ∈ tokens, good t) : ∀ t ∈ rest, good t := by
  obtain ⟨t, -, rfl⟩ := sign
  exact (List.forall_mem_cons.1 h).2

section Lists

variable {A : Type} {item : Phrase A} {post : A → Prop} (carries : Carries good item post)

include carries

theorem carries_further : Carries good (Further .comma item) fun as => ∀ a ∈ as, post a := by
  intro tokens as rest further h
  induction further with
  | none tokens => exact ⟨by simp, h⟩
  | more sign first _ ih =>
    obtain ⟨now, h⟩ := carries first (good_after sign h)
    obtain ⟨others, h⟩ := ih h
    exact ⟨List.forall_mem_cons.2 ⟨now, others⟩, h⟩

theorem carries_separated :
    Carries good (Separated .comma item) fun as => as ≠ [] ∧ ∀ a ∈ as, post a := by
  rintro tokens _ rest ⟨first, further⟩ h
  obtain ⟨now, h⟩ := carries first h
  obtain ⟨others, h⟩ := carries_further carries further h
  exact ⟨⟨List.cons_ne_nil _ _, List.forall_mem_cons.2 ⟨now, others⟩⟩, h⟩

end Lists

section Rules

variable (inherited : Inherited good named holds)

include inherited

theorem carries_binder : Carries good Binder named := by
  rintro _ _ rest ⟨t, kind, plain, rfl, rfl⟩ h
  obtain ⟨now, others⟩ := List.forall_mem_cons.1 h
  exact ⟨inherited.bound now kind plain, others⟩

theorem carries_chain {levels : Nat} {op : Operator} {sign : Token.Kind} {operand : Phrase Expr}
    (joins : sign = .plus ∨ sign = .star) (carries : Carries good operand (holds levels)) :
    Carries good (Chain op sign operand) (holds levels) := by
  intro tokens e rest chain h
  induction chain with
  | single first => exact carries first h
  | join _ here next ih =>
    obtain ⟨left, h⟩ := ih h
    obtain ⟨t, rfl, rfl⟩ := here
    obtain ⟨now, others⟩ := List.forall_mem_cons.1 h
    obtain ⟨right, rest⟩ := carries next others
    exact ⟨inherited.arithmetic now joins left right, rest⟩

section Atom

variable {levels : Nat} {atom : Phrase Expr} (carries : Carries good atom (holds levels))

include carries

theorem carries_sum : Carries good (Sum atom) (holds levels) :=
  carries_chain inherited (.inl rfl) (carries_chain inherited (.inr rfl) carries)

theorem carries_items :
    Carries good (Items atom) fun es => es ≠ [] ∧ ∀ e ∈ es, holds levels e :=
  carries_separated (carries_sum inherited carries)

theorem carries_arguments : Carries good (Arguments atom) fun es => ∀ e ∈ es, holds levels e := by
  intro tokens es rest arguments h
  cases arguments with
  | none close => exact ⟨by simp, good_after close h⟩
  | some items close =>
    obtain ⟨⟨-, each⟩, h⟩ := carries_items inherited carries items h
    exact ⟨each, good_after close h⟩

theorem carries_operands :
    Carries good (Operands atom) fun r => holds levels r.1 ∧ holds levels r.2 := by
  have sum := carries_sum inherited carries
  intro tokens r rest operands h
  cases operands with
  | call paren first comma second close =>
    obtain ⟨now, h⟩ := sum first (good_after paren h)
    obtain ⟨other, h⟩ := sum second (good_after comma h)
    exact ⟨⟨now, other⟩, good_after close h⟩
  | grouped paren first close second =>
    obtain ⟨now, h⟩ := sum first (good_after paren h)
    obtain ⟨other, h⟩ := carries second (good_after close h)
    exact ⟨⟨now, other⟩, h⟩
  | adjacent _ first second =>
    obtain ⟨now, h⟩ := carries first h
    obtain ⟨other, h⟩ := carries second h
    exact ⟨⟨now, other⟩, h⟩

theorem carries_atom : Carries good (Atom atom) (holds (levels + 1)) := by
  have sum := carries_sum inherited carries
  have items := carries_items inherited carries
  have operands := carries_operands inherited carries
  intro tokens e rest read h
  cases read with
  | number kind _ small => exact ⟨inherited.number small, (List.forall_mem_cons.1 h).2⟩
  | color kind =>
    obtain ⟨now, others⟩ := List.forall_mem_cons.1 h
    exact ⟨inherited.color now (kind.imp_right Or.inl), others⟩
  | @dye t _ kind _ =>
    obtain ⟨now, others⟩ := List.forall_mem_cons.1 h
    -- An identifier has no quotes, so that it is its own content.
    have content : t.content = t.text := by simp [Token.content, kind]
    rw [← content]
    exact ⟨inherited.color now (.inr (.inr kind)), others⟩
  | name kind plain _ =>
    obtain ⟨now, others⟩ := List.forall_mem_cons.1 h
    exact ⟨inherited.name (inherited.bound now kind plain), others⟩
  | call kind plain paren arguments =>
    obtain ⟨now, others⟩ := List.forall_mem_cons.1 h
    obtain ⟨each, h⟩ := carries_arguments inherited carries arguments (good_after paren others)
    exact ⟨inherited.call (inherited.bound now kind plain) each, h⟩
  | group paren inner close =>
    obtain ⟨now, h⟩ := sum inner (good_after paren h)
    exact ⟨inherited.group now, good_after close h⟩
  | rect word paren first comma second comma' third close =>
    obtain ⟨width, h⟩ := sum first (good_after paren (good_after word h))
    obtain ⟨height, h⟩ := sum second (good_after comma h)
    obtain ⟨color, h⟩ := sum third (good_after comma' h)
    exact ⟨inherited.rect width height color, good_after close h⟩
  | strip word paren inner close =>
    obtain ⟨⟨some, each⟩, h⟩ := items inner (good_after paren (good_after word h))
    exact ⟨inherited.strip some each, good_after close h⟩
  | overlay word paren kind comma inner close =>
    obtain ⟨anchor, others⟩ := List.forall_mem_cons.1 (good_after paren (good_after word h))
    obtain ⟨⟨some, each⟩, h⟩ := items inner (good_after comma others)
    exact ⟨inherited.overlay anchor kind some each, good_after close h⟩
  | rot word inner =>
    obtain ⟨⟨angle, target⟩, h⟩ := operands inner (good_after word h)
    exact ⟨inherited.rot angle target, h⟩
  | rep word inner =>
    obtain ⟨⟨count, target⟩, h⟩ := operands inner (good_after word h)
    exact ⟨inherited.rep count target, h⟩

end Atom

theorem carries_atomWithin (levels : Nat) : Carries good (AtomWithin levels) (holds levels) := by
  induction levels with
  | zero => exact fun _ _ _ => False.elim
  | succ levels ih => exact carries_atom inherited ih

theorem carries_expression (levels : Nat) : Carries good (Expression levels) (holds levels) :=
  carries_sum inherited (carries_atomWithin inherited levels)

theorem carries_parameters : Carries good Parameters fun xs => ∀ x ∈ xs, named x := by
  intro tokens xs rest parameters h
  cases parameters with
  | none close => exact ⟨by simp, good_after close h⟩
  | some names close =>
    obtain ⟨⟨-, each⟩, h⟩ := carries_separated (carries_binder inherited) names h
    exact ⟨each, good_after close h⟩

theorem carries_binding (levels : Nat) :
    Carries good (Binding (Expression levels)) fun r => named r.1 ∧ holds levels r.2 := by
  rintro tokens _ rest ⟨binder, equal, value, close⟩ h
  obtain ⟨name, h⟩ := carries_binder inherited binder h
  obtain ⟨now, h⟩ := carries_expression inherited levels value (good_after equal h)
  exact ⟨⟨name, now⟩, good_after close h⟩

theorem carries_definition (levels : Nat) : Carries good (Definition (Expression levels))
    fun d => (∀ x ∈ d.binders, named x) ∧ holds levels d.content := by
  intro tokens d rest definition h
  cases definition with
  | declared _ binding =>
    obtain ⟨⟨name, value⟩, h⟩ :=
      carries_binding inherited levels binding (List.forall_mem_cons.1 h).2
    exact ⟨⟨List.forall_mem_singleton.2 name, value⟩, h⟩
  | assigned binding =>
    obtain ⟨⟨name, value⟩, h⟩ := carries_binding inherited levels binding h
    exact ⟨⟨List.forall_mem_singleton.2 name, value⟩, h⟩
  | function word binder paren parameters equal body close =>
    obtain ⟨name, h⟩ := carries_binder inherited binder (good_after word h)
    obtain ⟨each, h⟩ := carries_parameters inherited parameters (good_after paren h)
    obtain ⟨now, h⟩ := carries_expression inherited levels body (good_after equal h)
    exact ⟨⟨List.forall_mem_cons.2 ⟨name, each⟩, now⟩, good_after close h⟩

theorem carries_definitions (levels : Nat) : Carries good (Definitions (Expression levels))
    fun ds => ∀ d ∈ ds, (∀ x ∈ d.binders, named x) ∧ holds levels d.content := by
  intro tokens ds rest definitions h
  induction definitions with
  | none tokens => exact ⟨by simp, h⟩
  | more first _ ih =>
    obtain ⟨now, h⟩ := carries_definition inherited levels first h
    obtain ⟨others, h⟩ := ih h
    exact ⟨List.forall_mem_cons.2 ⟨now, others⟩, h⟩

end Rules

/-- A whole program inherits what its names and nodes do. -/
theorem Inherited.of_derives (inherited : Inherited good named holds) {levels : Nat}
    {tokens : List Token} {p : Program} (derives : Derives levels tokens p)
    (h : ∀ t ∈ tokens, good t) :
    (∀ d ∈ p.definitions, ∀ x ∈ d.binders, named x) ∧ ∀ e ∈ p.contents, holds levels e := by
  obtain ⟨definitions, goal, -⟩ := derives
  obtain ⟨each, h⟩ := carries_definitions inherited levels definitions h
  obtain ⟨last, -⟩ := carries_expression inherited levels goal h
  refine ⟨fun d member => (each d member).1, ?_⟩
  exact Program.forall_mem_contents_iff.2 ⟨fun d member => (each d member).2, last⟩

end Grammar

end Patchwork
