import Mathlib.Data.List.Forall2
import Patchwork.Proofs.Source.Lexeme
import Patchwork.Source.Program

/-!
# Two readings side by side

Two readings of two lists of tokens, which agree token by token in what a comparison looks at. All
that a reading asks a token for is its kind and its text, so that both go through the same steps:
they read the same, or fail for the same cause with as many tokens left, or the first one gives up
for a cause that the comparison excuses. What the comparison lets differ has no other influence.
-/

namespace Patchwork

/-- What is read and forgotten is read all the same. -/
theorem Reading.discard_eq_bind {A : Type} {reading : Reading A} :
    discard reading = reading >>= fun _ => pure PUnit.unit :=
  map_eq_pure_bind (fun _ => PUnit.unit) reading

/-- Which tokens are taken for the same, and for which causes the first reading may give up where
the second one goes on. -/
structure Comparison where
  same : Token → Token → Prop
  lexeme_eq {t t' : Token} : same t t' → t.lexeme = t'.lexeme
  excused : SyntaxFault.Cause → Prop

namespace Comparison

open Reading

variable (c : Comparison) {A B : Type}

theorem kind_eq {t t' : Token} (h : c.same t t') : t'.kind = t.kind :=
  (congrArg Lexeme.kind (c.lexeme_eq h)).symm

theorem text_eq {t t' : Token} (h : c.same t t') : t'.text = t.text :=
  (congrArg Lexeme.text (c.lexeme_eq h)).symm

theorem content_eq {t t' : Token} (h : c.same t t') : t'.content = t.content := by
  rw [Token.content, Token.content, c.kind_eq h, c.text_eq h]

/-- How the two readings may end. The values need not be equal where they are tokens. -/
inductive Follows (alike : A → A → Prop) :
    Except Failure (A × List Token) → Except Failure (A × List Token) → Prop
  | done {a a' : A} {rest rest' : List Token} : alike a a' → List.Forall₂ c.same rest rest' →
      Follows alike (.ok (a, rest)) (.ok (a', rest'))
  | failed (cause : SyntaxFault.Cause) {rest rest' : List Token} :
      List.Forall₂ c.same rest rest' → Follows alike (.error ⟨cause, rest⟩) (.error ⟨cause, rest'⟩)
  | gaveUp {failure : Failure} (full : Except Failure (A × List Token)) :
      c.excused failure.cause → Follows alike (.error failure) full

def Tracks (alike : A → A → Prop) (reading full : Reading A) : Prop :=
  ∀ tokens tokens', List.Forall₂ c.same tokens tokens' →
    c.Follows alike (reading.run tokens) (full.run tokens')

variable {c}

section Rules

variable {alike : A → A → Prop} {post : B → B → Prop} {reading full : Reading A}

theorem tracks_pure {a a' : A} (h : alike a a') : c.Tracks alike (pure a) (pure a') :=
  fun _ _ same => .done h same

theorem tracks_fail (cause : SyntaxFault.Cause) : c.Tracks alike (fail cause) (fail cause) :=
  fun _ _ same => .failed cause same

theorem tracks_excused {cause : SyntaxFault.Cause} (h : c.excused cause) (full : Reading A) :
    c.Tracks alike (fail cause) full :=
  fun _ _ _ => .gaveUp _ h

theorem Tracks.bind {next fullNext : A → Reading B} (first : c.Tracks alike reading full)
    (second : ∀ a a', alike a a' → c.Tracks post (next a) (fullNext a')) :
    c.Tracks post (reading >>= next) (full >>= fullNext) := by
  intro tokens tokens' same
  rw [StateT.run_bind, StateT.run_bind]
  have follows := first tokens tokens' same
  generalize reading.run tokens = outcome, full.run tokens' = outcome' at follows
  cases follows with
  | done values rests => exact second _ _ values _ _ rests
  | failed cause rests => exact .failed cause rests
  | gaveUp _ excused => exact .gaveUp _ excused

/-- The same value goes on to both. -/
theorem Tracks.next {next fullNext : A → Reading B} (first : c.Tracks Eq reading full)
    (second : ∀ a, c.Tracks post (next a) (fullNext a)) :
    c.Tracks post (reading >>= next) (full >>= fullNext) := by
  apply first.bind
  rintro a _ rfl
  exact second a

theorem tracks_ite {p : Prop} [Decidable p] {yes no fullYes fullNo : Reading A}
    (pos : c.Tracks alike yes fullYes) (neg : c.Tracks alike no fullNo) :
    c.Tracks alike (if p then yes else no) (if p then fullYes else fullNo) := by
  split
  · exact pos
  · exact neg

theorem tracks_discard (h : c.Tracks alike reading full) :
    c.Tracks Eq (discard reading) (discard full) := by
  rw [discard_eq_bind, discard_eq_bind]
  exact h.bind fun _ _ _ => tracks_pure rfl

end Rules

section Steps

theorem tracks_get : c.Tracks (List.Forall₂ c.same) (get : Reading (List Token)) get :=
  fun _ _ same => .done same same

theorem tracks_peek : c.Tracks (Option.Rel c.same) peek peek := by
  apply tracks_get.bind
  rintro _ _ (⟨⟩ | ⟨first, -⟩)
  · exact tracks_pure .none
  · exact tracks_pure (.some first)

theorem tracks_advance : c.Tracks Eq advance advance := by
  rintro _ _ (⟨⟩ | ⟨-, rest⟩)
  · exact .done rfl .nil
  · exact .done rfl rest

theorem tracks_skip? (kind : Token.Kind) : c.Tracks Eq (skip? kind) (skip? kind) := by
  have looks : c.Tracks Eq (nextIs kind) (nextIs kind) := by
    apply tracks_peek.bind
    rintro _ _ (⟨h⟩ | ⟨⟩)
    · apply tracks_pure
      rw [Option.any_some, Option.any_some, c.kind_eq h]
    · exact tracks_pure rfl
  apply looks.next
  intro here
  exact tracks_ite (tracks_advance.next fun _ => tracks_pure rfl) (tracks_pure rfl)

theorem tracks_expect (kind : Token.Kind) : c.Tracks c.same (expect kind) (expect kind) := by
  apply tracks_peek.bind
  rintro _ _ (⟨h⟩ | ⟨⟩)
  · dsimp only
    rw [c.kind_eq h, c.text_eq h]
    exact tracks_ite (tracks_advance.next fun _ => tracks_pure h) (tracks_fail _)
  · exact tracks_fail _

theorem tracks_sign (kind : Token.Kind) :
    c.Tracks Eq (discard (expect kind)) (discard (expect kind)) :=
  tracks_discard (tracks_expect kind)

end Steps

section Lists

variable {item full : Reading A} (h : c.Tracks Eq item full)

include h

theorem tracks_further (separator : Token.Kind) {ahead ahead' : List Token}
    (same : List.Forall₂ c.same ahead ahead') :
    c.Tracks Eq (further separator item ahead) (further separator full ahead') := by
  -- The rounds are counted by the tokens ahead, of which there are as many on both sides.
  induction same with
  | nil => exact tracks_pure rfl
  | cons _ _ ih =>
    apply (tracks_skip? separator).next
    intro more
    refine tracks_ite ?_ (tracks_pure rfl)
    exact h.next fun a => ih.next fun as => tracks_pure rfl

theorem tracks_separated (separator : Token.Kind) :
    c.Tracks Eq (separated separator item) (separated separator full) := by
  apply h.next
  intro a
  apply tracks_get.bind
  intro ahead ahead' same
  exact (tracks_further h separator same).next fun as => tracks_pure rfl

end Lists

section Atom

variable {atom full : Reading Expr} (h : c.Tracks Eq atom full)

theorem tracks_integer {t t' : Token} (same : c.same t t') :
    c.Tracks Eq (integer t) (integer t') := by
  unfold integer
  rw [c.text_eq same]
  exact tracks_ite (tracks_advance.next fun _ => tracks_pure rfl) (tracks_fail _)

theorem tracks_colored {t t' : Token} (same : c.same t t') :
    c.Tracks Eq (do advance; return Expr.color t.content)
      (do advance; return Expr.color t'.content) := by
  rw [c.content_eq same]
  exact tracks_advance.next fun _ => tracks_pure rfl

theorem tracks_anchor : c.Tracks Eq anchor anchor := by
  apply tracks_peek.bind
  rintro _ _ (⟨same⟩ | ⟨⟩)
  · dsimp only
    rw [c.kind_eq same, c.content_eq same]
    exact tracks_ite (tracks_advance.next fun _ => tracks_pure rfl) (tracks_fail _)
  · exact tracks_fail _

include h

theorem tracks_product : c.Tracks Eq (product atom) (product full) :=
  (tracks_separated h .star).next fun _ => tracks_pure rfl

theorem tracks_sum : c.Tracks Eq (sum atom) (sum full) :=
  (tracks_separated (tracks_product h) .plus).next fun _ => tracks_pure rfl

theorem tracks_items : c.Tracks Eq (items atom) (items full) :=
  (tracks_separated (tracks_sum h) .comma).next fun _ => tracks_pure rfl

theorem tracks_operands : c.Tracks Eq (operands atom) (operands full) := by
  refine (tracks_skip? _).next fun paren => tracks_ite ?_ ?_
  · refine (tracks_sum h).next fun first => (tracks_skip? _).next fun comma => tracks_ite ?_ ?_
    · exact (tracks_sum h).next fun second => (tracks_sign _).next fun _ => tracks_pure rfl
    · exact (tracks_sign _).next fun _ => h.next fun second => tracks_pure rfl
  · exact h.next fun first => h.next fun second => tracks_pure rfl

theorem tracks_arguments : c.Tracks Eq (arguments atom) (arguments full) := by
  refine (tracks_skip? _).next fun empty => tracks_ite (tracks_pure rfl) ?_
  exact (tracks_items h).next fun es => (tracks_sign _).next fun _ => tracks_pure rfl

theorem tracks_identifier {t t' : Token} (same : c.same t t') :
    c.Tracks Eq (identifier atom t) (identifier full t') := by
  unfold identifier
  rw [c.text_eq same]
  refine tracks_advance.next fun _ => tracks_ite (tracks_pure rfl) ?_
  refine (tracks_skip? _).next fun called => tracks_ite ?_ (tracks_pure rfl)
  exact (tracks_arguments h).next fun es => tracks_pure rfl

theorem tracks_group : c.Tracks Eq (group atom) (group full) := by
  refine tracks_advance.next fun _ => (tracks_sum h).next fun e => ?_
  exact (tracks_sign _).next fun _ => tracks_pure rfl

theorem tracks_rect : c.Tracks Eq (rect atom) (rect full) := by
  refine tracks_advance.next fun _ => (tracks_sign _).next fun _ => ?_
  refine (tracks_sum h).next fun width => (tracks_sign _).next fun _ => ?_
  refine (tracks_sum h).next fun height => (tracks_sign _).next fun _ => ?_
  exact (tracks_sum h).next fun color => (tracks_sign _).next fun _ => tracks_pure rfl

theorem tracks_strip (axis : Axis) : c.Tracks Eq (strip atom axis) (strip full axis) := by
  refine tracks_advance.next fun _ => (tracks_sign _).next fun _ => ?_
  exact (tracks_items h).next fun es => (tracks_sign _).next fun _ => tracks_pure rfl

theorem tracks_overlay : c.Tracks Eq (overlay atom) (overlay full) := by
  refine tracks_advance.next fun _ => (tracks_sign _).next fun _ => ?_
  refine tracks_anchor.next fun a => (tracks_sign _).next fun _ => ?_
  exact (tracks_items h).next fun es => (tracks_sign _).next fun _ => tracks_pure rfl

theorem tracks_rot : c.Tracks Eq (rot atom) (rot full) :=
  tracks_advance.next fun _ => (tracks_operands h).next fun _ => tracks_pure rfl

theorem tracks_rep : c.Tracks Eq (rep atom) (rep full) :=
  tracks_advance.next fun _ => (tracks_operands h).next fun _ => tracks_pure rfl

theorem tracks_atomWith : c.Tracks Eq (atomWith atom) (atomWith full) := by
  apply tracks_peek.bind
  rintro _ _ (⟨same⟩ | ⟨⟩)
  · dsimp only
    rw [c.kind_eq same, c.text_eq same]
    split
    · exact tracks_integer same
    · exact tracks_colored same
    · exact tracks_colored same
    · exact tracks_identifier h same
    · exact tracks_group h
    · exact tracks_rect h
    · exact tracks_strip h .horizontal
    · exact tracks_strip h .vertical
    · exact tracks_overlay h
    · exact tracks_rot h
    · exact tracks_rep h
    · exact tracks_fail _
  · exact tracks_fail _

end Atom

theorem tracks_atomWithin_self (limit levels : Nat) :
    c.Tracks Eq (atomWithin limit levels) (atomWithin limit levels) := by
  induction levels with
  | zero => exact tracks_fail _
  | succ levels ih => exact tracks_atomWith ih

/-- The levels may run out first where fewer of them are left. -/
theorem tracks_atomWithin_le {limit : Nat} (limit' : Nat) (excused : c.excused (.tooDeep limit))
    {levels levels' : Nat} (h : levels ≤ levels') :
    c.Tracks Eq (atomWithin limit levels) (atomWithin limit' levels') := by
  induction levels generalizing levels' with
  | zero => exact tracks_excused excused _
  | succ levels ih =>
    cases levels' with
    | zero => omega
    | succ levels' => exact tracks_atomWith (ih (by omega))

theorem tracks_expression_self (limit : Nat) :
    c.Tracks Eq (expression limit) (expression limit) :=
  tracks_sum (tracks_atomWithin_self limit limit)

theorem tracks_expression_le {limit limit' : Nat} (excused : c.excused (.tooDeep limit))
    (h : limit ≤ limit') : c.Tracks Eq (expression limit) (expression limit') :=
  tracks_sum (tracks_atomWithin_le limit' excused h)

section Definitions

theorem tracks_binder : c.Tracks Eq binder binder := by
  apply tracks_get.bind
  intro tokens tokens' before
  apply (tracks_expect .identifier).bind
  intro t t' same
  rw [c.text_eq same]
  refine tracks_ite ?_ (tracks_pure rfl)
  -- The failure names the tokens in front of the name, not those behind it.
  exact fun _ _ _ => .failed _ before

theorem tracks_parameters : c.Tracks Eq parameters parameters := by
  refine (tracks_skip? _).next fun empty => tracks_ite (tracks_pure rfl) ?_
  refine (tracks_separated tracks_binder .comma).next fun _ => ?_
  exact (tracks_sign _).next fun _ => tracks_pure rfl

theorem tracks_more : c.Tracks Eq more more := by
  apply tracks_peek.bind
  rintro _ _ (⟨same⟩ | ⟨⟩)
  · exact tracks_pure rfl
  · exact tracks_fail _

theorem tracks_finish : c.Tracks Eq finish finish := by
  apply tracks_peek.bind
  rintro _ _ (⟨same⟩ | ⟨⟩)
  · dsimp only
    rw [c.text_eq same]
    exact tracks_fail _
  · exact tracks_pure rfl

variable {expr full : Reading Expr} (h : c.Tracks Eq expr full)

include h

theorem tracks_function : c.Tracks Eq (function expr) (function full) := by
  refine tracks_advance.next fun _ => tracks_binder.next fun name => ?_
  refine (tracks_sign _).next fun _ => tracks_parameters.next fun xs => ?_
  refine (tracks_sign _).next fun _ => h.next fun body => ?_
  exact (tracks_sign _).next fun _ => tracks_pure rfl

theorem tracks_binding : c.Tracks Eq (binding expr) (binding full) := by
  refine tracks_binder.next fun name => (tracks_sign _).next fun _ => ?_
  exact h.next fun value => (tracks_sign _).next fun _ => tracks_pure rfl

theorem tracks_declared (kind : DeclaredKind) :
    c.Tracks Eq (declared expr kind) (declared full kind) :=
  tracks_advance.next fun _ => (tracks_binding h).next fun _ => tracks_pure rfl

theorem tracks_assigned : c.Tracks Eq (assigned expr) (assigned full) :=
  (tracks_binding h).next fun _ => tracks_pure rfl

/-- Which definition comes next is seen from the kinds of the tokens alone. -/
theorem tracks_nextDefinition? {tokens tokens' : List Token}
    (same : List.Forall₂ c.same tokens tokens') :
    Option.Rel (c.Tracks Eq) (nextDefinition? expr tokens) (nextDefinition? full tokens') := by
  cases same with
  | nil => exact .none
  | cons first following =>
    unfold nextDefinition?
    dsimp only
    rw [c.kind_eq first]
    split
    · exact .some (tracks_function h)
    · cases following with
      | nil => exact .none
      | @cons t t' u u' second _ =>
        dsimp only
        rw [c.kind_eq second]
        split
        · generalize DeclaredKind.ofToken? _ = declares
          cases declares with
          | none => exact .none
          | some kind => exact .some (tracks_declared h kind)
        · split
          · exact .some (tracks_assigned h)
          · exact .none

theorem tracks_definitions {ahead ahead' : List Token} (same : List.Forall₂ c.same ahead ahead') :
    c.Tracks Eq (definitions expr ahead) (definitions full ahead') := by
  induction same with
  | nil => exact tracks_pure rfl
  | cons _ _ ih =>
    apply tracks_get.bind
    intro tokens tokens' now
    have next := tracks_nextDefinition? h now
    generalize nextDefinition? expr tokens = found, nextDefinition? full tokens' = fullFound at next
    cases next with
    | none => exact tracks_pure rfl
    | some definition => exact definition.next fun d => ih.next fun ds => tracks_pure rfl

theorem tracks_program : c.Tracks Eq (program expr) (program full) := by
  apply tracks_get.bind
  intro tokens tokens' same
  refine (tracks_definitions h same).next fun ds => tracks_more.next fun _ => ?_
  refine h.next fun goal => (tracks_discard (tracks_skip? _)).next fun _ => ?_
  exact tracks_finish.next fun _ => tracks_pure rfl

end Definitions

end Comparison

end Patchwork
