import Patchwork.Proofs.Source.Phrase

/-!
# Expressions are read as the grammar has them

A reading accepts a phrase if it succeeds exactly where the phrase is ahead. The readings of sums
and lists take as much as they can, and so stop in front of no operator and no comma; an atom is
taken whatever comes behind it. The main statement, `accepts_expression`, follows by induction on
the levels of nesting.
-/

namespace Patchwork

namespace Reading

open Grammar

variable {A B : Type}

/-- The reading succeeds exactly on the phrase. -/
def Accepts (reading : Reading A) (phrase : Phrase A) : Prop :=
  ∀ tokens a rest, reading.run tokens = .ok (a, rest) ↔ phrase tokens a rest

section Steps

/-!
What it takes for a reading to succeed, one step after another.
-/

variable {tokens rest : List Token} {b : B}

theorem run_bind_eq_ok (reading : Reading A) {next : A → Reading B} :
    (reading >>= next).run tokens = .ok (b, rest) ↔
      ∃ a between, reading.run tokens = .ok (a, between) ∧
        (next a).run between = .ok (b, rest) := by
  rw [StateT.run_bind]
  cases reading.run tokens with
  | error failure =>
    constructor
    · intro h
      cases h
    · rintro ⟨a, between, h, -⟩
      cases h
  | ok r =>
    constructor
    · intro h
      exact ⟨r.1, r.2, rfl, h⟩
    · rintro ⟨a, between, h, onward⟩
      cases h
      exact onward

theorem run_pure_eq_ok {a : B} :
    (pure a : Reading B).run tokens = .ok (b, rest) ↔ a = b ∧ tokens = rest := by
  change Except.ok (a, tokens) = Except.ok (b, rest) ↔ _
  simp

theorem run_fail_eq_ok {cause : SyntaxFault.Cause} :
    (fail cause : Reading B).run tokens = .ok (b, rest) ↔ False := by
  change Except.error _ = Except.ok _ ↔ _
  simp

theorem run_fail_bind_eq_ok {cause : SyntaxFault.Cause} {next : A → Reading B} :
    (fail cause >>= next).run tokens = .ok (b, rest) ↔ False := by
  change Except.error _ = Except.ok _ ↔ _
  simp

theorem run_peek_bind {next : Option Token → Reading B} :
    (peek >>= next).run tokens = (next tokens.head?).run tokens := rfl

theorem run_advance_bind {next : Unit → Reading B} :
    (advance >>= next).run tokens = (next ()).run tokens.tail := rfl

theorem run_get_bind {next : List Token → Reading B} :
    (get >>= next).run tokens = (next tokens).run tokens := rfl

theorem run_expect_eq_ok {kind : Token.Kind} {t : Token} :
    (expect kind).run tokens = .ok (t, rest) ↔ t.kind = kind ∧ tokens = t :: rest := by
  rw [expect, run_peek_bind]
  cases tokens with
  | nil => simp [run_fail_eq_ok]
  | cons u following =>
    by_cases h : u.kind = kind
    · simp only [List.head?_cons, h, if_true, run_advance_bind, run_pure_eq_ok]
      constructor
      · rintro ⟨rfl, rfl⟩
        exact ⟨h, rfl⟩
      · rintro ⟨-, same⟩
        cases same
        exact ⟨rfl, rfl⟩
    · simp only [List.head?_cons, h, if_false, run_fail_eq_ok, false_iff]
      rintro ⟨h', same⟩
      cases same
      exact h h'

theorem discard_bind {reading : Reading A} {next : PUnit → Reading B} :
    discard reading >>= next = reading >>= fun _ => next ⟨⟩ := by
  change ((fun _ => PUnit.unit) <$> reading) >>= next = _
  rw [bind_map_left]

theorem run_expect_bind_eq_ok {kind : Token.Kind} {next : PUnit → Reading B} :
    (discard (expect kind) >>= next).run tokens = .ok (b, rest) ↔
      ∃ between, Sign kind tokens between ∧ (next ⟨⟩).run between = .ok (b, rest) := by
  rw [discard_bind, run_bind_eq_ok]
  constructor
  · rintro ⟨t, between, h, onward⟩
    rw [run_expect_eq_ok] at h
    exact ⟨between, ⟨t, h⟩, onward⟩
  · rintro ⟨between, ⟨t, h⟩, onward⟩
    exact ⟨t, between, run_expect_eq_ok.2 h, onward⟩

theorem run_skip?_bind_eq_ok {kind : Token.Kind} {next : Bool → Reading B} :
    (skip? kind >>= next).run tokens = .ok (b, rest) ↔
      (∃ between, Sign kind tokens between ∧ (next true).run between = .ok (b, rest)) ∨
        (¬Begins kind tokens ∧ (next false).run tokens = .ok (b, rest)) := by
  simp only [skip?, nextIs, bind_assoc, pure_bind, run_peek_bind]
  cases tokens with
  | nil => simp
  | cons t following =>
    by_cases h : t.kind = kind
    · simp only [List.head?_cons, Option.any_some, h, beq_self_eq_true, if_true, run_advance_bind,
        bind_assoc, pure_bind, sign_cons, begins_cons, List.tail_cons]
      simp
    · simp [h]

end Steps

section Lists

variable {item : Reading A} {phrase : Phrase A} {separator : Token.Kind} {kinds : List Token.Kind}

theorem run_further_eq_ok (accepts : Accepts item phrase) (solid : Solid phrase)
    {ahead tokens rest : List Token} {as : List A} (enough : tokens.length ≤ ahead.length) :
    (further separator item ahead).run tokens = .ok (as, rest) ↔
      Further separator phrase tokens as rest ∧ ¬Begins separator rest := by
  induction ahead generalizing tokens as with
  | nil =>
    -- No token is ahead, so that running out of rounds and of separators is the same.
    have none : tokens = [] := by simpa using enough
    subst none
    rw [further, run_pure_eq_ok]
    constructor
    · rintro ⟨rfl, rfl⟩
      exact ⟨.none [], not_begins_nil⟩
    · rintro ⟨h, -⟩
      cases h with
      | none => exact ⟨rfl, rfl⟩
      | more sign _ _ => exact absurd sign not_sign_nil
  | cons _ ahead ih =>
    have shorter {ts₁ ts₂ : List Token} {a : A} (sign : Sign separator tokens ts₁)
        (first : phrase ts₁ a ts₂) : ts₂.length ≤ ahead.length := by
      have := length_of_sign sign
      have := solid.shrinks first
      simp only [List.length_cons] at enough
      omega
    rw [further, run_skip?_bind_eq_ok]
    simp only [if_true, Bool.false_eq_true, if_false, run_bind_eq_ok, run_pure_eq_ok]
    constructor
    · rintro (⟨ts₁, sign, a, ts₂, first, others, _, more, rfl, rfl⟩ | ⟨stops, rfl, rfl⟩)
      · have first := (accepts _ _ _).1 first
        obtain ⟨more, stops⟩ := (ih (shorter sign first)).1 more
        exact ⟨.more sign first more, stops⟩
      · exact ⟨.none _, stops⟩
    · rintro ⟨h, stops⟩
      cases h with
      | none => exact Or.inr ⟨stops, rfl, rfl⟩
      | more sign first more =>
        refine Or.inl ⟨_, sign, _, _, (accepts _ _ _).2 first, _, _, ?_, rfl, rfl⟩
        exact (ih (shorter sign first)).2 ⟨more, stops⟩

theorem run_separated_eq_ok (accepts : Accepts item (Stopping kinds phrase)) (solid : Solid phrase)
    (other : separator ∉ kinds) {tokens rest : List Token} {a : A} {as : List A} :
    (separated separator item).run tokens = .ok ((a, as), rest) ↔ ∃ between,
      phrase tokens a between ∧ Further separator phrase between as rest ∧
        Stops (separator :: kinds) rest := by
  have solid' : Solid (Stopping kinds phrase) :=
    ⟨fun h => solid.shrinks h.1, fun h => solid.opens h.1⟩
  simp only [separated, run_bind_eq_ok, run_get_bind, run_pure_eq_ok, accepts _ _ _,
    run_further_eq_ok accepts solid' (Nat.le_refl _), stops_cons]
  constructor
  · rintro ⟨_, between, ⟨first, stops⟩, _, _, ⟨others, stopped⟩, same, rfl⟩
    cases same
    obtain ⟨others, ended⟩ := (further_stopping_iff other).1 ⟨stops, others⟩
    exact ⟨between, first, others, stopped, ended⟩
  · rintro ⟨between, first, others, stopped, ended⟩
    obtain ⟨stops, others⟩ := (further_stopping_iff other).2 ⟨others, ended⟩
    exact ⟨a, between, ⟨first, stops⟩, as, rest, ⟨others, stopped⟩, rfl, rfl⟩

end Lists

section Atom

variable {atom : Reading Expr} {phrase : Phrase Expr}

theorem accepts_chain {item : Reading Expr} {operand : Phrase Expr} {kinds : List Token.Kind}
    (accepts : Accepts item (Stopping kinds operand)) (solid : Solid operand) (op : Operator)
    {sign : Token.Kind} (other : sign ∉ kinds) :
    Accepts (do
      let (first, others) ← separated sign item
      return others.foldl (Expr.arithmetic op) first)
      (Stopping (sign :: kinds) (Chain op sign operand)) := by
  intro tokens e rest
  simp only [run_bind_eq_ok, run_pure_eq_ok, Stopping, chain_iff_foldl]
  constructor
  · rintro ⟨⟨first, others⟩, _, h, rfl, rfl⟩
    obtain ⟨between, h, further, stops⟩ := (run_separated_eq_ok accepts solid other).1 h
    exact ⟨⟨first, others, between, h, further, rfl⟩, stops⟩
  · rintro ⟨⟨first, others, between, h, further, rfl⟩, stops⟩
    refine ⟨(first, others), rest, ?_, rfl, rfl⟩
    exact (run_separated_eq_ok accepts solid other).2 ⟨between, h, further, stops⟩

variable (accepts : Accepts atom phrase) (solid : Solid phrase)

include accepts solid

theorem accepts_product : Accepts (product atom) (Stopping [.star] (Product phrase)) := by
  have unstopped : Accepts atom (Stopping [] phrase) := by
    intro tokens e rest
    simp [Stopping, accepts tokens e rest]
  exact accepts_chain unstopped solid .times (by simp)

theorem accepts_sum : Accepts (sum atom) (Stopping [.plus, .star] (Sum phrase)) :=
  accepts_chain (accepts_product accepts solid) (solid_chain solid) .plus (by decide)

theorem accepts_items :
    Accepts (items atom) (Stopping [.comma, .plus, .star] (Items phrase)) := by
  have sums := accepts_sum accepts solid
  have solid := solid_sum solid
  have other : Token.Kind.comma ∉ [Token.Kind.plus, .star] := by decide
  intro tokens es rest
  simp only [items, run_bind_eq_ok, run_pure_eq_ok, Stopping, Items]
  constructor
  · rintro ⟨⟨first, others⟩, _, h, rfl, rfl⟩
    obtain ⟨between, h, further, stops⟩ := (run_separated_eq_ok sums solid other).1 h
    exact ⟨.intro h further, stops⟩
  · rintro ⟨⟨h, further⟩, stops⟩
    refine ⟨(_, _), rest, ?_, rfl, rfl⟩
    exact (run_separated_eq_ok sums solid other).2 ⟨_, h, further, stops⟩

theorem accepts_operands : Accepts (operands atom) (Operands phrase) := by
  intro tokens r rest
  simp only [operands, run_skip?_bind_eq_ok, if_true, Bool.false_eq_true, if_false,
    run_bind_eq_ok atom, run_bind_eq_ok (sum atom), run_expect_bind_eq_ok, run_pure_eq_ok,
    accepts _ _ _, accepts_sum accepts solid _ _ _]
  constructor
  · rintro (⟨ts₁, paren, a, ts₂, ⟨first, -⟩, behind⟩ |
      ⟨bare, a, ts₁, first, b, ts₂, second, rfl, rfl⟩)
    · rcases behind with ⟨ts₃, comma, b, ts₄, ⟨second, -⟩, ts₅, close, rfl, rfl⟩ |
        ⟨-, ts₃, close, b, ts₄, second, rfl, rfl⟩
      · exact .call paren first comma second close
      · exact .grouped paren first close second
    · exact .adjacent bare first second
  · intro h
    cases h with
    | call paren first comma second close =>
      refine Or.inl ⟨_, paren, _, _, stopping_of_sign first comma (by decide), Or.inl ?_⟩
      exact ⟨_, comma, _, _, stopping_of_sign second close (by decide), _, close, rfl, rfl⟩
    | grouped paren first close second =>
      refine Or.inl ⟨_, paren, _, _, stopping_of_sign first close (by decide), Or.inr ?_⟩
      exact ⟨not_begins_of_sign close (by decide), _, close, _, _, second, rfl, rfl⟩
    | adjacent bare first second =>
      exact Or.inr ⟨bare, _, _, first, _, _, second, rfl, rfl⟩

theorem accepts_arguments : Accepts (arguments atom) (Arguments phrase) := by
  intro tokens es rest
  simp only [arguments, run_skip?_bind_eq_ok, if_true, Bool.false_eq_true, if_false,
    run_bind_eq_ok (items atom), run_expect_bind_eq_ok, run_pure_eq_ok,
    accepts_items accepts solid _ _ _]
  constructor
  · rintro (⟨ts₁, close, rfl, rfl⟩ | ⟨-, es, ts₁, ⟨h, -⟩, ts₂, close, rfl, rfl⟩)
    · exact .none close
    · exact .some h close
  · intro h
    cases h with
    | none close => exact Or.inl ⟨_, close, rfl, rfl⟩
    | some h close =>
      have opens := (solid_items solid).opens h
      exact Or.inr ⟨opens, _, _, stopping_of_sign h close (by decide), _, close, rfl, rfl⟩

section Behind

/-!
What an atom takes behind its first token.
-/

variable {t : Token} {following rest : List Token} {e : Expr}

theorem run_group_eq_ok :
    (group atom).run (t :: following) = .ok (e, rest) ↔
      ∃ ts₁, Sum phrase following e ts₁ ∧ Sign .rightParen ts₁ rest := by
  simp only [group, run_advance_bind, List.tail_cons, run_bind_eq_ok (sum atom),
    run_expect_bind_eq_ok, run_pure_eq_ok, accepts_sum accepts solid _ _ _]
  constructor
  · rintro ⟨_, ts₁, ⟨h, -⟩, _, close, rfl, rfl⟩
    exact ⟨ts₁, h, close⟩
  · rintro ⟨ts₁, h, close⟩
    exact ⟨e, ts₁, stopping_of_sign h close (by decide), rest, close, rfl, rfl⟩

theorem run_rect_eq_ok :
    (rect atom).run (t :: following) = .ok (e, rest) ↔ ∃ ts₁ width ts₂ ts₃ height ts₄ ts₅ color ts₆,
      Sign .leftParen following ts₁ ∧ Sum phrase ts₁ width ts₂ ∧ Sign .comma ts₂ ts₃ ∧
      Sum phrase ts₃ height ts₄ ∧ Sign .comma ts₄ ts₅ ∧ Sum phrase ts₅ color ts₆ ∧
      Sign .rightParen ts₆ rest ∧ Expr.rect width height color = e := by
  simp only [rect, run_advance_bind, List.tail_cons, run_bind_eq_ok (sum atom),
    run_expect_bind_eq_ok, run_pure_eq_ok, accepts_sum accepts solid _ _ _]
  constructor
  · rintro ⟨ts₁, paren, width, ts₂, ⟨h₁, -⟩, ts₃, comma₁, height, ts₄, ⟨h₂, -⟩, ts₅, comma₂, color,
      ts₆, ⟨h₃, -⟩, _, close, rfl, rfl⟩
    exact ⟨ts₁, width, ts₂, ts₃, height, ts₄, ts₅, color, ts₆, paren, h₁, comma₁, h₂, comma₂, h₃,
      close, rfl⟩
  · rintro ⟨ts₁, width, ts₂, ts₃, height, ts₄, ts₅, color, ts₆, paren, h₁, comma₁, h₂, comma₂, h₃,
      close, rfl⟩
    refine ⟨ts₁, paren, width, ts₂, stopping_of_sign h₁ comma₁ (by decide), ts₃, comma₁, ?_⟩
    refine ⟨height, ts₄, stopping_of_sign h₂ comma₂ (by decide), ts₅, comma₂, ?_⟩
    exact ⟨color, ts₆, stopping_of_sign h₃ close (by decide), rest, close, rfl, rfl⟩

theorem run_strip_eq_ok {axis : Axis} :
    (strip atom axis).run (t :: following) = .ok (e, rest) ↔ ∃ ts₁ es ts₂,
      Sign .leftParen following ts₁ ∧ Items phrase ts₁ es ts₂ ∧ Sign .rightParen ts₂ rest ∧
      Expr.strip axis es = e := by
  simp only [strip, run_advance_bind, List.tail_cons, run_bind_eq_ok (items atom),
    run_expect_bind_eq_ok, run_pure_eq_ok, accepts_items accepts solid _ _ _]
  constructor
  · rintro ⟨ts₁, paren, es, ts₂, ⟨h, -⟩, _, close, rfl, rfl⟩
    exact ⟨ts₁, es, ts₂, paren, h, close, rfl⟩
  · rintro ⟨ts₁, es, ts₂, paren, h, close, rfl⟩
    exact ⟨ts₁, paren, es, ts₂, stopping_of_sign h close (by decide), rest, close, rfl, rfl⟩

omit accepts solid in
theorem run_anchor_eq_ok {tokens : List Token} {a : String} :
    anchor.run tokens = .ok (a, rest) ↔ ∃ u : Token,
      (u.kind = .identifier ∨ u.kind = .string) ∧ tokens = u :: rest ∧ u.content = a := by
  rw [anchor, run_peek_bind]
  cases tokens with
  | nil => simp [run_fail_eq_ok]
  | cons u following =>
    by_cases h : u.kind = .identifier ∨ u.kind = .string
    · simp only [List.head?_cons, h, Bool.or_eq_true, decide_eq_true_eq, if_true, run_advance_bind,
        run_pure_eq_ok, List.tail_cons]
      constructor
      · rintro ⟨rfl, rfl⟩
        exact ⟨u, h, rfl, rfl⟩
      · rintro ⟨_, -, same, rfl⟩
        cases same
        exact ⟨rfl, rfl⟩
    · simp only [List.head?_cons, h, Bool.or_eq_true, decide_eq_true_eq, if_false, run_fail_eq_ok,
        false_iff]
      rintro ⟨_, h', same, -⟩
      cases same
      exact h h'

theorem run_overlay_eq_ok :
    (overlay atom).run (t :: following) = .ok (e, rest) ↔ ∃ ts₁ u ts₂ ts₃ es ts₄,
      Sign .leftParen following ts₁ ∧ (u.kind = .identifier ∨ u.kind = .string) ∧ ts₁ = u :: ts₂ ∧
      Sign .comma ts₂ ts₃ ∧ Items phrase ts₃ es ts₄ ∧ Sign .rightParen ts₄ rest ∧
      Expr.overlay u.content es = e := by
  simp only [overlay, run_advance_bind, List.tail_cons, run_bind_eq_ok (items atom),
    run_bind_eq_ok anchor, run_anchor_eq_ok, run_expect_bind_eq_ok, run_pure_eq_ok,
    accepts_items accepts solid _ _ _]
  constructor
  · rintro ⟨ts₁, paren, _, ts₂, ⟨u, word, rfl, rfl⟩, ts₃, comma, es, ts₄, ⟨h, -⟩, _, close, rfl,
      rfl⟩
    exact ⟨_, u, ts₂, ts₃, es, ts₄, paren, word, rfl, comma, h, close, rfl⟩
  · rintro ⟨_, u, ts₂, ts₃, es, ts₄, paren, word, rfl, comma, h, close, rfl⟩
    refine ⟨_, paren, _, ts₂, ⟨u, word, rfl, rfl⟩, ts₃, comma, es, ts₄, ?_⟩
    exact ⟨stopping_of_sign h close (by decide), rest, close, rfl, rfl⟩

theorem run_rot_eq_ok :
    (rot atom).run (t :: following) = .ok (e, rest) ↔ ∃ angle target,
      Operands phrase following (angle, target) rest ∧ Expr.rot (asAngle angle) target = e := by
  simp only [rot, run_advance_bind, List.tail_cons, run_bind_eq_ok,
    accepts_operands accepts solid _ _ _, run_pure_eq_ok]
  constructor
  · rintro ⟨⟨angle, target⟩, _, h, rfl, rfl⟩
    exact ⟨angle, target, h, rfl⟩
  · rintro ⟨angle, target, h, rfl⟩
    exact ⟨(angle, target), rest, h, rfl, rfl⟩

theorem run_rep_eq_ok :
    (rep atom).run (t :: following) = .ok (e, rest) ↔ ∃ count target,
      Operands phrase following (count, target) rest ∧ Expr.rep count target = e := by
  simp only [rep, run_advance_bind, List.tail_cons, run_bind_eq_ok,
    accepts_operands accepts solid _ _ _, run_pure_eq_ok]
  constructor
  · rintro ⟨⟨count, target⟩, _, h, rfl, rfl⟩
    exact ⟨count, target, h, rfl⟩
  · rintro ⟨count, target, h, rfl⟩
    exact ⟨(count, target), rest, h, rfl, rfl⟩

theorem run_identifier_eq_ok :
    (identifier atom t).run (t :: following) = .ok (e, rest) ↔
      (isDyeName t.text ∧ Expr.color t.text = e ∧ following = rest) ∨
      (¬isDyeName t.text ∧ ¬Begins .leftParen following ∧ Expr.name t.text = e ∧ following = rest) ∨
      (¬isDyeName t.text ∧ ∃ ts₁ es, Sign .leftParen following ts₁ ∧ Arguments phrase ts₁ es rest ∧
        Expr.call t.text es = e) := by
  by_cases dye : isDyeName t.text
  · simp only [identifier, run_advance_bind, List.tail_cons, dye, if_true, run_pure_eq_ok,
      not_true_eq_false, true_and, false_and, or_false]
  · simp only [identifier, run_advance_bind, List.tail_cons, dye, Bool.false_eq_true, if_false,
      run_skip?_bind_eq_ok, if_true, run_bind_eq_ok (arguments atom),
      accepts_arguments accepts solid _ _ _, run_pure_eq_ok, not_false_eq_true, true_and,
      false_and, false_or]
    constructor
    · rintro (⟨ts₁, paren, es, _, h, rfl, rfl⟩ | bare)
      · exact Or.inr ⟨ts₁, es, paren, h, rfl⟩
      · exact Or.inl bare
    · rintro (bare | ⟨ts₁, es, paren, h, rfl⟩)
      · exact Or.inr bare
      · exact Or.inl ⟨ts₁, paren, es, rest, h, rfl, rfl⟩

omit accepts solid in
theorem run_integer_eq_ok :
    (integer t).run (t :: following) = .ok (e, rest) ↔
      Nat.ofDigitChars 10 t.text.toList 0 < Nat.pow 2 63 ∧
        Expr.number (Nat.ofDigitChars 10 t.text.toList 0 : Nat) = e ∧ following = rest := by
  rw [integer]
  by_cases small : Nat.ofDigitChars 10 t.text.toList 0 < integerLimit
  · rw [if_pos small, run_advance_bind, run_pure_eq_ok]
    have small : Nat.ofDigitChars 10 t.text.toList 0 < Nat.pow 2 63 := small
    simp only [small, true_and, List.tail_cons]
  · rw [if_neg small, run_fail_eq_ok]
    have large : ¬Nat.ofDigitChars 10 t.text.toList 0 < Nat.pow 2 63 := small
    simp only [large, false_and]

end Behind

theorem atom_of_run {t : Token} {following rest : List Token} {e : Expr}
    (ran : (atomWith atom).run (t :: following) = .ok (e, rest)) :
    Atom phrase (t :: following) e rest := by
  rw [atomWith, run_peek_bind] at ran
  dsimp only [List.head?_cons] at ran
  cases kind : t.kind <;> simp only [kind, run_fail_eq_ok] at ran
  case integer =>
    obtain ⟨small, rfl, rfl⟩ := run_integer_eq_ok.1 ran
    exact .number kind rfl small
  case string =>
    obtain ⟨rfl, rfl⟩ := run_pure_eq_ok.1 ran
    exact .color (Or.inl kind)
  case hex =>
    obtain ⟨rfl, rfl⟩ := run_pure_eq_ok.1 ran
    exact .color (Or.inr kind)
  case identifier =>
    rcases (run_identifier_eq_ok accepts solid).1 ran with ⟨dye, rfl, rfl⟩ |
      ⟨plain, bare, rfl, rfl⟩ | ⟨plain, ts₁, es, paren, h, rfl⟩
    · exact .dye kind dye
    · exact .name kind plain bare
    · exact .call kind plain paren h
  case leftParen =>
    obtain ⟨ts₁, h, close⟩ := (run_group_eq_ok accepts solid).1 ran
    exact .group (sign_cons.2 ⟨kind, rfl⟩) h close
  case rect =>
    obtain ⟨ts₁, width, ts₂, ts₃, height, ts₄, ts₅, color, ts₆, paren, h₁, comma₁, h₂, comma₂, h₃,
      close, rfl⟩ := (run_rect_eq_ok accepts solid).1 ran
    exact .rect (sign_cons.2 ⟨kind, rfl⟩) paren h₁ comma₁ h₂ comma₂ h₃ close
  case hor =>
    obtain ⟨ts₁, es, ts₂, paren, h, close, rfl⟩ := (run_strip_eq_ok accepts solid).1 ran
    exact .strip (sign_cons.2 ⟨kind, rfl⟩) paren h close
  case vert =>
    obtain ⟨ts₁, es, ts₂, paren, h, close, rfl⟩ := (run_strip_eq_ok accepts solid).1 ran
    exact .strip (sign_cons.2 ⟨kind, rfl⟩) paren h close
  case overlay =>
    obtain ⟨_, u, ts₂, ts₃, es, ts₄, paren, word, rfl, comma, h, close, rfl⟩ :=
      (run_overlay_eq_ok accepts solid).1 ran
    exact .overlay (sign_cons.2 ⟨kind, rfl⟩) paren word comma h close
  case rot =>
    obtain ⟨angle, target, h, rfl⟩ := (run_rot_eq_ok accepts solid).1 ran
    exact .rot (sign_cons.2 ⟨kind, rfl⟩) h
  case rep =>
    obtain ⟨count, target, h, rfl⟩ := (run_rep_eq_ok accepts solid).1 ran
    exact .rep (sign_cons.2 ⟨kind, rfl⟩) h

theorem run_of_atom {t : Token} {following rest : List Token} {e : Expr}
    (h : Atom phrase (t :: following) e rest) :
    (atomWith atom).run (t :: following) = .ok (e, rest) := by
  rw [atomWith, run_peek_bind]
  dsimp only [List.head?_cons]
  cases h with
  | number kind value small =>
    subst value
    simp only [kind]
    exact run_integer_eq_ok.2 ⟨small, rfl, rfl⟩
  | color kind => rcases kind with kind | kind <;> simp only [kind] <;> rfl
  | dye kind dye =>
    simp only [kind]
    exact (run_identifier_eq_ok accepts solid).2 (Or.inl ⟨dye, rfl, rfl⟩)
  | name kind plain bare =>
    simp only [kind]
    exact (run_identifier_eq_ok accepts solid).2 (Or.inr (Or.inl ⟨plain, bare, rfl, rfl⟩))
  | call kind plain paren h =>
    simp only [kind]
    exact (run_identifier_eq_ok accepts solid).2 (Or.inr (Or.inr ⟨plain, _, _, paren, h, rfl⟩))
  | group paren h close =>
    obtain ⟨kind, rfl⟩ := sign_cons.1 paren
    simp only [kind]
    exact (run_group_eq_ok accepts solid).2 ⟨_, h, close⟩
  | rect word paren h₁ comma₁ h₂ comma₂ h₃ close =>
    obtain ⟨kind, rfl⟩ := sign_cons.1 word
    simp only [kind]
    exact (run_rect_eq_ok accepts solid).2
      ⟨_, _, _, _, _, _, _, _, _, paren, h₁, comma₁, h₂, comma₂, h₃, close, rfl⟩
  | @strip axis _ _ _ _ _ _ word paren h close =>
    obtain ⟨kind, rfl⟩ := sign_cons.1 word
    cases axis <;> simp only [kind, stripWord]
    · exact (run_strip_eq_ok accepts solid).2 ⟨_, _, _, paren, h, close, rfl⟩
    · exact (run_strip_eq_ok accepts solid).2 ⟨_, _, _, paren, h, close, rfl⟩
  | overlay word paren kind comma h close =>
    obtain ⟨kind', rfl⟩ := sign_cons.1 word
    simp only [kind']
    exact (run_overlay_eq_ok accepts solid).2
      ⟨_, _, _, _, _, _, paren, kind, rfl, comma, h, close, rfl⟩
  | rot word h =>
    obtain ⟨kind, rfl⟩ := sign_cons.1 word
    simp only [kind]
    exact (run_rot_eq_ok accepts solid).2 ⟨_, _, h, rfl⟩
  | rep word h =>
    obtain ⟨kind, rfl⟩ := sign_cons.1 word
    simp only [kind]
    exact (run_rep_eq_ok accepts solid).2 ⟨_, _, h, rfl⟩

theorem accepts_atomWith : Accepts (atomWith atom) (Atom phrase) := by
  intro tokens e rest
  cases tokens with
  | nil =>
    constructor
    · intro ran
      rw [atomWith, run_peek_bind] at ran
      exact (run_fail_eq_ok.1 ran).elim
    · intro h
      cases h <;> simp_all only [not_sign_nil]
  | cons t following => exact ⟨atom_of_run accepts solid, run_of_atom accepts solid⟩

end Atom

theorem accepts_atomWithin (limit levels : Nat) :
    Accepts (atomWithin limit levels) (AtomWithin levels) := by
  induction levels with
  | zero => exact fun tokens e rest => run_fail_eq_ok
  | succ levels ih => exact accepts_atomWith ih (solid_atomWithin levels)

theorem accepts_expression (limit : Nat) :
    Accepts (expression limit) (Stopping [.plus, .star] (Expression limit)) :=
  accepts_sum (accepts_atomWithin limit limit) (solid_atomWithin limit)

end Reading

end Patchwork
