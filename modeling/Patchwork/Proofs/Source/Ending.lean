import Patchwork.Proofs.Source.Language

/-!
# How readings end

A reading ends in a result or in a cause of failure, and either way some tokens are left. The loops
over lists of items and of definitions are rounds of one step, as many as there are tokens ahead;
rounds that are left over do not matter.
-/

namespace Patchwork

namespace Reading

variable {A B : Type}

/-- How the reading ends, and the tokens that are left there. -/
def ends (reading : Reading A) (tokens : List Token) : Except SyntaxFault.Cause A × List Token :=
  match reading.run tokens with
  | .ok (a, rest) => (.ok a, rest)
  | .error failure => (.error failure.cause, failure.rest)

section Steps

variable {reading : Reading A} {next : A → Reading B} {tokens rest : List Token}
  {cause : SyntaxFault.Cause} {a : A}

theorem ends_of_ok (ran : reading.run tokens = .ok (a, rest)) :
    reading.ends tokens = (.ok a, rest) := by
  rw [ends, ran]

theorem ends_of_error (ran : reading.run tokens = .error ⟨cause, rest⟩) :
    reading.ends tokens = (.error cause, rest) := by
  rw [ends, ran]

theorem run_of_ends_error (h : reading.ends tokens = (.error cause, rest)) :
    reading.run tokens = .error ⟨cause, rest⟩ := by
  rw [ends] at h
  cases ran : reading.run tokens with
  | ok r =>
    rw [ran] at h
    cases h
  | error failure =>
    rw [ran] at h
    cases h
    rfl

theorem run_of_ends_ok (h : reading.ends tokens = (.ok a, rest)) :
    reading.run tokens = .ok (a, rest) := by
  rw [ends] at h
  cases ran : reading.run tokens with
  | ok r =>
    rw [ran] at h
    cases h
    rfl
  | error failure =>
    rw [ran] at h
    cases h

theorem ends_bind_of_ok (h : reading.ends tokens = (.ok a, rest)) :
    (reading >>= next).ends tokens = (next a).ends rest := by
  rw [ends, StateT.run_bind, run_of_ends_ok h]
  rfl

theorem ends_bind_of_error (h : reading.ends tokens = (.error cause, rest)) :
    (reading >>= next).ends tokens = (.error cause, rest) := by
  rw [ends, StateT.run_bind, run_of_ends_error h]
  rfl

theorem ends_get_bind {next : List Token → Reading B} :
    (get >>= next).ends tokens = (next tokens).ends tokens := rfl

theorem ends_map (f : A → B) : (reading >>= fun a => pure (f a)).ends tokens =
    ((reading.ends tokens).1.map f, (reading.ends tokens).2) := by
  cases e : reading.ends tokens with
  | mk verdict between =>
    cases verdict with
    | error cause => exact ends_bind_of_error e
    | ok a => exact ends_bind_of_ok e

open Grammar

theorem ends_skip?_of_kind {kind : Token.Kind} {t : Token} {following : List Token}
    (h : t.kind = kind) : (skip? kind).ends (t :: following) = (.ok true, following) := by
  have next : (nextIs kind).ends (t :: following) = (.ok true, t :: following) := by
    change (Except.ok (t.kind == kind), t :: following) = _
    rw [beq_iff_eq.2 h]
  rw [skip?, ends_bind_of_ok next]
  rfl

theorem ends_skip?_of_not_begins {kind : Token.Kind} (h : ¬Begins kind tokens) :
    (skip? kind).ends tokens = (.ok false, tokens) := by
  cases tokens with
  | nil => rfl
  | cons t following =>
    have next : (nextIs kind).ends (t :: following) = (.ok false, t :: following) := by
      change (Except.ok (t.kind == kind), t :: following) = _
      rw [beq_eq_false_iff_ne.2 (mt begins_cons.2 h)]
    rw [skip?, ends_bind_of_ok next]
    rfl

theorem ends_expect_of_kind {kind : Token.Kind} {t : Token} {following : List Token}
    (h : t.kind = kind) : (expect kind).ends (t :: following) = (.ok t, following) :=
  ends_of_ok (run_expect_eq_ok.2 ⟨h, rfl⟩)

theorem ends_expect_of_not_begins {kind : Token.Kind} (h : ¬Begins kind tokens) :
    (expect kind).ends tokens =
      (.error (.expected kind (tokens.head?.map Token.text)), tokens) := by
  cases tokens with
  | nil => rfl
  | cons t following =>
    have other : t.kind ≠ kind := mt begins_cons.2 h
    rw [expect, ends, run_peek_bind]
    simp only [List.head?_cons, other, if_false]
    rfl

end Steps

section Rounds

/-- Rounds as long as there is something to be read. -/
def rounds (step : Reading (Option A)) (ahead : List Token) : Reading (List A) :=
  match ahead with
  | [] => pure []
  | _ :: ahead => do
    match ← step with
    | some a =>
      let as ← rounds step ahead
      return a :: as
    | none => return []

/-- A step that takes a token at least or ends the rounds. -/
structure Progresses (step : Reading (Option A)) : Prop where
  stops : step.ends [] = (.ok none, [])
  shrinks : ∀ {tokens a rest}, step.ends tokens = (.ok (some a), rest) →
    rest.length < tokens.length

variable {step : Reading (Option A)}

theorem ends_rounds_of_enough (progresses : Progresses step) {ahead tokens : List Token}
    (enough : tokens.length ≤ ahead.length) :
    (rounds step ahead).ends tokens = (do
      match ← step with
      | some a => rounds step ahead.tail >>= fun as => pure (a :: as)
      | none => pure []).ends tokens := by
  cases ahead with
  | nil =>
    have none : tokens = [] := by simpa using enough
    rw [none, ends_bind_of_ok progresses.stops]
    rfl
  | cons _ ahead => rfl

end Rounds

section Loops

variable {item : Reading A} {separator : Token.Kind} {expr : Reading Expr}

theorem separated_eq : separated separator item = item >>= fun a =>
    (get >>= further separator item) >>= fun as => pure (a, as) := by
  refine bind_congr fun a => ?_
  rw [bind_assoc]

/-- An item behind a separator, if one comes next. -/
def another? (separator : Token.Kind) (item : Reading A) : Reading (Option A) := do
  if ← skip? separator then
    let a ← item
    return some a
  else return none

theorem further_eq_rounds : further separator item = rounds (another? separator item) := by
  funext ahead
  induction ahead with
  | nil => rfl
  | cons _ ahead ih =>
    rw [further, ih, rounds]
    generalize rounds (another? separator item) ahead = others
    rw [another?, bind_assoc]
    refine bind_congr fun more => ?_
    cases more with
    | false => rfl
    | true => simp only [if_true, bind_assoc, pure_bind]

/-- A definition, if one comes next. -/
def definition? (expr : Reading Expr) : Reading (Option Definition) := do
  match nextDefinition? expr (← get) with
  | some definition =>
    let d ← definition
    return some d
  | none => return none

theorem definitions_eq_rounds : definitions expr = rounds (definition? expr) := by
  funext ahead
  induction ahead with
  | nil => rfl
  | cons _ ahead ih =>
    rw [definitions, ih, rounds]
    generalize rounds (definition? expr) ahead = others
    rw [definition?, bind_assoc]
    refine bind_congr fun tokens => ?_
    cases nextDefinition? expr tokens with
    | none => rfl
    | some definition => simp only [bind_assoc, pure_bind]

theorem progresses_definition? {phrase : Grammar.Phrase Expr}
    (accepts : Accepts expr (Grammar.Stopping [.plus, .star] phrase))
    (solid : Grammar.Solid phrase) : Progresses (definition? expr) where
  stops := rfl
  shrinks := by
    intro tokens d rest e
    rw [definition?, ends_get_bind] at e
    cases next : nextDefinition? expr tokens with
    | none =>
      rw [next] at e
      cases e
    | some definition =>
      rw [next] at e
      dsimp only at e
      rw [ends_map] at e
      cases ended : definition.ends tokens with
      | mk verdict rest' =>
        rw [ended] at e
        cases verdict with
        | error cause => cases e
        | ok d' =>
          cases e
          exact Grammar.length_of_definition solid
            (definition_of_run accepts next (run_of_ends_ok ended))

end Loops

section Binder

variable {t : Token} {tokens following : List Token}

theorem ends_binder_of_plain (kind : t.kind = .identifier) (plain : ¬isDyeName t.text) :
    binder.ends (t :: following) = (.ok t.text, following) :=
  ends_of_ok ((accepts_binder _ _ _).2 ⟨t, kind, plain, rfl, rfl⟩)

/-- A name that cannot be bound is not taken. -/
theorem ends_binder_of_dye (kind : t.kind = .identifier) (dye : isDyeName t.text) :
    binder.ends (t :: following) = (.error (.colorAsName t.text), t :: following) := by
  rw [binder, ends_get_bind, ends_bind_of_ok (ends_expect_of_kind kind), if_pos dye]
  rfl

theorem ends_binder_of_not_begins (h : ¬Grammar.Begins .identifier tokens) :
    binder.ends tokens =
      (.error (.expected .identifier (tokens.head?.map Token.text)), tokens) := by
  rw [binder, ends_get_bind, ends_bind_of_error (ends_expect_of_not_begins h)]

end Binder

end Reading

end Patchwork
