import Patchwork.Proofs.Source.Ending

/-!
# Two tokens of foresight

A reading takes tokens from the front and leaves the others. How it ends depends on the tokens that
it takes and on the next two: whatever else may follow, it ends in the same way and in the same
place, also when it fails. The second of the two is only looked at to tell a definition from the
goal.
-/

namespace Patchwork

namespace Reading

open Grammar

variable {A B : Type}

/-- The reading ends in the same way on all tokens that begin with those it takes and go on with the
same two. -/
def Foresees (reading : Reading A) : Prop :=
  ∀ tokens outcome rest, reading.ends tokens = (outcome, rest) →
    ∃ used, tokens = used ++ rest ∧
      ∀ rest', rest'.take 2 = rest.take 2 → reading.ends (used ++ rest') = (outcome, rest')

/-- Tokens that are taken do not spoil the view of those behind them. -/
theorem take_append_congr {rest rest' : List Token} (used : List Token)
    (h : rest'.take 2 = rest.take 2) : (used ++ rest').take 2 = (used ++ rest).take 2 := by
  have fewer : rest'.take (2 - used.length) = rest.take (2 - used.length) := by
    have within : min (2 - used.length) 2 = 2 - used.length := by omega
    rw [← within, ← List.take_take, ← List.take_take, h]
  rw [List.take_append, List.take_append, fewer]

theorem head?_congr {rest rest' : List Token} (h : rest'.take 2 = rest.take 2) :
    rest'.head? = rest.head? := by
  have shown (ts : List Token) : ts.head? = (ts.take 2).head? := by
    cases ts with
    | nil | cons => rfl
  rw [shown rest, shown rest', h]

section Rules

variable {reading : Reading A} {next : A → Reading B}

theorem Foresees.length_le (h : Foresees reading) {tokens rest : List Token}
    {outcome : Except SyntaxFault.Cause A} (e : reading.ends tokens = (outcome, rest)) :
    rest.length ≤ tokens.length := by
  obtain ⟨used, rfl, -⟩ := h tokens outcome rest e
  rw [List.length_append]
  exact Nat.le_add_left _ _

theorem foresees_pure (a : A) : Foresees (pure a) := by
  intro tokens outcome rest h
  cases h
  exact ⟨[], rfl, fun _ _ => rfl⟩

theorem foresees_fail (cause : SyntaxFault.Cause) : Foresees (fail cause : Reading A) := by
  intro tokens outcome rest h
  cases h
  exact ⟨[], rfl, fun _ _ => rfl⟩

theorem foresees_bind (first : Foresees reading) (second : ∀ a, Foresees (next a)) :
    Foresees (reading >>= next) := by
  intro tokens outcome rest h
  cases e : reading.ends tokens with
  | mk verdict between =>
    obtain ⟨used, rfl, stays⟩ := first tokens verdict between e
    cases verdict with
    | error cause =>
      rw [ends_bind_of_error e] at h
      cases h
      exact ⟨used, rfl, fun rest' view => ends_bind_of_error (stays rest' view)⟩
    | ok a =>
      rw [ends_bind_of_ok e] at h
      obtain ⟨more, rfl, stays'⟩ := second a between outcome rest h
      refine ⟨used ++ more, (List.append_assoc _ _ _).symm, fun rest' view => ?_⟩
      rw [List.append_assoc, ends_bind_of_ok (stays _ (take_append_congr more view))]
      exact stays' rest' view

theorem foresees_ite {p : Prop} [Decidable p] {yes no : Reading A} (pos : Foresees yes)
    (neg : Foresees no) : Foresees (if p then yes else no) := by
  split
  · exact pos
  · exact neg

theorem foresees_peek : Foresees peek := by
  intro tokens outcome rest h
  cases h
  refine ⟨[], rfl, fun rest' view => ?_⟩
  change (Except.ok rest'.head?, rest') = _
  rw [head?_congr view]

theorem foresees_advance : Foresees advance := by
  intro tokens outcome rest h
  cases h
  cases tokens with
  | nil =>
    refine ⟨[], rfl, fun rest' view => ?_⟩
    have none : rest' = [] := by simpa using view
    rw [none]
    rfl
  | cons t following => exact ⟨[t], rfl, fun _ _ => rfl⟩

theorem foresees_skip? (kind : Token.Kind) : Foresees (skip? kind) := by
  refine foresees_bind (foresees_bind foresees_peek fun _ => foresees_pure _) fun next => ?_
  exact foresees_ite (foresees_bind foresees_advance fun _ => foresees_pure _) (foresees_pure _)

theorem foresees_expect (kind : Token.Kind) : Foresees (expect kind) := by
  refine foresees_bind foresees_peek fun next => ?_
  cases next with
  | none => exact foresees_fail _
  | some t =>
    exact foresees_ite (foresees_bind foresees_advance fun _ => foresees_pure _) (foresees_fail _)

theorem foresees_discard (h : Foresees reading) : Foresees (discard reading) := by
  rw [discard_eq_bind]
  exact foresees_bind h fun _ => foresees_pure _

theorem foresees_close (a : A) : Foresees (do discard (expect .rightParen); return a) :=
  foresees_bind (foresees_discard (foresees_expect _)) fun _ => foresees_pure a

end Rules

section Rounds

variable {step : Reading (Option A)}

/-- Enough rounds are enough: how many are left over does not matter. -/
theorem ends_rounds_congr (foresees : Foresees step) (progresses : Progresses step)
    {ahead tokens rest : List Token} {outcome : Except SyntaxFault.Cause (List A)}
    (enough : tokens.length ≤ ahead.length)
    (e : (rounds step ahead).ends tokens = (outcome, rest)) :
    ∃ used, tokens = used ++ rest ∧ ∀ rest' ahead', rest'.take 2 = rest.take 2 →
      (used ++ rest').length ≤ ahead'.length →
      (rounds step ahead').ends (used ++ rest') = (outcome, rest') := by
  induction left : tokens.length using Nat.strongRecOn
    generalizing ahead tokens outcome rest with
  | ind n ih =>
    rw [ends_rounds_of_enough progresses enough] at e
    cases stepped : step.ends tokens with
    | mk verdict between =>
      obtain ⟨used, rfl, stays⟩ := foresees tokens verdict between stepped
      match verdict with
      | .error cause =>
        rw [ends_bind_of_error stepped] at e
        cases e
        refine ⟨used, rfl, fun rest' ahead' view enough' => ?_⟩
        rw [ends_rounds_of_enough progresses enough', ends_bind_of_error (stays rest' view)]
      | .ok none =>
        rw [ends_bind_of_ok stepped] at e
        cases e
        refine ⟨used, rfl, fun rest' ahead' view enough' => ?_⟩
        rw [ends_rounds_of_enough progresses enough', ends_bind_of_ok (stays rest' view)]
        rfl
      | .ok (some a) =>
        rw [ends_bind_of_ok stepped] at e
        dsimp only at e
        rw [ends_map] at e
        cases others : (rounds step ahead.tail).ends between with
        | mk verdict rest' =>
          rw [others] at e
          cases e
          have fewer : between.length < n := left ▸ progresses.shrinks stepped
          have enough : between.length ≤ ahead.tail.length := by
            have := progresses.shrinks stepped
            rw [List.length_tail]
            omega
          obtain ⟨more, rfl, stays'⟩ := ih _ fewer enough others rfl
          refine ⟨used ++ more, (List.append_assoc _ _ _).symm, fun rest' ahead' view enough' => ?_⟩
          have stepped' := stays (more ++ rest') (take_append_congr more view)
          rw [List.append_assoc] at enough' ⊢
          have enough'' : (more ++ rest').length ≤ ahead'.tail.length := by
            have := progresses.shrinks stepped'
            rw [List.length_tail]
            omega
          rw [ends_rounds_of_enough progresses enough', ends_bind_of_ok stepped']
          dsimp only
          rw [ends_map, stays' rest' _ view enough'']

theorem foresees_rounds (foresees : Foresees step) (progresses : Progresses step) :
    Foresees (get >>= rounds step) := by
  intro tokens outcome rest e
  rw [ends_get_bind] at e
  obtain ⟨used, same, stays⟩ := ends_rounds_congr foresees progresses (Nat.le_refl _) e
  refine ⟨used, same, fun rest' view => ?_⟩
  rw [ends_get_bind]
  exact stays rest' _ view (Nat.le_refl _)

end Rounds

section Lists

variable {item : Reading A} {separator : Token.Kind}

theorem foresees_another? (h : Foresees item) : Foresees (another? separator item) := by
  refine foresees_bind (foresees_skip? separator) fun more => foresees_ite ?_ (foresees_pure none)
  exact foresees_bind h fun a => foresees_pure (some a)

theorem progresses_another? (h : Foresees item) : Progresses (another? separator item) where
  stops := rfl
  shrinks := by
    intro tokens a rest e
    cases tokens with
    | nil => cases e
    | cons t following =>
      by_cases sign : t.kind = separator
      · rw [another?, ends_bind_of_ok (ends_skip?_of_kind sign), if_pos rfl, ends_map] at e
        obtain ⟨-, rfl⟩ := Prod.mk.inj e
        exact Nat.lt_succ_of_le (h.length_le rfl)
      · rw [another?, ends_bind_of_ok (ends_skip?_of_not_begins (mt begins_cons.1 sign))] at e
        cases e

theorem foresees_separated (h : Foresees item) : Foresees (separated separator item) := by
  rw [separated_eq, further_eq_rounds]
  refine foresees_bind h fun a => foresees_bind ?_ fun as => foresees_pure (a, as)
  exact foresees_rounds (foresees_another? h) (progresses_another? h)

end Lists

section Atom

variable {atom : Reading Expr} (h : Foresees atom)

include h

theorem foresees_product : Foresees (product atom) :=
  foresees_bind (foresees_separated h) fun _ => foresees_pure _

theorem foresees_sum : Foresees (sum atom) :=
  foresees_bind (foresees_separated (foresees_product h)) fun _ => foresees_pure _

theorem foresees_items : Foresees (items atom) :=
  foresees_bind (foresees_separated (foresees_sum h)) fun _ => foresees_pure _

theorem foresees_operands : Foresees (operands atom) := by
  refine foresees_bind (foresees_skip? _) fun inParens => foresees_ite ?_ ?_
  · refine foresees_bind (foresees_sum h) fun first => ?_
    refine foresees_bind (foresees_skip? _) fun called => foresees_ite ?_ ?_
    · exact foresees_bind (foresees_sum h) fun second => foresees_close _
    · exact foresees_bind (foresees_discard (foresees_expect _)) fun _ =>
        foresees_bind h fun second => foresees_pure _
  · exact foresees_bind h fun first => foresees_bind h fun second => foresees_pure _

theorem foresees_arguments : Foresees (arguments atom) := by
  refine foresees_bind (foresees_skip? _) fun empty => foresees_ite (foresees_pure _) ?_
  exact foresees_bind (foresees_items h) fun es => foresees_close es

theorem foresees_identifier (t : Token) : Foresees (identifier atom t) := by
  refine foresees_bind foresees_advance fun _ => foresees_ite (foresees_pure _) ?_
  refine foresees_bind (foresees_skip? _) fun called => foresees_ite ?_ (foresees_pure _)
  exact foresees_bind (foresees_arguments h) fun es => foresees_pure _

theorem foresees_group : Foresees (group atom) :=
  foresees_bind foresees_advance fun _ => foresees_bind (foresees_sum h) fun e => foresees_close e

theorem foresees_rect : Foresees (rect atom) := by
  refine foresees_bind foresees_advance fun _ => ?_
  refine foresees_bind (foresees_discard (foresees_expect _)) fun _ => ?_
  refine foresees_bind (foresees_sum h) fun width => ?_
  refine foresees_bind (foresees_discard (foresees_expect _)) fun _ => ?_
  refine foresees_bind (foresees_sum h) fun height => ?_
  refine foresees_bind (foresees_discard (foresees_expect _)) fun _ => ?_
  exact foresees_bind (foresees_sum h) fun color => foresees_close _

theorem foresees_strip (axis : Axis) : Foresees (strip atom axis) := by
  refine foresees_bind foresees_advance fun _ => ?_
  refine foresees_bind (foresees_discard (foresees_expect _)) fun _ => ?_
  exact foresees_bind (foresees_items h) fun es => foresees_close _

omit h in
theorem foresees_anchor : Foresees anchor := by
  refine foresees_bind foresees_peek fun next => ?_
  cases next with
  | none => exact foresees_fail _
  | some t =>
    exact foresees_ite (foresees_bind foresees_advance fun _ => foresees_pure _) (foresees_fail _)

theorem foresees_overlay : Foresees (overlay atom) := by
  refine foresees_bind foresees_advance fun _ => ?_
  refine foresees_bind (foresees_discard (foresees_expect _)) fun _ => ?_
  refine foresees_bind foresees_anchor fun a => ?_
  refine foresees_bind (foresees_discard (foresees_expect _)) fun _ => ?_
  exact foresees_bind (foresees_items h) fun es => foresees_close _

theorem foresees_rot : Foresees (rot atom) :=
  foresees_bind foresees_advance fun _ =>
    foresees_bind (foresees_operands h) fun _ => foresees_pure _

theorem foresees_rep : Foresees (rep atom) :=
  foresees_bind foresees_advance fun _ =>
    foresees_bind (foresees_operands h) fun _ => foresees_pure _

omit h in
theorem foresees_integer (t : Token) : Foresees (integer t) :=
  foresees_ite (foresees_bind foresees_advance fun _ => foresees_pure _) (foresees_fail _)

theorem foresees_atomWith : Foresees (atomWith atom) := by
  refine foresees_bind foresees_peek fun next => ?_
  cases next with
  | none => exact foresees_fail _
  | some t =>
    dsimp only
    cases t.kind with
    | integer => exact foresees_integer t
    | string | hex => exact foresees_bind foresees_advance fun _ => foresees_pure _
    | identifier => exact foresees_identifier h t
    | leftParen => exact foresees_group h
    | rect => exact foresees_rect h
    | hor => exact foresees_strip h .horizontal
    | vert => exact foresees_strip h .vertical
    | overlay => exact foresees_overlay h
    | rot => exact foresees_rot h
    | rep => exact foresees_rep h
    | _ => exact foresees_fail _

end Atom

theorem foresees_atomWithin (limit levels : Nat) : Foresees (atomWithin limit levels) := by
  induction levels with
  | zero => exact foresees_fail _
  | succ levels ih => exact foresees_atomWith ih

theorem foresees_expression (limit : Nat) : Foresees (expression limit) :=
  foresees_sum (foresees_atomWithin limit limit)

/-- Where a name is not taken, it is still to be seen. -/
theorem foresees_binder : Foresees binder := by
  intro tokens outcome rest e
  by_cases named : Begins .identifier tokens
  · obtain ⟨following, t, kind, rfl⟩ := named
    by_cases dye : isDyeName t.text
    · rw [ends_binder_of_dye kind dye] at e
      cases e
      refine ⟨[], rfl, fun rest' view => ?_⟩
      obtain ⟨following', rfl⟩ := List.head?_eq_some_iff.1 (head?_congr view)
      exact ends_binder_of_dye kind dye
    · rw [ends_binder_of_plain kind dye] at e
      cases e
      exact ⟨[t], rfl, fun rest' _ => ends_binder_of_plain kind dye⟩
  · rw [ends_binder_of_not_begins named] at e
    cases e
    refine ⟨[], rfl, fun rest' view => ?_⟩
    have same : rest'.head? = tokens.head? := head?_congr view
    have named' : ¬Begins .identifier rest' := by
      rintro ⟨following, t, kind, rfl⟩
      obtain ⟨following', rfl⟩ := List.head?_eq_some_iff.1 same.symm
      exact named ⟨following', t, kind, rfl⟩
    rw [List.nil_append, ends_binder_of_not_begins named', same]

theorem foresees_parameters : Foresees parameters := by
  refine foresees_bind (foresees_skip? _) fun empty => foresees_ite (foresees_pure _) ?_
  exact foresees_bind (foresees_separated foresees_binder) fun _ => foresees_close _

section Definitions

variable {expr : Reading Expr} (h : Foresees expr)

include h

theorem foresees_function : Foresees (function expr) := by
  refine foresees_bind foresees_advance fun _ => foresees_bind foresees_binder fun name => ?_
  refine foresees_bind (foresees_discard (foresees_expect _)) fun _ => ?_
  refine foresees_bind foresees_parameters fun xs => ?_
  refine foresees_bind (foresees_discard (foresees_expect _)) fun _ => ?_
  refine foresees_bind h fun body => ?_
  exact foresees_bind (foresees_discard (foresees_expect _)) fun _ => foresees_pure _

theorem foresees_binding : Foresees (binding expr) := by
  refine foresees_bind foresees_binder fun name => ?_
  refine foresees_bind (foresees_discard (foresees_expect _)) fun _ => ?_
  refine foresees_bind h fun value => ?_
  exact foresees_bind (foresees_discard (foresees_expect _)) fun _ => foresees_pure _

theorem foresees_declared (kind : DeclaredKind) : Foresees (declared expr kind) :=
  foresees_bind foresees_advance fun _ =>
    foresees_bind (foresees_binding h) fun _ => foresees_pure _

theorem foresees_assigned : Foresees (assigned expr) :=
  foresees_bind (foresees_binding h) fun _ => foresees_pure _

omit h in
theorem nextDefinition?_congr {tokens tokens' : List Token}
    (view : tokens'.take 2 = tokens.take 2) :
    nextDefinition? expr tokens' = nextDefinition? expr tokens := by
  have shown (ts : List Token) : nextDefinition? expr ts = nextDefinition? expr (ts.take 2) := by
    match ts with
    | [] | [_] | _ :: _ :: _ => rfl
  rw [shown tokens, shown tokens', view]

theorem foresees_nextDefinition {tokens : List Token} {reading : Reading Definition}
    (next : nextDefinition? expr tokens = some reading) : Foresees reading := by
  obtain ⟨t, following, -, ⟨-, rfl⟩ | ⟨kind, -, rfl⟩ | rfl⟩ := nextDefinition?_cases next
  · exact foresees_function h
  · exact foresees_declared h kind
  · exact foresees_assigned h

theorem foresees_definition? : Foresees (definition? expr) := by
  intro tokens outcome rest e
  rw [definition?, ends_get_bind] at e
  cases next : nextDefinition? expr tokens with
  | none =>
    rw [next] at e
    cases e
    refine ⟨[], rfl, fun rest' view => ?_⟩
    rw [definition?, ends_get_bind, List.nil_append, nextDefinition?_congr view, next]
    rfl
  | some definition =>
    rw [next] at e
    have foresees : Foresees (definition >>= fun d => pure (some d)) :=
      foresees_bind (foresees_nextDefinition h next) fun d => foresees_pure (some d)
    obtain ⟨used, rfl, stays⟩ := foresees tokens outcome rest e
    refine ⟨used, rfl, fun rest' view => ?_⟩
    rw [definition?, ends_get_bind, nextDefinition?_congr (take_append_congr used view), next]
    exact stays rest' view

end Definitions

theorem foresees_finish : Foresees finish := by
  refine foresees_bind foresees_peek fun next => ?_
  cases next with
  | none => exact foresees_pure _
  | some t => exact foresees_fail _

theorem foresees_more : Foresees more := by
  refine foresees_bind foresees_peek fun next => ?_
  cases next with
  | none => exact foresees_fail _
  | some t => exact foresees_pure _

/-- How the reading of a program ends is settled by the tokens that it takes and the next two. -/
theorem foresees_program (limit : Nat) : Foresees (program (expression limit)) := by
  have same : program (expression limit) = (get >>= definitions (expression limit)) >>= fun ds => do
      more
      let goal ← expression limit
      discard (skip? .semicolon)
      finish
      return ⟨ds, goal⟩ := by
    rw [bind_assoc]
    rfl
  rw [same, definitions_eq_rounds]
  have expr := foresees_expression limit
  have progresses := progresses_definition? (accepts_expression limit) (solid_expression limit)
  refine foresees_bind (foresees_rounds (foresees_definition? expr) progresses) fun ds => ?_
  refine foresees_bind foresees_more fun _ => foresees_bind expr fun goal => ?_
  refine foresees_bind (foresees_discard (foresees_skip? _)) fun _ => ?_
  exact foresees_bind foresees_finish fun _ => foresees_pure _

end Reading

end Patchwork
