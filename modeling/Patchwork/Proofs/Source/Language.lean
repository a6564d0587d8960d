import Patchwork.Proofs.Cutoff
import Patchwork.Proofs.Source.Recognition

/-!
# The language of programs

A list of tokens is read as a program exactly if the grammar derives the program. What the reading
decides by looking two tokens ahead, whether a definition or the goal comes next, is settled: no
expression begins as a definition does. Since the reading has one result, the grammar has no other.
-/

namespace Patchwork

namespace Reading

open Grammar

variable {A B : Type}

theorem accepts_binder : Accepts binder Binder := by
  intro tokens name rest
  simp only [binder, run_get_bind, run_bind_eq_ok (expect .identifier), run_expect_eq_ok,
    Binder]
  constructor
  · rintro ⟨t, ts₁, ⟨kind, rfl⟩, h⟩
    by_cases dye : isDyeName t.text
    · rw [if_pos dye] at h
      cases h
    · rw [if_neg dye, run_pure_eq_ok] at h
      obtain ⟨rfl, rfl⟩ := h
      exact ⟨t, kind, dye, rfl, rfl⟩
  · rintro ⟨t, kind, plain, rfl, rfl⟩
    refine ⟨t, rest, ⟨kind, rfl⟩, ?_⟩
    rw [if_neg plain, run_pure_eq_ok]
    exact ⟨rfl, rfl⟩

theorem accepts_parameters : Accepts parameters Parameters := by
  have binders : Accepts binder (Stopping [] Binder) := by
    intro tokens name rest
    simp [Stopping, accepts_binder tokens name rest]
  intro tokens xs rest
  simp only [parameters, run_skip?_bind_eq_ok, if_true, Bool.false_eq_true, if_false,
    run_bind_eq_ok (separated .comma binder), run_expect_bind_eq_ok, run_pure_eq_ok]
  constructor
  · rintro (⟨ts₁, close, rfl, rfl⟩ | ⟨-, ⟨first, others⟩, ts₁, h, ts₂, close, rfl, rfl⟩)
    · exact .none close
    · obtain ⟨between, h, further, -⟩ :=
        (run_separated_eq_ok binders solid_binder List.not_mem_nil).1 h
      exact .some (.intro h further) close
  · intro h
    cases h with
    | none close => exact Or.inl ⟨_, close, rfl, rfl⟩
    | some h close =>
      obtain ⟨first, others⟩ := h
      refine Or.inr ⟨solid_binder.opens first, (_, _), _, ?_, _, close, rfl, rfl⟩
      exact (run_separated_eq_ok binders solid_binder List.not_mem_nil).2
        ⟨_, first, others, stops_of_sign close (by decide)⟩

section Definitions

variable {expr : Reading Expr} {phrase : Phrase Expr}
  (accepts : Accepts expr (Stopping [.plus, .star] phrase))

include accepts

theorem accepts_binding : Accepts (binding expr) (Binding phrase) := by
  intro tokens r rest
  simp only [binding, run_bind_eq_ok binder, run_bind_eq_ok expr,
    run_expect_bind_eq_ok, run_pure_eq_ok, accepts_binder _ _ _, accepts _ _ _]
  constructor
  · rintro ⟨name, ts₁, bound, ts₂, equal, value, ts₃, ⟨h, -⟩, ts₄, close, rfl, rfl⟩
    exact .intro bound equal h close
  · rintro ⟨bound, equal, h, close⟩
    exact ⟨_, _, bound, _, equal, _, _, stopping_of_sign h close (by decide), _, close, rfl, rfl⟩

theorem run_declared_eq_ok {kind : DeclaredKind} {t : Token} {following rest : List Token}
    {d : Patchwork.Definition} :
    (declared expr kind).run (t :: following) = .ok (d, rest) ↔ ∃ name value,
      Binding phrase following (name, value) rest ∧ .declared kind name value = d := by
  simp only [declared, run_advance_bind, List.tail_cons, run_bind_eq_ok (binding expr),
    accepts_binding accepts _ _ _, run_pure_eq_ok]
  constructor
  · rintro ⟨⟨name, value⟩, _, h, rfl, rfl⟩
    exact ⟨name, value, h, rfl⟩
  · rintro ⟨name, value, h, rfl⟩
    exact ⟨(name, value), rest, h, rfl, rfl⟩

theorem run_assigned_eq_ok {tokens rest : List Token} {d : Patchwork.Definition} :
    (assigned expr).run tokens = .ok (d, rest) ↔ ∃ name value,
      Binding phrase tokens (name, value) rest ∧ .assigned name value = d := by
  simp only [assigned, run_bind_eq_ok (binding expr), accepts_binding accepts _ _ _,
    run_pure_eq_ok]
  constructor
  · rintro ⟨⟨name, value⟩, _, h, rfl, rfl⟩
    exact ⟨name, value, h, rfl⟩
  · rintro ⟨name, value, h, rfl⟩
    exact ⟨(name, value), rest, h, rfl, rfl⟩

theorem run_function_eq_ok {t : Token} {following rest : List Token} {d : Patchwork.Definition} :
    (function expr).run (t :: following) = .ok (d, rest) ↔ ∃ name ts₁ ts₂ xs ts₃ ts₄ body ts₅,
      Binder following name ts₁ ∧ Sign .leftParen ts₁ ts₂ ∧ Parameters ts₂ xs ts₃ ∧
      Sign .equal ts₃ ts₄ ∧ phrase ts₄ body ts₅ ∧ Sign .semicolon ts₅ rest ∧
      .function name xs body = d := by
  simp only [function, run_advance_bind, List.tail_cons, run_bind_eq_ok binder,
    run_bind_eq_ok parameters, run_bind_eq_ok expr,
    run_expect_bind_eq_ok, run_pure_eq_ok, accepts_binder _ _ _, accepts_parameters _ _ _,
    accepts _ _ _]
  constructor
  · rintro ⟨name, ts₁, bound, ts₂, paren, xs, ts₃, h, ts₄, equal, body, ts₅, ⟨h', -⟩, _, close,
      rfl, rfl⟩
    exact ⟨name, ts₁, ts₂, xs, ts₃, ts₄, body, ts₅, bound, paren, h, equal, h', close, rfl⟩
  · rintro ⟨name, ts₁, ts₂, xs, ts₃, ts₄, body, ts₅, bound, paren, h, equal, h', close, rfl⟩
    refine ⟨name, ts₁, bound, ts₂, paren, xs, ts₃, h, ts₄, equal, body, ts₅, ?_⟩
    exact ⟨stopping_of_sign h' close (by decide), rest, close, rfl, rfl⟩

omit accepts in
/-- What comes next is a function, a declaration or an assignment. -/
theorem nextDefinition?_cases {tokens : List Token} {reading : Reading Patchwork.Definition}
    (next : nextDefinition? expr tokens = some reading) : ∃ t following, tokens = t :: following ∧
      ((t.kind = .function ∧ reading = function expr) ∨
        (∃ kind, DeclaredKind.ofToken? t.kind = some kind ∧ reading = declared expr kind) ∨
        reading = assigned expr) := by
  cases tokens with
  | nil => cases next
  | cons t following =>
    refine ⟨t, following, rfl, ?_⟩
    unfold nextDefinition? at next
    dsimp only at next
    by_cases function : t.kind = .function
    · rw [if_pos function] at next
      exact Or.inl ⟨function, (Option.some.inj next).symm⟩
    · rw [if_neg function] at next
      cases following with
      | nil => cases next
      | cons u following =>
        dsimp only at next
        by_cases named : u.kind = .identifier
        · rw [if_pos named, Option.map_eq_some_iff] at next
          obtain ⟨kind, word, same⟩ := next
          exact Or.inr (Or.inl ⟨kind, word, same.symm⟩)
        · rw [if_neg named] at next
          split at next
          · exact Or.inr (Or.inr (Option.some.inj next).symm)
          · cases next

theorem definition_of_run {tokens rest : List Token} {reading : Reading Patchwork.Definition}
    {d : Patchwork.Definition} (next : nextDefinition? expr tokens = some reading)
    (ran : reading.run tokens = .ok (d, rest)) : Grammar.Definition phrase tokens d rest := by
  obtain ⟨t, following, rfl, ⟨function, rfl⟩ | ⟨kind, word, rfl⟩ | rfl⟩ :=
    nextDefinition?_cases next
  · obtain ⟨name, ts₁, ts₂, xs, ts₃, ts₄, body, ts₅, bound, paren, h, equal, h', close, rfl⟩ :=
      (run_function_eq_ok accepts).1 ran
    exact .function (sign_cons.2 ⟨function, rfl⟩) bound paren h equal h' close
  · obtain ⟨name, value, h, rfl⟩ := (run_declared_eq_ok accepts).1 ran
    exact .declared word h
  · obtain ⟨name, value, h, rfl⟩ := (run_assigned_eq_ok accepts).1 ran
    exact .assigned h

theorem run_of_definition {tokens rest : List Token} {d : Patchwork.Definition}
    (h : Grammar.Definition phrase tokens d rest) : ∃ reading,
      nextDefinition? expr tokens = some reading ∧ reading.run tokens = .ok (d, rest) := by
  cases h with
  | @declared t _ _ kind _ _ word h =>
    refine ⟨declared expr kind, ?_, (run_declared_eq_ok accepts).2 ⟨_, _, h, rfl⟩⟩
    obtain ⟨⟨u, named, -, rfl, -⟩, -⟩ := h
    have function : t.kind ≠ .function := by
      intro function
      rw [function] at word
      cases word
    simp [nextDefinition?, function, named, word]
  | assigned h =>
    refine ⟨assigned expr, ?_, (run_assigned_eq_ok accepts).2 ⟨_, _, h, rfl⟩⟩
    obtain ⟨⟨t, named, -, rfl, -⟩, ⟨u, equal, rfl⟩, -⟩ := h
    simp [nextDefinition?, named, equal]
  | function word bound paren h equal h' close =>
    obtain ⟨t, word, rfl⟩ := word
    refine ⟨function expr, ?_, ?_⟩
    · simp [nextDefinition?, word]
    · exact (run_function_eq_ok accepts).2
        ⟨_, _, _, _, _, _, _, _, bound, paren, h, equal, h', close, rfl⟩

theorem run_definitions_eq_ok (solid : Solid phrase) {ahead tokens rest : List Token}
    {ds : List Patchwork.Definition} (enough : tokens.length ≤ ahead.length) :
    (definitions expr ahead).run tokens = .ok (ds, rest) ↔
      Definitions phrase tokens ds rest ∧ nextDefinition? expr rest = none := by
  induction ahead generalizing tokens ds with
  | nil =>
    have none : tokens = [] := by simpa using enough
    subst none
    rw [definitions, run_pure_eq_ok]
    constructor
    · rintro ⟨rfl, rfl⟩
      exact ⟨.none [], rfl⟩
    · rintro ⟨h, -⟩
      cases h with
      | none => exact ⟨rfl, rfl⟩
      | more first _ => exact absurd (length_of_definition solid first) (Nat.not_lt_zero _)
  | cons _ ahead ih =>
    have shorter {d : Patchwork.Definition} {between : List Token}
        (first : Grammar.Definition phrase tokens d between) : between.length ≤ ahead.length := by
      have := length_of_definition solid first
      simp only [List.length_cons] at enough
      omega
    rw [definitions, run_get_bind]
    constructor
    · intro ran
      cases next : nextDefinition? expr tokens with
      | none =>
        simp only [next, run_pure_eq_ok] at ran
        obtain ⟨rfl, rfl⟩ := ran
        exact ⟨.none tokens, next⟩
      | some reading =>
        simp only [next, run_bind_eq_ok, run_pure_eq_ok] at ran
        obtain ⟨d, between, first, others, _, more, rfl, rfl⟩ := ran
        have first := definition_of_run accepts next first
        obtain ⟨more, ended⟩ := (ih (shorter first)).1 more
        exact ⟨.more first more, ended⟩
    · rintro ⟨h, ended⟩
      cases h with
      | none =>
        simp only [ended]
        exact run_pure_eq_ok.2 ⟨rfl, rfl⟩
      | more first more =>
        obtain ⟨reading, next, ran⟩ := run_of_definition accepts first
        simp only [next, run_bind_eq_ok, run_pure_eq_ok]
        exact ⟨_, _, ran, _, _, (ih (shorter first)).2 ⟨more, ended⟩, rfl, rfl⟩

end Definitions

section Goal

variable {expr : Reading Expr} {t : Token} {following rest tokens : List Token}

theorem nextDefinition?_of_kind {kind : Token.Kind} (same : t.kind = kind)
    (function : kind ≠ .function) (declared : DeclaredKind.ofToken? kind = none)
    (assigned : kind = .identifier → ¬Begins .equal following) :
    nextDefinition? expr (t :: following) = none := by
  subst same
  cases following with
  | nil => simp [nextDefinition?, function]
  | cons u following =>
    have assigned : ¬(t.kind = .identifier ∧ u.kind = .equal) := by
      rintro ⟨name, equal⟩
      exact assigned name (begins_cons.2 equal)
    simp [nextDefinition?, function, declared, assigned]

/-- An expression never begins as a definition does: where it begins with a word for a kind, a
parenthesis follows, and where it begins with an identifier, no equals sign does. -/
theorem nextDefinition?_of_atom {atom : Phrase Expr} {e : Expr} (h : Atom atom tokens e rest)
    (plain : ¬Begins .equal rest) : nextDefinition? expr tokens = none := by
  cases h with
  | number kind => exact nextDefinition?_of_kind kind nofun rfl nofun
  | color kind =>
    rcases kind with kind | kind <;> exact nextDefinition?_of_kind kind nofun rfl nofun
  | dye kind | name kind => exact nextDefinition?_of_kind kind nofun rfl fun _ => plain
  | call kind _ paren =>
    exact nextDefinition?_of_kind kind nofun rfl fun _ => not_begins_of_sign paren (by decide)
  | group paren =>
    obtain ⟨t, kind, rfl⟩ := paren
    exact nextDefinition?_of_kind kind nofun rfl nofun
  | rect word paren =>
    obtain ⟨t, kind, rfl⟩ := word
    obtain ⟨u, kind', rfl⟩ := paren
    simp [nextDefinition?, kind, kind']
  | @strip axis _ _ _ _ _ _ word =>
    obtain ⟨t, kind, rfl⟩ := word
    cases axis <;> exact nextDefinition?_of_kind kind nofun rfl nofun
  | overlay word | rot word | rep word =>
    obtain ⟨t, kind, rfl⟩ := word
    exact nextDefinition?_of_kind kind nofun rfl nofun

theorem nextDefinition?_of_chain {op : Operator} {sign : Token.Kind} {operand : Phrase Expr}
    {e : Expr} (other : sign ≠ .equal)
    (ofOperand : ∀ {tokens e rest}, operand tokens e rest → ¬Begins .equal rest →
      nextDefinition? expr tokens = none)
    (h : Chain op sign operand tokens e rest) (plain : ¬Begins .equal rest) :
    nextDefinition? expr tokens = none := by
  induction h with
  | single h => exact ofOperand h plain
  | join _ here _ ih => exact ih (not_begins_of_sign here other)

theorem nextDefinition?_of_expression {levels : Nat} {e : Expr}
    (h : Expression levels tokens e rest) (plain : ¬Begins .equal rest) :
    nextDefinition? expr tokens = none := by
  refine nextDefinition?_of_chain (by decide) ?_ h plain
  refine nextDefinition?_of_chain (by decide) ?_
  intro tokens e rest h plain
  cases levels with
  | zero => exact h.elim
  | succ levels => exact nextDefinition?_of_atom h plain

end Goal

theorem stops_of_ending {kinds : List Token.Kind} {tokens : List Token} (h : Ending tokens)
    (other : .semicolon ∉ kinds) : Stops kinds tokens := by
  rcases h with rfl | h
  · exact fun kind _ => not_begins_nil
  · exact stops_of_sign h other

/-- Behind the goal nothing may be left but a semicolon. -/
theorem run_ending_eq_ok {next : PUnit → Reading B} {tokens rest : List Token} {b : B} :
    (discard (skip? .semicolon) >>= fun _ => finish >>= next).run tokens = .ok (b, rest) ↔
      Ending tokens ∧ (next ⟨⟩).run [] = .ok (b, rest) := by
  have ended {ts : List Token} : (finish >>= next).run ts = .ok (b, rest) ↔
      ts = [] ∧ (next ⟨⟩).run [] = .ok (b, rest) := by
    rw [finish, bind_assoc, run_peek_bind]
    cases ts with
    | nil => simp
    | cons t ts => simp only [List.head?_cons, run_fail_bind_eq_ok, reduceCtorEq, false_and]
  rw [discard_bind, run_skip?_bind_eq_ok]
  simp only [ended, Ending]
  constructor
  · rintro (⟨between, sign, rfl, onward⟩ | ⟨-, rfl, onward⟩)
    · exact ⟨Or.inr sign, onward⟩
    · exact ⟨Or.inl rfl, onward⟩
  · rintro ⟨rfl | sign, onward⟩
    · exact Or.inr ⟨not_begins_nil, rfl, onward⟩
    · exact Or.inl ⟨[], sign, rfl, onward⟩

theorem run_more_bind_eq_ok {next : PUnit → Reading B} {tokens rest : List Token} {b : B} :
    (more >>= next).run tokens = .ok (b, rest) ↔
      tokens ≠ [] ∧ (next ⟨⟩).run tokens = .ok (b, rest) := by
  rw [more, bind_assoc, run_peek_bind]
  cases tokens with
  | nil => simp only [List.head?_nil, run_fail_bind_eq_ok, ne_eq, not_true_eq_false, false_and]
  | cons t tokens => simp

theorem run_program_eq_ok {limit : Nat} {tokens rest : List Token} {p : Program} :
    (program (expression limit)).run tokens = .ok (p, rest) ↔
      Derives limit tokens p ∧ rest = [] := by
  simp only [program, run_get_bind, run_bind_eq_ok (definitions _ _),
    run_bind_eq_ok (expression limit), run_more_bind_eq_ok, run_ending_eq_ok,
    run_pure_eq_ok, accepts_expression limit _ _ _,
    run_definitions_eq_ok (accepts_expression limit) (solid_expression limit) (Nat.le_refl _)]
  constructor
  · rintro ⟨ds, ts₁, ⟨h, -⟩, -, goal, ts₂, ⟨h', -⟩, ending, rfl, rfl⟩
    exact ⟨.intro h h' ending, rfl⟩
  · rintro ⟨⟨h, h', ending⟩, rfl⟩
    have stops : Stops [.equal] _ := stops_of_ending ending (by decide)
    have plain := stops .equal (List.mem_singleton_self _)
    have some := (solid_expression limit).shrinks h'
    refine ⟨_, _, ⟨h, nextDefinition?_of_expression h' plain⟩, ?_, _, _, ?_, ending, rfl, rfl⟩
    · exact List.ne_nil_of_length_pos (Nat.zero_lt_of_lt some)
    · exact ⟨h', stops_of_ending ending (by decide)⟩

end Reading

namespace Program

/-- A list of tokens is read as a program exactly if it derives the program. -/
theorem ofTokens_eq_ok_iff {limit : Nat} {tokens : List Token} {p : Program} :
    ofTokens limit tokens = .ok p ↔ Grammar.Derives limit tokens p := by
  have accepted : (Reading.program (Reading.expression limit)).run tokens = .ok (p, []) ↔
      Grammar.Derives limit tokens p ∧ [] = [] := Reading.run_program_eq_ok
  rw [ofTokens]
  cases ran : (Reading.program (Reading.expression limit)).run tokens with
  | error failure =>
    constructor
    · intro h
      cases h
    · intro h
      have ran' := accepted.2 ⟨h, rfl⟩
      rw [ran] at ran'
      cases ran'
  | ok r =>
    obtain ⟨q, rest⟩ := r
    constructor
    · intro h
      cases h
      exact (Reading.run_program_eq_ok.1 ran).1
    · intro h
      have ran' := accepted.2 ⟨h, rfl⟩
      rw [ran] at ran'
      cases ran'
      rfl

theorem ofText_of_scan {limit : Nat} {text : String} {tokens : List Token}
    (scanned : scan text = .ok tokens) : ofText limit text = ofTokens limit tokens := by
  rw [ofText, scanned]
  rfl

/-- A text that is read has tokens, and they derive what is read. -/
theorem exists_derives_of_ofText {limit : Nat} {text : String} {p : Program}
    (read : ofText limit text = .ok p) :
    ∃ tokens, scan text = .ok tokens ∧ Grammar.Derives limit tokens p := by
  cases scanned : scan text with
  | ok tokens =>
    rw [ofText_of_scan scanned] at read
    exact ⟨tokens, rfl, ofTokens_eq_ok_iff.1 read⟩
  | error fault =>
    rw [ofText, scanned] at read
    cases read

/-- A program that is read stays the same under a larger limit. -/
theorem ofTokens_kept {limit limit' : Nat} (h : limit ≤ limit') {tokens : List Token} {p : Program}
    (read : ofTokens limit tokens = .ok p) : ofTokens limit' tokens = .ok p := by
  rw [← read]
  refine eq_of_cutBy (ofTokens_cutBy h tokens) ?_
  intro fault failed
  rw [read] at failed
  cases failed

theorem derives_unique {levels levels' : Nat} {tokens : List Token} {p q : Program}
    (h : Grammar.Derives levels tokens p) (h' : Grammar.Derives levels' tokens q) : p = q := by
  have read := ofTokens_kept (Nat.le_max_left levels levels') (ofTokens_eq_ok_iff.2 h)
  have read' := ofTokens_kept (Nat.le_max_right levels levels') (ofTokens_eq_ok_iff.2 h')
  rw [read] at read'
  cases read'
  rfl

/-- However deep a text may be nested, it is read as no other program. -/
theorem ofText_unique {limit limit' : Nat} {text : String} {p q : Program}
    (h : ofText limit text = .ok p) (h' : ofText limit' text = .ok q) : p = q := by
  obtain ⟨tokens, scanned, derives⟩ := exists_derives_of_ofText h
  obtain ⟨tokens', scanned', derives'⟩ := exists_derives_of_ofText h'
  cases scanned.symm.trans scanned'
  exact derives_unique derives derives'

section Prefix

end Prefix

end Program

end Patchwork
