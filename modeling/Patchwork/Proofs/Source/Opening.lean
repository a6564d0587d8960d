import Patchwork.Proofs.Source.Completion

/-!
# Beginnings of programs

The readings of expressions, definitions and programs, one after another: what each takes can be
completed to its phrase. An atom may have to be completed one level deeper than it was read. So what
was read of a text that is no program is the beginning of one.
-/

namespace Patchwork

namespace Reading

open Grammar

section Atom

variable {atom : Reading Expr} {phrase : Phrase Expr}
  (h : Completes (some .integer) atom phrase)

include h

theorem completes_product : Completes (some .integer) (product atom) (Product phrase) :=
  completes_chain h .times (by decide)

theorem completes_sum : Completes (some .integer) (sum atom) (Sum phrase) :=
  completes_chain (completes_product h) .plus (by decide)

theorem completes_items : Completes (some .integer) (items atom) (Items phrase) := by
  have other : Token.Kind.comma ≠ .leftParen := by decide
  refine (completes_separated (completes_sum h) other).map (f := fun r => r.1 :: r.2) ?_
  rintro ts r rest ⟨between, first, others⟩
  exact .intro first others

theorem completes_arguments :
    Completes (some .rightParen) (arguments atom) (Arguments phrase) := by
  have some_items : Completes (some .integer) (do
      let es ← items atom
      discard (expect .rightParen)
      return es) (Then (Items phrase) fun es => Closing .rightParen es) :=
    completes_bind (completes_items h) (by decide) fun es => completes_close .rightParen es
  refine completes_skip (completes_pure []) some_items ?_ ?_
  · rintro ts ts' _ rest close ⟨rfl, rfl⟩
    exact .none close
  · rintro ts _ rest - ⟨es, between, items, rfl, close⟩
    exact .some items close

/-- The second operand after an atom, of whatever the first one is. -/
theorem completes_pair (a : Expr) : Completes (some .integer) (do return (a, ← atom))
    (fun ts r rest => r.1 = a ∧ phrase ts r.2 rest) :=
  h.map fun h => ⟨rfl, h⟩

theorem completes_operands : Completes (some .leftParen) (operands atom) (Operands phrase) := by
  have called (a : Expr) : Completes (some .integer) (do
      let b ← sum atom
      discard (expect .rightParen)
      return (a, b)) (Then (Sum phrase) fun b => Closing .rightParen (a, b)) :=
    completes_bind (completes_sum h) (by decide) fun b => completes_close .rightParen (a, b)
  have grouped (a : Expr) : Completes (some .rightParen) (do
      discard (expect .rightParen)
      return (a, ← atom))
      (Behind .rightParen fun ts r rest => r.1 = a ∧ phrase ts r.2 rest) :=
    completes_expect_bind (completes_pair h a)
  have in_parens : Completes (some .integer) (do
      let a ← sum atom
      if ← skip? .comma then
        let b ← sum atom
        discard (expect .rightParen)
        return (a, b)
      else
        discard (expect .rightParen)
        return (a, ← atom))
      (Then (Sum phrase) fun a ts r rest =>
        Behind .comma (Then (Sum phrase) fun b => Closing .rightParen (a, b)) ts r rest ∨
          Behind .rightParen (fun ts r rest => r.1 = a ∧ phrase ts r.2 rest) ts r rest) :=
    completes_bind (completes_sum h) (by decide) fun a =>
      completes_skip (called a) (grouped a) (fun comma h => Or.inl ⟨_, comma, h⟩)
        fun _ h => Or.inr h
  have adjacent : Completes (some .integer) (do
      let a ← atom
      return (a, ← atom))
      (Then phrase fun a ts r rest => r.1 = a ∧ phrase ts r.2 rest) :=
    completes_bind h (by decide) (completes_pair h)
  refine completes_skip in_parens adjacent ?_ ?_
  · rintro ts ts' r rest paren ⟨a, ts₂, first, ⟨ts₃, comma, b, ts₄, second, rfl, close⟩ |
      ⟨ts₃, close, rfl, second⟩⟩
    · exact .call paren first comma second close
    · exact .grouped paren first close second
  · rintro ts r rest bare ⟨a, ts₁, first, rfl, second⟩
    exact .adjacent (bare rfl) first second

omit h in
theorem starts_atom : Starts (some .integer) (Atom phrase) :=
  ⟨[sample .integer], .number 0, rfl, fun _ => .number rfl rfl (by decide)⟩

section Behind

/-!
What an atom takes behind its first token.
-/

variable {t : Token} {following : List Token}

theorem completesAt_group (kind : t.kind = .leftParen) :
    CompletesAt (group atom) (Atom phrase) (t :: following) := by
  have behind : Completes (some .integer) (do
      let e ← sum atom
      discard (expect .rightParen)
      return e) (Then (Sum phrase) fun e => Closing .rightParen e) :=
    completes_bind (completes_sum h) (by decide) fun e => completes_close .rightParen e
  refine .cons behind rfl ?_
  rintro ts _ rest ⟨e, between, inner, rfl, close⟩
  exact .group (sign_cons.2 ⟨kind, rfl⟩) inner close

theorem completesAt_rect (kind : t.kind = .rect) :
    CompletesAt (rect atom) (Atom phrase) (t :: following) := by
  have behind : Completes (some .leftParen) (do
      discard (expect .leftParen)
      let width ← sum atom
      discard (expect .comma)
      let height ← sum atom
      discard (expect .comma)
      let color ← sum atom
      discard (expect .rightParen)
      return Expr.rect width height color)
      (Behind .leftParen <| Then (Sum phrase) fun width =>
        Behind .comma <| Then (Sum phrase) fun height =>
        Behind .comma <| Then (Sum phrase) fun color =>
        Closing .rightParen (.rect width height color)) :=
    completes_expect_bind <| completes_bind (completes_sum h) (by decide) fun _ =>
      completes_expect_bind <| completes_bind (completes_sum h) (by decide) fun _ =>
      completes_expect_bind <| completes_bind (completes_sum h) (by decide) fun _ =>
      completes_close .rightParen _
  refine .cons behind rfl ?_
  rintro ts _ rest ⟨ts₂, paren, width, ts₃, h₁, ts₄, comma₁, height, ts₅, h₂, ts₆, comma₂, color,
    ts₇, h₃, rfl, close⟩
  exact .rect (sign_cons.2 ⟨kind, rfl⟩) paren h₁ comma₁ h₂ comma₂ h₃ close

theorem completesAt_strip {axis : Axis} (kind : t.kind = stripWord axis) :
    CompletesAt (strip atom axis) (Atom phrase) (t :: following) := by
  have behind : Completes (some .leftParen) (do
      discard (expect .leftParen)
      let es ← items atom
      discard (expect .rightParen)
      return Expr.strip axis es)
      (Behind .leftParen <| Then (Items phrase) fun es => Closing .rightParen (.strip axis es)) :=
    completes_expect_bind <| completes_bind (completes_items h) (by decide) fun _ =>
      completes_close .rightParen _
  refine .cons behind rfl ?_
  rintro ts _ rest ⟨ts₂, paren, es, ts₃, inner, rfl, close⟩
  exact .strip (sign_cons.2 ⟨kind, rfl⟩) paren inner close

omit h in
theorem completes_anchor : Completes (some .identifier) anchor AnchorText where
  at_tokens tokens := by
    cases tokens with
    | nil => exact completesAt_of_error rfl
    | cons u following =>
      by_cases word : u.kind = .identifier ∨ u.kind = .string
      · have ran : anchor.run (u :: following) = .ok (u.content, following) :=
          run_anchor_eq_ok.2 ⟨u, word, rfl, rfl⟩
        exact completesAt_of_ok [u] (ends_of_ok ran) fun rest' _ => ⟨u, word, rfl, rfl⟩
      · have ran : anchor.run (u :: following) = .error ⟨.noAnchor, u :: following⟩ := by
          rw [anchor, run_peek_bind]
          simp only [List.head?_cons, word, Bool.or_eq_true, decide_eq_true_eq, if_false]
          rfl
        exact completesAt_of_error (ends_of_error ran)
  starts := ⟨[sample .identifier], "x", rfl, fun after =>
    ⟨sample .identifier, Or.inl rfl, rfl, rfl⟩⟩

theorem completesAt_overlay (kind : t.kind = .overlay) :
    CompletesAt (overlay atom) (Atom phrase) (t :: following) := by
  have behind : Completes (some .leftParen) (do
      discard (expect .leftParen)
      let a ← anchor
      discard (expect .comma)
      let es ← items atom
      discard (expect .rightParen)
      return Expr.overlay a es)
      (Behind .leftParen <| Then AnchorText fun a => Behind .comma <| Then (Items phrase) fun es =>
        Closing .rightParen (.overlay a es)) :=
    completes_expect_bind <| completes_bind completes_anchor (by decide) fun _ =>
      completes_expect_bind <| completes_bind (completes_items h) (by decide) fun _ =>
      completes_close .rightParen _
  refine .cons behind rfl ?_
  rintro ts _ rest ⟨ts₂, paren, _, ts₃, ⟨u, word, rfl, rfl⟩, ts₄, comma, es, ts₅, inner, rfl, close⟩
  exact .overlay (sign_cons.2 ⟨kind, rfl⟩) paren word comma inner close

theorem completesAt_rot (kind : t.kind = .rot) :
    CompletesAt (rot atom) (Atom phrase) (t :: following) := by
  have behind : Completes (some .leftParen)
      (operands atom >>= fun r => pure (Expr.rot (asAngle r.1) r.2))
      (fun ts e rest => ∃ r, e = .rot (asAngle r.1) r.2 ∧ Operands phrase ts r rest) :=
    (completes_operands h).map fun h => ⟨_, rfl, h⟩
  refine .cons behind rfl ?_
  rintro ts _ rest ⟨r, rfl, inner⟩
  exact .rot (sign_cons.2 ⟨kind, rfl⟩) inner

theorem completesAt_rep (kind : t.kind = .rep) :
    CompletesAt (rep atom) (Atom phrase) (t :: following) := by
  have behind : Completes (some .leftParen)
      (operands atom >>= fun r => pure (Expr.rep r.1 r.2))
      (fun ts e rest => ∃ r, e = .rep r.1 r.2 ∧ Operands phrase ts r rest) :=
    (completes_operands h).map fun h => ⟨_, rfl, h⟩
  refine .cons behind rfl ?_
  rintro ts _ rest ⟨r, rfl, inner⟩
  exact .rep (sign_cons.2 ⟨kind, rfl⟩) inner

/-- A name that nothing is put behind stays a name. -/
theorem completesAt_identifier (kind : t.kind = .identifier) :
    CompletesAt (identifier atom t) (Atom phrase) (t :: following) := by
  by_cases dye : isDyeName t.text
  · have ran : (identifier atom t).ends (t :: following) = (.ok (.color t.text), following) := by
      rw [identifier, if_pos dye]
      rfl
    exact completesAt_of_ok [t] ran fun rest' _ => .dye kind dye
  · have behind (ts : List Token) : (identifier atom t).ends (t :: ts) = (do
        if ← skip? .leftParen then return Expr.call t.text (← arguments atom)
        else return Expr.name t.text : Reading Expr).ends ts := by
      rw [identifier, if_neg dye]
      rfl
    by_cases paren : Begins .leftParen following
    · obtain ⟨following, u, sign, rfl⟩ := paren
      have call : Completes (some .leftParen) (do
          discard (expect .leftParen)
          return Expr.call t.text (← arguments atom))
          (Behind .leftParen fun ts e rest =>
            ∃ es, e = .call t.text es ∧ Arguments phrase ts es rest) :=
        completes_expect_bind ((completes_arguments h).map fun h => ⟨_, rfl, h⟩)
      refine .cons call ?_ ?_
      · rw [behind, ends_bind_of_ok (ends_skip?_of_kind sign), discard_bind,
          ends_bind_of_ok (ends_expect_of_kind sign)]
        rfl
      · rintro ts _ rest ⟨between, paren, es, rfl, arguments⟩
        exact .call kind dye paren arguments
    · have ran : (identifier atom t).ends (t :: following) = (.ok (.name t.text), following) := by
        rw [behind, ends_bind_of_ok (ends_skip?_of_not_begins paren)]
        rfl
      exact completesAt_of_ok [t] ran fun rest' bare => .name kind dye (mt bare paren)

omit h in
theorem completesAt_integer (kind : t.kind = .integer) :
    CompletesAt (integer t) (Atom phrase) (t :: following) := by
  rw [integer]
  split
  · next small => exact completesAt_of_ok [t] rfl fun rest' _ => .number kind rfl small
  · exact completesAt_of_error rfl

end Behind

theorem completes_atomWith : Completes (some .integer) (atomWith atom) (Atom phrase) where
  at_tokens tokens := by
    cases tokens with
    | nil => exact completesAt_of_error rfl
    | cons t following =>
      obtain ⟨kind, text, place⟩ := t
      cases kind with
      | integer => exact (completesAt_integer rfl).congr rfl
      | string => exact completesAt_of_ok [_] rfl fun rest' _ => .color (Or.inl rfl)
      | hex => exact completesAt_of_ok [_] rfl fun rest' _ => .color (Or.inr rfl)
      | identifier => exact (completesAt_identifier h rfl).congr rfl
      | leftParen => exact (completesAt_group h rfl).congr rfl
      | rect => exact (completesAt_rect h rfl).congr rfl
      | hor => exact (completesAt_strip h rfl).congr rfl
      | vert => exact (completesAt_strip h rfl).congr rfl
      | overlay => exact (completesAt_overlay h rfl).congr rfl
      | rot => exact (completesAt_rot h rfl).congr rfl
      | rep => exact (completesAt_rep h rfl).congr rfl
      | _ => exact completesAt_of_error rfl
  starts := starts_atom

end Atom

/-- What was read of an atom can be completed, if need be one level deeper. -/
theorem completes_atomWithin (limit levels : Nat) :
    Completes (some .integer) (atomWithin limit levels) (AtomWithin (levels + 1)) := by
  induction levels with
  | zero => exact ⟨fun _ => completesAt_of_error rfl, starts_atom⟩
  | succ levels ih => exact completes_atomWith ih

theorem completes_expression (limit : Nat) :
    Completes (some .integer) (expression limit) (Expression (limit + 1)) :=
  completes_sum (completes_atomWithin limit limit)

theorem completes_parameters : Completes (some .rightParen) parameters Parameters := by
  have some_names : Completes (some .identifier) (do
      let r ← separated .comma binder
      discard (expect .rightParen)
      return r.1 :: r.2) (Then (Joined .comma Binder) fun r =>
        Closing .rightParen (r.1 :: r.2)) :=
    completes_bind (completes_separated completes_binder (by decide)) (by decide) fun r =>
      completes_close .rightParen (r.1 :: r.2)
  refine completes_skip (completes_pure []) some_names ?_ ?_
  · rintro ts ts' _ rest close ⟨rfl, rfl⟩
    exact .none close
  · rintro ts _ rest - ⟨r, between, ⟨ts₁, first, others⟩, rfl, close⟩
    exact .some (.intro first others) close

section Definitions

variable {expr : Reading Expr} {phrase : Phrase Expr}
  (h : Completes (some .integer) expr phrase)

include h

theorem completes_binding : Completes (some .identifier) (binding expr) (Binding phrase) := by
  have whole : Completes (some .identifier) (binding expr)
      (Then Binder fun name => Behind .equal <| Then phrase fun value =>
        Closing .semicolon (name, value)) :=
    completes_bind completes_binder (by decide) fun _ => completes_expect_bind <|
      completes_bind h (by decide) fun _ => completes_close .semicolon _
  refine whole.imp ?_
  rintro ts _ rest ⟨name, ts₁, bound, ts₂, equal, value, ts₃, inner, rfl, close⟩
  exact .intro bound equal inner close

theorem completes_assigned :
    Completes (some .identifier) (assigned expr) (Grammar.Definition phrase) := by
  refine (completes_binding h).map (f := fun r => Definition.assigned r.1 r.2) ?_
  exact fun bound => Grammar.Definition.assigned bound

section Behind

variable {t : Token} {following : List Token}

theorem completesAt_declared {kind : DeclaredKind}
    (word : DeclaredKind.ofToken? t.kind = some kind) :
    CompletesAt (declared expr kind) (Grammar.Definition phrase) (t :: following) := by
  have behind : Completes (some .identifier)
      (binding expr >>= fun r => pure (Definition.declared kind r.1 r.2))
      (fun ts d rest => ∃ r, d = .declared kind r.1 r.2 ∧ Binding phrase ts r rest) :=
    (completes_binding h).map fun h => ⟨_, rfl, h⟩
  refine .cons behind rfl ?_
  rintro ts _ rest ⟨r, rfl, bound⟩
  exact .declared word bound

theorem completesAt_function (kind : t.kind = .function) :
    CompletesAt (function expr) (Grammar.Definition phrase) (t :: following) := by
  have behind : Completes (some .identifier) (do
      let name ← binder
      discard (expect .leftParen)
      let xs ← parameters
      discard (expect .equal)
      let body ← expr
      discard (expect .semicolon)
      return Definition.function name xs body)
      (Then Binder fun name => Behind .leftParen <| Then Parameters fun xs => Behind .equal <|
        Then phrase fun body => Closing .semicolon (.function name xs body)) :=
    completes_bind_of completes_binder (fun _ => completes_expect_bind <|
      completes_bind completes_parameters (by decide) fun _ => completes_expect_bind <|
      completes_bind h (by decide) fun _ => completes_close .semicolon _) (Or.inl steady_binder)
  refine .cons behind rfl ?_
  rintro ts _ rest ⟨name, ts₁, bound, ts₂, paren, xs, ts₃, listed, ts₄, equal, body, ts₅, inner,
    rfl, close⟩
  exact .function (sign_cons.2 ⟨kind, rfl⟩) bound paren listed equal inner close

end Behind

theorem completesAt_nextDefinition {tokens : List Token} {reading : Reading Definition}
    (next : nextDefinition? expr tokens = some reading) :
    CompletesAt reading (Grammar.Definition phrase) tokens := by
  obtain ⟨t, following, rfl, ⟨function, rfl⟩ | ⟨kind, word, rfl⟩ | rfl⟩ :=
    nextDefinition?_cases next
  · exact completesAt_function h function
  · exact completesAt_declared h word
  · exact (completes_assigned h).at_tokens _

theorem completesAt_definition? (tokens : List Token) :
    CompletesAt (definition? expr) (Perhaps (Grammar.Definition phrase)) tokens := by
  cases next : nextDefinition? expr tokens with
  | none =>
    have same : (definition? expr).ends tokens = (.ok none, tokens) := by
      rw [definition?, ends_get_bind, next]
      rfl
    exact completesAt_of_ok [] same fun rest' _ => rfl
  | some definition =>
    have same : (definition? expr).ends tokens =
        (definition >>= fun d => pure (some d)).ends tokens := by
      rw [definition?, ends_get_bind, next]
    exact ((completesAt_nextDefinition h next).map (f := some) fun h => h).congr same

omit h in
theorem definitions_of_many {tokens rest : List Token} {ds : List Patchwork.Definition}
    (h : Many (Grammar.Definition phrase) tokens ds rest) : Definitions phrase tokens ds rest := by
  induction h with
  | none tokens => exact .none tokens
  | more first _ ih => exact .more first ih

theorem completes_definitions :
    Completes (some .identifier) (get >>= definitions expr) (Definitions phrase) := by
  rw [definitions_eq_rounds]
  exact completes_get_bind fun ahead => (completes_rounds (completesAt_definition? h)
    (completes_assigned h).starts (by decide) ahead).imp definitions_of_many

omit h in
theorem completes_more : Completes none more (Nothing ()) where
  at_tokens tokens := by
    cases tokens with
    | nil => exact completesAt_of_error rfl
    | cons t following => exact completesAt_of_ok [] rfl fun rest' _ => ⟨rfl, rfl⟩
  starts := (completes_pure ()).starts

/-- The definitions and the goal. -/
def front (expr : Reading Expr) : Reading (List Definition × Expr) := do
  let ds ← get >>= definitions expr
  more
  let goal ← expr
  return (ds, goal)

theorem completes_front : Completes (some .identifier) (front expr) (fun ts r rest =>
    ∃ between, Definitions phrase ts r.1 between ∧ phrase between r.2 rest) := by
  have goal (ds : List Definition) : Completes (some .integer) (do
      more
      let goal ← expr
      return (ds, goal)) (fun ts r rest => r.1 = ds ∧ phrase ts r.2 rest) := by
    have pair : Completes (some .integer) (expr >>= fun goal => pure (ds, goal))
        (fun ts r rest => r.1 = ds ∧ phrase ts r.2 rest) := h.map fun h => ⟨rfl, h⟩
    refine (completes_bind_of completes_more (fun _ => pair) (Or.inl (steady_nothing _))).imp ?_
    rintro ts r rest ⟨_, _, ⟨rfl, rfl⟩, goal⟩
    exact goal
  refine (completes_bind (completes_definitions h) (by decide) goal).imp ?_
  rintro ts r rest ⟨ds, between, bound, rfl, goal⟩
  exact ⟨between, bound, goal⟩

end Definitions

/-- What is taken behind the goal is an end of the program, though other tokens follow. -/
theorem ending_of_failure {p : Program} {tokens rest : List Token} {cause : SyntaxFault.Cause}
    (failed : (do discard (skip? .semicolon); finish; return p : Reading Program).ends tokens =
      (.error cause, rest)) : ∃ used, tokens = used ++ rest ∧ Ending used := by
  rw [discard_bind] at failed
  by_cases sign : Begins .semicolon tokens
  · obtain ⟨following, s, sign, rfl⟩ := sign
    rw [ends_bind_of_ok (ends_skip?_of_kind sign)] at failed
    cases following with
    | nil => cases failed
    | cons t following =>
      cases failed
      exact ⟨[s], rfl, Or.inr ⟨s, sign, rfl⟩⟩
  · rw [ends_bind_of_ok (ends_skip?_of_not_begins sign)] at failed
    cases tokens with
    | nil => cases failed
    | cons t following =>
      cases failed
      exact ⟨[], rfl, Or.inl rfl⟩

/-- What was read of a program that fails to be one is the beginning of a program. -/
theorem derives_of_failure {limit : Nat} {tokens rest : List Token} {cause : SyntaxFault.Cause}
    (failed : (program (expression limit)).ends tokens = (.error cause, rest)) :
    ∃ used, tokens = used ++ rest ∧ ∃ more p, Derives (limit + 1) (used ++ more) p := by
  have completes := completes_front (completes_expression limit)
  have same : program (expression limit) = front (expression limit) >>= fun r => do
      discard (skip? .semicolon)
      finish
      return ⟨r.1, r.2⟩ := by
    simp only [program, front, bind_assoc, pure_bind]
  rw [same] at failed
  cases ended : (front (expression limit)).ends tokens with
  | mk verdict between =>
    cases verdict with
    | error cause' =>
      rw [ends_bind_of_error ended] at failed
      cases failed
      obtain ⟨used, rfl, opens⟩ := (completes.at_tokens tokens).error ended
      obtain ⟨more, r, opens⟩ := opens_of_starts completes.starts opens
      obtain ⟨between, bound, goal⟩ := opens []
      rw [List.append_nil] at bound
      exact ⟨used, rfl, more, ⟨r.1, r.2⟩, .intro bound goal (Or.inl rfl)⟩
    | ok r =>
      rw [ends_bind_of_ok ended] at failed
      obtain ⟨used, rfl, stays⟩ := (completes.at_tokens tokens).ok ended
      obtain ⟨used', rfl, ending⟩ := ending_of_failure failed
      have bare : Stops [.leftParen] used' := stops_of_ending ending (by decide)
      obtain ⟨between, bound, goal⟩ :=
        stays used' fun paren => (bare _ (List.mem_singleton_self _) paren).elim
      refine ⟨used ++ used', (List.append_assoc _ _ _).symm, [], ⟨r.1, r.2⟩, ?_⟩
      rw [List.append_nil]
      exact .intro bound goal ending

end Reading

end Patchwork
