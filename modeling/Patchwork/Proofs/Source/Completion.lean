import Patchwork.Proofs.Source.Ending

/-!
# What was read can be completed

A reading that fails has taken some tokens. They are no mistake: something can be put behind them so
that they begin the phrase that was to be read. The grammar is asked for this, not the reading,
since a phrase may end before an operator. Of what follows a phrase, only a parenthesis matters to
it: a name in front of one is a call.
-/

namespace Patchwork

namespace Grammar

variable {A B : Type}

/-- The tokens can be completed to the phrase, whatever follows. -/
def Opens (phrase : Phrase A) (used : List Token) : Prop :=
  ∃ more a, ∀ after, phrase (used ++ (more ++ after)) a after

/-- The phrase can be written down, whatever follows, with a first token of the kind. -/
def Starts (kind? : Option Token.Kind) (phrase : Phrase A) : Prop :=
  ∃ more a, more.head?.map Token.kind = kind? ∧ ∀ after, phrase (more ++ after) a after

/-- The tokens stay the phrase where other tokens are left behind them, if only no parenthesis comes
to stand where there was none. -/
def Stays (phrase : Phrase A) (used : List Token) (a : A) (rest : List Token) : Prop :=
  ∀ rest', (Begins .leftParen rest' → Begins .leftParen rest) → phrase (used ++ rest') a rest'

/-- Whatever is left behind the phrase does not matter. -/
def Steady (phrase : Phrase A) : Prop :=
  ∀ used a rest rest', phrase (used ++ rest) a rest → phrase (used ++ rest') a rest'

/-- One phrase behind another. -/
def Then (first : Phrase A) (second : A → Phrase B) : Phrase B :=
  fun tokens b rest => ∃ a between, first tokens a between ∧ second a between b rest

/-- The phrase behind a sign. -/
def Behind (kind : Token.Kind) (phrase : Phrase A) : Phrase A :=
  fun tokens a rest => ∃ between, Sign kind tokens between ∧ phrase between a rest

/-- The sign with which something ends that was read before. -/
def Closing (kind : Token.Kind) (a : A) : Phrase A :=
  fun tokens b rest => b = a ∧ Sign kind tokens rest

/-- No tokens. -/
def Nothing (a : A) : Phrase A :=
  fun tokens b rest => b = a ∧ tokens = rest

theorem Starts.opens {kind? : Option Token.Kind} {phrase : Phrase A} (h : Starts kind? phrase) :
    Opens phrase [] := by
  obtain ⟨more, a, -, starts⟩ := h
  exact ⟨more, a, starts⟩

theorem opens_of_starts {kind? : Option Token.Kind} {phrase : Phrase A} {used : List Token}
    (starts : Starts kind? phrase) (opens : used ≠ [] → Opens phrase used) : Opens phrase used := by
  by_cases some : used = []
  · rw [some]
    exact starts.opens
  · exact opens some

theorem begins_append_of_ne_nil {kind : Token.Kind} {used rest rest' : List Token} (h : used ≠ [])
    (begins : Begins kind (used ++ rest')) : Begins kind (used ++ rest) := by
  cases used with
  | nil => exact (h rfl).elim
  | cons t used =>
    rw [List.cons_append, begins_cons] at begins ⊢
    exact begins

theorem begins_append_congr {kind : Token.Kind} {rest rest' : List Token} (used : List Token)
    (h : Begins kind rest' → Begins kind rest) (begins : Begins kind (used ++ rest')) :
    Begins kind (used ++ rest) := by
  by_cases some : used = []
  · subst some
    exact h begins
  · exact begins_append_of_ne_nil some begins

theorem not_begins_of_head {kind kind' : Token.Kind} {more after : List Token}
    (head : more.head?.map Token.kind = some kind) (other : kind ≠ kind') :
    ¬Begins kind' (more ++ after) := by
  cases more with
  | nil => cases head
  | cons t more =>
    rw [List.cons_append, begins_cons, Option.some.inj head]
    exact other

/-- Anything that is read as an anchor. -/
def AnchorText : Phrase String := fun tokens text rest =>
  ∃ t : Token, (t.kind = .identifier ∨ t.kind = .string) ∧ tokens = t :: rest ∧ t.content = text

/-- The text of a sign, or of the plainest token of the kind. -/
def sampleText : Token.Kind → String
  | .leftParen => "("
  | .rightParen => ")"
  | .comma => ","
  | .semicolon => ";"
  | .equal => "="
  | .plus => "+"
  | .star => "*"
  | .integer => "0"
  | _ => "x"

def sample (kind : Token.Kind) : Token :=
  ⟨kind, sampleText kind, .start⟩

theorem steady_sign (kind : Token.Kind) :
    Steady (fun ts (_ : PUnit) rest => Sign kind ts rest) := by
  intro used a rest rest' h
  obtain ⟨t, same, split⟩ := h
  obtain rfl : used = [t] := List.append_cancel_right split
  exact ⟨t, same, rfl⟩

theorem steady_nothing (a : A) : Steady (Nothing a) := by
  rintro used _ rest rest' ⟨rfl, same⟩
  rw [List.append_left_eq_self.1 same, List.nil_append]
  exact ⟨rfl, rfl⟩

theorem steady_binder : Steady Binder := by
  intro used name rest rest' h
  obtain ⟨t, kind, plain, split, same⟩ := h
  obtain rfl : used = [t] := List.append_cancel_right split
  exact ⟨t, kind, plain, rfl, same⟩

end Grammar

namespace Reading

open Grammar

variable {A B : Type}

/-- From these tokens on, a success is the phrase whatever follows, and what a failure leaves behind
begins the phrase, unless that is nothing. -/
structure CompletesAt (reading : Reading A) (phrase : Phrase A) (tokens : List Token) : Prop where
  ok : ∀ {a rest}, reading.ends tokens = (.ok a, rest) →
    ∃ used, tokens = used ++ rest ∧ Stays phrase used a rest
  error : ∀ {cause rest}, reading.ends tokens = (.error cause, rest) →
    ∃ used, tokens = used ++ rest ∧ (used ≠ [] → Opens phrase used)

/-- All that the reading takes can be completed to the phrase. The phrase may begin with a token of
the kind. -/
structure Completes (kind? : Option Token.Kind) (reading : Reading A) (phrase : Phrase A) :
    Prop where
  at_tokens : ∀ tokens, CompletesAt reading phrase tokens
  starts : Starts kind? phrase

section Rules

variable {reading : Reading A} {next : A → Reading B} {kind? kind?' : Option Token.Kind}
  {kind : Token.Kind} {phrase : Phrase A} {second : A → Phrase B} {tokens : List Token}

theorem completesAt_of_ok (used : List Token) {rest : List Token} {a : A}
    (ended : reading.ends (used ++ rest) = (.ok a, rest)) (stays : Stays phrase used a rest) :
    CompletesAt reading phrase (used ++ rest) where
  ok e := by
    rw [ended] at e
    cases e
    exact ⟨used, rfl, stays⟩
  error e := by
    rw [ended] at e
    cases e

theorem completesAt_of_failed (used : List Token) {rest : List Token} {cause : SyntaxFault.Cause}
    (ended : reading.ends (used ++ rest) = (.error cause, rest))
    (opens : used ≠ [] → Opens phrase used) : CompletesAt reading phrase (used ++ rest) where
  ok e := by
    rw [ended] at e
    cases e
  error e := by
    rw [ended] at e
    cases e
    exact ⟨used, rfl, opens⟩

/-- A reading that fails at once has taken nothing that would have to be completed. -/
theorem completesAt_of_error {cause : SyntaxFault.Cause}
    (ended : reading.ends tokens = (.error cause, tokens)) : CompletesAt reading phrase tokens :=
  completesAt_of_failed [] ended fun some => (some rfl).elim

theorem CompletesAt.congr {reading' : Reading A} (h : CompletesAt reading phrase tokens)
    (same : reading'.ends tokens = reading.ends tokens) : CompletesAt reading' phrase tokens where
  ok e := h.ok (same.symm.trans e)
  error e := h.error (same.symm.trans e)

theorem completes_pure (a : A) : Completes none (pure a) (Nothing a) where
  at_tokens _ := completesAt_of_ok [] rfl fun _ _ => ⟨rfl, rfl⟩
  starts := ⟨[], a, rfl, fun _ => ⟨rfl, rfl⟩⟩

theorem CompletesAt.map (h : CompletesAt reading phrase tokens) {f : A → B} {target : Phrase B}
    (imp : ∀ {ts a rest}, phrase ts a rest → target ts (f a) rest) :
    CompletesAt (reading >>= fun a => pure (f a)) target tokens := by
  cases ended : reading.ends tokens with
  | mk verdict left =>
    cases verdict with
    | error cause =>
      obtain ⟨used, rfl, opens⟩ := h.error ended
      refine completesAt_of_failed used (ends_bind_of_error ended) fun some => ?_
      obtain ⟨more, a, opens⟩ := opens some
      exact ⟨more, f a, fun after => imp (opens after)⟩
    | ok a =>
      obtain ⟨used, rfl, stays⟩ := h.ok ended
      exact completesAt_of_ok used (ends_bind_of_ok ended)
        fun rest' paren => imp (stays rest' paren)

theorem Completes.map (h : Completes kind? reading phrase) {f : A → B} {target : Phrase B}
    (imp : ∀ {ts a rest}, phrase ts a rest → target ts (f a) rest) :
    Completes kind? (reading >>= fun a => pure (f a)) target where
  at_tokens tokens := (h.at_tokens tokens).map imp
  starts := by
    obtain ⟨more, a, first, starts⟩ := h.starts
    exact ⟨more, f a, first, fun after => imp (starts after)⟩

theorem Completes.imp (h : Completes kind? reading phrase) {target : Phrase A}
    (imp : ∀ {ts a rest}, phrase ts a rest → target ts a rest) :
    Completes kind? reading target := by
  have same : reading >>= (fun a => pure a) = reading := bind_pure reading
  exact same ▸ h.map imp

/-- Where the first phrase was read: what stands behind it may be exchanged for what is to be
completed, if the phrase does not care or no parenthesis is put there. -/
theorem CompletesAt.behind {used between : List Token} {a : A} (stays : Stays phrase used a between)
    {whole behind : Reading B} (same : whole.ends (used ++ between) = behind.ends between)
    {rear target : Phrase B} (h : CompletesAt behind rear between) (starts : Starts kind? rear)
    (free : Steady phrase ∨ ∃ kind, kind? = some kind ∧ kind ≠ .leftParen)
    (imp : ∀ {ts mid b rest}, phrase ts a mid → rear mid b rest → target ts b rest) :
    CompletesAt whole target (used ++ between) where
  ok e := by
    rw [same] at e
    obtain ⟨used', rfl, stays'⟩ := h.ok e
    refine ⟨used ++ used', (List.append_assoc _ _ _).symm, fun rest' paren => ?_⟩
    rw [List.append_assoc]
    exact imp (stays _ (begins_append_congr used' paren)) (stays' rest' paren)
  error e := by
    rw [same] at e
    obtain ⟨used', rfl, opens'⟩ := h.error e
    refine ⟨used ++ used', (List.append_assoc _ _ _).symm, fun _ => ?_⟩
    by_cases some : used' = []
    · subst some
      obtain ⟨more, b, head, starts⟩ := starts
      refine ⟨more, b, fun after => imp ?_ (starts after)⟩
      rw [List.append_nil]
      rcases free with steady | ⟨kind, same, other⟩
      · exact steady _ _ _ _ (stays _ id)
      · exact stays _ fun paren => (not_begins_of_head (head.trans same) other paren).elim
    · obtain ⟨more, b, opens'⟩ := opens' some
      refine ⟨more, b, fun after => imp ?_ (opens' after)⟩
      rw [List.append_assoc]
      exact stays _ (begins_append_of_ne_nil some)

theorem completes_bind_of (first : Completes kind? reading phrase)
    (following : ∀ a, Completes kind?' (next a) (second a))
    (free : Steady phrase ∨ ∃ kind, kind?' = some kind ∧ kind ≠ .leftParen) :
    Completes (kind?.or kind?') (reading >>= next) (Then phrase second) where
  at_tokens tokens := by
    cases ended : reading.ends tokens with
    | mk verdict between =>
      cases verdict with
      | error cause =>
        obtain ⟨used, rfl, opens⟩ := (first.at_tokens tokens).error ended
        refine completesAt_of_failed used (ends_bind_of_error ended) fun some => ?_
        obtain ⟨more, a, opens⟩ := opens some
        obtain ⟨more', b, opens'⟩ := (following a).starts.opens
        refine ⟨more ++ more', b, fun after => ⟨a, more' ++ after, ?_, opens' after⟩⟩
        rw [List.append_assoc]
        exact opens _
      | ok a =>
        obtain ⟨used, rfl, stays⟩ := (first.at_tokens tokens).ok ended
        exact .behind stays (ends_bind_of_ok ended) ((following a).at_tokens between)
          (following a).starts free fun h h' => ⟨a, _, h, h'⟩
  starts := by
    obtain ⟨more, a, head, starts⟩ := first.starts
    obtain ⟨more', b, head', starts'⟩ := (following a).starts
    refine ⟨more ++ more', b, ?_, fun after => ⟨a, more' ++ after, ?_, starts' after⟩⟩
    · rw [List.head?_append, ← head, ← head', Option.map_or]
    · rw [List.append_assoc]
      exact starts _

theorem completes_bind (first : Completes kind? reading phrase) (other : kind ≠ .leftParen)
    (following : ∀ a, Completes (some kind) (next a) (second a)) :
    Completes (kind?.or (some kind)) (reading >>= next) (Then phrase second) :=
  completes_bind_of first following (Or.inr ⟨kind, rfl, other⟩)

theorem completes_expect (kind : Token.Kind) :
    Completes (some kind) (discard (expect kind)) (fun ts _ rest => Sign kind ts rest) where
  at_tokens tokens := by
    rw [discard_eq_bind]
    by_cases begins : Begins kind tokens
    · obtain ⟨rest, t, sign, rfl⟩ := begins
      exact completesAt_of_ok [t] (ends_bind_of_ok (ends_expect_of_kind sign))
        fun rest' _ => ⟨t, sign, rfl⟩
    · exact completesAt_of_error (ends_bind_of_error (ends_expect_of_not_begins begins))
  starts := ⟨[sample kind], ⟨⟩, rfl, fun after => ⟨sample kind, rfl, rfl⟩⟩

theorem completes_expect_bind {next : PUnit → Reading B} {rear : Phrase B}
    (following : Completes kind?' (next ⟨⟩) rear) :
    Completes (some kind) (discard (expect kind) >>= next) (Behind kind rear) :=
  (completes_bind_of (completes_expect kind) (fun _ => following) (Or.inl (steady_sign kind))).imp
    fun ⟨_, between, sign, h⟩ => ⟨between, sign, h⟩

theorem completes_close (kind : Token.Kind) (b : B) :
    Completes (some kind) (do discard (expect kind); return b) (Closing kind b) :=
  (completes_expect kind).map fun close => ⟨rfl, close⟩

/-- What stands behind a token that is taken in any case. -/
theorem CompletesAt.cons {t : Token} {following : List Token} {behind : Reading A}
    (h : Completes kind? behind phrase) {target : Phrase A}
    (same : reading.ends (t :: following) = behind.ends following)
    (imp : ∀ {ts a rest}, phrase ts a rest → target (t :: ts) a rest) :
    CompletesAt reading target (t :: following) where
  ok e := by
    rw [same] at e
    obtain ⟨used, rfl, stays⟩ := (h.at_tokens following).ok e
    exact ⟨t :: used, rfl, fun rest' paren => imp (stays rest' paren)⟩
  error e := by
    rw [same] at e
    obtain ⟨used, rfl, opens⟩ := (h.at_tokens following).error e
    refine ⟨t :: used, rfl, fun _ => ?_⟩
    obtain ⟨more, a, opens⟩ := opens_of_starts h.starts opens
    exact ⟨more, a, fun after => imp (opens after)⟩

/-- A sign that decides how to go on. Where a parenthesis decides, it also has to be missing for
good. -/
theorem completes_skip {next : Bool → Reading A} {taken left target : Phrase A}
    (yes : Completes kind? (next true) taken) (no : Completes kind?' (next false) left)
    (with_sign : ∀ {ts ts' a rest}, Sign kind ts ts' → taken ts' a rest → target ts a rest)
    (without : ∀ {ts a rest}, (kind = .leftParen → ¬Begins .leftParen ts) → left ts a rest →
      target ts a rest) :
    Completes (some kind) (skip? kind >>= next) target where
  at_tokens tokens := by
    by_cases begins : Begins kind tokens
    · obtain ⟨following, t, sign, rfl⟩ := begins
      have same : (skip? kind >>= next).ends (t :: following) = (next true).ends following :=
        ends_bind_of_ok (ends_skip?_of_kind sign)
      exact .cons yes same fun h => with_sign ⟨t, sign, rfl⟩ h
    · have same : (skip? kind >>= next).ends tokens = (next false).ends tokens :=
        ends_bind_of_ok (ends_skip?_of_not_begins begins)
      constructor
      · intro a rest e
        rw [same] at e
        obtain ⟨used, rfl, stays⟩ := (no.at_tokens tokens).ok e
        refine ⟨used, rfl, fun rest' paren => without ?_ (stays rest' paren)⟩
        rintro rfl
        exact mt (begins_append_congr used paren) begins
      · intro cause rest e
        rw [same] at e
        obtain ⟨used, rfl, opens⟩ := (no.at_tokens tokens).error e
        refine ⟨used, rfl, fun some => ?_⟩
        obtain ⟨more, a, opens⟩ := opens some
        refine ⟨more, a, fun after => without ?_ (opens after)⟩
        rintro rfl
        exact mt (begins_append_of_ne_nil some) begins
  starts := by
    obtain ⟨more, a, -, starts⟩ := yes.starts
    exact ⟨sample kind :: more, a, rfl, fun after =>
      with_sign ⟨sample kind, rfl, rfl⟩ (starts after)⟩

theorem completes_binder : Completes (some .identifier) binder Binder where
  at_tokens tokens := by
    by_cases named : Begins .identifier tokens
    · obtain ⟨following, t, kind, rfl⟩ := named
      by_cases dye : isDyeName t.text
      · exact completesAt_of_error (ends_binder_of_dye kind dye)
      · exact completesAt_of_ok [t] (ends_binder_of_plain kind dye)
          fun rest' _ => ⟨t, kind, dye, rfl, rfl⟩
    · exact completesAt_of_error (ends_binder_of_not_begins named)
  starts := by
    have plain : ¬isDyeName (sample .identifier).text := by decide
    exact ⟨[sample .identifier], "x", rfl, fun after => ⟨sample .identifier, rfl, plain, rfl, rfl⟩⟩

end Rules

section Lists

/-- Phrases one behind another, perhaps none. -/
inductive Many (phrase : Phrase A) : Phrase (List A)
  | none (tokens : List Token) : Many phrase tokens [] tokens
  | more {ts₀ ts₁ rest : List Token} {a : A} {as : List A} :
      phrase ts₀ a ts₁ → Many phrase ts₁ as rest → Many phrase ts₀ (a :: as) rest

/-- A phrase and further ones, with separators between them. -/
def Joined (separator : Token.Kind) (phrase : Phrase A) : Phrase (A × List A) :=
  fun tokens r rest =>
    ∃ between, phrase tokens r.1 between ∧ Further separator phrase between r.2 rest

/-- The phrase or no tokens. -/
def Perhaps (phrase : Phrase A) : Phrase (Option A) := fun tokens a? rest =>
  match a? with
  | some a => phrase tokens a rest
  | none => tokens = rest

variable {phrase : Phrase A} {kind : Token.Kind}

theorem opens_of_perhaps {used : List Token} (h : Opens (Perhaps phrase) used) (some : used ≠ []) :
    Opens phrase used := by
  obtain ⟨more, a?, opens⟩ := h
  cases a? with
  | none =>
    have same : used ++ (more ++ []) = [] := opens []
    exact (some (List.append_eq_nil_iff.1 same).1).elim
  | some a => exact ⟨more, a, opens⟩

theorem starts_many {kind? : Option Token.Kind} (h : Starts kind? phrase) :
    Starts kind? (Many phrase) := by
  obtain ⟨more, a, head, starts⟩ := h
  exact ⟨more, [a], head, fun after => .more (starts after) (.none after)⟩

/-- The rounds are completed in the last of them. -/
theorem completes_rounds {step : Reading (Option A)}
    (h : ∀ tokens, CompletesAt step (Perhaps phrase) tokens) (starts : Starts (some kind) phrase)
    (other : kind ≠ .leftParen) (ahead : List Token) :
    Completes (some kind) (rounds step ahead) (Many phrase) where
  at_tokens tokens := by
    induction ahead generalizing tokens with
    | nil => exact completesAt_of_ok [] rfl fun rest' _ => .none rest'
    | cons t ahead ih =>
      cases stepped : step.ends tokens with
      | mk verdict between =>
        match verdict with
        | .error cause =>
          obtain ⟨used, rfl, opens⟩ := (h tokens).error stepped
          refine completesAt_of_failed used (ends_bind_of_error stepped) fun some => ?_
          obtain ⟨more, a, opens⟩ := opens_of_perhaps (opens some) some
          exact ⟨more, [a], fun after => .more (opens after) (.none after)⟩
        | .ok none =>
          obtain ⟨used, rfl, stays⟩ := (h tokens).ok stepped
          have nothing : used ++ between = between := stays between id
          obtain rfl : used = [] := List.append_left_eq_self.1 nothing
          exact completesAt_of_ok [] (ends_bind_of_ok stepped) fun rest' _ => .none rest'
        | .ok (some a) =>
          obtain ⟨used, rfl, stays⟩ := (h tokens).ok stepped
          have stays : Stays phrase used a between := stays
          have others : CompletesAt (rounds step ahead >>= fun as => pure (a :: as))
              (fun ts as rest => ∃ others, as = a :: others ∧ Many phrase ts others rest) between :=
            (ih between).map fun h => ⟨_, rfl, h⟩
          have starts_others : Starts (some kind)
              (fun ts as rest => ∃ others, as = a :: others ∧ Many phrase ts others rest) := by
            obtain ⟨more, as, head, starts⟩ := starts_many starts
            exact ⟨more, a :: as, head, fun after => ⟨as, rfl, starts after⟩⟩
          refine .behind stays (ends_bind_of_ok stepped) others starts_others
            (Or.inr ⟨kind, rfl, other⟩) ?_
          rintro ts mid as rest first ⟨others, rfl, h⟩
          exact .more first h
  starts := starts_many starts

theorem completes_get_bind {kind? : Option Token.Kind} {next : List Token → Reading A}
    (h : ∀ ahead, Completes kind? (next ahead) phrase) : Completes kind? (get >>= next) phrase where
  at_tokens tokens := ⟨((h tokens).at_tokens tokens).ok, ((h tokens).at_tokens tokens).error⟩
  starts := (h []).starts

variable {item : Reading A} {separator : Token.Kind}

theorem further_of_many {tokens rest : List Token} {as : List A}
    (h : Many (Behind separator phrase) tokens as rest) :
    Further separator phrase tokens as rest := by
  induction h with
  | none tokens => exact .none tokens
  | more first _ ih =>
    obtain ⟨_, sign, item⟩ := first
    exact .more sign item ih

theorem completes_another? (h : Completes (some kind) item phrase) :
    Completes (some separator) (another? separator item) (Perhaps (Behind separator phrase)) := by
  have item : Completes (some kind) (item >>= fun a => pure (some a)) (fun ts a? rest =>
      ∃ a, a? = some a ∧ phrase ts a rest) := h.map fun h => ⟨_, rfl, h⟩
  refine completes_skip item (completes_pure none) ?_ ?_
  · rintro ts ts' _ rest sign ⟨a, rfl, h⟩
    exact ⟨ts', sign, h⟩
  · rintro ts _ rest - ⟨rfl, rfl⟩
    rfl

theorem completes_separated (h : Completes (some kind) item phrase)
    (other : separator ≠ .leftParen) :
    Completes (some kind) (separated separator item) (Joined separator phrase) := by
  have starts : Starts (some separator) (Behind separator phrase) := by
    obtain ⟨more, a, -, starts⟩ := h.starts
    exact ⟨sample separator :: more, a, rfl, fun after =>
      ⟨_, ⟨sample separator, rfl, rfl⟩, starts after⟩⟩
  have others : Completes (some separator) (get >>= further separator item)
      (Further separator phrase) := by
    rw [further_eq_rounds]
    exact completes_get_bind fun ahead =>
      (completes_rounds (completes_another? h).at_tokens starts other ahead).imp further_of_many
  rw [separated_eq]
  have both (a : A) : Completes (some separator)
      ((get >>= further separator item) >>= fun as => pure (a, as))
      (fun ts r rest => r.1 = a ∧ Further separator phrase ts r.2 rest) :=
    others.map fun h => ⟨rfl, h⟩
  refine (completes_bind h other both).imp ?_
  rintro ts r rest ⟨a, between, first, rfl, others⟩
  exact ⟨between, first, others⟩

/-- Operands joined by an operator. -/
theorem completes_chain {item : Reading Expr} {operand : Phrase Expr} {sign : Token.Kind}
    (h : Completes (some kind) item operand) (op : Operator) (other : sign ≠ .leftParen) :
    Completes (some kind) (do
      let (first, others) ← separated sign item
      return others.foldl (Expr.arithmetic op) first) (Chain op sign operand) := by
  refine (completes_separated h other).map (f := fun r => r.2.foldl (Expr.arithmetic op) r.1) ?_
  rintro ts r rest ⟨between, first, others⟩
  exact chain_of_further others (.single first)

end Lists

end Reading

end Patchwork
