import Patchwork.Proofs.Source.Pinned

/-!
# Reading what was spelled

The text of a spellable program is read back as that program exactly if the limit is no less than
the nesting of the text.
-/

namespace Patchwork

namespace Grammar

open Lexeme (word grouped listed)

/-- What the lexemes are read as, with the levels that they need, wherever neither a call nor an
operator goes on with them. -/
def Reads (lexemes : List Lexeme) (levels : Nat) (e : Expr) : Prop :=
  ∀ ⦃limit : Nat⦄ ⦃tokens rest : List Token⦄, Ahead lexemes tokens rest →
    Stops [.leftParen, .plus, .star] rest →
    Pins (levels ≤ limit) (Stopping [.plus, .star] (Sum (AtomWithin limit))) tokens e rest

section Operands

variable {ls : List Lexeme} {n limit : Nat} {e : Expr} {tokens rest : List Token}

/-- One level is left less inside an atom. -/
theorem pins_atomWithin
    (h : ∀ limit, Pins (n ≤ limit) (Atom (AtomWithin limit)) tokens e rest) :
    Pins (n + 1 ≤ limit) (AtomWithin limit) tokens e rest := by
  intro e' rest'
  cases limit with
  | zero => simp [AtomWithin]
  | succ limit => simpa [AtomWithin] using h limit e' rest'

theorem reads_atom (h : ∀ {limit : Nat} {tokens rest : List Token}, Ahead ls tokens rest →
      ¬Begins .leftParen rest → Pins (n ≤ limit) (Atom (AtomWithin limit)) tokens e rest) :
    Reads ls (n + 1) e := by
  intro limit tokens rest ahead stops
  obtain ⟨bare, stops⟩ := stops_cons.1 stops
  exact pins_sum (pins_atomWithin fun _ => h ahead bare) stops

theorem pins_operand (h : Reads ls n e) (ahead : Ahead (grouped ls) tokens rest) :
    Pins (n + 1 ≤ limit) (AtomWithin limit) tokens e rest := by
  obtain ⟨ts₁, ts₂, ⟨t, kind, rfl⟩, inner, close⟩ := grouped_ahead ahead
  refine pins_atomWithin ?_
  intro limit
  exact pins_group kind (h inner (stops_of_sign close (by decide))) close

theorem operands_eq_map (es : List Expr) :
    Expr.operands es = es.map fun e => grouped e.spelling := by
  induction es with
  | nil => rfl
  | cons e es ih => rw [Expr.operands, ih, List.map_cons]

theorem inner_le_iff {es : List Expr} {n : Nat} :
    Expr.inner es ≤ n ↔ ∀ e ∈ es, e.nesting + 1 ≤ n := by
  induction es with
  | nil => simp [Expr.inner]
  | cons e es ih => rw [Expr.inner, Nat.max_le, ih, List.forall_mem_cons]

theorem listed_operands_cons (e : Expr) (es : List Expr) :
    ∃ ls, listed (Expr.operands (e :: es)) = Lexeme.leftParen :: ls := by
  cases es with
  | nil => exact ⟨_, Lexeme.listed_singleton _⟩
  | cons e' es => exact ⟨_, Lexeme.listed_cons_cons _ _ _⟩

variable {es : List Expr} (h : ∀ e ∈ es, Reads e.spelling e.nesting e)

include h

theorem pins_items (some : es ≠ []) (ahead : Ahead (listed (Expr.operands es)) tokens rest)
    (stops : Stops [.comma, .plus, .star] rest) :
    Pins (Expr.inner es ≤ limit) (Stopping [.comma, .plus, .star] (Items (AtomWithin limit)))
      tokens es rest := by
  rw [operands_eq_map] at ahead
  rw [inner_le_iff]
  refine pins_separated (by decide) some ?_ ahead stops
  intro e mem tokens rest ahead stops
  exact pins_sum (pins_operand (h e mem) ahead) stops

theorem pins_arguments {ts₁ : List Token} (ahead : Ahead (listed (Expr.operands es)) tokens ts₁)
    (close : Sign .rightParen ts₁ rest) :
    Pins (Expr.inner es ≤ limit) (Arguments (AtomWithin limit)) tokens es rest := by
  intro es' rest'
  cases es with
  | nil =>
    cases ahead_nil.1 ahead
    constructor
    · intro arguments
      cases arguments with
      | none close' => exact ⟨Nat.zero_le _, rfl, sign_unique close close'⟩
      | some items => exact ((solid_items (solid_atomWithin _)).opens items ⟨_, close⟩).elim
    · rintro ⟨-, rfl, rfl⟩
      exact .none close
  | cons e es =>
    have pinned := @pins_items limit _ _ _ h (List.cons_ne_nil _ _) ahead
      (stops_of_sign close (by decide))
    constructor
    · intro arguments
      cases arguments with
      | none close' =>
        obtain ⟨ls, opening⟩ := listed_operands_cons e es
        rw [opening] at ahead
        obtain ⟨between, paren, -⟩ := sign_of_ahead ahead
        cases sign_kind paren close'
      | some items close' =>
        obtain ⟨holds, same, rfl⟩ := (pinned _ _).1 (stopping_of_sign items close' (by decide))
        exact ⟨holds, same, sign_unique close close'⟩
    · rintro ⟨holds, rfl, rfl⟩
      exact .some ((pinned _ _).2 ⟨holds, rfl, rfl⟩).1 close

omit h

/-- An atom that is one lexeme. -/
theorem reads_token {l : Lexeme} (h : ∀ {limit : Nat} {t : Token} {rest : List Token},
      t.lexeme = l → ¬Begins .leftParen rest →
      Pins (n ≤ limit) (Atom (AtomWithin limit)) (t :: rest) e rest) : Reads [l] (n + 1) e := by
  refine reads_atom ?_
  intro limit tokens rest ahead bare
  obtain ⟨t, ts, lexeme, rfl, behind⟩ := ahead_cons.1 ahead
  cases ahead_nil.1 behind
  exact h lexeme bare

/-- An atom that is a word in front of operands in parentheses. -/
theorem reads_call {l : Lexeme}
    (h : ∀ {limit : Nat} {t : Token} {ts₁ ts₂ ts₃ rest : List Token}, t.lexeme = l →
      Sign .leftParen ts₁ ts₂ → Ahead ls ts₂ ts₃ → Sign .rightParen ts₃ rest →
      Pins (n ≤ limit) (Atom (AtomWithin limit)) (t :: ts₁) e rest) :
    Reads (l :: grouped ls) (n + 1) e := by
  refine reads_atom ?_
  intro limit tokens rest ahead _
  obtain ⟨t, ts₁, lexeme, rfl, behind⟩ := ahead_cons.1 ahead
  obtain ⟨ts₂, ts₃, paren, inner, close⟩ := grouped_ahead behind
  exact h lexeme paren inner close

theorem reads_literal {n : Int} (h : IsLiteral n) : Reads [Lexeme.integer n] 1 (.number n) := by
  obtain ⟨n, rfl⟩ := Int.eq_ofNat_of_zero_le h.1
  refine reads_token ?_
  intro limit t rest lexeme _
  have kind : t.kind = .integer := congrArg Lexeme.kind lexeme
  have text : t.text = n.repr := congrArg Lexeme.text lexeme
  have value : Nat.ofDigitChars 10 t.text.toList 0 = n := by
    rw [text, Nat.toList_repr, Nat.ofDigitChars_ten_toDigits]
  simpa using pins_number kind value (Int.ofNat_lt.1 h.2)

/-- The two operands of a call. -/
theorem pins_pair {e₁ e₂ : Expr} {ls₁ ls₂ : List Lexeme} {n₁ n₂ : Nat} {ts₁ ts₂ : List Token}
    (h₁ : Reads ls₁ n₁ e₁) (h₂ : Reads ls₂ n₂ e₂) (paren : Sign .leftParen tokens ts₁)
    (ahead : Ahead (listed [grouped ls₁, grouped ls₂]) ts₁ ts₂)
    (close : Sign .rightParen ts₂ rest) :
    Pins (max (n₁ + 1) (n₂ + 1) ≤ limit) (Operands (AtomWithin limit)) tokens (e₁, e₂) rest := by
  rw [Lexeme.listed_cons_cons, Lexeme.listed_singleton] at ahead
  obtain ⟨ts₄, first, behind⟩ := ahead_append.1 ahead
  obtain ⟨ts₅, comma, second⟩ := sign_of_ahead behind
  rw [Nat.max_le]
  exact pins_operands paren (pins_operand h₁ first) comma (pins_operand h₂ second) close

theorem reads_rot {angle target : Expr} {ls₁ ls₂ : List Lexeme} {n₁ n₂ : Nat}
    (h₁ : Reads ls₁ n₁ angle) (h₂ : Reads ls₂ n₂ target) :
    Reads (word "rot" :: grouped (listed [grouped ls₁, grouped ls₂]))
      (max (n₁ + 1) (n₂ + 1) + 1) (.rot (Reading.asAngle angle) target) := by
  refine reads_call ?_
  intro limit t ts₁ ts₂ ts₃ rest lexeme paren inner close
  exact pins_rot (congrArg Lexeme.kind lexeme) (pins_pair h₁ h₂ paren inner close)

theorem reads_spelling {e : Expr} (h : e.Spellable) : Reads e.spelling e.nesting e := by
  induction h with
  | number literal => exact reads_literal literal
  | color quotable =>
    refine reads_token ?_
    intro limit t rest lexeme _
    obtain ⟨kind, rfl⟩ := Lexeme.content_of_quoted lexeme
    simpa using pins_color kind
  | name nameable =>
    refine reads_token ?_
    intro limit t rest lexeme bare
    obtain ⟨kind, rfl⟩ := nameable.of_lexeme lexeme
    simpa using pins_name kind nameable.undyed bare
  | call nameable _ ih =>
    refine reads_call ?_
    intro limit t ts₁ ts₂ ts₃ rest lexeme paren inner close
    obtain ⟨kind, rfl⟩ := nameable.of_lexeme lexeme
    exact pins_call kind nameable.undyed paren (pins_arguments ih inner close)
  | @arithmetic op left right _ _ ih₁ ih₂ =>
    intro limit tokens rest ahead stops
    obtain ⟨ts₁, first, behind⟩ := ahead_append.1 ahead
    obtain ⟨ts₂, sign, second⟩ := sign_of_ahead behind
    rw [Expr.nesting, Nat.max_le]
    exact pins_arithmetic op (pins_operand ih₁ first) sign (pins_operand ih₂ second)
      (stops_cons.1 stops).2
  | rect _ _ _ ih₁ ih₂ ih₃ =>
    refine reads_call ?_
    intro limit t ts₁ ts₂ ts₃ rest lexeme paren inner close
    rw [Lexeme.listed_cons_cons, Lexeme.listed_cons_cons, Lexeme.listed_singleton] at inner
    obtain ⟨ts₄, first, behind⟩ := ahead_append.1 inner
    obtain ⟨ts₅, comma₁, behind⟩ := sign_of_ahead behind
    obtain ⟨ts₆, second, behind⟩ := ahead_append.1 behind
    obtain ⟨ts₇, comma₂, third⟩ := sign_of_ahead behind
    rw [Nat.max_le, Nat.max_le]
    exact pins_rect (congrArg Lexeme.kind lexeme) paren (pins_operand ih₁ first) comma₁
      (pins_operand ih₂ second) comma₂ (pins_operand ih₃ third) close
  | @strip axis es some _ ih =>
    refine reads_call ?_
    intro limit t ts₁ ts₂ ts₃ rest lexeme paren inner close
    have kind : t.kind = stripWord axis := by
      cases axis <;> exact congrArg Lexeme.kind lexeme
    exact pins_strip kind paren (pins_items ih some inner (stops_of_sign close (by decide))) close
  | @overlay anchor es _ some _ ih =>
    refine reads_call ?_
    intro limit t ts₁ ts₂ ts₃ rest lexeme paren inner close
    obtain ⟨e, es, rfl⟩ := List.exists_cons_of_ne_nil some
    rw [Expr.operands, Lexeme.listed_cons_cons] at inner
    obtain ⟨ts₄, first, behind⟩ := ahead_append.1 inner
    obtain ⟨ts₅, comma, items⟩ := sign_of_ahead behind
    obtain ⟨u, ts₆, text, rfl, behind⟩ := ahead_cons.1 first
    cases ahead_nil.1 behind
    obtain ⟨string, rfl⟩ := Lexeme.content_of_quoted text
    exact pins_overlay (congrArg Lexeme.kind lexeme) paren string comma
      (pins_items ih some items (stops_of_sign close (by decide))) close
  | turn literal _ ih => exact reads_rot (reads_literal literal) ih
  | @rot angle target other _ _ ih₁ ih₂ =>
    have same : Reading.asAngle angle = angle := by
      cases angle with
      | number n => exact (other n rfl).elim
      | _ => rfl
    have reads := reads_rot ih₁ ih₂
    rw [same] at reads
    exact reads
  | rep _ _ ih₁ ih₂ =>
    refine reads_call ?_
    intro limit t ts₁ ts₂ ts₃ rest lexeme paren inner close
    exact pins_rep (congrArg Lexeme.kind lexeme) (pins_pair ih₁ ih₂ paren inner close)

end Operands

section Definitions

variable (limit : Nat) {x : String} {e : Expr} {tokens rest : List Token}

/-- An equals sign, an expression and a semicolon. -/
theorem value_ahead (h : e.Spellable)
    (ahead : Ahead (Lexeme.equal :: (e.spelling ++ [Lexeme.semicolon])) tokens rest) :
    ∃ ts₁ ts₂, Sign .equal tokens ts₁ ∧
      Pins (e.nesting ≤ limit) (Stopping [.plus, .star] (Expression limit)) ts₁ e ts₂ ∧
      Sign .semicolon ts₂ rest := by
  obtain ⟨ts₁, equal, behind⟩ := sign_of_ahead ahead
  obtain ⟨ts₂, value, behind⟩ := ahead_append.1 behind
  obtain ⟨ts₃, close, behind⟩ := sign_of_ahead behind
  cases ahead_nil.1 behind
  exact ⟨ts₁, ts₂, equal, reads_spelling h value (stops_of_sign close (by decide)), close⟩

theorem pins_binder {ls : List Lexeme} (nameable : Nameable x)
    (ahead : Ahead (word x :: ls) tokens rest) :
    ∃ ts₁, Pins True Binder tokens x ts₁ ∧ Ahead ls ts₁ rest := by
  obtain ⟨t, ts₁, lexeme, rfl, behind⟩ := ahead_cons.1 ahead
  obtain ⟨kind, rfl⟩ := nameable.of_lexeme lexeme
  refine ⟨ts₁, ?_, behind⟩
  intro x' rest'
  constructor
  · rintro ⟨u, -, -, same, rfl⟩
    cases same
    exact ⟨trivial, rfl, rfl⟩
  · rintro ⟨-, rfl, rfl⟩
    exact ⟨t, kind, nameable.undyed, rfl, rfl⟩

theorem pins_parameters {xs : List String} {ts₁ : List Token} (h : ∀ x ∈ xs, Nameable x)
    (ahead : Ahead (listed (xs.map fun x => [word x])) tokens ts₁)
    (close : Sign .rightParen ts₁ rest) : Pins True Parameters tokens xs rest := by
  intro xs' rest'
  cases xs with
  | nil =>
    cases ahead_nil.1 ahead
    constructor
    · intro parameters
      cases parameters with
      | none close' => exact ⟨trivial, rfl, sign_unique close close'⟩
      | some binders =>
        obtain ⟨first, -⟩ := binders
        exact (solid_binder.opens first ⟨_, close⟩).elim
    · rintro ⟨-, rfl, rfl⟩
      exact .none close
  | cons x xs =>
    have pinned : Pins (∀ y ∈ x :: xs, True) (Stopping [.comma] (Separated .comma Binder)) tokens
        (x :: xs) ts₁ := by
      refine pins_separated List.not_mem_nil (List.cons_ne_nil _ _) ?_ ahead
        (stops_of_sign close (by decide))
      intro y mem tokens rest ahead _
      obtain ⟨ts₂, pinned, behind⟩ := pins_binder (h y mem) ahead
      cases ahead_nil.1 behind
      exact pins_unstopped pinned
    constructor
    · intro parameters
      cases parameters with
      | none close' =>
        obtain ⟨⟨first, -⟩, -⟩ := (pinned _ _).2 ⟨fun _ _ => trivial, rfl, rfl⟩
        exact (solid_binder.opens first ⟨_, close'⟩).elim
      | some binders close' =>
        obtain ⟨-, same, rfl⟩ := (pinned _ _).1 (stopping_of_sign binders close' (by decide))
        exact ⟨trivial, same, sign_unique close close'⟩
    · rintro ⟨-, rfl, rfl⟩
      exact .some ((pinned _ _).2 ⟨fun _ _ => trivial, rfl, rfl⟩).1 close

theorem pins_binding (nameable : Nameable x) (h : e.Spellable)
    (ahead : Ahead (word x :: Lexeme.equal :: (e.spelling ++ [Lexeme.semicolon])) tokens rest) :
    Pins (e.nesting ≤ limit) (Binding (Expression limit)) tokens (x, e) rest := by
  obtain ⟨ts₁, bound, behind⟩ := pins_binder nameable ahead
  obtain ⟨ts₂, ts₃, equal, value, close⟩ := value_ahead limit h behind
  rintro ⟨x', e'⟩ rest'
  constructor
  · rintro ⟨bound', equal', value', close'⟩
    obtain ⟨-, rfl, rfl⟩ := (bound _ _).1 bound'
    cases sign_unique equal equal'
    obtain ⟨holds, rfl, rfl⟩ := (value _ _).1 (stopping_of_sign value' close' (by decide))
    exact ⟨holds, rfl, sign_unique close close'⟩
  · rintro ⟨holds, same, rfl⟩
    cases same
    exact .intro ((bound _ _).2 ⟨trivial, rfl, rfl⟩) equal ((value _ _).2 ⟨holds, rfl, rfl⟩).1 close

/-- A definition that is known to come next. -/
theorem definition_iff {d : Patchwork.Definition} (h : d.Spellable)
    (ahead : Ahead d.spelling tokens rest) {rest' : List Token} :
    Definition (Expression limit) tokens d rest' ↔ d.nesting ≤ limit ∧ rest' = rest := by
  cases h with
  | @declared kind x value nameable h =>
    obtain ⟨t, ts₁, lexeme, rfl, behind⟩ := ahead_cons.1 ahead
    have pinned := pins_binding limit nameable h behind
    have declares : DeclaredKind.ofToken? t.kind = some kind := by
      have same : t.kind = (Lexeme.declared kind).kind := congrArg Lexeme.kind lexeme
      rw [same]
      cases kind <;> rfl
    constructor
    · rintro (⟨-, binding⟩ | _ | _)
      obtain ⟨holds, -, rfl⟩ := (pinned _ _).1 binding
      exact ⟨holds, rfl⟩
    · rintro ⟨holds, rfl⟩
      exact .declared declares ((pinned _ _).2 ⟨holds, rfl, rfl⟩)
  | assigned nameable h =>
    have pinned := pins_binding limit nameable h ahead
    constructor
    · rintro (_ | binding | _)
      obtain ⟨holds, -, rfl⟩ := (pinned _ _).1 binding
      exact ⟨holds, rfl⟩
    · rintro ⟨holds, rfl⟩
      exact .assigned ((pinned _ _).2 ⟨holds, rfl, rfl⟩)
  | @function f xs body nameable names h =>
    obtain ⟨ts₁, word, behind⟩ := sign_of_ahead ahead
    obtain ⟨ts₂, bound, behind⟩ := pins_binder nameable behind
    obtain ⟨ts₃, listed, behind⟩ := ahead_append.1 behind
    obtain ⟨ts₄, ts₅, paren, inner, close⟩ := grouped_ahead listed
    obtain ⟨ts₆, ts₇, equal, value, close'⟩ := value_ahead limit h behind
    have parameters := pins_parameters names inner close
    constructor
    · intro h
      cases h with
      | function word' bound' paren' parameters' equal' value' semicolon =>
        cases sign_unique word word'
        obtain ⟨-, -, rfl⟩ := (bound _ _).1 bound'
        cases sign_unique paren paren'
        obtain ⟨-, -, rfl⟩ := (parameters _ _).1 parameters'
        cases sign_unique equal equal'
        obtain ⟨holds, -, rfl⟩ := (value _ _).1 (stopping_of_sign value' semicolon (by decide))
        exact ⟨holds, sign_unique close' semicolon⟩
    · rintro ⟨holds, rfl⟩
      exact .function word ((bound _ _).2 ⟨trivial, rfl, rfl⟩) paren
        ((parameters _ _).2 ⟨trivial, rfl, rfl⟩) equal ((value _ _).2 ⟨holds, rfl, rfl⟩).1 close'

/-- Definitions that are known to come next. -/
theorem definitions_iff {ds : List Patchwork.Definition} (h : ∀ d ∈ ds, d.Spellable)
    (ahead : Ahead (ds.flatMap Definition.spelling) tokens rest) {rest' : List Token} :
    Definitions (Expression limit) tokens ds rest' ↔
      (∀ d ∈ ds, d.nesting ≤ limit) ∧ rest' = rest := by
  induction ds generalizing tokens with
  | nil =>
    cases ahead_nil.1 ahead
    constructor
    · intro definitions
      cases definitions
      exact ⟨by simp, rfl⟩
    · rintro ⟨-, rfl⟩
      exact .none _
  | cons d ds ih =>
    obtain ⟨first, others⟩ := List.forall_mem_cons.1 h
    rw [List.flatMap_cons] at ahead
    obtain ⟨ts₁, ahead₁, ahead₂⟩ := ahead_append.1 ahead
    rw [List.forall_mem_cons]
    constructor
    · intro definitions
      cases definitions with
      | more one more =>
        obtain ⟨holds, rfl⟩ := (definition_iff limit first ahead₁).1 one
        obtain ⟨holds', rfl⟩ := (ih others ahead₂).1 more
        exact ⟨⟨holds, holds'⟩, rfl⟩
    · rintro ⟨⟨holds, holds'⟩, rfl⟩
      exact .more ((definition_iff limit first ahead₁).2 ⟨holds, rfl⟩)
        ((ih others ahead₂).2 ⟨holds', rfl⟩)

/-- The grammar derives what was spelled exactly with the levels that it needs. -/
theorem derives_iff {p : Program} (h : p.Spellable)
    (lexemes : tokens.map Token.lexeme = p.spelling) :
    Derives limit tokens p ↔ p.nesting ≤ limit := by
  have ahead : Ahead p.spelling tokens [] := ⟨tokens, lexemes, (List.append_nil _).symm⟩
  obtain ⟨ts₁, ahead₁, ahead₂⟩ := ahead_append.1 ahead
  have pinned := @reads_spelling p.goal h.goal limit ts₁ [] ahead₂ (by simp)
  rw [Program.nesting_le_iff]
  constructor
  · rintro ⟨definitions, goal, ending⟩
    obtain ⟨holds, rfl⟩ := (definitions_iff limit h.definitions ahead₁).1 definitions
    exact ⟨holds, ((pinned _ _).1 ⟨goal, Reading.stops_of_ending ending (by decide)⟩).1⟩
  · rintro ⟨holds, holds'⟩
    have goal := ((pinned _ _).2 ⟨holds', rfl, rfl⟩).1
    exact .intro ((definitions_iff limit h.definitions ahead₁).2 ⟨holds, rfl⟩) goal (Or.inl rfl)

end Definitions

end Grammar

namespace Program

/-- The text of a spellable program is read back as that program exactly if its nesting is
allowed. -/
theorem ofText_text_iff (p : Program) (h : p.Spellable) (limit : Nat) :
    ofText limit p.text = .ok p ↔ p.nesting ≤ limit := by
  obtain ⟨tokens, scanned, lexemes⟩ := scan_text h
  have read : ofText limit p.text = ofTokens limit tokens := by
    rw [ofText, scanned]
    rfl
  rw [read, ofTokens_eq_ok_iff]
  exact Grammar.derives_iff limit h lexemes

section Frame

/-- `num n = 2; fun pair(a, b) = hor(a, over("center", b, a)); rot 90 pair(rect n n*3 "teal", q)` in
full. -/
def frame : Program where
  definitions := [
    .declared .number "n" (.number 2),
    .function "pair" ["a", "b"]
      (.strip .horizontal [.name "a", .overlay "center" [.name "b", .name "a"]])]
  goal :=
    .rot (.angle 90)
      (.call "pair"
        [.rect (.name "n") (.arithmetic .times (.name "n") (.number 3)) (.color "teal"),
          .name "q"])

theorem frame_spellable : frame.Spellable := by
  have n : Expr.Spellable (.name "n") := .name (by decide)
  have a : Expr.Spellable (.name "a") := .name (by decide)
  have b : Expr.Spellable (.name "b") := .name (by decide)
  have q : Expr.Spellable (.name "q") := .name (by decide)
  have two : Expr.Spellable (.number 2) := .number (by decide)
  have three : Expr.Spellable (.number 3) := .number (by decide)
  have teal : Expr.Spellable (.color "teal") := .color (by decide)
  have middle : Expr.Spellable (.overlay "center" [.name "b", .name "a"]) :=
    .overlay (by decide) (by simp) (by simp [a, b])
  constructor
  · refine List.forall_mem_cons.2 ⟨.declared (by decide) two, List.forall_mem_singleton.2 ?_⟩
    exact .function (by decide) (by decide) (.strip (by simp) (by simp [a, middle]))
  · refine .turn (by decide) (.call (by decide) (List.forall_mem_cons.2 ⟨?_, ?_⟩))
    · exact .rect n (.arithmetic n three) teal
    · exact List.forall_mem_singleton.2 q

theorem frame_read_back : frame.Spellable ∧ frame.nesting = 8 ∧
    ofText 8 frame.text = .ok frame ∧ ofText 7 frame.text ≠ .ok frame := by
  have nesting : frame.nesting = 8 := by decide
  refine ⟨frame_spellable, nesting, ?_, ?_⟩
  · exact (ofText_text_iff frame frame_spellable 8).2 (Nat.le_of_eq nesting)
  · intro read
    have := (ofText_text_iff frame frame_spellable 7).1 read
    omega

end Frame

end Program

end Patchwork
