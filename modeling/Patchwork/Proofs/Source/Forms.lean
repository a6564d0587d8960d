import Patchwork.Proofs.Source.Following
import Patchwork.Proofs.Source.Language

/-!
# Two operands behind one another or in a call

The words that take two operands are read in both forms to the same tree, up to one exception: a
name at the end of the first operand takes a parenthesis at the start of the second for its own, and
then there is no second operand.
-/

namespace Patchwork

namespace Grammar

section Levels

variable {levels levels' : Nat} {tokens rest rest' : List Token} {e e' : Expr}

/-- More levels do no harm. -/
theorem AtomWithin.mono (h : levels ≤ levels') (atom : AtomWithin levels tokens e rest) :
    AtomWithin levels' tokens e rest := by
  have ran := (Reading.accepts_atomWithin levels levels tokens e rest).2 atom
  have same : List.Forall₂ Eq tokens tokens := List.forall₂_same.2 fun _ _ => rfl
  have tracks : (Comparison.ofLimit levels).Tracks Eq (Reading.atomWithin levels levels)
      (Reading.atomWithin levels levels') := Comparison.tracks_atomWithin_le levels rfl h
  have cut := Comparison.cutBy_of_follows (tracks tokens tokens same)
  have kept := eq_of_cutBy cut fun failure failed => by
    rw [ran] at failed
    cases failed
  exact (Reading.accepts_atomWithin levels levels' tokens e rest).1 (kept.trans ran)

theorem AtomWithin.unique (atom : AtomWithin levels tokens e rest)
    (atom' : AtomWithin levels' tokens e' rest') : e = e' ∧ rest = rest' := by
  have left := atom.mono (Nat.le_max_left levels levels')
  have right := atom'.mono (Nat.le_max_right levels levels')
  have ran := (Reading.accepts_atomWithin 0 _ _ _ _).2 left
  have ran' := (Reading.accepts_atomWithin 0 _ _ _ _).2 right
  cases ran.symm.trans ran'
  exact ⟨rfl, rfl⟩

theorem Chain.imp {op : Operator} {sign : Token.Kind} {operand operand' : Phrase Expr}
    (imp : ∀ {ts e ts'}, operand ts e ts' → operand' ts e ts')
    (chain : Chain op sign operand tokens e rest) : Chain op sign operand' tokens e rest := by
  induction chain with
  | single h => exact .single (imp h)
  | join _ here next ih => exact .join ih here (imp next)

theorem sum_mono (h : levels ≤ levels') (sum : Sum (AtomWithin levels) tokens e rest) :
    Sum (AtomWithin levels') tokens e rest :=
  Chain.imp (Chain.imp (AtomWithin.mono h)) sum

end Levels

section Behind

variable {A : Type} {phrase : Phrase A} {tokens between rest : List Token} {a : A}

theorem begins_of_append {kind : Token.Kind} {more : List Token} (some : tokens ≠ [])
    (begins : Begins kind (tokens ++ more)) : Begins kind tokens := by
  rw [← List.append_nil tokens]
  exact begins_append_of_ne_nil some begins

/-- What ends in front of other tokens ends there whatever is put behind these. -/
theorem Keeps.extend (keeps : Keeps phrase) (h : phrase tokens a between) (some : between ≠ [])
    (more : List Token) : phrase (tokens ++ more) a (between ++ more) := by
  obtain ⟨used, rfl, free, kept⟩ := keeps h
  rw [List.append_assoc]
  exact kept _ fun calls => free ⟨calls.1, begins_of_append some calls.2⟩

theorem Keeps.append (keeps : Keeps phrase) (h : phrase tokens a [])
    (allowed : ¬Calls tokens rest) : phrase (tokens ++ rest) a rest := by
  obtain ⟨used, same, -, kept⟩ := keeps h
  rw [List.append_nil] at same
  subst same
  exact kept rest allowed

theorem Sign.extend {kind : Token.Kind} (sign : Sign kind tokens rest) (more : List Token) :
    Sign kind (tokens ++ more) (rest ++ more) := by
  obtain ⟨t, same, rfl⟩ := sign
  exact ⟨t, same, rfl⟩

theorem Sign.ne_nil {kind : Token.Kind} (sign : Sign kind tokens rest) : tokens ≠ [] := by
  rintro rfl
  exact not_sign_nil sign

end Behind

section Forms

variable {levels levels' : Nat} {first second rest : List Token} {a b e : Expr}

theorem sum_of_atom {atom : Phrase Expr} (h : atom first e rest) : Sum atom first e rest :=
  .single (.single h)

theorem group_of_begins {atom : Phrase Expr} (h : Atom atom first e rest)
    (begins : Begins .leftParen first) : ∃ ts₁ ts₂,
      Sign .leftParen first ts₁ ∧ Sum atom ts₁ e ts₂ ∧ Sign .rightParen ts₂ rest := by
  cases h with
  | group paren h close => exact ⟨_, _, paren, h, close⟩
  | number kind | dye kind | name kind | call kind =>
    rw [begins_cons, kind] at begins
    cases begins
  | color kind =>
    rw [begins_cons] at begins
    rcases kind with kind | kind <;> simp [kind] at begins
  | @strip axis _ _ _ _ _ _ word =>
    cases axis <;> exact absurd begins (not_begins_of_sign word nofun)
  | rect word | overlay word | rot word | rep word =>
    exact absurd begins (not_begins_of_sign word nofun)

theorem not_calls_of_kind {used : List Token} {t : Token} {kind : Token.Kind} (same : t.kind = kind)
    (other : kind ≠ .leftParen) (more : List Token) : ¬Calls used (t :: more) := by
  rintro ⟨-, begins⟩
  rw [begins_cons, same] at begins
  exact other begins

theorem call_of_atoms {paren comma close : Token} (opens : paren.kind = .leftParen)
    (separates : comma.kind = .comma) (closes : close.kind = .rightParen)
    (h : AtomWithin levels first a []) (h' : AtomWithin levels second b []) :
    Operands (AtomWithin levels) (paren :: (first ++ comma :: (second ++ [close]))) (a, b) [] := by
  have keeps := keeps_atomWithin levels
  have x := keeps.append h (not_calls_of_kind separates nofun (second ++ [close]))
  have y := keeps.append h' (not_calls_of_kind closes nofun [])
  exact .call ⟨paren, opens, rfl⟩ (sum_of_atom x) ⟨comma, separates, rfl⟩ (sum_of_atom y)
    ⟨close, closes, rfl⟩

/-- A group in front of the second operand is not an atom of its own to the word, but the
parentheses of a group mean nothing. -/
theorem operands_of_atoms (h : AtomWithin levels first a []) (h' : AtomWithin levels second b [])
    (allowed : ¬Calls first second) : Operands (AtomWithin levels) (first ++ second) (a, b) [] := by
  have taken := (solid_atomWithin levels).shrinks h
  have some : first ≠ [] := List.ne_nil_of_length_pos taken
  by_cases grouped : Begins .leftParen first
  · cases levels with
    | zero => exact h.elim
    | succ levels =>
      obtain ⟨ts₁, ts₂, paren, inside, close⟩ := group_of_begins h grouped
      have inside := (keeps_sum (keeps_atomWithin levels)).extend inside close.ne_nil second
      exact .grouped (paren.extend second) (sum_mono (Nat.le_succ levels) inside)
        (close.extend second) h'
  · have bare : ¬Begins .leftParen (first ++ second) := mt (begins_of_append some) grouped
    exact .adjacent bare ((keeps_atomWithin levels).append h allowed) h'

/-- What ends in a name does not begin with a parenthesis. -/
theorem not_begins_of_endsInName {atom : Phrase Expr} (keeps : Keeps atom)
    (h : Atom atom first e []) (named : EndsInName first) : ¬Begins .leftParen first := by
  intro begins
  rcases atom_cases keeps h with ⟨front, t, rfl, other, -⟩ | ⟨t, plain, rfl, -⟩ |
    ⟨p, _, _, _, word, -⟩
  · exact other (endsInName_concat.1 named)
  · rw [begins_cons, plain.1] at begins
    cases begins
  · cases p <;> exact absurd begins (not_begins_of_sign word nofun)

/-- Operands end in a token that is no name, or in the second of them. -/
theorem operands_cases {tokens : List Token}
    (pair : Operands (AtomWithin levels) tokens (a, b) []) :
    Firm (fun ts ts' => Operands (AtomWithin levels) ts (a, b) ts') tokens [] ∨
      ∃ used last, tokens = used ++ last ∧ AtomWithin levels last b [] ∧
        ∀ more levels' e, levels ≤ levels' → AtomWithin levels' (last ++ more) e [] →
          Operands (AtomWithin levels') (tokens ++ more) (a, e) [] := by
  have keeps := keeps_atomWithin levels
  have sums := keeps_sum keeps
  cases pair with
  | call paren x comma y close => exact Or.inl (firm_pair keeps paren x comma y close)
  | grouped paren x close y =>
    obtain ⟨used, same, -, -⟩ := (firm_parentheses paren (sums x) close).kept
    refine Or.inr ⟨used, _, same, y, fun more levels' e le atom => ?_⟩
    exact .grouped (paren.extend more) (sum_mono le (sums.extend x close.ne_nil more))
      (close.extend more) atom
  | adjacent bare x y =>
    have some := List.ne_nil_of_length_pos ((solid_atomWithin levels).shrinks y)
    have some' := List.ne_nil_of_length_pos
      (Nat.zero_lt_of_lt ((solid_atomWithin levels).shrinks x))
    obtain ⟨used, same, -, -⟩ := keeps x
    refine Or.inr ⟨used, _, same, y, fun more levels' e le atom => ?_⟩
    exact .adjacent (mt (begins_of_append some') bare) ((keeps.extend x some more).mono le) atom

/-- A name at the end of an atom takes a group behind it for its arguments, and so the two are one
atom. -/
theorem exists_atom_of_calls (h : AtomWithin levels first a []) (named : EndsInName first)
    {ts₁ ts₂ : List Token} (paren : Sign .leftParen second ts₁)
    (sum : Sum (AtomWithin levels') ts₁ b ts₂) (close : Sign .rightParen ts₂ []) :
    ∃ more e, AtomWithin more (first ++ second) e [] := by
  induction levels generalizing first a with
  | zero => exact h.elim
  | succ levels ih =>
    rcases atom_cases (keeps_atomWithin levels) h with ⟨front, t, rfl, other, -⟩ |
      ⟨t, plain, rfl, -, -⟩ | ⟨p, x, y, ts, word, pair, -⟩
    · exact absurd (endsInName_concat.1 named) other
    · have items : Items (AtomWithin levels') ts₁ [b] ts₂ := .intro sum (.none ts₂)
      exact ⟨levels' + 1, _, .call plain.1 plain.2 paren (.some items close)⟩
    · obtain ⟨w, kind, rfl⟩ := word
      rcases operands_cases pair with ⟨front, t, rfl, other, -⟩ | ⟨used, last, rfl, y', onward⟩
      · rw [← List.cons_append, endsInName_concat] at named
        exact absurd named other
      · have some := List.ne_nil_of_length_pos ((solid_atomWithin levels).shrinks y')
        rw [← List.cons_append, endsInName_append _ some] at named
        obtain ⟨more, e, atom⟩ := ih y' named
        have pair' := onward second (max levels more) e (Nat.le_max_left ..)
          (atom.mono (Nat.le_max_right ..))
        have taken := Pairing.atom_of_operands ⟨w, kind, rfl⟩ pair'
        exact ⟨max levels more + 1, _, taken⟩

theorem exists_atom_of_sum {atom : Phrase Expr} {tokens : List Token}
    (sum : Sum atom tokens e rest) : ∃ x between, atom tokens x between := by
  induction sum with
  | single product =>
    induction product with
    | single h => exact ⟨_, _, h⟩
    | join _ _ _ ih => exact ih
  | join _ _ _ ih => exact ih

/-- Where there is only one atom there is no second operand. -/
theorem not_operands_of_atom (h : AtomWithin levels first a []) (bare : ¬Begins .leftParen first)
    {pair : Expr × Expr} : ¬Operands (AtomWithin levels') first pair rest := by
  intro taken
  cases taken with
  | call paren | grouped paren => exact bare ⟨_, paren⟩
  | adjacent _ x y =>
    obtain ⟨-, rfl⟩ := h.unique x
    exact absurd ((solid_atomWithin levels').shrinks y) (Nat.not_lt_zero _)

theorem not_operands_of_calls (h : AtomWithin levels first a [])
    (h' : AtomWithin levels second b []) (calls : Calls first second) {pair : Expr × Expr} :
    ¬Operands (AtomWithin levels') (first ++ second) pair rest := by
  cases levels with
  | zero => exact h.elim
  | succ levels =>
    have some := List.ne_nil_of_length_pos ((solid_atomWithin _).shrinks h)
    obtain ⟨ts₁, ts₂, paren, sum, close⟩ := group_of_begins h' calls.2
    obtain ⟨more, e, atom⟩ := exists_atom_of_calls h calls.1 paren sum close
    have bare := not_begins_of_endsInName (keeps_atomWithin levels) h calls.1
    exact not_operands_of_atom atom (mt (begins_of_append some) bare)

end Forms

section Programs

variable {p : Pairing} {op : Token} (word : op.kind = p.word) {levels : Nat}
  {tokens rest : List Token} {a b : Expr}

include word

theorem operands_of_word {atom : Phrase Expr} {e : Expr} (h : Atom atom (op :: tokens) e rest) :
    ∃ pair, Operands atom tokens pair rest := by
  cases h with
  | number kind | dye kind | name kind | call kind => cases p <;> cases kind.symm.trans word
  | color kind =>
    rcases kind with kind | kind <;> cases p <;> cases kind.symm.trans word
  | group paren =>
    rw [sign_cons] at paren
    cases p <;> cases paren.1.symm.trans word
  | @strip axis _ _ _ _ _ _ kind =>
    rw [sign_cons] at kind
    cases axis <;> cases p <;> cases kind.1.symm.trans word
  | rect kind | overlay kind =>
    rw [sign_cons] at kind
    cases p <;> cases kind.1.symm.trans word
  | rot kind h | rep kind h =>
    rw [sign_cons] at kind
    rw [kind.2]
    exact ⟨_, h⟩

theorem definitions_of_word {expr : Phrase Expr} {ds : List Patchwork.Definition}
    (h : Definitions expr (op :: tokens) ds rest) : rest = op :: tokens := by
  cases h with
  | none => rfl
  | more first _ =>
    exfalso
    cases first with
    | declared kind =>
      rw [word] at kind
      cases p <;> cases kind
    | assigned h =>
      obtain ⟨⟨t, kind, -, same, -⟩, -⟩ := h
      cases same
      cases p <;> cases kind.symm.trans word
    | function kind =>
      rw [sign_cons] at kind
      cases p <;> cases kind.1.symm.trans word

theorem derives_of_operands (h : Operands (AtomWithin levels) tokens (a, b) []) :
    Derives (levels + 1) (op :: tokens) ⟨[], p.tree a b⟩ := by
  have atom : AtomWithin (levels + 1) (op :: tokens) (p.tree a b) [] :=
    Pairing.atom_of_operands ⟨op, word, rfl⟩ h
  exact .intro (.none _) (sum_of_atom atom) (Or.inl rfl)

theorem exists_operands_of_derives {q : Program} (h : Derives levels (op :: tokens) q) :
    ∃ fewer pair between, Operands (AtomWithin fewer) tokens pair between := by
  obtain ⟨definitions, goal, -⟩ := h
  obtain rfl := definitions_of_word word definitions
  obtain ⟨e, between, atom⟩ := exists_atom_of_sum goal
  cases levels with
  | zero => exact atom.elim
  | succ fewer =>
    obtain ⟨pair, taken⟩ := operands_of_word word atom
    exact ⟨fewer, pair, between, taken⟩

end Programs

end Grammar

namespace Program

open Grammar

/-- A word in front of two atoms is read as it is in front of their call, unless the first ends in a
name and the second begins with a parenthesis. In this case it is not read at all. -/
theorem read_in_either_form {p : Pairing} {op paren comma close : Token} (word : op.kind = p.word)
    (opens : paren.kind = .leftParen) (separates : comma.kind = .comma)
    (closes : close.kind = .rightParen) {levels levels' limit : Nat} {first second : List Token}
    {a b : Expr} (left : (Reading.atomWithin levels levels).run first = .ok (a, []))
    (right : (Reading.atomWithin levels' levels').run second = .ok (b, []))
    (enough : levels < limit) (enough' : levels' < limit) :
    ofTokens limit (op :: paren :: (first ++ comma :: (second ++ [close]))) =
        .ok ⟨[], p.tree a b⟩ ∧
      (ofTokens limit (op :: (first ++ second)) =
          ofTokens limit (op :: paren :: (first ++ comma :: (second ++ [close]))) ↔
        ¬(EndsInName first ∧ Begins .leftParen second)) ∧
      (EndsInName first ∧ Begins .leftParen second →
        ∀ limit q, ofTokens limit (op :: (first ++ second)) ≠ .ok q) := by
  obtain ⟨most, rfl⟩ := Nat.exists_eq_succ_of_ne_zero (Nat.ne_zero_of_lt enough)
  have h := ((Reading.accepts_atomWithin _ _ _ _ _).1 left).mono (Nat.le_of_lt_succ enough)
  have h' := ((Reading.accepts_atomWithin _ _ _ _ _).1 right).mono (Nat.le_of_lt_succ enough')
  have called := ofTokens_eq_ok_iff.2
    (derives_of_operands word (call_of_atoms opens separates closes h h'))
  have unread (calls : Calls first second) (limit : Nat) (q : Program) :
      ofTokens limit (op :: (first ++ second)) ≠ .ok q := by
    intro read
    obtain ⟨fewer, pair, rest, taken⟩ :=
      exists_operands_of_derives word (ofTokens_eq_ok_iff.1 read)
    exact not_operands_of_calls h h' calls taken
  refine ⟨called, ⟨?_, fun allowed => ?_⟩, unread⟩
  · exact fun same calls => unread calls _ _ (same.trans called)
  · rw [called]
    exact ofTokens_eq_ok_iff.2 (derives_of_operands word (operands_of_atoms h h' allowed))

section Quarters

/-- The tokens of `(90)`. -/
def quarter : List Token :=
  [⟨.leftParen, "(", ⟨1, 5⟩⟩, ⟨.integer, "90", ⟨1, 6⟩⟩, ⟨.rightParen, ")", ⟨1, 8⟩⟩]

/-- The tokens of `rep 4 x`. -/
def fourfold : List Token :=
  [⟨.rep, "rep", ⟨1, 10⟩⟩, ⟨.integer, "4", ⟨1, 14⟩⟩, ⟨.identifier, "x", ⟨1, 16⟩⟩]

def rotToken : Token :=
  ⟨.rot, "rot", ⟨1, 1⟩⟩

def openToken : Token :=
  ⟨.leftParen, "(", ⟨1, 4⟩⟩

def commaToken : Token :=
  ⟨.comma, ",", ⟨1, 9⟩⟩

def closeToken : Token :=
  ⟨.rightParen, ")", ⟨1, 17⟩⟩

/-- To turn `rep 4 x` by `(90)` is read in either form. With the operands the other way round, the
parenthesis would belong to `x`. -/
theorem quarter_in_either_form :
    ofTokens 3 (rotToken :: openToken :: (quarter ++ commaToken :: (fourfold ++ [closeToken]))) =
        .ok ⟨[], .rot (.angle 90) (.rep (.number 4) (.name "x"))⟩ ∧
      ofTokens 3 (rotToken :: (quarter ++ fourfold)) =
        .ok ⟨[], .rot (.angle 90) (.rep (.number 4) (.name "x"))⟩ ∧
      ∀ limit q, ofTokens limit (rotToken :: (fourfold ++ quarter)) ≠ .ok q := by
  have angle : (Reading.atomWithin 2 2).run quarter = .ok (.number 90, []) := by rfl
  have copies : (Reading.atomWithin 2 2).run fourfold =
      .ok (.rep (.number 4) (.name "x"), []) := by rfl
  obtain ⟨called, same, -⟩ := @read_in_either_form .rot rotToken openToken commaToken closeToken
    rfl rfl rfl rfl 2 2 3 _ _ _ _ angle copies (by decide) (by decide)
  obtain ⟨-, -, unread⟩ := @read_in_either_form .rot rotToken openToken commaToken closeToken
    rfl rfl rfl rfl 2 2 3 _ _ _ _ copies angle (by decide) (by decide)
  refine ⟨called, (same.2 ?_).trans called, ?_⟩
  · rintro ⟨⟨t, last, kind, -⟩, -⟩
    cases last
    cases kind
  · exact unread ⟨⟨_, rfl, rfl, by decide⟩, begins_cons.2 rfl⟩

end Quarters

end Program

end Patchwork
