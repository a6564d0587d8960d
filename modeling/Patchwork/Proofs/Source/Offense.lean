import Mathlib.Data.Nat.Find
import Patchwork.Proofs.Source.Foresight
import Patchwork.Proofs.Source.Opening

/-!
# Where a syntax fault is reported

Tokens are viable if they are the beginning of a program. A text that is no program, though it is a
list of tokens, is refused at the first token that makes its beginning unviable or at the one before
it. One token more or less is a matter of what the reading was in the middle of: a word for a kind
that no name follows is an unexpected word itself. What was read is viable by
`Reading.derives_of_failure`, and two tokens more are not, since the reading has foreseen them.
-/

namespace Patchwork

open Reading

/-- The tokens are the beginning of a program, if it may be nested deep enough. -/
def Viable (tokens : List Token) : Prop :=
  ∃ rest limit p, Program.ofTokens limit (tokens ++ rest) = .ok p

/-- The tokens are viable in front of the one with this index, but not with it. Where all of them
are viable, the index is their number. -/
structure ViableUpTo (tokens : List Token) (j : Nat) : Prop where
  within : j ≤ tokens.length
  before : ∀ i ≤ j, Viable (tokens.take i)
  offense : j < tokens.length → ¬Viable (tokens.take (j + 1))

section Viability

variable {tokens : List Token} {i j : Nat}

theorem Viable.of_append {used more : List Token} (h : Viable (used ++ more)) : Viable used := by
  obtain ⟨rest, limit, p, read⟩ := h
  refine ⟨more ++ rest, limit, p, ?_⟩
  rwa [← List.append_assoc]

theorem Viable.take (h : Viable (tokens.take j)) (le : i ≤ j) : Viable (tokens.take i) := by
  have parts := List.take_append_drop i (tokens.take j)
  rw [List.take_take, Nat.min_eq_left le] at parts
  rw [← parts] at h
  exact h.of_append

/-- No other index is that of the offense. -/
theorem viableUpTo_iff (h : ViableUpTo tokens j) : ViableUpTo tokens i ↔ i = j := by
  constructor
  · intro h'
    rcases Nat.lt_trichotomy i j with less | same | more
    · exact (h'.offense (Nat.lt_of_lt_of_le less h.within) (h.before _ less)).elim
    · exact same
    · exact (h.offense (Nat.lt_of_lt_of_le more h'.within) (h'.before _ more)).elim
  · rintro rfl
    exact h

theorem exists_viableUpTo (tokens : List Token) (start : Viable []) : ∃ j, ViableUpTo tokens j := by
  classical
  let last := Nat.findGreatest (fun i => Viable (tokens.take i)) tokens.length
  have viable : Viable (tokens.take last) :=
    Nat.findGreatest_spec (P := fun i => Viable (tokens.take i)) (Nat.zero_le _) start
  refine ⟨last, Nat.findGreatest_le _, fun i le => viable.take le, ?_⟩
  intro within
  exact Nat.findGreatest_is_greatest (Nat.lt_succ_self last) within

/-- What is viable, while two tokens more are not, ends at the offense or right before it. -/
theorem viableUpTo_of_take (viable : Viable (tokens.take i)) (within : i ≤ tokens.length)
    (not_more : i + 2 ≤ tokens.length → ¬Viable (tokens.take (i + 2))) :
    ∃ j, ViableUpTo tokens j ∧ (i = j ∨ i + 1 = j) := by
  by_cases next : i < tokens.length ∧ Viable (tokens.take (i + 1))
  · refine ⟨i + 1, ⟨next.1, fun k le => next.2.take le, ?_⟩, Or.inr rfl⟩
    intro more
    exact not_more more
  · refine ⟨i, ⟨within, fun k le => viable.take le, ?_⟩, Or.inl rfl⟩
    intro more viable
    exact next ⟨more, viable⟩

end Viability

section Failure

variable {limit : Nat} {tokens used rest : List Token} {cause : SyntaxFault.Cause}

theorem exists_ends_of_fault {fault : SyntaxFault}
    (failed : Program.ofTokens limit tokens = .error fault) : ∃ cause rest,
      (program (expression limit)).ends tokens = (.error cause, rest) ∧
        fault = Failure.locate tokens ⟨cause, rest⟩ := by
  rw [Program.ofTokens] at failed
  cases ran : (program (expression limit)).run tokens with
  | ok r =>
    rw [ran] at failed
    cases failed
  | error failure =>
    rw [ran] at failed
    cases failed
    exact ⟨failure.cause, failure.rest, ends_of_error ran, rfl⟩

/-- A fault is placed at the token that was next, or at the last one if there was none. -/
theorem position_locate (failure : Failure) : (failure.locate tokens).position =
    ((failure.rest.head?.or tokens.getLast?).map Token.position).getD .start := by
  rw [Failure.locate]
  cases failure.rest.head?.or tokens.getLast? with
  | none | some => rfl

/-- The token that a fault is placed at is the next one, or the last one that was used. -/
theorem locate_cases (cause : SyntaxFault.Cause) (used rest : List Token) :
    used ++ rest = [] ∧ ((⟨cause, rest⟩ : Failure).locate (used ++ rest)).position = .start ∨
      ∃ t, (rest.head? = some t ∨ rest = [] ∧ used.getLast? = some t) ∧
        ((⟨cause, rest⟩ : Failure).locate (used ++ rest)).position = t.position := by
  rw [position_locate]
  cases rest with
  | cons t following => exact Or.inr ⟨t, Or.inl rfl, rfl⟩
  | nil =>
    rw [List.append_nil]
    cases last : used.getLast? with
    | none => exact Or.inl ⟨List.getLast?_eq_none_iff.1 last, rfl⟩
    | some t => exact Or.inr ⟨t, Or.inr ⟨rfl, rfl⟩, rfl⟩

theorem viable_of_failure
    (failed : (program (expression limit)).ends tokens = (.error cause, rest)) :
    ∃ used, tokens = used ++ rest ∧ Viable (tokens.take used.length) := by
  obtain ⟨used, rfl, more, p, derives⟩ := derives_of_failure failed
  refine ⟨used, rfl, more, limit + 1, p, ?_⟩
  rw [List.take_left]
  exact Program.ofTokens_eq_ok_iff.2 derives

/-- The next two tokens are foreseen, and no limit helps. -/
theorem not_viable_of_failure
    (failed : (program (expression limit)).ends (used ++ rest) = (.error cause, rest))
    (shallow : ∀ limit, cause ≠ .tooDeep limit) (two : 2 ≤ rest.length) :
    ¬Viable (used ++ rest.take 2) := by
  rintro ⟨more, limit', p, read⟩
  obtain ⟨used', same, stays⟩ := foresees_program limit _ _ _ failed
  obtain rfl : used = used' := List.append_cancel_right same
  have view : (rest.take 2 ++ more).take 2 = rest.take 2 :=
    List.take_left' (List.length_take_of_le two)
  have failed' := run_of_ends_error (stays _ view)
  rw [List.append_assoc] at read
  have refused : Program.ofTokens limit (used ++ (rest.take 2 ++ more)) =
      .error (Failure.locate (used ++ (rest.take 2 ++ more)) ⟨cause, rest.take 2 ++ more⟩) := by
    rw [Program.ofTokens, failed']
  have kept : Program.ofTokens (max limit limit') (used ++ (rest.take 2 ++ more)) =
      Program.ofTokens limit (used ++ (rest.take 2 ++ more)) := by
    refine eq_of_cutBy (Program.ofTokens_cutBy (Nat.le_max_left limit limit') _) ?_
    rintro fault refused' ⟨deep, same⟩
    rw [refused] at refused'
    cases refused'
    rw [cause_locate] at same
    exact shallow deep same
  rw [Program.ofTokens_kept (Nat.le_max_right limit limit') read, refused] at kept
  cases kept

theorem take_length_add_append (n : Nat) :
    (used ++ rest).take (used.length + n) = used ++ rest.take n := by
  rw [List.take_append, List.take_of_length_le (Nat.le_add_right _ _), Nat.add_sub_cancel_left]

theorem getElem?_length_append (used rest : List Token) :
    (used ++ rest)[used.length]? = rest.head? := by
  rw [List.getElem?_append_right (Nat.le_refl _), Nat.sub_self, List.head?_eq_getElem?]

theorem near_offense_of_failure
    (failed : (program (expression limit)).ends tokens = (.error cause, rest))
    (shallow : ∀ limit, cause ≠ .tooDeep limit) :
    ∃ j, ViableUpTo tokens j ∧
      (tokens = [] ∧ ((⟨cause, rest⟩ : Failure).locate tokens).position = .start ∨
        ∃ i t, (i = j ∨ i + 1 = j) ∧ tokens[i]? = some t ∧
          ((⟨cause, rest⟩ : Failure).locate tokens).position = t.position) := by
  obtain ⟨used, rfl, viable⟩ := viable_of_failure failed
  obtain ⟨j, upTo, near⟩ : ∃ j, ViableUpTo (used ++ rest) j ∧
      (used.length = j ∨ used.length + 1 = j) := by
    refine viableUpTo_of_take viable (List.length_append ▸ Nat.le_add_right _ _) ?_
    intro within
    rw [List.length_append, Nat.add_le_add_iff_left] at within
    rw [take_length_add_append]
    exact not_viable_of_failure failed shallow within
  refine ⟨j, upTo, ?_⟩
  obtain none | ⟨t, next | ⟨rfl, last⟩, placed⟩ := locate_cases cause used rest
  · exact Or.inl none
  · exact Or.inr ⟨used.length, t, near, (getElem?_length_append _ _).trans next, placed⟩
  · -- There is no token left, so that all of them are viable and the last one is reported.
    obtain ⟨before, rfl⟩ := List.getLast?_eq_some_iff.1 last
    have within := upTo.within
    rw [List.append_nil] at within
    refine Or.inr ⟨before.length, t, Or.inr ?_, ?_, placed⟩
    · rw [List.length_append] at near within
      simp only [List.length_singleton] at near within
      omega
    · rw [List.append_nil, List.getElem?_concat_length]

theorem behind_viable_of_failure
    (failed : (program (expression limit)).ends tokens = (.error cause, rest))
    (some : tokens ≠ []) :
    ∃ i t, Viable (tokens.take i) ∧
      (tokens[i]? = .some t ∨ i = tokens.length ∧ tokens.getLast? = .some t) ∧
      ((⟨cause, rest⟩ : Failure).locate tokens).position = t.position := by
  obtain ⟨used, rfl, viable⟩ := viable_of_failure failed
  obtain ⟨none, -⟩ | ⟨t, next | ⟨rfl, last⟩, placed⟩ := locate_cases cause used rest
  · exact (some none).elim
  · exact ⟨used.length, t, viable, Or.inl ((getElem?_length_append _ _).trans next), placed⟩
  · refine ⟨used.length, t, viable, Or.inr ?_, placed⟩
    rw [List.append_nil]
    exact ⟨rfl, last⟩

end Failure

namespace Program

/-- A text that is scanned but not read as a program: a fault that is not the depth of nesting is
reported at the first token that makes the beginning of the text unviable or at the one before it,
at the last token if all are viable, and at the start if there is none. A nesting too deep is
reported at a token before which everything is viable, or at the last token. -/
theorem syntax_fault_near_offense {text : String} {tokens : List Token} {limit : Nat}
    {fault : SyntaxFault} (scanned : scan text = .ok tokens)
    (failed : ofText limit text = .error fault) :
    ∃ j, (∀ i, ViableUpTo tokens i ↔ i = j) ∧
      (¬fault.IsTooDeep → tokens = [] ∧ fault.position = ⟨1, 1⟩ ∨
        ∃ i t, (i = j ∨ i + 1 = j) ∧ tokens[i]? = some t ∧ fault.position = t.position) ∧
      (fault.IsTooDeep → ∃ i t, Viable (tokens.take i) ∧
        (tokens[i]? = some t ∨ i = tokens.length ∧ tokens.getLast? = some t) ∧
        fault.position = t.position) := by
  have failed : ofTokens limit tokens = .error fault := by
    rw [ofText, scanned] at failed
    exact failed
  obtain ⟨cause, rest, ended, rfl⟩ := exists_ends_of_fault failed
  by_cases deep : ∃ limit, cause = .tooDeep limit
  · have some : tokens ≠ [] := by
      rintro rfl
      obtain ⟨limit, rfl⟩ := deep
      cases ended
    obtain ⟨used, -, viable⟩ := viable_of_failure ended
    obtain ⟨j, upTo⟩ := exists_viableUpTo tokens (viable.take (Nat.zero_le _))
    refine ⟨j, fun _ => viableUpTo_iff upTo, fun shallow => (shallow ?_).elim, fun _ => ?_⟩
    · rwa [SyntaxFault.IsTooDeep, cause_locate]
    · exact behind_viable_of_failure ended some
  · have shallow : ∀ limit, cause ≠ .tooDeep limit := fun limit same => deep ⟨limit, same⟩
    obtain ⟨j, upTo, placed⟩ := near_offense_of_failure ended shallow
    refine ⟨j, fun _ => viableUpTo_iff upTo, fun _ => placed, fun h => (deep ?_).elim⟩
    rwa [SyntaxFault.IsTooDeep, cause_locate] at h

/-- A word for a kind and then, in the next line, no name for it. -/
def nameless : List Token := [⟨.number, "num", ⟨1, 1⟩⟩, ⟨.integer, "5", ⟨2, 1⟩⟩]

theorem viable_nameless : Viable (nameless.take 1) :=
  ⟨[⟨.identifier, "x", ⟨1, 5⟩⟩, ⟨.equal, "=", ⟨1, 7⟩⟩, ⟨.identifier, "y", ⟨1, 9⟩⟩,
      ⟨.semicolon, ";", ⟨1, 10⟩⟩, ⟨.identifier, "x", ⟨2, 1⟩⟩], 8,
    ⟨[.declared .number "x" (.name "y")], .name "x"⟩, rfl⟩

/-- The number is the offense, but the fault is reported at the word before it. -/
theorem nameless_near_offense : scan "num\n5" = .ok nameless ∧
    ofText 8 "num\n5" = .error ⟨.unexpected "num", ⟨1, 1⟩⟩ ∧ ViableUpTo nameless 1 := by
  have scanned : scan "num\n5" = .ok nameless := by with_unfolding_all rfl
  have failed : ofText 8 "num\n5" = .error ⟨.unexpected "num", ⟨1, 1⟩⟩ := by
    rw [ofText_of_scan scanned]
    rfl
  refine ⟨scanned, failed, ?_⟩
  obtain ⟨j, upTo, shallow, -⟩ := syntax_fault_near_offense scanned failed
  have upTo : ViableUpTo nameless j := (upTo j).2 rfl
  obtain ⟨⟨⟩, -⟩ | ⟨i, t, near, found, placed⟩ := shallow (by rintro ⟨limit, ⟨⟩⟩)
  have first : i = 0 := by
    cases i with
    | zero => rfl
    | succ i =>
      cases i with
      | zero => cases found; cases placed
      | succ i => cases found
  obtain rfl | rfl : j = 0 ∨ j = 1 := by omega
  · exact (upTo.offense (by decide) viable_nameless).elim
  · exact upTo

end Program

end Patchwork
