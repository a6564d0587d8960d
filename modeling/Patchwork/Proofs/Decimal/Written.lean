import Mathlib.Data.List.DropRight
import Patchwork.Decimal.Form
import Patchwork.Proofs.Output.Number

/-!
# Doubles as numbers

A shortest decimal is found on a grid point of an interval above zero. So its first digit is not
zero, unless it is the decimal of zero, and every written form of a finite double is a number.
-/

namespace Patchwork

namespace RoundingInterval

variable {i : RoundingInterval}

theorem holds_of_nearest? {tie : Decimal.Tie} {n : Nat} (h : i.nearest? tie = some n) :
    i.holds n := by
  simp only [nearest?] at h
  split at h
  · next below above =>
    cases h
    have either (upper : Bool) :
        i.holds (if upper then i.value / i.denominator + 1 else i.value / i.denominator) := by
      cases upper with
      | true => exact above
      | false => exact below
    exact either _
  · next below _ => cases h; exact below
  · next above => cases h; exact above
  · cases h

theorem ne_zero_of_holds (positive : 0 < i.low) {n : Nat} (h : i.holds n) : n ≠ 0 := by
  rintro rfl
  simp only [holds] at h
  split at h
  · simp at h
    omega
  · simp at h

theorem low_onGrid_pos (positive : 0 < i.low) (exponent : Int) : 0 < (i.onGrid exponent).low :=
  Nat.mul_pos positive (Nat.pow_pos (by decide))

theorem low_ofBinary64_pos {b : Binary64} (some : b.mantissa ≠ 0) : 0 < (ofBinary64 b).low := by
  refine Nat.mul_pos ?_ (Nat.pow_pos (by decide))
  split <;> omega

end RoundingInterval

namespace Decimal

open Json

/-- The digits are those of zero, or start with another digit than zero. -/
inductive IsNormal : Decimal → Prop
  | zero : IsNormal zero
  | digits {c : Char} {cs : List Char} {leading : Int} :
      c ≠ '0' → IsDigits (c :: cs) → IsNormal ⟨c :: cs, leading⟩

theorem isDigits_toDigits (n : Nat) : IsDigits (Nat.toDigits 10 n) :=
  ⟨Nat.toDigits_ne_nil, fun _ member => Nat.isDigit_of_mem_toDigits (by decide) (by decide) member⟩

theorem head_toDigits {n : Nat} (some : n ≠ 0) : '0' ∉ (Nat.toDigits 10 n).head? := by
  induction n using Nat.strongRecOn with
  | ind n ih =>
    by_cases small : n < 10
    · rw [Nat.toDigits_of_lt_base small]
      simp [Nat.digitChar_eq_zero, some]
    · have shorter := ih (n / 10) (by omega) (by omega)
      rw [Nat.toDigits_of_base_le (by decide) (by omega)]
      cases first : Nat.toDigits 10 (n / 10) with
      | nil => exact absurd first Nat.toDigits_ne_nil
      | cons c cs => simpa [first] using shorter

theorem isNormal_ofScaled {n : Nat} (some : n ≠ 0) (exponent : Int) :
    (ofScaled n exponent).IsNormal := by
  have digits := isDigits_toDigits n
  have head := head_toDigits some
  -- Zeros are dropped at the end only, so what is left starts as all digits do.
  have kept : (Nat.toDigits 10 n).rdropWhile (· == '0') <+: Nat.toDigits 10 n :=
    List.rdropWhile_prefix _ _
  change IsNormal ⟨(Nat.toDigits 10 n).rdropWhile (· == '0'), _⟩
  generalize Nat.toDigits 10 n = all at *
  cases stripped : all.rdropWhile (· == '0') with
  | nil =>
    have zeros := List.rdropWhile_eq_nil_iff.1 stripped
    cases all with
    | nil => exact absurd rfl digits.1
    | cons c cs => simp_all
  | cons c cs =>
    obtain ⟨zeros, rfl⟩ := stripped ▸ kept
    refine .digits (fun same => head ?_) ⟨by simp, fun d member => digits.2 d ?_⟩
    · rw [← same]
      rfl
    · exact List.mem_append_left zeros member

theorem isNormal_shortest (tie : Tie) (b : Binary64) : (shortest tie b).IsNormal := by
  unfold shortest
  split
  · exact .zero
  · next some =>
    simp only
    cases found : (List.range' 1 17).findSome?
        ((RoundingInterval.ofBinary64 b).withDigits? tie) with
    -- A search without a result would give zero, whose digits are normal as well.
    | none => exact .zero
    | some d =>
      obtain ⟨count, _, found⟩ := List.exists_of_findSome?_eq_some found
      obtain ⟨n, near, rfl⟩ := Option.map_eq_some_iff.1 found
      have positive := RoundingInterval.low_ofBinary64_pos some
      have inside := RoundingInterval.holds_of_nearest? near
      exact isNormal_ofScaled (RoundingInterval.ne_zero_of_holds
        (RoundingInterval.low_onGrid_pos positive _) inside) _

theorem isDigit_of_mem_zeros {n : Nat} {c : Char} (member : c ∈ Form.zeros n) : c.isDigit := by
  rw [List.eq_of_mem_replicate member]
  rfl

theorem isDigits_zeros_append (n : Nat) {ds : List Char} (h : IsDigits ds) :
    IsDigits (Form.zeros n ++ ds) :=
  ⟨by simp [h.1], List.forall_mem_append.2 ⟨fun _ => isDigit_of_mem_zeros, h.2⟩⟩

theorem isDigits_append_zeros (n : Nat) {ds : List Char} (h : IsDigits ds) :
    IsDigits (ds ++ Form.zeros n) :=
  ⟨by simp [h.1], List.forall_mem_append.2 ⟨h.2, fun _ => isDigit_of_mem_zeros⟩⟩

section Normal

variable {d : Decimal} (h : d.IsNormal)

include h

theorem IsNormal.isDigits : IsDigits d.digits := by
  cases h with
  | zero => exact IsWhole.zero.isDigits
  | digits _ digits => exact digits

/-- The first digits can stand in front of a point. -/
theorem IsNormal.isWhole_take {n : Nat} (some : 0 < n) : IsWhole (d.digits.take n) := by
  obtain ⟨n, rfl⟩ := Nat.exists_eq_succ_of_ne_zero (Nat.ne_of_gt some)
  cases h with
  | zero => simpa [Decimal.zero] using IsWhole.zero
  | digits first digits =>
    exact .digits first ⟨by simp, fun c member => digits.2 c (List.take_subset (n + 1) _ member)⟩

/-- A decimal with all its digits in front of the point is filled up with zeros there. -/
theorem IsNormal.isWhole_append_zeros (fits : d.digits.length ≤ d.leading.toNat + 1) :
    IsWhole (d.digits ++ Form.zeros (d.leading.toNat + 1 - d.digits.length)) := by
  cases h with
  | zero => exact .zero
  | digits first digits => exact .digits first (isDigits_append_zeros _ digits)

theorem IsNormal.isFraction_drop {n : Nat} (more : n < d.digits.length) :
    IsFraction ('.' :: d.digits.drop n) :=
  .digits ⟨by simp; omega, fun c member => h.isDigits.2 c (List.mem_of_mem_drop member)⟩

variable (form : Form) {sign : List Char} (signed : sign ∈ [[], ['-']])

include signed

theorem isNumber_writePositional : IsNumber (sign ++ form.writePositional d) := by
  unfold Form.writePositional
  split
  · have fraction := IsFraction.digits (isDigits_zeros_append (-d.leading - 1).toNat h.isDigits)
    simpa using IsNumber.parts signed .zero fraction .none
  · simp only
    split
    · next fits =>
      have fraction : IsFraction (if form.point then ['.', '0'] else []) := by
        split
        · exact .digits IsWhole.zero.isDigits
        · exact .none
      simpa using IsNumber.parts signed (h.isWhole_append_zeros fits) fraction .none
    · next more =>
      have fraction := h.isFraction_drop (Nat.lt_of_not_le more)
      simpa using IsNumber.parts signed (h.isWhole_take (Nat.succ_pos _)) fraction .none

theorem isNumber_writeScientific : IsNumber (sign ++ form.writeScientific d) := by
  have fraction : IsFraction
      (if (d.digits.drop 1).isEmpty then [] else '.' :: d.digits.drop 1) := by
    split
    · exact .none
    · next more =>
      rw [List.isEmpty_iff, List.drop_eq_nil_iff] at more
      exact h.isFraction_drop (Nat.lt_of_not_le more)
  have exponent : IsExponent (form.writeExponent d.leading) := by
    refine .digits (by decide) ?_ (isDigits_toDigits _)
    split
    · decide
    · split <;> decide
  simpa [Form.writeScientific] using
    IsNumber.parts signed (h.isWhole_take Nat.one_pos) fraction exponent

end Normal

namespace Form

variable (form : Form) {x : Float}

theorem isNumber_write {d : Decimal} (h : d.IsNormal) (sign : List Char)
    (signed : sign ∈ [[], ['-']]) : IsNumber (sign ++ form.write d) := by
  unfold write
  split
  · exact isNumber_writePositional h form signed
  · exact isNumber_writeScientific h form signed

/-- Every written form of a finite double is a number. -/
theorem isNumber_text (finite : Binary64.isFinite x) : IsNumber (form.text x).toList := by
  have defined : Binary64.isNaN x = false := by
    simp_all [Binary64.isFinite, Binary64.isNaN]
  obtain ⟨b, parts⟩ : ∃ b, Binary64.ofFloat? x = some b := by
    simp only [Binary64.ofFloat?, finite, Bool.not_true, Bool.false_eq_true, if_false]
    split <;> exact ⟨_, rfl⟩
  have normal := isNormal_shortest form.tie b
  simp only [text, defined, parts, Bool.false_eq_true, if_false, String.toList_ofList]
  split
  · simpa using form.isNumber_write normal ['-'] (by decide)
  · simpa using form.isNumber_write normal [] (by decide)

/-- A double that is not finite has a name. -/
theorem text_of_not_isFinite (infinite : Binary64.isFinite x = false) :
    form.text x ∈ ["NaN", "inf", "-inf"] := by
  have parts : Binary64.ofFloat? x = none := by simp [Binary64.ofFloat?, infinite]
  simp only [text, parts]
  split
  · decide
  · split <;> decide

end Form

end Decimal

end Patchwork
