import Mathlib.Tactic.Ring
import Patchwork.Scalar.Binary64

/-!
# Rounding to doubles

The arithmetic of doubles rounds a mantissa by shifting it to the right and keeping two more bits of
what falls off. A shifted mantissa with these bits has a weight, and both shifting and rounding
respect it, so that rounding is monotone. A positive normal double is located by its rank, which
goes on evenly where the exponent steps up.
-/

namespace Patchwork.Binary64

open Float.Model Float.Model.UnpackedFloat

section Shifting

/-- The order of mantissas with their two residual bits, as a number. -/
def weight (em : ExtendedMantissa) : Nat :=
  4 * em.mantissa + 2 * em.roundBit.toNat + em.stickyBit.toNat

theorem toNat_isOdd (m : Nat) : (m % 2 != 0).toNat = m % 2 := by
  rcases Nat.mod_two_eq_zero_or_one m with h | h <;> simp [h]

theorem weight_shiftRightOne (em : ExtendedMantissa) :
    weight em.shiftRightOne = 2 * em.mantissa + (em.roundBit || em.stickyBit).toNat := by
  simp only [weight, ExtendedMantissa.shiftRightOne, toNat_isOdd]
  omega

theorem weight_shiftRightOne_mono {a b : ExtendedMantissa} (h : weight a ≤ weight b) :
    weight a.shiftRightOne ≤ weight b.shiftRightOne := by
  rw [weight_shiftRightOne, weight_shiftRightOne]
  obtain ⟨m, r, s⟩ := a
  obtain ⟨m', r', s'⟩ := b
  revert h
  cases r <;> cases s <;> cases r' <;> cases s' <;> simp [weight] <;> omega

theorem shift_succ (em : ExtendedMantissa) (k : Nat) :
    em >>> (k + 1) = (em >>> k).shiftRightOne := rfl

theorem shift_add (em : ExtendedMantissa) (j k : Nat) : em >>> (j + k) = (em >>> j) >>> k := by
  induction k with
  | zero => rfl
  | succ k ih => rw [← Nat.add_assoc, shift_succ, shift_succ, ih]

theorem weight_shift_mono {a b : ExtendedMantissa} (h : weight a ≤ weight b) (k : Nat) :
    weight (a >>> k) ≤ weight (b >>> k) := by
  induction k with
  | zero => exact h
  | succ k ih => exact weight_shiftRightOne_mono ih

theorem mantissa_shift (em : ExtendedMantissa) (k : Nat) :
    (em >>> k).mantissa = em.mantissa / 2 ^ k := by
  induction k with
  | zero => exact (Nat.div_one _).symm
  | succ k ih =>
    rw [shift_succ, Nat.pow_succ, ← Nat.div_div_eq_div_mul, ← ih]
    rfl

/-- Zeros that were appended fall off without a trace. -/
theorem shift_appended (m k : Nat) :
    (⟨m * 2 ^ k, false, false⟩ : ExtendedMantissa) >>> k = ⟨m, false, false⟩ := by
  induction k generalizing m with
  | zero => rw [Nat.pow_zero, Nat.mul_one]; rfl
  | succ k ih =>
    have even : m * 2 ^ (k + 1) = m * 2 * 2 ^ k := by rw [Nat.pow_succ]; ring
    rw [shift_succ, even, ih]
    simp [ExtendedMantissa.shiftRightOne]

theorem roundedMantissa_mono {a b : ExtendedMantissa} (h : weight a ≤ weight b) :
    a.roundedMantissa ≤ b.roundedMantissa := by
  obtain ⟨m, r, s⟩ := a
  obtain ⟨m', r', s'⟩ := b
  revert h
  cases r <;> cases s <;> cases r' <;> cases s' <;>
    simp [weight, ExtendedMantissa.roundedMantissa, ExtendedMantissa.accuracy,
      Accuracy.roundToNearestEven] <;> omega

/-- Rounding goes to one of the two neighbours. -/
theorem roundedMantissa_bounds (em : ExtendedMantissa) :
    em.mantissa ≤ em.roundedMantissa ∧ em.roundedMantissa ≤ em.mantissa + 1 := by
  have bits : em.roundBit.toNat ≤ 1 ∧ em.stickyBit.toNat ≤ 1 :=
    ⟨Bool.toNat_le _, Bool.toNat_le _⟩
  have below : weight ⟨em.mantissa, false, false⟩ ≤ weight em := by
    simp only [weight, Bool.toNat_false]
    omega
  have above : weight em ≤ weight ⟨em.mantissa + 1, false, false⟩ := by
    simp only [weight, Bool.toNat_false]
    omega
  exact ⟨roundedMantissa_mono below, roundedMantissa_mono above⟩

end Shifting

section Mantissas

/-- What a mantissa of 53 bits or more is rounded to, in units of its 53rd bit. -/
def rounded (m : Nat) : Nat :=
  ((⟨m, false, false⟩ : ExtendedMantissa) >>> (m.log2 - 52)).roundedMantissa

theorem pos_of_long {m : Nat} (long : 52 ≤ m.log2) : 0 < m := by
  apply Nat.pos_of_ne_zero
  rintro rfl
  simp at long

theorem rounded_bounds {m : Nat} (long : 52 ≤ m.log2) :
    2 ^ 52 ≤ rounded m ∧ rounded m ≤ 2 ^ 53 := by
  have nonzero : m ≠ 0 := (pos_of_long long).ne'
  have low : 2 ^ 52 ≤ m / 2 ^ (m.log2 - 52) := by
    rw [Nat.le_div_iff_mul_le (Nat.two_pow_pos _), ← Nat.pow_add]
    rw [show 52 + (m.log2 - 52) = m.log2 by omega]
    exact Nat.log2_self_le nonzero
  have high : m / 2 ^ (m.log2 - 52) < 2 ^ 53 := by
    rw [Nat.div_lt_iff_lt_mul (Nat.two_pow_pos _), ← Nat.pow_add]
    rw [show 53 + (m.log2 - 52) = m.log2 + 1 by omega]
    exact Nat.lt_log2_self
  have near := roundedMantissa_bounds ((⟨m, false, false⟩ : ExtendedMantissa) >>> (m.log2 - 52))
  rw [mantissa_shift] at near
  change _ ≤ rounded m ∧ rounded m ≤ _ at near
  dsimp only at near
  omega

theorem rounded_mono {m n : Nat} (same : m.log2 = n.log2) (h : m ≤ n) :
    rounded m ≤ rounded n := by
  have heavier : weight ⟨m, false, false⟩ ≤ weight ⟨n, false, false⟩ := by
    simp only [weight]
    omega
  rw [rounded, rounded, same]
  exact roundedMantissa_mono (weight_shift_mono heavier _)

theorem log2_mul_pow {m : Nat} (positive : 0 < m) (k : Nat) : (m * 2 ^ k).log2 = m.log2 + k := by
  have nonzero : m ≠ 0 := Nat.ne_of_gt positive
  rw [Nat.log2_eq_iff (Nat.mul_ne_zero nonzero (Nat.two_pow_pos k).ne')]
  constructor
  · rw [Nat.pow_add]
    exact Nat.mul_le_mul_right _ (Nat.log2_self_le nonzero)
  · rw [show m.log2 + k + 1 = m.log2 + 1 + k by omega, Nat.pow_add]
    exact Nat.mul_lt_mul_of_pos_right Nat.lt_log2_self (Nat.two_pow_pos k)

theorem rounded_mul_pow {m : Nat} (long : 52 ≤ m.log2) (k : Nat) :
    rounded (m * 2 ^ k) = rounded m := by
  have positive : 0 < m := pos_of_long long
  have amount : m.log2 + k - 52 = k + (m.log2 - 52) := by omega
  rw [rounded, rounded, log2_mul_pow positive, amount, shift_add, shift_appended]

theorem rounded_eq_self {m : Nat} (exact : m.log2 = 52) : rounded m = m := by
  rw [rounded, exact]
  rfl

end Mantissas

section Ranks

/-- A positive normal double before it is packed. Its rank grows with its value, by one from each
double to the next. -/
def Ranked (u : UnpackedFloat) (rank : Int) : Prop :=
  ∃ m e positive, u = .finite .positive m e positive ∧ 2 ^ 52 ≤ m ∧ m < 2 ^ 53 ∧
    rank = e * 2 ^ 52 + m

theorem log2_of_normal {m : Nat} (low : 2 ^ 52 ≤ m) (high : m < 2 ^ 53) : m.log2 = 52 :=
  (Nat.log2_eq_iff (by omega)).2 ⟨low, high⟩

theorem targetExponent_normal {m : Nat} {e : Int} (h : -1022 ≤ m.log2 + e) :
    Format.binary64.targetExponent (totalExponent m e) = m.log2 + e - 52 := by
  have width : (Format.binary64.mantissaBits : Int) = 53 := rfl
  have least : Format.binary64.minExponent = -1074 := rfl
  unfold Format.targetExponent totalExponent
  rw [width, least]
  omega

theorem shiftToTargetExponent_normal {m : Nat} {e : Int} (long : 52 ≤ m.log2)
    (h : -1022 ≤ m.log2 + e) :
    shiftToTargetExponent .binary64 m e .exact =
      ((⟨m, false, false⟩ : ExtendedMantissa) >>> (m.log2 - 52), m.log2 + e - 52) := by
  have amount : ((m.log2 : Int) + e - 52 - e).toNat = m.log2 - 52 := by omega
  simp only [shiftToTargetExponent, targetExponent_normal h, shiftToExponent, amount,
    ExtendedMantissa.ofMantissaAndAccuracy, Prod.mk.injEq, true_and]
  omega

/-- A carry that rounding made is shifted out again, and the rank stays. -/
theorem shiftToTargetExponent_rounded {r : Nat} {e : Int} (low : 2 ^ 52 ≤ r) (high : r ≤ 2 ^ 53)
    (h : -1074 ≤ e) :
    2 ^ 52 ≤ (shiftToTargetExponent .binary64 r e .exact).1.mantissa ∧
      (shiftToTargetExponent .binary64 r e .exact).1.mantissa < 2 ^ 53 ∧
      e * 2 ^ 52 + r = (shiftToTargetExponent .binary64 r e .exact).2 * 2 ^ 52 +
        (shiftToTargetExponent .binary64 r e .exact).1.mantissa := by
  by_cases carry : r = 2 ^ 53
  · have exponent : r.log2 = 53 := by rw [carry]; exact Nat.log2_two_pow
    rw [shiftToTargetExponent_normal (by omega) (by omega), mantissa_shift, exponent]
    dsimp only
    omega
  · have exponent : r.log2 = 52 := log2_of_normal low (by omega)
    rw [shiftToTargetExponent_normal (by omega) (by omega), mantissa_shift, exponent]
    dsimp only
    omega

/-- The rank of what a long enough mantissa is rounded to. -/
theorem roundWithAccuracy_ranked {m : Nat} {e : Int} (long : 52 ≤ m.log2)
    (h : -1022 ≤ m.log2 + e) :
    Ranked (roundWithAccuracy .binary64 .positive m e .exact)
      ((m.log2 + e - 52) * 2 ^ 52 + rounded m) := by
  obtain ⟨low, high⟩ := rounded_bounds long
  obtain ⟨low', high', same⟩ :=
    shiftToTargetExponent_rounded (e := m.log2 + e - 52) low high (by omega)
  unfold roundWithAccuracy
  rw [shiftToTargetExponent_normal long h]
  change Ranked (if _ : (shiftToTargetExponent .binary64 (rounded m) _ .exact).1.mantissa = 0
    then _ else _) _
  rw [dif_neg (by omega)]
  exact ⟨_, _, _, rfl, low', high', same⟩

end Ranks

end Patchwork.Binary64
