import Patchwork.Proofs.Binary64.Order
import Patchwork.Proofs.Counting

/-!
# Counting in doubles

A natural number is converted to the double nearest to it, whatever its size, and below the limit of
exactness to the double that holds it. A product of two doubles that hold natural numbers is
rounded only once, and so ranks as the double nearest to their product.
-/

namespace Patchwork.Binary64

open Float.Model Float.Model.UnpackedFloat

section Naturals

/-- The rank of the double nearest to a positive number. -/
def naturalRank (n : Nat) : Int :=
  (n.log2 - 52) * 2 ^ 52 + rounded (n * 2 ^ 52)

theorem naturalRank_bounds {n : Nat} (positive : 0 < n) :
    ((n.log2 : Int) - 52) * 2 ^ 52 + 2 ^ 52 ≤ naturalRank n ∧
      naturalRank n ≤ ((n.log2 : Int) - 52) * 2 ^ 52 + 2 ^ 53 := by
  have long : 52 ≤ (n * 2 ^ 52).log2 := by
    rw [log2_mul_pow positive]
    omega
  obtain ⟨low, high⟩ := rounded_bounds long
  simp only [naturalRank]
  omega

theorem log2_mono {m n : Nat} (positive : 0 < m) (h : m ≤ n) : m.log2 ≤ n.log2 := by
  rw [Nat.le_log2 (by omega)]
  exact Nat.le_trans (Nat.log2_self_le positive.ne') h

theorem log2_short {n : Nat} (positive : 0 < n) (small : n < 2 ^ 53) : n.log2 ≤ 52 :=
  Nat.le_of_lt_succ ((Nat.log2_lt positive.ne').2 small)

theorem naturalRank_mono {m n : Nat} (positive : 0 < m) (h : m ≤ n) :
    naturalRank m ≤ naturalRank n := by
  have positive' : 0 < n := by omega
  rcases Nat.lt_or_eq_of_le (log2_mono positive h) with lower | same
  · have high := (naturalRank_bounds positive).2
    have low := (naturalRank_bounds positive').1
    omega
  · have scaled : (m * 2 ^ 52).log2 = (n * 2 ^ 52).log2 := by
      rw [log2_mul_pow positive, log2_mul_pow positive', same]
    have order := rounded_mono scaled (Nat.mul_le_mul_right _ h)
    simp only [naturalRank]
    omega

theorem mantissa_bounds {n : Nat} (positive : 0 < n) (short : n.log2 ≤ 52) :
    2 ^ 52 ≤ n * 2 ^ (52 - n.log2) ∧ n * 2 ^ (52 - n.log2) < 2 ^ 53 := by
  have full : (n * 2 ^ (52 - n.log2)).log2 = 52 := by
    rw [log2_mul_pow positive]
    omega
  have nonzero : n * 2 ^ (52 - n.log2) ≠ 0 := Nat.mul_ne_zero positive.ne' (Nat.two_pow_pos _).ne'
  exact (Nat.log2_eq_iff nonzero).1 full

theorem rounded_short {n : Nat} (positive : 0 < n) (short : n.log2 ≤ 52) :
    rounded (n * 2 ^ 52) = n * 2 ^ (52 - n.log2) := by
  obtain ⟨low, high⟩ := mantissa_bounds positive short
  have full := log2_of_normal low high
  have split : n * 2 ^ 52 = n * 2 ^ (52 - n.log2) * 2 ^ n.log2 := by
    rw [Nat.mul_assoc, ← Nat.pow_add, Nat.sub_add_cancel short]
  rw [split, rounded_mul_pow full.ge, rounded_eq_self full]

/-- Numbers below the limit of exactness are told apart from all greater numbers. -/
theorem naturalRank_lt {m n : Nat} (positive : 0 < m) (short : m.log2 ≤ 52) (h : m < n) :
    naturalRank m < naturalRank n := by
  have positive' : 0 < n := by omega
  have mantissa := rounded_short positive short
  rcases Nat.lt_or_eq_of_le (log2_mono positive (Nat.le_of_lt h)) with lower | same
  · have full := (mantissa_bounds positive short).2
    have low := (naturalRank_bounds positive').1
    simp only [naturalRank] at low ⊢
    omega
  · have mantissa' := rounded_short positive' (same ▸ short)
    have order : m * 2 ^ (52 - m.log2) < n * 2 ^ (52 - n.log2) := by
      rw [same]
      exact Nat.mul_lt_mul_of_pos_right h (Nat.two_pow_pos _)
    simp only [naturalRank]
    omega

theorem pos_of_scaled {m n a k : Nat} (positive : 0 < m) (same : m * 2 ^ a = n * 2 ^ k) :
    0 < n := by
  apply Nat.pos_of_ne_zero
  rintro rfl
  rw [Nat.zero_mul] at same
  exact Nat.mul_ne_zero positive.ne' (Nat.two_pow_pos a).ne' same

/-- A mantissa that is a natural number after shifting is rounded to the double nearest to it. -/
theorem ranked_round {m n a k : Nat} {e : Int} (long : 2 ^ 52 ≤ m) (exponent : e = a - k)
    (same : m * 2 ^ a = n * 2 ^ k) :
    Ranked (roundWithAccuracy .binary64 .positive m e .exact) (naturalRank n) := by
  have positive : 0 < m := by omega
  have positive' : 0 < n := pos_of_scaled positive same
  have bits : 52 ≤ m.log2 := (Nat.le_log2 positive.ne').2 long
  have logs : m.log2 + a = n.log2 + k := by
    rw [← log2_mul_pow positive, same, log2_mul_pow positive']
  have bits' : 52 ≤ (n * 2 ^ 52).log2 := by
    rw [log2_mul_pow positive']
    omega
  have mantissas : rounded m = rounded (n * 2 ^ 52) := by
    rw [← rounded_mul_pow bits (a + 52), ← rounded_mul_pow bits' k, Nat.pow_add, ← Nat.mul_assoc,
      same, Nat.mul_right_comm]
  have rank : naturalRank n = (m.log2 + e - 52) * 2 ^ 52 + rounded m := by
    simp only [naturalRank]
    omega
  rw [rank]
  exact roundWithAccuracy_ranked bits (by omega)

theorem reaches_round {m n a k : Nat} {e : Int} (long : 2 ^ 52 ≤ m) (exponent : e = a - k)
    (same : m * 2 ^ a = n * 2 ^ k) :
    Reaches (Float.Model.pack (roundWithAccuracy .binary64 .positive m e .exact)).unpack
      (naturalRank n) := by
  have positive : 0 < n := pos_of_scaled (by omega) same
  have low := (naturalRank_bounds positive).1
  exact reaches_of_ranked (ranked_round long exponent same) (by omega)

end Naturals

section Exactness

/-- A double that is a natural number. -/
def Holds (u : UnpackedFloat) (n : Nat) : Prop :=
  ∃ m e positive, u = .finite .positive m e positive ∧ 2 ^ 52 ≤ m ∧
    ∃ a k : Nat, e = a - k ∧ m * 2 ^ a = n * 2 ^ k

theorem mul_reaches {u v : UnpackedFloat} {m n : Nat} (hu : Holds u m) (hv : Holds v n) :
    Reaches (Float.Model.pack (UnpackedFloat.mul .binary64 u v)).unpack (naturalRank (m * n)) := by
  obtain ⟨m₁, e₁, _, rfl, long, a, k, exponent, same⟩ := hu
  obtain ⟨m₂, e₂, positive, rfl, _, a', k', exponent', same'⟩ := hv
  have long' : 2 ^ 52 ≤ m₁ * m₂ := Nat.le_trans long (Nat.le_mul_of_pos_right _ positive)
  have product : m₁ * m₂ * 2 ^ (a + a') = m * n * 2 ^ (k + k') := by
    rw [Nat.pow_add, Nat.pow_add, Nat.mul_mul_mul_comm, same, same', Nat.mul_mul_mul_comm]
  exact reaches_round (e := e₁ + e₂) long' (by omega) product

theorem holds_of_reaches {u : UnpackedFloat} {n : Nat} (positive : 0 < n) (short : n.log2 ≤ 52)
    (h : Reaches u (naturalRank n)) : Holds u n := by
  have full := mantissa_bounds positive short
  have rank : naturalRank n = ((n.log2 : Int) - 52) * 2 ^ 52 + (n * 2 ^ (52 - n.log2) : Nat) := by
    rw [naturalRank, rounded_short positive short]
  have bounds := naturalRank_bounds positive
  rcases h with ⟨_, m, e, hm, rfl, low, high, same⟩ | ⟨infinite, _⟩
  · have mantissa : m = n * 2 ^ (52 - n.log2) := by omega
    refine ⟨m, e, hm, rfl, low, 0, 52 - n.log2, by omega, ?_⟩
    rw [mantissa, Nat.pow_zero, Nat.mul_one]
  · simp only [infiniteRank] at infinite
    omega

end Exactness

section Conversion

theorem holds_one : Holds (Float.ofBits 0x3FF0000000000000).toModel.unpack 1 := by
  obtain ⟨m, e, _, one, mantissa, exponent⟩ := unpack_normal (b := 0x3FF0000000000000#64)
    (by decide) (by decide) (by decide)
  have hidden : m = 2 ^ 52 := mantissa
  have shifted : e = -52 := exponent
  exact ⟨m, e, _, one, by omega, 0, 52, by omega, by omega⟩

theorem normalize_positive {n : Nat} (positive : 0 < n) :
    UnpackedFloat.ofNat .binary64 n = UnpackedFloat.round .binary64 .positive n 0 := by
  have sign : compare (n : Int) 0 = .gt := Int.compare_eq_gt.2 (by omega)
  unfold UnpackedFloat.ofNat UnpackedFloat.ofInt UnpackedFloat.normalize
  rw [sign]
  rfl

theorem round_short {n : Nat} (short : n.log2 ≤ 52) :
    UnpackedFloat.round .binary64 .positive n 0 =
      roundWithAccuracy .binary64 .positive (n * 2 ^ (52 - n.log2)) (n.log2 - 52) .exact := by
  have target : Format.binary64.targetExponent (totalExponent n 0) = n.log2 - 52 := by
    rw [targetExponent_normal (by omega)]
    omega
  have amount : (0 - ((n.log2 : Int) - 52)).toNat = 52 - n.log2 := by omega
  have exponent : 0 - ((52 - n.log2 : Nat) : Int) = n.log2 - 52 := by omega
  unfold UnpackedFloat.round decreaseExponent
  rw [target]
  simp only [amount, exponent, Nat.shiftLeft_eq]

theorem reaches_toFloat {n : Nat} (positive : 0 < n) (short : n.log2 ≤ 52) :
    Reaches n.toUInt64.toFloat.toModel.unpack (naturalRank n) := by
  have word : n.toUInt64.toNat = n := by
    have small : n < 2 ^ 53 := (Nat.log2_lt positive.ne').1 (by omega)
    rw [Nat.toUInt64, UInt64.toNat_ofNat', Nat.mod_eq_of_lt (by omega)]
  have long := (mantissa_bounds positive short).1
  have exponent : (n.log2 : Int) - 52 = (0 : Nat) - (52 - n.log2 : Nat) := by omega
  change Reaches (Float.Model.pack (UnpackedFloat.ofNat .binary64 n.toUInt64.toNat)).unpack _
  rw [word, normalize_positive positive, round_short short]
  exact reaches_round long exponent (Nat.mul_one _)

theorem ofNat_short {n : Nat} (small : n < 2 ^ 53) :
    Float.ofNat n = n.toUInt64.toFloat * Float.ofBits 0x3FF0000000000000 :=
  dif_pos ⟨small, Nat.zero_le 22⟩

theorem ofNat_long {n : Nat} (large : ¬n < 2 ^ 53) :
    Float.ofNat n = Float.ofModel (Float.Model.ofScientific n 0) :=
  dif_neg fun h => large h.1

theorem ofScientific_eq_round {n : Nat} (positive : 0 < n) :
    UnpackedFloat.ofScientific .binary64 n 0 =
      roundWithAccuracy .binary64 .positive (n * 2 ^ 53) (-53) .exact := by
  unfold UnpackedFloat.ofScientific
  rw [dif_neg positive.ne', if_neg (by decide),
    if_neg (show ¬(0 : Int) < -(2 ^ 11 + n.log2) by omega), if_pos (Int.le_refl 0)]
  change roundWithAccuracy .binary64 .positive (n <<< 53 * 1) (-53) .exact = _
  rw [Nat.mul_one, Nat.shiftLeft_eq]

/-- Conversion goes to the nearest double. -/
theorem reaches_ofNat {n : Nat} (positive : 0 < n) :
    Reaches (Float.ofNat n).toModel.unpack (naturalRank n) := by
  by_cases small : n < 2 ^ 53
  · have short := log2_short positive small
    have exact := mul_reaches (holds_of_reaches positive short (reaches_toFloat positive short))
      holds_one
    rw [ofNat_short small]
    rw [Nat.mul_one] at exact
    exact exact
  · have exponent : (-53 : Int) = (0 : Nat) - (53 : Nat) := by omega
    rw [ofNat_long small]
    change Reaches (Float.Model.pack (UnpackedFloat.ofScientific .binary64 n 0)).unpack _
    rw [ofScientific_eq_round positive]
    exact reaches_round (by omega) exponent (Nat.mul_one _)

theorem unpack_ofNat_zero : (Float.ofNat 0).toModel.unpack = .zero .positive :=
  rfl

end Conversion

section Wholes

theorem toNat_unpackMantissa (x : Float) :
    (@unpackMantissa .binary64 x.toBits.toBitVec).toNat = fractionField x := by
  simp [unpackMantissa, BitVec.extractLsb_toNat, fractionField, hiddenBit]

theorem toNat_unpackExponent (x : Float) :
    (@unpackExponent .binary64 x.toBits.toBitVec).toNat = exponentField x := by
  simp [unpackExponent, BitVec.extractLsb_toNat, Nat.shiftRight_eq_div_pow, exponentField,
    hiddenBit]

theorem unpack_of_fields {x : Float} (sign : isNegative x = false) (finite : exponentField x ≠ 2047)
    (normal : exponentField x ≠ 0) :
    ∃ m e positive, x.toModel.unpack = .finite .positive m e positive ∧
      m = 2 ^ 52 + fractionField x ∧ e = exponentField x - 1075 := by
  have low : @unpackExponent .binary64 x.toBits.toBitVec ≠ 0#11 := by
    intro zero
    have field := toNat_unpackExponent x
    rw [zero] at field
    exact normal field.symm
  have high : @unpackExponent .binary64 x.toBits.toBitVec ≠ -1#11 := by
    intro top
    have field := toNat_unpackExponent x
    rw [top] at field
    exact finite field.symm
  have plus : x.toBits.toBitVec.toNat < 2 ^ 63 := Nat.lt_of_not_le (of_decide_eq_false sign)
  rw [← toNat_unpackMantissa, ← toNat_unpackExponent]
  exact unpack_normal plus low high

theorem fractionField_lt (x : Float) : fractionField x < 2 ^ 52 :=
  Nat.mod_lt _ (Nat.two_pow_pos 52)

theorem signed_pos {b : Binary64} {n : Nat} (h : 0 < b.signed n) :
    b.negative = false ∧ b.signed n = n := by
  rw [signed] at h ⊢
  by_cases minus : b.negative = true
  · rw [if_pos minus] at h
    omega
  · exact ⟨Bool.not_eq_true _ ▸ minus, if_neg minus⟩

/-- A positive integer read from the exact value of a double. -/
theorem toInt?_pos {b : Binary64} {count : Int} (h : b.toInt? = some count) (positive : 0 < count) :
    b.negative = false ∧ ∃ a k : Nat, b.exponent = a - k ∧
      b.mantissa * 2 ^ a = count.toNat * 2 ^ k := by
  rw [toInt?] at h
  by_cases whole : 0 ≤ b.exponent
  · rw [if_pos whole] at h
    obtain rfl := Option.some.inj h
    obtain ⟨plus, magnitude⟩ := signed_pos positive
    refine ⟨plus, b.exponent.toNat, 0, by omega, ?_⟩
    rw [magnitude, Int.toNat_natCast]
    exact (Nat.mul_one _).symm
  · rw [if_neg whole] at h
    by_cases divides : b.mantissa % Nat.pow 2 (-b.exponent).toNat = 0
    · rw [if_pos divides] at h
      obtain rfl := Option.some.inj h
      obtain ⟨plus, magnitude⟩ := signed_pos positive
      refine ⟨plus, 0, (-b.exponent).toNat, by omega, ?_⟩
      rw [magnitude, Int.toNat_natCast]
      exact (Nat.mul_one _).trans (Nat.div_mul_cancel (Nat.dvd_of_mod_eq_zero divides)).symm
    · rw [if_neg divides] at h
      cases h

/-- The doubles between zero and the smallest normal one are not whole. -/
theorem not_whole_of_subnormal {m n a k : Nat} (short : m < 2 ^ 52) (positive : 0 < n)
    (exponent : a + 52 ≤ k) : m * 2 ^ a ≠ n * 2 ^ k := by
  have low : m * 2 ^ a < 2 ^ (52 + a) := by
    rw [Nat.pow_add]
    exact Nat.mul_lt_mul_of_pos_right short (Nat.two_pow_pos a)
  have high : 2 ^ k ≤ n * 2 ^ k := Nat.le_mul_of_pos_left _ positive
  have order : 2 ^ (52 + a) ≤ 2 ^ k := Nat.pow_le_pow_right Nat.two_pos (by omega)
  omega

theorem holds_of_whole? {x : Float} {count : Int} (h : Scalar.whole? x = some count)
    (positive : 0 < count) : Holds x.toModel.unpack count.toNat := by
  obtain ⟨b, exact, whole⟩ := Option.bind_eq_some_iff.1 h
  obtain ⟨plus, a, k, exponent, same⟩ := toInt?_pos whole positive
  rw [ofFloat?, isFinite] at exact
  by_cases finite : exponentField x = 2047
  · rw [finite] at exact
    cases exact
  · rw [if_neg (by simpa using finite)] at exact
    by_cases normal : exponentField x = 0
    · rw [if_pos normal] at exact
      obtain rfl := Option.some.inj exact
      dsimp only at exponent same
      exact absurd same
        (not_whole_of_subnormal (fractionField_lt x) (by omega) (by omega))
    · rw [if_neg normal] at exact
      obtain rfl := Option.some.inj exact
      obtain ⟨_, _, _, unpacked, rfl, rfl⟩ := unpack_of_fields plus finite normal
      exact ⟨_, _, _, unpacked, Nat.le_add_right _ _, a, k, exponent, same⟩

end Wholes

section Instance

theorem ofNat_lt {n : Nat} {x : Float} :
    Scalar.ofNat n < x ↔ (Float.ofNat n).toModel.unpack.lt x.toModel.unpack = true :=
  decide_eq_true_iff

/-- Doubles count in the order of the numbers, and exactly up to the limit of exactness. -/
instance binary64Counting : Scalar.Counting Float where
  lt_of_le {m n x} order beyond := by
    rw [ofNat_lt] at beyond ⊢
    rcases Nat.eq_zero_or_pos n with rfl | positive
    · obtain rfl : m = 0 := by omega
      exact beyond
    · have hn := reaches_ofNat positive
      rcases Nat.eq_zero_or_pos m with rfl | positive'
      · rw [unpack_ofNat_zero]
        exact zero_lt_of_reaches hn beyond
      · have hm := reaches_ofNat positive'
        exact lt_of_reaches_le hm hn (naturalRank_mono positive' order) beyond
  lt_mul {m n x count} whole small small' order := by
    rw [ofNat_lt]
    have positive : 0 < count * n := by omega
    have positiveFactor : 0 < n := by
      rcases Nat.eq_zero_or_pos n with rfl | h
      · simp at positive
      · exact h
    have positiveCount : 0 < count := Int.pos_of_mul_pos_left positive (by omega)
    have short := log2_short positiveFactor small'
    have product := mul_reaches (holds_of_whole? whole positiveCount)
      (holds_of_reaches positiveFactor short (reaches_ofNat positiveFactor))
    rcases Nat.eq_zero_or_pos m with rfl | positive'
    · rw [unpack_ofNat_zero]
      exact zero_lt_reaches product
    · have short' := log2_short positive' small
      have higher : m < count.toNat * n := by
        rw [← Int.toNat_of_nonneg positiveCount.le, ← Int.natCast_mul] at order
        exact Int.ofNat_lt.1 order
      have rank := naturalRank_lt positive' short' higher
      have bound := (naturalRank_bounds positive').2
      have finite : naturalRank m < infiniteRank := by
        simp only [infiniteRank]
        omega
      exact lt_of_reaches_lt (reaches_ofNat positive') product rank finite

end Instance

end Patchwork.Binary64
