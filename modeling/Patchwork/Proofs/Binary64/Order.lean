import Patchwork.Proofs.Binary64.Rounding

/-!
# The order of doubles

Packing keeps a positive normal double as it is, or turns it into infinity when it is too large.
The comparison of packed doubles is then that of their ranks.
-/

namespace Patchwork.Binary64

open Float.Model Float.Model.UnpackedFloat

section Packing

theorem toNat_append {j k : Nat} (a : BitVec j) (b : BitVec k) :
    (a ++ b).toNat = a.toNat * 2 ^ k + b.toNat := by
  rw [BitVec.toNat_append, ← Nat.shiftLeft_add_eq_or_of_lt b.isLt, Nat.shiftLeft_eq]

theorem toNat_unpackSign (b : BitVec 64) :
    (@unpackSign .binary64 b).toNat = b.toNat / 2 ^ 63 % 2 := by
  change (b.extractLsb' 63 1).toNat = _
  rw [BitVec.extractLsb'_toNat, Nat.shiftRight_eq_div_pow]

theorem unpackSign_eq_positive {b : BitVec 64} (h : b.toNat < 2 ^ 63) :
    @unpackSign .binary64 b = 0#1 := by
  apply BitVec.eq_of_toNat_eq
  rw [toNat_unpackSign, BitVec.toNat_ofNat]
  omega

theorem packComponents_positive_lt (e : BitVec 11) (m : BitVec 52) :
    (packComponents .binary64 .positive e m).toNat < 2 ^ 63 := by
  have bound := e.isLt
  have bound' := m.isLt
  have fields : (packComponents .binary64 .positive e m).toNat = e.toNat * 2 ^ 52 + m.toNat := by
    change (0#1 ++ e ++ m).toNat = _
    rw [toNat_append, toNat_append]
    simp
  omega

/-- A normal double is unpacked from its fields, with the hidden bit put back. -/
theorem unpack_normal {b : BitVec 64} (sign : b.toNat < 2 ^ 63)
    (low : @unpackExponent .binary64 b ≠ 0#11) (high : @unpackExponent .binary64 b ≠ -1#11) :
    ∃ m e positive, UnpackedFloat.unpack .binary64 b = .finite .positive m e positive ∧
      m = 2 ^ 52 + (@unpackMantissa .binary64 b).toNat ∧
      e = (@unpackExponent .binary64 b).toNat - 1075 := by
  have mantissa := toNat_append 1#1 (@unpackMantissa .binary64 b)
  have positive : 0 < (1#1 ++ @unpackMantissa .binary64 b).toNat := by
    rw [mantissa]
    exact Nat.add_pos_left (by decide) _
  unfold UnpackedFloat.unpack
  rw [if_neg high, if_neg low, unpackSign_eq_positive sign]
  exact ⟨_, _, positive, rfl, mantissa, rfl⟩

theorem unpack_infinity : UnpackedFloat.unpack .binary64 (packedInfinity .binary64 .positive) =
    .infinity .positive := by
  unfold UnpackedFloat.unpack packedInfinity
  rw [unpackExponent_packComponents, if_pos rfl, unpackMantissa_packComponents,
    unpackSign_eq_positive (packComponents_positive_lt _ _)]
  exact if_pos rfl

theorem biased_exponent (e : Int) :
    e + Format.binary64.exponentBias + Format.binary64.mantissaBitsWithoutImplicit = e + 1075 := by
  change e + 1023 + 52 = _
  omega

theorem pack_past {m : Nat} {e : Int} (positive : 0 < m) (past : 972 ≤ e) :
    UnpackedFloat.pack .binary64 (.finite .positive m e positive) =
      packedInfinity .binary64 .positive := by
  unfold UnpackedFloat.pack
  rw [biased_exponent]
  exact if_pos (show 2 ^ 11 ≤ (e + 1075).toNat + 1 by omega)

theorem pack_within {m : Nat} {e : Int} (positive : 0 < m) (low : 2 ^ 52 ≤ m) (high : m < 2 ^ 53)
    (within : e < 972) :
    UnpackedFloat.pack .binary64 (.finite .positive m e positive) =
      packComponents .binary64 .positive (BitVec.ofNat 11 (e + 1075).toNat)
        (BitVec.ofNat 52 m) := by
  have width : m.log2 + 1 = Format.binary64.mantissaBits := by
    rw [log2_of_normal low high]
    rfl
  unfold UnpackedFloat.pack
  rw [biased_exponent, if_neg (show ¬2 ^ 11 ≤ (e + 1075).toNat + 1 by omega), if_pos width]

/-- The exponent field of a normal double is neither at the bottom nor at the top. -/
theorem unpack_pack_within {m : Nat} {e : Int} (positive : 0 < m) (low : 2 ^ 52 ≤ m)
    (high : m < 2 ^ 53) (normal : -1074 ≤ e) (within : e < 972) :
    UnpackedFloat.unpack .binary64 (UnpackedFloat.pack .binary64 (.finite .positive m e positive)) =
      .finite .positive m e positive := by
  have field : (BitVec.ofNat 11 (e + 1075).toNat).toNat = (e + 1075).toNat := by
    rw [BitVec.toNat_ofNat, Nat.mod_eq_of_lt (by omega)]
  have apart (stop : BitVec 11) (h : stop.toNat ≠ (e + 1075).toNat) :
      @unpackExponent .binary64 (packComponents .binary64 .positive
        (BitVec.ofNat 11 (e + 1075).toNat) (BitVec.ofNat 52 m)) ≠ stop := by
    rintro rfl
    rw [unpackExponent_packComponents, field] at h
    exact h rfl
  have bottom : (0#11).toNat ≠ (e + 1075).toNat := by
    change 0 ≠ _
    omega
  have top : (-1#11).toNat ≠ (e + 1075).toNat := by
    change 2047 ≠ _
    omega
  obtain ⟨m', e', _, unpacked, mantissa, exponent⟩ := unpack_normal
    (packComponents_positive_lt (BitVec.ofNat 11 (e + 1075).toNat) (BitVec.ofNat 52 m))
    (apart _ bottom) (apart _ top)
  rw [unpackMantissa_packComponents, BitVec.toNat_ofNat] at mantissa
  change m' = 2 ^ 52 + m % 2 ^ 52 at mantissa
  rw [unpackExponent_packComponents, field] at exponent
  obtain rfl : m' = m := by omega
  obtain rfl : e' = e := by omega
  rw [pack_within positive low high within]
  exact unpacked

/-- Where infinity takes over. -/
def infiniteRank : Int :=
  973 * 2 ^ 52

/-- A double of a rank, which may lie past all finite doubles. -/
def Reaches (u : UnpackedFloat) (rank : Int) : Prop :=
  (rank < infiniteRank ∧ Ranked u rank) ∨ (infiniteRank ≤ rank ∧ u = .infinity .positive)

theorem reaches_of_ranked {u : UnpackedFloat} {rank : Int} (h : Ranked u rank)
    (normal : -1073 * 2 ^ 52 ≤ rank) : Reaches (Float.Model.pack u).unpack rank := by
  obtain ⟨m, e, positive, rfl, low, high, rfl⟩ := h
  change Reaches (UnpackedFloat.unpack .binary64 (UnpackedFloat.pack .binary64 _)) _
  by_cases past : 972 ≤ e
  · rw [pack_past positive past, unpack_infinity]
    refine .inr ⟨?_, rfl⟩
    simp only [infiniteRank]
    omega
  · rw [unpack_pack_within positive low high (by omega) (by omega)]
    refine .inl ⟨?_, m, e, positive, rfl, low, high, rfl⟩
    simp only [infiniteRank]
    omega

end Packing

section Order

/-- Doubles are compared by their exponents first, which is right for full mantissas. -/
theorem lt_positive {m m' : Nat} {e e' : Int} {positive : 0 < m} {positive' : 0 < m'} :
    (finite .positive m e positive).lt (finite .positive m' e' positive') = true ↔
      e < e' ∨ e = e' ∧ m < m' := by
  change (some ((compare e e').then (compare m m')) == some Ordering.lt) = true ↔ _
  simp only [beq_iff_eq, Option.some.injEq, Ordering.then_eq_lt, Int.compare_eq_lt,
    Nat.compare_eq_lt, Int.compare_eq_eq]

theorem lt_ranked {u v : UnpackedFloat} {j k : Int} (hu : Ranked u j) (hv : Ranked v k) :
    u.lt v = true ↔ j < k := by
  obtain ⟨m, e, _, rfl, low, high, rfl⟩ := hu
  obtain ⟨m', e', _, rfl, low', high', rfl⟩ := hv
  rw [lt_positive]
  omega

theorem not_infinity_lt (u : UnpackedFloat) : (infinity .positive).lt u = false := by
  cases u with
  | notANumber => rfl
  | infinity s => cases s <;> rfl
  | zero s => rfl
  | finite s m e positive => rfl

theorem lt_of_ranked_le {u v c : UnpackedFloat} {j k : Int} (hu : Ranked u j) (hv : Ranked v k)
    (order : j ≤ k) (beyond : v.lt c = true) : u.lt c = true := by
  obtain ⟨m, e, _, rfl, low, high, rfl⟩ := hu
  obtain ⟨m', e', _, rfl, low', high', rfl⟩ := hv
  cases c with
  | notANumber => cases beyond
  | infinity s =>
    cases s with
    | negative => cases beyond
    | positive => rfl
  | zero s => cases beyond
  | finite s m'' e'' _ =>
    cases s with
    | negative => cases beyond
    | positive =>
      rw [lt_positive] at beyond ⊢
      omega

/-- What is beyond a double is beyond every double of a lower rank. -/
theorem lt_of_reaches_le {u v c : UnpackedFloat} {j k : Int} (hu : Reaches u j)
    (hv : Reaches v k) (order : j ≤ k) (beyond : v.lt c = true) : u.lt c = true := by
  rcases hv with ⟨finite, hv⟩ | ⟨_, rfl⟩
  · rcases hu with ⟨_, hu⟩ | ⟨infinite, _⟩
    · exact lt_of_ranked_le hu hv order beyond
    · omega
  · rw [not_infinity_lt] at beyond
    cases beyond

/-- A higher rank is seen below infinity. -/
theorem lt_of_reaches_lt {u v : UnpackedFloat} {j k : Int} (hu : Reaches u j)
    (hv : Reaches v k) (order : j < k) (finite : j < infiniteRank) : u.lt v = true := by
  rcases hu with ⟨_, hu⟩ | ⟨infinite, _⟩
  · rcases hv with ⟨_, hv⟩ | ⟨_, rfl⟩
    · exact (lt_ranked hu hv).2 order
    · obtain ⟨m, e, _, rfl, _⟩ := hu
      rfl
  · omega

theorem zero_lt_of_reaches {u c : UnpackedFloat} {rank : Int} (hu : Reaches u rank)
    (beyond : u.lt c = true) : (zero .positive).lt c = true := by
  rcases hu with ⟨_, m, e, _, rfl, _⟩ | ⟨_, rfl⟩
  · cases c with
    | notANumber => cases beyond
    | zero s => cases beyond
    | infinity s | finite s =>
      cases s with
      | negative => cases beyond
      | positive => rfl
  · rw [not_infinity_lt] at beyond
    cases beyond

theorem zero_lt_reaches {u : UnpackedFloat} {rank : Int} (hu : Reaches u rank) :
    (zero .positive).lt u = true := by
  rcases hu with ⟨_, m, e, _, rfl, _⟩ | ⟨_, rfl⟩ <;> rfl

end Order

end Patchwork.Binary64
