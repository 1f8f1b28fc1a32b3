import StreamSelect.Proofs.Binary64.Arithmetic
import StreamSelect.Proofs.Decimal.Rounding

/-!
The parts of a double and the number that it stands for: splitting a double gives its mantissa and
exponent, and putting a small integer together gives that integer.
-/
namespace StreamSelect.Binary64
open Float.Model (Format UnpackedFloat)
open Float.Model.UnpackedFloat (packComponents unpack unpackMantissa unpackExponent unpackSign
  Sign)

section Bits
variable (b : BitVec Format.binary64.numBits)

theorem toNat_unpackMantissa : (unpackMantissa b).toNat = b.toNat % 2 ^ 52 := by
  simp [unpackMantissa, BitVec.extractLsb_toNat]

theorem toNat_unpackExponent : (unpackExponent b).toNat = b.toNat / 2 ^ 52 % 2 ^ 11 := by
  simp [unpackExponent, BitVec.extractLsb_toNat, Nat.shiftRight_eq_div_pow]

theorem toNat_unpackSign : (unpackSign b).toNat = b.toNat / 2 ^ 63 % 2 := by
  simp [unpackSign, BitVec.extractLsb_toNat, Nat.shiftRight_eq_div_pow]

theorem sign_ofBitVec_positive_iff (v : BitVec 1) : Sign.ofBitVec v = .positive ↔ v.toNat = 0 := by
  unfold Sign.ofBitVec
  split
  next h => simp [h]
  next h => exact ⟨nofun, fun hzero => absurd (BitVec.eq_of_toNat_eq hzero) h⟩

/-- What the bits of a positive double are. -/
theorem bits_of_unpack {m : ℕ} {e : ℤ} {hm : 0 < m}
    (h : unpack Format.binary64 b = .finite .positive m e hm) :
    b.toNat / 2 ^ 63 = 0 ∧ b.toNat / 2 ^ 52 % 2 ^ 11 ≠ 2 ^ 11 - 1 ∧
      (b.toNat / 2 ^ 52 % 2 ^ 11 = 0 ∧ m = b.toNat % 2 ^ 52 ∧ e = -1074 ∨
        b.toNat / 2 ^ 52 % 2 ^ 11 ≠ 0 ∧ m = b.toNat % 2 ^ 52 + 2 ^ 52 ∧
          e = ((b.toNat / 2 ^ 52 % 2 ^ 11 : ℕ) : ℤ) - 1075) := by
  have hlt : b.toNat < 2 ^ 64 := b.isLt
  have hpositive (hs : Sign.ofBitVec (unpackSign b) = .positive) : b.toNat / 2 ^ 63 = 0 := by
    have := (sign_ofBitVec_positive_iff _).mp hs
    rw [toNat_unpackSign] at this
    omega
  rw [unpack] at h
  rw [← toNat_unpackMantissa, ← toNat_unpackExponent]
  split_ifs at h with hfull _ hnone hzero
  · injection h with hs hm he
    have hnone' : (unpackExponent b).toNat = 0 := by rw [hnone]; rfl
    have hbias : ((Format.binary64.exponentBias : ℕ) : ℤ) +
        Format.binary64.mantissaBitsWithoutImplicit = 1075 := rfl
    exact ⟨hpositive hs, by omega, .inl ⟨hnone', hm.symm, by omega⟩⟩
  · injection h with hs hm he
    have hnone' : (unpackExponent b).toNat ≠ 0 := fun h => hnone (BitVec.eq_of_toNat_eq h)
    have hfull' : (unpackExponent b).toNat ≠ 2047 := fun h => hfull (BitVec.eq_of_toNat_eq h)
    have happend := toNat_append_mantissa (unpackMantissa b)
    exact ⟨hpositive hs, hfull', .inr ⟨hnone', by omega, he.symm⟩⟩

/-- The double whose bits are those of an exponent and a mantissa. -/
theorem unpack_of_bits {field rest : ℕ} (hb : b.toNat = field * 2 ^ 52 + rest) (hfield : 0 < field)
    (hfull : field < 2 ^ 11 - 1) (hrest : rest < 2 ^ 52) :
    unpack Format.binary64 b = .finite .positive (2 ^ 52 + rest) (field - 1075) (by omega) := by
  have hmantissa : (unpackMantissa b).toNat = rest := by
    rw [toNat_unpackMantissa]
    omega
  have hexponent : (unpackExponent b).toNat = field := by
    rw [toNat_unpackExponent]
    omega
  have hsign : Sign.ofBitVec (unpackSign b) = .positive := by
    rw [sign_ofBitVec_positive_iff, toNat_unpackSign]
    omega
  have hnotFull : unpackExponent b ≠ -1#11 := fun h => by
    have : (unpackExponent b).toNat = 2047 := by rw [h]; rfl
    omega
  have hnotNone : unpackExponent b ≠ 0#11 := fun h => by
    have : (unpackExponent b).toNat = 0 := by rw [h]; rfl
    omega
  have happend := toNat_append_mantissa (unpackMantissa b)
  rw [hmantissa] at happend
  rw [unpack]
  simp only [hnotFull, hnotNone, if_false, hsign, happend, hexponent]
  rfl

end Bits

variable {x : Float} {m : ℕ} {e : ℤ} {q : ℚ}

/-- A positive double is split into its mantissa and exponent. -/
theorem shape_of_unpack {hm : 0 < m} (h : x.toModel.unpack = .finite .positive m e hm) :
    shape x = .finite ⟨false, m, e⟩ := by
  have hbits : x.toBits.toNat = x.toModel.toBits.toBitVec.toNat := rfl
  obtain ⟨hsign, hfull, hparts⟩ := bits_of_unpack _ h
  unfold shape
  simp only [hbits, Nat.pow_eq]
  generalize BitVec.toNat _ = b at *
  have hpositive : ¬ b / 2 ^ 63 = 1 := by omega
  simp only [if_neg hfull, hpositive, decide_false]
  rcases hparts with ⟨hnone, rfl, rfl⟩ | ⟨hnone, rfl, rfl⟩
  · rw [if_pos hnone]
  · rw [if_neg hnone]

theorem number?_ofBits (b : UInt64) :
    number? (Float.ofBits b) = unpackedNumber? (unpack Format.binary64 b.toBitVec) :=
  number?_pack (isCanonical_unpack _)

/-- A small integer put together is that integer. -/
theorem number?_toFloat_natural {n : ℕ} (h : n < 2 ^ 53) :
    number? (Parts.toFloat ⟨false, n, 0⟩) = some (n : ℚ) := by
  rcases Nat.eq_zero_or_pos n with rfl | hpos
  · have hunpack : (Parts.toFloat ⟨false, 0, 0⟩).toModel.unpack = .zero .positive := rfl
    rw [number?, hunpack]
    rfl
  have hlog : n.log2 ≤ 52 := Nat.lt_succ_iff.mp ((Nat.log2_lt hpos.ne').mpr h)
  obtain ⟨room, hroom⟩ := Nat.exists_eq_add_of_le hlog
  -- the mantissa is shifted until it has 53 digits
  have hlow : 2 ^ 52 ≤ n * 2 ^ room := by
    rw [hroom, pow_add]
    exact Nat.mul_le_mul_right _ (Nat.log2_self_le hpos.ne')
  have hhigh : n * 2 ^ room < 2 ^ 53 := by
    have hdigits : 53 = n.log2 + 1 + room := by omega
    rw [hdigits, pow_add]
    exact Nat.mul_lt_mul_of_pos_right Nat.lt_log2_self (by positivity)
  have hbits : Parts.toFloat ⟨false, n, 0⟩ =
      .ofBits ((1075 - room) * 2 ^ 52 + (n * 2 ^ room - 2 ^ 52)).toUInt64 := by
    have hshift : min (52 - n.log2) (0 + 1074 : ℤ).toNat = room := by omega
    have hfield : ((0 : ℤ) - room + 1075).toNat = 1075 - room := by omega
    have hrest : n * 2 ^ room % 2 ^ 52 = n * 2 ^ room - 2 ^ 52 := by omega
    simp only [Parts.toFloat, if_neg hpos.ne', hshift, Nat.pow_eq, if_neg hlow.not_gt, hfield,
      hrest, Bool.false_eq_true, if_false, Nat.zero_add]
  have hnat : ((1075 - room) * 2 ^ 52 + (n * 2 ^ room - 2 ^ 52)).toUInt64.toBitVec.toNat =
      (1075 - room) * 2 ^ 52 + (n * 2 ^ room - 2 ^ 52) :=
    UInt64.toNat_ofNat_of_lt' (by rw [UInt64.size]; omega)
  have hmantissa : 2 ^ 52 + (n * 2 ^ room - 2 ^ 52) = n * 2 ^ room := by omega
  have hexponent : ((1075 - room : ℕ) : ℤ) - 1075 = -room := by omega
  have hscaled : ((n * 2 ^ room : ℕ) : ℚ) * 2 ^ (-room : ℤ) = n := by
    rw [zpow_neg, zpow_natCast]
    push_cast
    exact mul_inv_cancel_right₀ (by positivity) _
  rw [hbits, number?_ofBits, unpack_of_bits _ hnat (by omega) (by omega) (by omega),
    unpackedNumber?_positive, hmantissa, hexponent, hscaled]

/-- Rounding to an integer gives one, at most a half away. -/
theorem number?_round (hx : number? x = some q) (hq : 0 < q) :
    ∃ n : ℕ, number? (round x) = some (n : ℚ) ∧ |(n : ℚ) - q| ≤ 1 / 2 := by
  obtain ⟨m, e, hm, hunpack, hcanonical, rfl⟩ := unpack_of_number?_pos hx hq
  rw [round, shape_of_unpack hunpack]
  by_cases he : 0 ≤ e
  · obtain ⟨k, rfl⟩ := Int.eq_ofNat_of_zero_le he
    refine ⟨m * 2 ^ k, ?_, ?_⟩
    · simp only [if_pos he, hx, zpow_natCast]
      push_cast
      rfl
    · rw [zpow_natCast]
      push_cast
      rw [sub_self, abs_zero]
      norm_num
  · obtain ⟨k, hk⟩ := Int.eq_ofNat_of_zero_le (Int.neg_nonneg_of_nonpos (Int.le_of_not_le he))
    obtain rfl : e = -k := by omega
    have hrounded : (2 * m + Nat.pow 2 k) / (2 * Nat.pow 2 k) =
        Decimal.roundHalfUp m (Nat.pow 2 k) := rfl
    obtain ⟨habove, hbelow⟩ := Decimal.roundHalfUp_near m (Nat.pow_pos (n := k) two_pos)
    refine ⟨Decimal.roundHalfUp m (Nat.pow 2 k), ?_, ?_⟩
    · simp only [if_neg he, neg_neg, Int.toNat_natCast, hrounded]
      exact number?_toFloat_natural ((Decimal.roundHalfUp_le _ _).trans_lt hcanonical.lt)
    · have hunit : (m : ℚ) * 2 ^ (-k : ℤ) = m / (Nat.pow 2 k : ℕ) := by
        rw [zpow_neg, zpow_natCast, ← div_eq_mul_inv, Nat.pow_eq, Nat.cast_pow, Nat.cast_ofNat]
      rw [hunit]
      exact abs_le.mpr ⟨hbelow.le, habove⟩

end StreamSelect.Binary64
