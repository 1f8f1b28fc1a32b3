import Mathlib
import StreamSelect.Value.Order

/-!
The numbers that doubles stand for. Unpacking a double gives a canonical sign, mantissa and
exponent, and packing those gives the double back. So doubles are ordered as their numbers, and the
opposite double stands for the opposite number.
-/
namespace StreamSelect.Binary64
open Float.Model (Format UnpackedFloat)
open Float.Model.UnpackedFloat (Sign)

/-- The number that an unpacked double stands for, if it is finite. -/
def unpackedNumber? : UnpackedFloat → Option ℚ
  | .zero _ => some 0
  | .finite sign m e _ => some (sign.apply m * 2 ^ e)
  | _ => none

/-- The number that a double stands for, if it is finite. -/
def number? (x : Float) : Option ℚ := unpackedNumber? x.toModel.unpack

/-- The mantissa has 53 digits, or fewer at the least exponent. -/
structure Canonical (m : ℕ) (e : ℤ) : Prop where
  lt : m < 2 ^ 53
  least : -1074 ≤ e
  greatest : e ≤ 971
  normal : e = -1074 ∨ 2 ^ 52 ≤ m

/-- What unpacking gives, and packing keeps. -/
def IsCanonical : UnpackedFloat → Prop
  | .finite _ m e _ => Canonical m e
  | _ => True

open Float.Model.UnpackedFloat in
theorem toNat_append_mantissa (b : BitVec 52) : (1#1 ++ b).toNat = 2 ^ 52 + b.toNat := by
  rw [BitVec.toNat_append, ← Nat.shiftLeft_add_eq_or_of_lt b.isLt]
  rfl

open Float.Model.UnpackedFloat in
theorem isCanonical_unpack (b : BitVec Format.binary64.numBits) :
    IsCanonical (unpack Format.binary64 b) := by
  unfold unpack
  extract_lets mantissa exponent e _ sign
  have he : e = exponent.toNat - 1075 := rfl
  split_ifs with hones _ hnone hzero
  · trivial
  · trivial
  · trivial
  · have hm : mantissa.toNat < 2 ^ 52 := mantissa.isLt
    have hexponent : exponent.toNat = 0 := by rw [hnone]; rfl
    exact ⟨by omega, by omega, by omega, .inl (by omega)⟩
  · have hm : mantissa.toNat < 2 ^ 52 := mantissa.isLt
    have hexponent : exponent.toNat < 2 ^ 11 := exponent.isLt
    have hone : exponent.toNat ≠ 0 := fun h => hnone (BitVec.eq_of_toNat_eq h)
    have hfull : exponent.toNat ≠ 2047 := fun h => hones (BitVec.eq_of_toNat_eq h)
    have happend : (1#1 ++ mantissa).toNat = 2 ^ 52 + mantissa.toNat :=
      toNat_append_mantissa mantissa
    exact ⟨by omega, by omega, by omega, .inr (by omega)⟩

theorem isCanonical (x : Float) : IsCanonical x.toModel.unpack := isCanonical_unpack _

section Packing
open Float.Model.UnpackedFloat

theorem unpack_normal (sign : Sign) {exponent : BitVec 11} (mantissa : BitVec 52)
    (hfull : exponent ≠ -1#11) (hnone : exponent ≠ 0#11) :
    unpack Format.binary64 (packComponents Format.binary64 sign exponent mantissa) =
      .finite sign (2 ^ 52 + mantissa.toNat) (exponent.toNat - 1075) (by omega) := by
  have happend := toNat_append_mantissa mantissa
  simp only [unpack, unpackExponent_packComponents, unpackMantissa_packComponents,
    unpackSign_packComponents, Sign.ofBitVec_toBitVec, hfull, hnone, if_false, happend]
  rfl

theorem unpack_subnormal (sign : Sign) {mantissa : BitVec 52} (hzero : mantissa ≠ 0#52) :
    unpack Format.binary64 (packComponents Format.binary64 sign 0#11 mantissa) =
      .finite sign mantissa.toNat (-1074) (by
        have : mantissa.toNat ≠ 0 := fun h => hzero (BitVec.eq_of_toNat_eq h)
        omega) := by
  have hfull : (0#11 : BitVec 11) ≠ -1#11 := by decide
  simp only [unpack, unpackExponent_packComponents, unpackMantissa_packComponents,
    unpackSign_packComponents, Sign.ofBitVec_toBitVec, if_neg hfull, hzero, if_true]
  rfl

/-- Packing keeps a canonical double. -/
theorem unpack_pack {u : UnpackedFloat} (h : IsCanonical u) :
    unpack Format.binary64 (pack Format.binary64 u) = u := by
  cases u with
  | notANumber => simp [pack]
  | infinity s => simp [pack, packedInfinity, unpack]
  | zero s => simp [pack]
  | finite sign m e hpos =>
    obtain ⟨hlt, hleast, hgreatest, hnormal⟩ := h
    have hbias : ((Format.binary64.exponentBias : ℕ) : ℤ) +
        Format.binary64.mantissaBitsWithoutImplicit = 1075 := rfl
    have hsmall : ¬ 2 ^ Format.binary64.exponentBits ≤ (e + 1075).toNat + 1 := by
      change ¬ 2 ^ 11 ≤ _
      omega
    rw [pack, Int.add_assoc, hbias]
    simp only [if_neg hsmall]
    by_cases hm : 2 ^ 52 ≤ m
    · have hlog : m.log2 = 52 := (Nat.log2_eq_iff hpos.ne').mpr ⟨hm, hlt⟩
      have hexponent : (BitVec.ofNat 11 (e + 1075).toNat).toNat = (e + 1075).toNat :=
        Nat.mod_eq_of_lt (by omega)
      have hfull : BitVec.ofNat 11 (e + 1075).toNat ≠ -1#11 := fun h => by
        have : (e + 1075).toNat = 2047 := by rw [← hexponent, h]; rfl
        omega
      have hnone : BitVec.ofNat 11 (e + 1075).toNat ≠ 0#11 := fun h => by
        have : (e + 1075).toNat = 0 := by rw [← hexponent, h]; rfl
        omega
      have hmantissa : 2 ^ 52 + (BitVec.ofNat 52 m).toNat = m := by
        rw [BitVec.toNat_ofNat]
        omega
      rw [if_pos (by rw [hlog]; rfl), unpack_normal sign _ hfull hnone]
      congr 1
      rw [hexponent]
      omega
    · obtain rfl : e = -1074 := hnormal.resolve_right hm
      have hlog : m.log2 < 52 := (Nat.log2_lt hpos.ne').mpr (by omega)
      have hmantissa : (BitVec.ofNat 52 m).toNat = m := Nat.mod_eq_of_lt (by omega)
      have hzero : BitVec.ofNat 52 m ≠ 0#52 := fun h => by
        have : m = 0 := by rw [← hmantissa, h]; rfl
        omega
      rw [if_neg (by change ¬ _ = 53; omega), unpack_subnormal sign hzero]
      congr 1

end Packing

section Order
variable {m n : ℕ} {e f : ℤ}

/-- Canonical numbers are ordered by their exponents first. -/
theorem Canonical.mul_lt_mul (hm : Canonical m e) (hn : Canonical n f) (h : e < f) :
    (m : ℚ) * 2 ^ e < n * 2 ^ f := by
  have hnormal : 2 ^ 52 ≤ n := hn.normal.resolve_left (by have := hm.least; omega)
  have hstep : (2 : ℚ) * 2 ^ e ≤ 2 ^ f := by
    rw [← zpow_one_add₀ two_ne_zero]
    exact zpow_le_zpow_right₀ (by norm_num) (by omega)
  calc (m : ℚ) * 2 ^ e < 2 ^ 53 * 2 ^ e := by gcongr; exact_mod_cast hm.lt
    _ = 2 ^ 52 * (2 * 2 ^ e) := by ring
    _ ≤ 2 ^ 52 * 2 ^ f := by gcongr
    _ ≤ n * 2 ^ f := by gcongr; exact_mod_cast hnormal

theorem Canonical.compare_mul (hm : Canonical m e) (hn : Canonical n f) :
    compare ((m : ℚ) * 2 ^ e) (n * 2 ^ f) = (compare e f).then (compare m n) := by
  rcases lt_trichotomy e f with h | rfl | h
  · rw [compare_lt_iff_lt.mpr h, compare_lt_iff_lt.mpr (hm.mul_lt_mul hn h)]
    rfl
  · have hpos : (0 : ℚ) < 2 ^ e := by positivity
    rw [compare_eq_iff_eq.mpr rfl]
    rcases lt_trichotomy m n with h | rfl | h
    · rw [compare_lt_iff_lt.mpr h, compare_lt_iff_lt.mpr (by gcongr)]
      rfl
    · rw [compare_eq_iff_eq.mpr rfl, compare_eq_iff_eq.mpr rfl]
      rfl
    · rw [compare_gt_iff_gt.mpr h, compare_gt_iff_gt.mpr (by gcongr)]
      rfl
  · rw [compare_gt_iff_gt.mpr h, compare_gt_iff_gt.mpr (hn.mul_lt_mul hm h)]
    rfl

theorem compare_neg_neg (q r : ℚ) : compare (-q) (-r) = (compare q r).swap := by
  rcases lt_trichotomy q r with h | rfl | h
  · rw [compare_lt_iff_lt.mpr h, compare_gt_iff_gt.mpr (neg_lt_neg h)]
    rfl
  · rw [compare_eq_iff_eq.mpr rfl, compare_eq_iff_eq.mpr rfl]
    rfl
  · rw [compare_gt_iff_gt.mpr h, compare_lt_iff_lt.mpr (neg_lt_neg h)]
    rfl

@[simp] theorem unpackedNumber?_positive (m : ℕ) (e : ℤ) (h : 0 < m) :
    unpackedNumber? (.finite .positive m e h) = some ((m : ℚ) * 2 ^ e) := rfl

@[simp] theorem unpackedNumber?_negative (m : ℕ) (e : ℤ) (h : 0 < m) :
    unpackedNumber? (.finite .negative m e h) = some (-((m : ℚ) * 2 ^ e)) := by
  simp [unpackedNumber?, Sign.apply]

/-- A finite double is zero, or its number has the sign of the double. -/
theorem unpacked_of_number? {u : UnpackedFloat} {q : ℚ} (h : unpackedNumber? u = some q) :
    (q = 0 ∧ ∃ s, u = .zero s) ∨
      (0 < q ∧ ∃ m e hm, u = .finite .positive m e hm ∧ q = m * 2 ^ e) ∨
      (q < 0 ∧ ∃ m e hm, u = .finite .negative m e hm ∧ q = -(m * 2 ^ e)) := by
  cases u with
  | notANumber => cases h
  | infinity s => cases h
  | zero s => exact .inl ⟨(Option.some.inj h).symm, s, rfl⟩
  | finite s m e hm =>
    have hpos : (0 : ℚ) < m * 2 ^ e := by positivity
    cases s with
    | positive =>
      rw [unpackedNumber?_positive, Option.some.injEq] at h
      exact .inr (.inl ⟨h ▸ hpos, m, e, hm, rfl, h.symm⟩)
    | negative =>
      rw [unpackedNumber?_negative, Option.some.injEq] at h
      exact .inr (.inr ⟨h ▸ neg_lt_zero.mpr hpos, m, e, hm, rfl, h.symm⟩)

/-- Canonical doubles are ordered as their numbers. -/
theorem compare_unpacked {u v : UnpackedFloat} (hu : IsCanonical u) (hv : IsCanonical v) {q r : ℚ}
    (hq : unpackedNumber? u = some q) (hr : unpackedNumber? v = some r) :
    u.compare v = some (compare q r) := by
  have hlt (h : q < r) : some .lt = some (compare q r) := by rw [compare_lt_iff_lt.mpr h]
  have hgt (h : r < q) : some .gt = some (compare q r) := by rw [compare_gt_iff_gt.mpr h]
  rcases unpacked_of_number? hq with
      ⟨hq0, s, rfl⟩ | ⟨hq0, m, e, hm, rfl, hm'⟩ | ⟨hq0, m, e, hm, rfl, hm'⟩ <;>
    rcases unpacked_of_number? hr with
      ⟨hr0, t, rfl⟩ | ⟨hr0, n, f, hn, rfl, hn'⟩ | ⟨hr0, n, f, hn, rfl, hn'⟩
  -- unless the signs are the same they decide
  · rw [hq0, hr0, compare_eq_iff_eq.mpr rfl]
    rfl
  · exact hlt (by linarith)
  · exact hgt (by linarith)
  · exact hgt (by linarith)
  · rw [hm', hn', Canonical.compare_mul hu hv]
    rfl
  · exact hgt (by linarith)
  · exact hlt (by linarith)
  · exact hlt (by linarith)
  · rw [hm', hn', compare_neg_neg, Canonical.compare_mul hu hv]
    rfl

variable {x y : Float} {q r : ℚ}

/-- Finite doubles are ordered as their numbers. -/
theorem compareFloat?_eq (hx : number? x = some q) (hy : number? y = some r) :
    Value.compareFloat? x y = some (compare q r) := by
  have hcompare {x y : Float} {q r : ℚ} (hx : number? x = some q) (hy : number? y = some r) :
      x.toModel.unpack.compare y.toModel.unpack = some (compare q r) :=
    compare_unpacked (isCanonical _) (isCanonical _) hx hy
  have hlt : (x < y) ↔ compare q r = .lt := by
    refine decide_eq_true_iff.trans ?_
    change (x.toModel.unpack.compare y.toModel.unpack == some .lt) = true ↔ _
    rw [hcompare hx hy]
    simp
  have heq : (x == y) = true ↔ compare q r = .eq := by
    change (x.toModel.unpack.compare y.toModel.unpack == some .eq) = true ↔ _
    rw [hcompare hx hy]
    simp
  have hgt : (y < x) ↔ compare r q = .lt := by
    refine decide_eq_true_iff.trans ?_
    change (y.toModel.unpack.compare x.toModel.unpack == some .lt) = true ↔ _
    rw [hcompare hy hx]
    simp
  unfold Value.compareFloat?
  simp only [hlt, heq, hgt]
  rcases lt_trichotomy q r with h | rfl | h
  · simp [compare_lt_iff_lt.mpr h]
  · simp
  · simp [compare_gt_iff_gt.mpr h, compare_lt_iff_lt.mpr h]

theorem number?_pack {u : UnpackedFloat} (h : IsCanonical u) :
    number? (.ofModel (.pack u)) = unpackedNumber? u :=
  congrArg unpackedNumber? (unpack_pack h)

theorem IsCanonical.neg {u : UnpackedFloat} (h : IsCanonical u) : IsCanonical u.neg := by
  cases u <;> exact h

theorem unpackedNumber?_neg (u : UnpackedFloat) :
    unpackedNumber? u.neg = (unpackedNumber? u).map (-·) := by
  cases u with
  | finite s m e h =>
    cases s with
    | positive =>
      change unpackedNumber? (.finite .negative m e h) = _
      simp
    | negative =>
      change unpackedNumber? (.finite .positive m e h) = _
      simp
  | _ => simp [UnpackedFloat.neg, unpackedNumber?]

theorem number?_neg (x : Float) : number? (-x) = (number? x).map (-·) := by
  change number? (.ofModel (.pack x.toModel.unpack.neg)) = _
  rw [number?_pack ((isCanonical x).neg), unpackedNumber?_neg]
  rfl

end Order
end StreamSelect.Binary64
