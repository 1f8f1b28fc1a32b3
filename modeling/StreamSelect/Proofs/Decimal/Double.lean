import StreamSelect.Proofs.Binary64.Near

/-!
The doubles of integers and decimals. An integer and a decimal without a fraction get the nearest
double; any other decimal one that is off by at most one part in `2 ^ 48`.
-/
namespace StreamSelect
open Binary64

theorem Binary64.nearest_ofInt {n : ℤ} (h : |n| ≤ 2 ^ 100) :
    ∃ c, Nearest n c ∧ number? (Binary64.ofInt n) = some c := by
  have hbound : ((n.natAbs : ℕ) : ℚ) < 2 ^ 1023 := by
    refine lt_of_le_two_pow (le_trans (b := 2 ^ 100) ?_ (by norm_num))
    rw [← Int.natCast_natAbs] at h
    exact_mod_cast h
  obtain ⟨c, hrounds, hc⟩ := rounds_ofNat hbound
  unfold Binary64.ofInt
  split_ifs with hneg
  · refine ⟨-c, .of_nonpos ?_ (by exact_mod_cast hneg.le), by rw [number?_neg, hc]; rfl⟩
    rw [neg_neg]
    convert hrounds
    rw [← Int.cast_neg, ← Int.cast_natCast]
    congr 1
    omega
  · refine ⟨c, .of_nonneg ?_ (by exact_mod_cast not_lt.mp hneg), hc⟩
    convert hrounds
    rw [← Int.cast_natCast]
    congr 1
    omega

theorem Binary64.nearest_intCast {n : ℤ} (h : |n| ≤ 2 ^ 53) : Nearest n n := by
  obtain ⟨c, hnearest, -⟩ := @nearest_ofInt n (h.trans (by norm_num))
  exact hnearest.eq_intCast h ▸ hnearest

namespace Decimal
variable {d : Decimal}

/-- The decimal has no fraction. -/
def IsWhole (d : Decimal) : Prop := d.mantissa % 10 ^ d.scale = 0

instance (d : Decimal) : Decidable d.IsWhole := inferInstanceAs (Decidable (_ = _))

theorem magnitude_nonneg (d : Decimal) : 0 ≤ d.magnitude := by
  unfold magnitude
  positivity

theorem abs_toRat (d : Decimal) : |d.toRat| = d.magnitude := by
  rw [toRat_eq_magnitude]
  split_ifs
  · rw [abs_neg, abs_of_nonneg d.magnitude_nonneg]
  · rw [abs_of_nonneg d.magnitude_nonneg]

theorem magnitude_eq_split (d : Decimal) :
    d.magnitude =
      (d.mantissa / 10 ^ d.scale : ℕ) + (d.mantissa % 10 ^ d.scale : ℕ) / 10 ^ d.scale := by
  have hunit : (0 : ℚ) < 10 ^ d.scale := by positivity
  rw [magnitude, div_eq_iff hunit.ne', add_mul, div_mul_cancel₀ _ hunit.ne']
  exact_mod_cast (Nat.div_add_mod' d.mantissa (10 ^ d.scale)).symm

theorem IsWhole.magnitude_eq (h : d.IsWhole) : d.magnitude = (d.mantissa / 10 ^ d.scale : ℕ) := by
  rw [magnitude_eq_split, h]
  simp

theorem natAbs_signed (d : Decimal) : d.signed.natAbs = d.mantissa := by
  unfold signed
  split_ifs <;> simp

theorem isWhole_of_toRat_eq {n : ℤ} (h : d.toRat = n) : d.IsWhole := by
  rw [toRat, div_eq_iff (by positivity)] at h
  have hsigned : d.signed = n * 10 ^ d.scale := by exact_mod_cast h
  rw [IsWhole, ← natAbs_signed, hsigned, Int.natAbs_mul, Int.natAbs_pow]
  exact Nat.mul_mod_left _ _

theorem number?_signed {x : Float} {c : ℚ} (hx : number? x = some c) (negative : Bool) :
    number? (if negative then -x else x) = some (if negative then -c else c) := by
  cases negative with
  | false => simpa using hx
  | true => simp [number?_neg, hx]

/-- The double of a decimal without a fraction is the nearest one. -/
theorem IsWhole.nearest_toFloat (h : d.IsWhole) :
    ∃ c, Nearest d.toRat c ∧ number? d.toFloat = some c := by
  have hlt : d.mantissa < 2 ^ 96 := d.mantissa_lt
  by_cases hscale : d.scale = 0
  · have hsigned : d.toRat = d.signed := by simp [toRat, hscale]
    have hbound : |d.signed| ≤ 2 ^ 100 := by
      rw [← Int.natCast_natAbs, natAbs_signed]
      exact_mod_cast hlt.le.trans (by norm_num)
    rw [hsigned, toFloat, if_pos hscale]
    exact nearest_ofInt hbound
  · have hbound : ((d.mantissa / 10 ^ d.scale : ℕ) : ℚ) < 2 ^ 1023 := by
      refine lt_of_le_two_pow ?_
      exact_mod_cast (Nat.div_le_self _ _).trans (hlt.le.trans (by norm_num))
    obtain ⟨c, hrounds, hc⟩ := rounds_ofNat hbound
    have hfloat : d.toFloat = if d.negative then -Float.ofNat (d.mantissa / 10 ^ d.scale)
        else Float.ofNat (d.mantissa / 10 ^ d.scale) := by
      have hnone : d.mantissa % 10 ^ d.scale = 0 := h
      simp only [toFloat, if_neg hscale, Nat.pow_eq, hnone, if_true]
    rw [← h.magnitude_eq] at hrounds
    refine ⟨if d.negative then -c else c, ?_, hfloat ▸ number?_signed hc d.negative⟩
    rw [toRat_eq_magnitude]
    split_ifs
    · exact .of_nonpos (by simpa using hrounds) (neg_nonpos.mpr d.magnitude_nonneg)
    · exact .of_nonneg hrounds d.magnitude_nonneg

section Fraction
variable {whole fraction unit m : ℕ} {x u : Float}

theorem isNear_sum (hwhole : whole ≤ 2 ^ 100) (hfraction : 0 < fraction) (hlt : fraction < unit)
    (hunit : unit ≤ 2 ^ 100) :
    IsNear 7 (Float.ofNat whole + Float.ofNat fraction / Float.ofNat unit)
      (whole + fraction / unit) := by
  have hnumerator : Moderate (fraction : ℚ) := .of_natCast hfraction (hlt.le.trans hunit)
  have hdenominator : Moderate (unit : ℚ) := .of_natCast (hfraction.trans hlt) hunit
  have hpart := (isNear_ofNat hnumerator).div (isNear_ofNat hdenominator) (by norm_num)
    (by norm_num) hnumerator hdenominator
  have hpart' : Moderate ((fraction : ℚ) / unit) :=
    .div_natCast hfraction (hlt.le.trans hunit) (hfraction.trans hlt) hunit
  rcases Nat.eq_zero_or_pos whole with rfl | hpos
  · -- relative errors need positive numbers, but a zero adds none
    obtain ⟨c, hc, hnear, hpos, -⟩ := (hpart.mono (by norm_num : 1 + 1 + 3 ≤ 7)
      hpart'.pos.le).exists_number (by norm_num) hpart'.pos
    refine ⟨c, number?_zero_add number?_zero hc hpos, ?_⟩
    rwa [Nat.cast_zero, zero_add]
  · have hmoderate : Moderate (whole : ℚ) := .of_natCast hpos hwhole
    have hwhole' := (isNear_ofNat hmoderate).mono (by norm_num : 1 ≤ 1 + 1 + 3) hmoderate.pos.le
    exact hwhole'.add hpart (by norm_num) hmoderate hpart'

/-- Rounding to a number of places keeps a number that has no more of them. -/
theorem isNear_rounded (hx : IsNear 7 x (m / unit)) (hu : IsNear 1 u unit) (hm : 0 < m)
    (hm' : m ≤ 2 ^ 100) (hunit : 0 < unit) (hunit' : unit ≤ 2 ^ 100) :
    IsNear 31 (Binary64.round (x * u) / u) (m / unit) := by
  have hmantissa : Moderate (m : ℚ) := .of_natCast hm hm'
  have hdenominator : Moderate (unit : ℚ) := .of_natCast hunit hunit'
  have hscaled := hx.mul hu (by norm_num) (by norm_num) (.div_natCast hm hm' hunit hunit')
    hdenominator
  -- scaled it is an integer again, so that rounding repairs what small numbers have lost
  rw [div_mul_cancel₀ _ hdenominator.pos.ne'] at hscaled
  have hquotient := (hscaled.round (by norm_num) hmantissa).div hu (by norm_num) (by norm_num)
    hmantissa hdenominator
  exact hquotient

end Fraction

theorem isNear_of_not_isWhole (h : ¬d.IsWhole) :
    ∃ x, IsNear 31 x d.magnitude ∧ d.toFloat = if d.negative then -x else x := by
  have hscale : d.scale ≠ 0 := fun hzero => h (by rw [IsWhole, hzero, pow_zero, Nat.mod_one])
  have hfraction : 0 < d.mantissa % 10 ^ d.scale := Nat.pos_of_ne_zero h
  have hmantissa : d.mantissa ≤ 2 ^ 100 := le_trans (Nat.le_of_lt d.mantissa_lt) (by decide)
  have hpos : 0 < d.mantissa := hfraction.trans_le (Nat.mod_le _ _)
  have hunit : 10 ^ d.scale ≤ 2 ^ 100 :=
    (Nat.pow_le_pow_right (by norm_num) d.scale_le).trans (by norm_num)
  have hunit' : 0 < 10 ^ d.scale := by positivity
  have hwhole : d.mantissa / 10 ^ d.scale ≤ 2 ^ 100 := (Nat.div_le_self _ _).trans hmantissa
  have hsum := isNear_sum hwhole hfraction (Nat.mod_lt _ hunit') hunit
  have hmagnitude : d.magnitude = d.mantissa / (10 ^ d.scale : ℕ) := by
    rw [magnitude]
    push_cast
    rfl
  have hsplit : ((d.mantissa / 10 ^ d.scale : ℕ) : ℚ) +
      (d.mantissa % 10 ^ d.scale : ℕ) / (10 ^ d.scale : ℕ) = d.magnitude := by
    rw [magnitude_eq_split]
    push_cast
    rfl
  rw [hsplit, hmagnitude] at hsum
  have hsize := isNear_rounded hsum (isNear_tenPow d.scale_le) hpos hmantissa hunit' hunit
  refine ⟨_, hmagnitude ▸ hsize, ?_⟩
  simp only [toFloat, if_neg hscale, Nat.pow_eq, hfraction.ne', if_false]

/-- The double of a decimal is off by at most one part in `2 ^ 48`. -/
theorem near_toFloat (d : Decimal) :
    ∃ c, number? d.toFloat = some c ∧ |c - d.toRat| ≤ |d.toRat| / 2 ^ 48 := by
  by_cases h : d.IsWhole
  · obtain ⟨c, hnearest, hc⟩ := h.nearest_toFloat
    refine ⟨c, hc, (hnearest.near ?_).trans (by gcongr <;> norm_num)⟩
    rw [← abs_eq_zero, abs_toRat, h.magnitude_eq]
    rcases Nat.eq_zero_or_pos (d.mantissa / 10 ^ d.scale) with hzero | hpos
    · exact .inl (by rw [hzero, Nat.cast_zero])
    · refine .inr ((zpow_le_one_of_nonpos₀ (by norm_num) (by norm_num)).trans ?_)
      exact_mod_cast hpos
  · obtain ⟨x, ⟨c, hc, hnear⟩, hx⟩ := isNear_of_not_isWhole h
    have herror : |c - d.magnitude| ≤ d.magnitude / 2 ^ 48 := calc
      |c - d.magnitude| ≤ (31 : ℕ) / 2 ^ 53 * d.magnitude := hnear
      _ ≤ 32 / 2 ^ 53 * d.magnitude := by
        have := d.magnitude_nonneg
        gcongr
        norm_num
      _ = d.magnitude / 2 ^ 48 := by ring
    refine ⟨if d.negative then -c else c, hx ▸ number?_signed hc d.negative, ?_⟩
    rw [abs_toRat, toRat_eq_magnitude]
    split_ifs
    · rwa [neg_sub_neg, abs_sub_comm]
    · exact herror

end Decimal
end StreamSelect
