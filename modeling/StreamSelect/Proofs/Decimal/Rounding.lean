import Mathlib.Algebra.Order.Field.Rat
import Mathlib.Tactic.FieldSimp
import Mathlib.Tactic.Linarith
import Mathlib.Tactic.Positivity
import Mathlib.Tactic.Ring
import StreamSelect.Function.Scalar

/-!
Rounding of decimals as rounding of rational numbers. A decimal is rounded exactly, a half away from
zero, and a precision of all its fractional digits leaves it alone. `ROUND` narrows its precision to
32 bits first, so it rounds to the digits it is asked for if the precision fits into 32 bits, and
otherwise only where the narrowed precision happens to give the same number.
-/
namespace StreamSelect

/-- The number has at most so many fractional digits. -/
def HasPlaces (x : ℚ) (places : ℕ) : Prop := ∃ n : ℤ, x * 10 ^ places = n

/-- `y` is `x` rounded to a number of fractional digits. It is a multiple of the last place and at
most half of it away; where two multiples are equally near, it is the one farther from zero. -/
structure RoundedHalfAway (x : ℚ) (places : ℕ) (y : ℚ) : Prop where
  hasPlaces : HasPlaces y places
  near : |y - x| ≤ 1 / 2 * (10 ^ places)⁻¹
  away : |y - x| = 1 / 2 * (10 ^ places)⁻¹ → |x| < |y|

namespace RoundedHalfAway
variable {x y z : ℚ} {places finer : ℕ}

theorem of_hasPlaces (h : HasPlaces x places) : RoundedHalfAway x places x where
  hasPlaces := h
  near := by
    rw [sub_self, abs_zero]
    positivity
  away htie := by
    rw [sub_self, abs_zero] at htie
    exact absurd htie (by positivity)

theorem neg (h : RoundedHalfAway x places y) : RoundedHalfAway (-x) places (-y) := by
  have hdistance : |-y - -x| = |y - x| := by rw [neg_sub_neg, abs_sub_comm]
  obtain ⟨n, hn⟩ := h.hasPlaces
  refine ⟨⟨-n, by rw [neg_mul, hn, Int.cast_neg]⟩, hdistance ▸ h.near, fun htie => ?_⟩
  rw [abs_neg, abs_neg]
  exact h.away (hdistance ▸ htie)

private theorem abs_div_sub (x : ℚ) (n : ℤ) (places : ℕ) :
    |(n : ℚ) / 10 ^ places - x| = |(n : ℚ) - x * 10 ^ places| * (10 ^ places)⁻¹ := by
  have hunit : (0 : ℚ) < 10 ^ places := by positivity
  have hdistance : (n : ℚ) / 10 ^ places - x = (n - x * 10 ^ places) * (10 ^ places)⁻¹ := by
    field_simp
  rw [hdistance, abs_mul, abs_of_pos (inv_pos.mpr hunit)]

/-- In units of the last place the rounded number is an integer at most a half away, and an integer
that is a half away is farther from zero. -/
theorem scaled_iff : RoundedHalfAway x places y ↔ ∃ n : ℤ, y = n / 10 ^ places ∧
    |(n : ℚ) - x * 10 ^ places| ≤ 1 / 2 ∧
    (|(n : ℚ) - x * 10 ^ places| = 1 / 2 → |x * 10 ^ places| < |(n : ℚ)|) := by
  have hunit : (0 : ℚ) < 10 ^ places := by positivity
  have hunit' : (0 : ℚ) < (10 ^ places)⁻¹ := inv_pos.mpr hunit
  have hfarther (n : ℤ) : |x| < |(n : ℚ) / 10 ^ places| ↔ |x * 10 ^ places| < |(n : ℚ)| := by
    rw [abs_div, abs_mul, abs_of_pos hunit, lt_div_iff₀ hunit]
  constructor
  · rintro ⟨⟨n, hn⟩, hnear, haway⟩
    obtain rfl : y = n / 10 ^ places := (eq_div_iff hunit.ne').mpr hn
    rw [abs_div_sub] at hnear haway
    exact ⟨n, rfl, le_of_mul_le_mul_right hnear hunit',
      fun htie => (hfarther n).mp (haway (by rw [htie]))⟩
  · rintro ⟨n, rfl, hnear, haway⟩
    refine ⟨⟨n, div_mul_cancel₀ _ hunit.ne'⟩, ?_, fun htie => ?_⟩
    · rw [abs_div_sub]
      exact mul_le_mul_of_nonneg_right hnear hunit'.le
    · rw [abs_div_sub] at htie
      exact (hfarther n).mpr (haway (mul_right_cancel₀ hunit'.ne' htie))

/-- Of two neighbours that are equally near only one is farther from zero. -/
private theorem not_lt_of_nearest {t : ℚ} {m n : ℤ} (hm : |(m : ℚ) - t| ≤ 1 / 2)
    (hn : |(n : ℚ) - t| ≤ 1 / 2) (hmtie : |(m : ℚ) - t| = 1 / 2 → |t| < |(m : ℚ)|)
    (hntie : |(n : ℚ) - t| = 1 / 2 → |t| < |(n : ℚ)|) : ¬m < n := by
  intro hlt
  have hstep : (m : ℚ) + 1 ≤ n := by exact_mod_cast hlt
  have hbelow := (abs_le.mp hm).1
  have habove := (abs_le.mp hn).2
  have hleft : (m : ℚ) = t - 1 / 2 := by linarith
  have hright : (n : ℚ) = t + 1 / 2 := by linarith
  have hfarLeft : |t| < |(m : ℚ)| := hmtie (by rw [hleft]; norm_num)
  have hfarRight : |t| < |(n : ℚ)| := hntie (by rw [hright]; norm_num)
  have hneg : (m : ℚ) < 0 := by
    by_contra hnonneg
    rw [abs_of_nonneg (not_lt.mp hnonneg)] at hfarLeft
    linarith [le_abs_self t]
  have hpos : (0 : ℚ) < n := by
    by_contra hnonpos
    rw [abs_of_nonpos (not_lt.mp hnonpos)] at hfarRight
    linarith [neg_le_abs t]
  have hm' : m < 0 := by exact_mod_cast hneg
  have hn' : 0 < n := by exact_mod_cast hpos
  have hgap : (n : ℚ) = m + 1 := by linarith
  have : n = m + 1 := by exact_mod_cast hgap
  omega

/-- A number is rounded in one way. -/
theorem unique (hy : RoundedHalfAway x places y) (hz : RoundedHalfAway x places z) : y = z := by
  obtain ⟨m, rfl, hm, hmtie⟩ := scaled_iff.mp hy
  obtain ⟨n, rfl, hn, hntie⟩ := scaled_iff.mp hz
  have hmn : m = n := by
    have := not_lt_of_nearest hm hn hmtie hntie
    have := not_lt_of_nearest hn hm hntie hmtie
    omega
  rw [hmn]

/-- What is rounded to finer digits is also rounded to coarser ones if it has no others. -/
theorem coarsen_iff (hle : places ≤ finer) (h : RoundedHalfAway x finer y) :
    RoundedHalfAway x places y ↔ HasPlaces y places := by
  refine ⟨hasPlaces, fun hy => ⟨hy, ?_, fun htie => ?_⟩⟩
  · have hunits : ((10 : ℚ) ^ finer)⁻¹ ≤ (10 ^ places)⁻¹ := by gcongr; norm_num
    linarith [h.near]
  · have hunits : ((10 : ℚ) ^ finer)⁻¹ ≤ (10 ^ places)⁻¹ := by gcongr; norm_num
    exact h.away (le_antisymm h.near (htie ▸ by linarith))

end RoundedHalfAway

namespace Decimal

/-- The number that the decimal stands for. -/
def toRat (d : Decimal) : ℚ := d.signed / 10 ^ d.scale

/-- The number without its sign. -/
def magnitude (d : Decimal) : ℚ := d.mantissa / 10 ^ d.scale

theorem toRat_eq_magnitude (d : Decimal) :
    d.toRat = if d.negative then -d.magnitude else d.magnitude := by
  unfold toRat magnitude signed
  cases d.negative <;> simp [neg_div]

theorem toRat_mul_pow {d : Decimal} {places : ℕ} (h : d.scale ≤ places) :
    d.toRat * 10 ^ places = (d.signed * 10 ^ (places - d.scale) : ℤ) := by
  have hsplit : (10 : ℚ) ^ places = 10 ^ d.scale * 10 ^ (places - d.scale) := by
    rw [← pow_add, Nat.add_sub_cancel' h]
  rw [toRat, hsplit]
  push_cast
  field_simp

theorem hasPlaces_toRat {d : Decimal} {places : ℕ} (h : d.scale ≤ places) :
    HasPlaces d.toRat places :=
  ⟨d.signed * 10 ^ (places - d.scale), toRat_mul_pow h⟩

theorem roundHalfUp_bounds (n : ℕ) {unit : ℕ} (h : 0 < unit) :
    2 * (roundHalfUp n unit * unit) ≤ 2 * n + unit ∧
      2 * n < 2 * (roundHalfUp n unit * unit) + unit := by
  have hle : roundHalfUp n unit * (2 * unit) ≤ 2 * n + unit := Nat.div_mul_le_self _ _
  have hlt : 2 * n + unit < 2 * unit * (roundHalfUp n unit + 1) :=
    Nat.lt_mul_div_succ _ (by omega)
  rw [Nat.mul_add, Nat.mul_one] at hlt
  have hcomm : roundHalfUp n unit * (2 * unit) = 2 * (roundHalfUp n unit * unit) := by ring
  have hcomm' : 2 * unit * roundHalfUp n unit = 2 * (roundHalfUp n unit * unit) := by ring
  omega

/-- The rounded quotient is at most a half above the exact one, and less than a half below it. -/
theorem roundHalfUp_near (n : ℕ) {unit : ℕ} (h : 0 < unit) :
    (roundHalfUp n unit : ℚ) - n / unit ≤ 1 / 2 ∧
      -(1 / 2) < (roundHalfUp n unit : ℚ) - n / unit := by
  obtain ⟨habove, hbelow⟩ := roundHalfUp_bounds n h
  have hpos : (0 : ℚ) < unit := by exact_mod_cast h
  have hquotient : (roundHalfUp n unit : ℚ) - n / unit =
      (roundHalfUp n unit * unit - n) / unit := by
    field_simp
  have habove' : 2 * ((roundHalfUp n unit : ℚ) * unit) ≤ 2 * n + unit := by exact_mod_cast habove
  have hbelow' : 2 * (n : ℚ) < 2 * (roundHalfUp n unit * unit) + unit := by exact_mod_cast hbelow
  rw [hquotient, div_le_iff₀ hpos, lt_div_iff₀ hpos]
  constructor <;> linarith

/-- A quotient by a power of ten, rounded to an integer, is the number rounded to the digits that
are left. -/
theorem roundedHalfAway_roundHalfUp (n : ℕ) {places scale : ℕ} (h : places ≤ scale) :
    RoundedHalfAway (n / 10 ^ scale) places
      (roundHalfUp n (Nat.pow 10 (scale - places)) / 10 ^ places) := by
  have hunit : 0 < Nat.pow 10 (scale - places) := Nat.pow_pos (by decide)
  have hscale : (10 : ℚ) ^ scale = 10 ^ places * (Nat.pow 10 (scale - places) : ℕ) := by
    rw [Nat.pow_eq, Nat.cast_pow, Nat.cast_ofNat, ← pow_add, Nat.add_sub_cancel' h]
  obtain ⟨habove, hbelow⟩ := roundHalfUp_near n hunit
  generalize Nat.pow 10 (scale - places) = unit at *
  have hscaled : (n : ℚ) / 10 ^ scale * 10 ^ places = n / unit := by
    rw [hscale]
    field_simp
  refine RoundedHalfAway.scaled_iff.mpr ⟨roundHalfUp n unit, by rw [Int.cast_natCast], ?_, ?_⟩
  · rw [hscaled, Int.cast_natCast]
    exact abs_le.mpr ⟨hbelow.le, habove⟩
  · intro htie
    rw [hscaled, Int.cast_natCast] at htie ⊢
    -- a tie is above the exact quotient, since a half below is excluded
    have hlarger : (n : ℚ) / unit < roundHalfUp n unit := by
      rcases (abs_eq (by norm_num)).mp htie with hup | hdown <;> linarith
    rwa [abs_of_nonneg (by positivity), abs_of_nonneg (by positivity)]

/-- The rounded decimal is the rounded number. -/
theorem roundedHalfAway_roundTo (d : Decimal) (places : ℕ) :
    RoundedHalfAway d.toRat places (d.roundTo places).toRat := by
  by_cases h : d.scale ≤ places
  · rw [roundTo, dif_pos h]
    exact .of_hasPlaces (hasPlaces_toRat h)
  · have hmagnitude := roundedHalfAway_roundHalfUp d.mantissa (Nat.le_of_not_le h)
    generalize hq : roundHalfUp d.mantissa (Nat.pow 10 (d.scale - places)) = q at hmagnitude
    have hrounded : (d.roundTo places).toRat =
        if d.negative then -((q : ℚ) / 10 ^ places) else q / 10 ^ places := by
      rw [roundTo, dif_neg h, toRat_eq_magnitude]
      simp only [magnitude, hq]
      -- the sign is lost only where the rounded number is zero
      rcases Nat.eq_zero_or_pos q with rfl | hpos
      · simp
      · simp [hpos.ne']
    rw [hrounded, toRat_eq_magnitude]
    cases d.negative with
    | false => exact hmagnitude
    | true => exact hmagnitude.neg

end Decimal

namespace ScalarFunction

theorem narrow_of_fits {places : Int64} (hle : -2 ^ 31 ≤ places.toInt)
    (hlt : places.toInt < 2 ^ 31) : narrow places = places.toInt := by
  rw [narrow, Int64.toInt_toInt32]
  exact Int.bmod_eq_of_le (by omega) (by omega)

/-- A precision that narrowing makes smaller is beyond the digits of any decimal. -/
theorem scale_le_of_narrow_lt (d : Decimal) {places : Int64}
    (h : (narrow places).toNat < places.toInt.toNat) : d.scale ≤ places.toInt.toNat := by
  by_contra hscale
  have hsmall := d.scale_le
  have hnarrow := @narrow_of_fits places (by omega) (by omega)
  omega

/-- `ROUND` rounds a decimal to the narrowed precision, where one below zero counts as zero. That is
the decimal rounded to the digits asked for exactly if the coarser of the two precisions is enough
for the number that the finer one gives: always if the precision fits into 32 bits. -/
theorem round_decimal (d : Decimal) (places : Int64) :
    ∃ r, apply .round [.decimal d, .integer places] = .ok (.decimal r) ∧
      RoundedHalfAway d.toRat (narrow places).toNat r.toRat ∧
      (RoundedHalfAway d.toRat places.toInt.toNat r.toRat ↔
        if places.toInt.toNat ≤ (narrow places).toNat then HasPlaces r.toRat places.toInt.toNat
        else HasPlaces d.toRat (narrow places).toNat) ∧
      (-2 ^ 31 ≤ places.toInt → places.toInt < 2 ^ 31 →
        RoundedHalfAway d.toRat places.toInt.toNat r.toRat) ∧
      (RoundedHalfAway d.toRat places.toInt.toNat r.toRat → d.scale ≤ places.toInt.toNat →
        r.toRat = d.toRat) := by
  have hrounded := d.roundedHalfAway_roundTo (narrow places).toNat
  have hexact {y : ℚ} (h : RoundedHalfAway d.toRat places.toInt.toNat y)
      (hscale : d.scale ≤ places.toInt.toNat) : y = d.toRat :=
    h.unique (.of_hasPlaces (Decimal.hasPlaces_toRat hscale))
  refine ⟨d.roundTo (narrow places).toNat, rfl, hrounded, ?_, fun hle hlt => ?_, hexact⟩
  · split
    next hle => exact hrounded.coarsen_iff hle
    next hlt =>
      have hscale := scale_le_of_narrow_lt d (Nat.lt_of_not_le hlt)
      constructor
      · intro h
        rw [← hexact h hscale]
        exact hrounded.hasPlaces
      · intro h
        rw [hrounded.unique (.of_hasPlaces h)]
        exact .of_hasPlaces (Decimal.hasPlaces_toRat hscale)
  · rw [narrow_of_fits hle hlt] at hrounded ⊢
    exact hrounded

/-- A precision of 2 ^ 32 rounds one and a half to two. -/
theorem round_narrowed_precision :
    let d : Decimal := ⟨false, 15, 1, by decide, by decide⟩
    let places : Int64 := 4294967296
    ∃ r, apply .round [.decimal d, .integer places] = .ok (.decimal r) ∧ r.toRat = 2 ∧
      d.scale ≤ places.toInt.toNat ∧ d.toRat = 3 / 2 ∧
      ¬RoundedHalfAway d.toRat places.toInt.toNat r.toRat := by
  intro d places
  have hscale : d.scale ≤ places.toInt.toNat := by decide
  have hd : d.toRat = 3 / 2 := by norm_num [d, Decimal.toRat, Decimal.signed]
  have hr : (d.roundTo (narrow places).toNat).toRat = 2 := by
    have : d.roundTo (narrow places).toNat = ⟨false, 2, 0, by decide, by decide⟩ := by decide
    norm_num [this, Decimal.toRat, Decimal.signed]
  refine ⟨_, rfl, hr, hscale, hd, fun h => ?_⟩
  have heq := h.unique (.of_hasPlaces (Decimal.hasPlaces_toRat hscale))
  rw [hr, hd] at heq
  norm_num at heq

end ScalarFunction
end StreamSelect
