import StreamSelect.Decimal.Arithmetic
import StreamSelect.Proofs.Decimal.Rounding

/-!
Order and difference of decimals as numbers. The order is exact. A sum or difference that has to
give up digits is not exact, but it is zero only for numbers whose sum or difference is.
-/
namespace StreamSelect

theorem compare_congr {α β : Type} [LinearOrder α] [LinearOrder β] {a b : α} {c d : β}
    (hlt : a < b ↔ c < d) (hgt : b < a ↔ d < c) : compare a b = compare c d := by
  rcases lt_trichotomy a b with h | rfl | h
  · rw [compare_lt_iff_lt.mpr h, compare_lt_iff_lt.mpr (hlt.mp h)]
  · have heq : c = d := le_antisymm (not_lt.mp fun h => lt_irrefl _ (hgt.mpr h))
      (not_lt.mp fun h => lt_irrefl _ (hlt.mpr h))
    rw [compare_eq_iff_eq.mpr rfl, compare_eq_iff_eq.mpr heq]
  · rw [compare_gt_iff_gt.mpr h, compare_gt_iff_gt.mpr (hgt.mp h)]

namespace Decimal
variable {a b r : Decimal}

/-- Decimals are ordered as their numbers. -/
theorem compare_eq (a b : Decimal) : a.compare b = Ord.compare a.toRat b.toRat := by
  have hlt (a b : Decimal) : (a.aligned b).1 < (a.aligned b).2 ↔ a.toRat < b.toRat := by
    have ha : (0 : ℚ) < 10 ^ a.scale := by positivity
    have hb : (0 : ℚ) < 10 ^ b.scale := by positivity
    rw [toRat, toRat, div_lt_div_iff₀ ha hb, aligned]
    simp only [Nat.pow_eq]
    exact_mod_cast Iff.rfl
  exact compare_congr (hlt a b) (hlt b a)

theorem toRat_eq_zero_iff : r.toRat = 0 ↔ r.mantissa = 0 := by
  have hscale : (10 : ℚ) ^ r.scale ≠ 0 := by positivity
  rw [toRat, div_eq_zero_iff, or_iff_left hscale, Int.cast_eq_zero, signed]
  split_ifs <;> simp

theorem toRat_of_isZero (h : r.isZero) : r.toRat = 0 :=
  toRat_eq_zero_iff.mpr (of_decide_eq_true h)

theorem toRat_neg (d : Decimal) : d.neg.toRat = -d.toRat := by
  unfold toRat signed neg
  cases d.negative <;> simp [neg_div]

theorem roundHalfEven_one (n : ℕ) : roundHalfEven n 1 = n := by
  simp [roundHalfEven, Nat.mod_one]

theorem roundHalfEven_pos {n d : ℕ} (hd : 0 < d) (h : d ≤ n) : 0 < roundHalfEven n d := by
  have hpos : 0 < n / d := Nat.div_pos h hd
  unfold roundHalfEven
  dsimp only
  split <;> omega

theorem mantissa_of_ofParts? {negative : Bool} {m scale : ℕ}
    (h : ofParts? negative m scale = some r) : r.mantissa = m := by
  unfold ofParts? at h
  split at h
  · cases h
    rfl
  · cases h

/-- A number of at most 28 places is fitted to zero only if it is zero. -/
theorem fit?_eq_zero_iff {negative : Bool} {n scale : ℕ} (h : fit? negative n scale = some r)
    (hscale : scale ≤ 28) : r.mantissa = 0 ↔ n = 0 := by
  obtain ⟨before, drop, after, hsplit, hfit, hbefore⟩ := List.findSome?_eq_some_iff.mp h
  have hmantissa := mantissa_of_ofParts? hfit
  have hdrop : drop ∈ List.range (scale + 1) := hsplit ▸ by simp
  rw [List.mem_range] at hdrop
  rw [hmantissa]
  refine ⟨fun hzero => ?_, ?_⟩
  · rcases Nat.eq_zero_or_pos drop with rfl | hpos
    · rwa [Nat.pow_eq, pow_zero, roundHalfEven_one] at hzero
    · -- all digits were too many, so what is left of them is not little
      have hfirst : 0 ∈ before := by
        rw [List.range_succ_eq_map] at hsplit
        cases before with
        | nil =>
          injection hsplit with hhead
          omega
        | cons first rest =>
          injection hsplit with hhead
          exact hhead ▸ List.mem_cons_self
      have hlarge : Nat.pow 2 96 ≤ n := by
        have hnone : ofParts? negative (roundHalfEven n 1) (scale - 0) = none := hbefore 0 hfirst
        rw [ofParts?_eq_none_iff, roundHalfEven_one] at hnone
        omega
      have hunit : 10 ^ drop ≤ 2 ^ 96 :=
        (Nat.pow_le_pow_right (by norm_num) (by omega : drop ≤ 28)).trans (by norm_num)
      exact absurd hzero (roundHalfEven_pos (by positivity) (hunit.trans hlarge)).ne'
  · rintro rfl
    simp [roundHalfEven]

theorem add?_eq_zero_iff (h : add? a b = some r) : r.toRat = 0 ↔ a.toRat + b.toRat = 0 := by
  unfold add? at h
  split_ifs at h with ha hb
  · cases h
    rw [toRat_of_isZero ha, zero_add]
  · cases h
    rw [toRat_of_isZero hb, add_zero]
  · have hscaled : (a.toRat + b.toRat) * 10 ^ max a.scale b.scale =
        (a.signed * 10 ^ (max a.scale b.scale - a.scale) +
          b.signed * 10 ^ (max a.scale b.scale - b.scale) : ℤ) := by
      rw [add_mul, toRat_mul_pow (le_max_left _ _), toRat_mul_pow (le_max_right _ _), Int.cast_add]
    rw [toRat_eq_zero_iff, fit?_eq_zero_iff h (max_le a.scale_le b.scale_le), Int.natAbs_eq_zero,
      ← @Int.cast_eq_zero ℚ]
    simp only [Nat.pow_eq, Nat.cast_pow, Nat.cast_ofNat]
    rw [← hscaled, mul_eq_zero, or_iff_left (by positivity)]

theorem sub?_eq_zero_iff (h : sub? a b = some r) : r.toRat = 0 ↔ a.toRat = b.toRat := by
  unfold sub? at h
  split_ifs at h with hb
  · rw [add?_eq_zero_iff h, toRat_of_isZero hb, add_zero]
  · rw [add?_eq_zero_iff h, toRat_neg, add_neg_eq_zero]

end Decimal
end StreamSelect
