import Mathlib.Algebra.Order.Field.Rat
import Mathlib.Algebra.Order.Field.Power
import Mathlib.Algebra.Ring.Parity
import Mathlib.Tactic.FieldSimp
import Mathlib.Tactic.Linarith
import Mathlib.Tactic.Positivity
import Mathlib.Tactic.Ring

/-!
Rounding of numbers to doubles. A double has 53 binary digits down to a last place that is not below
`2 ^ -1074`; a number that is not negative is rounded to the nearest multiple of its last place, of
two that are equally near to the even one. Rounding keeps the order, leaves alone what fits, and is
off by at most one part in `2 ^ 53`.
-/
namespace StreamSelect

/-- `n` is the integer nearest to `x`; of two that are equally near it is the even one. -/
structure NearestEven (x : ℚ) (n : ℕ) : Prop where
  near : |(n : ℚ) - x| ≤ 1 / 2
  even : |(n : ℚ) - x| = 1 / 2 → Even n

namespace NearestEven
variable {x y : ℚ} {m n : ℕ}

theorem natCast (n : ℕ) : NearestEven n n where
  near := by norm_num
  even h := by norm_num at h

theorem of_lt (h : |(n : ℚ) - x| < 1 / 2) : NearestEven x n where
  near := h.le
  even htie := absurd htie h.ne

theorem mono (hx : NearestEven x m) (hy : NearestEven y n) (h : x ≤ y) : m ≤ n := by
  by_contra hlt
  have hstep : (n : ℚ) + 1 ≤ m := by exact_mod_cast Nat.lt_of_not_le hlt
  have habove := (abs_le.mp hx.near).2
  have hbelow := (abs_le.mp hy.near).1
  -- then both are a half away from one number, and two neighbours are not both even
  have hm : (m : ℚ) - x = 1 / 2 := by linarith
  have hn : (n : ℚ) - y = -(1 / 2) := by linarith
  have hmeven := hx.even (by rw [hm]; norm_num)
  have hneven := hy.even (by rw [hn]; norm_num)
  have hnext : m = n + 1 := by
    have : (m : ℚ) = n + 1 := by linarith
    exact_mod_cast this
  rw [hnext, Nat.even_add_one] at hmeven
  exact hmeven hneven

theorem eq_of_natCast (h : NearestEven m n) : n = m :=
  le_antisymm (h.mono (natCast m) le_rfl) ((natCast m).mono h le_rfl)

end NearestEven

namespace Binary64

/-- The last place of the doubles around a number: `2 ^ e` is the 53rd binary digit of the number,
or the least place of all. -/
structure LastPlace (q : ℚ) (e : ℤ) : Prop where
  least : -1074 ≤ e
  lt : q < 2 ^ 53 * 2 ^ e
  normal : e = -1074 ∨ 2 ^ 52 * 2 ^ e ≤ q

/-- `c` is the double nearest to a number that is not negative. -/
def Rounds (q c : ℚ) : Prop :=
  ∃ (e : ℤ) (n : ℕ), LastPlace q e ∧ NearestEven (q / 2 ^ e) n ∧ c = n * 2 ^ e

variable {q r c d : ℚ} {e f : ℤ}

private theorem two_zpow_pos (e : ℤ) : (0 : ℚ) < 2 ^ e := by positivity

theorem least_normal : (2 : ℚ) ^ 52 * 2 ^ (-1074 : ℤ) = 2 ^ (-1022 : ℤ) := by
  rw [← zpow_natCast, ← zpow_add₀ two_ne_zero]
  norm_num

theorem LastPlace.mono (hq : LastPlace q e) (hr : LastPlace r f) (h : q ≤ r) : e ≤ f := by
  rcases hq.normal with rfl | hnormal
  · exact hr.least
  · have hlt : (2 : ℚ) ^ (52 + e) < 2 ^ (53 + f) := by
      rw [zpow_add₀ two_ne_zero, zpow_add₀ two_ne_zero]
      exact_mod_cast (hnormal.trans h).trans_lt hr.lt
    have := (zpow_lt_zpow_iff_right₀ (by norm_num : (1 : ℚ) < 2)).mp hlt
    omega

namespace Rounds

theorem mono (hq : Rounds q c) (hr : Rounds r d) (h : q ≤ r) : c ≤ d := by
  obtain ⟨e, m, hplace, hnear, rfl⟩ := hq
  obtain ⟨f, n, hplace', hnear', rfl⟩ := hr
  rcases (hplace.mono hplace' h).eq_or_lt with rfl | hlt
  · have hle : m ≤ n := hnear.mono hnear' (by gcongr)
    gcongr
  · -- the smaller number ends before the binade of the larger one begins
    have hnormal := hplace'.normal.resolve_left (by have := hplace.least; omega)
    have hn : 2 ^ 52 ≤ n := (NearestEven.natCast (2 ^ 52)).mono hnear' (by
      rw [le_div_iff₀ (two_zpow_pos f)]
      exact_mod_cast hnormal)
    have hm : m ≤ 2 ^ 53 := hnear.mono (NearestEven.natCast (2 ^ 53)) (by
      rw [div_le_iff₀ (two_zpow_pos e)]
      exact_mod_cast hplace.lt.le)
    have hstep : (2 : ℚ) * 2 ^ e ≤ 2 ^ f := by
      rw [← zpow_one_add₀ two_ne_zero]
      exact zpow_le_zpow_right₀ (by norm_num) (by omega)
    calc (m : ℚ) * 2 ^ e ≤ 2 ^ 53 * 2 ^ e := by gcongr; exact_mod_cast hm
      _ = 2 ^ 52 * (2 * 2 ^ e) := by ring
      _ ≤ 2 ^ 52 * 2 ^ f := by gcongr
      _ ≤ n * 2 ^ f := by gcongr; exact_mod_cast hn

theorem unique (h : Rounds q c) (h' : Rounds q d) : c = d :=
  le_antisymm (h.mono h' le_rfl) (h'.mono h le_rfl)

theorem zero : Rounds 0 0 :=
  ⟨-1074, 0, ⟨le_rfl, by positivity, .inl rfl⟩, by simpa using NearestEven.natCast 0, by simp⟩

/-- What has at most 53 digits stays as it is, if they are not too far down. -/
theorem eq_of_fits {n : ℕ} (h : Rounds (n * 2 ^ f) c) (hn : n < 2 ^ 53) (hf : -1074 ≤ f) :
    c = n * 2 ^ f := by
  obtain ⟨e, m, hplace, hnear, rfl⟩ := h
  have hef : e ≤ f := by
    rcases hplace.normal with rfl | hnormal
    · exact hf
    · have hlt : (2 : ℚ) ^ (52 + e) < 2 ^ (53 + f) := by
        rw [zpow_add₀ two_ne_zero, zpow_add₀ two_ne_zero]
        refine lt_of_le_of_lt (by exact_mod_cast hnormal) ?_
        gcongr
        exact_mod_cast hn
      have := (zpow_lt_zpow_iff_right₀ (by norm_num : (1 : ℚ) < 2)).mp hlt
      omega
  obtain ⟨k, rfl⟩ := Int.le.dest hef
  have hwhole : (n : ℚ) * 2 ^ (e + k) = (n * 2 ^ k : ℕ) * 2 ^ e := by
    rw [zpow_add₀ two_ne_zero, zpow_natCast]
    push_cast
    ring
  rw [hwhole, mul_div_cancel_right₀ _ (two_zpow_pos e).ne'] at hnear
  rw [hwhole, hnear.eq_of_natCast]

theorem near (h : Rounds q c) (hq : 2 ^ (-1022 : ℤ) ≤ q) : |c - q| ≤ q / 2 ^ 53 := by
  obtain ⟨e, n, hplace, hnear, rfl⟩ := h
  have hnormal : 2 ^ 52 * 2 ^ e ≤ q := by
    rcases hplace.normal with rfl | hnormal
    · exact least_normal.le.trans hq
    · exact hnormal
  have hscaled : (n : ℚ) * 2 ^ e - q = (n - q / 2 ^ e) * 2 ^ e := by
    field_simp
  rw [hscaled, abs_mul, abs_of_pos (two_zpow_pos e)]
  calc |(n : ℚ) - q / 2 ^ e| * 2 ^ e ≤ 1 / 2 * 2 ^ e := by gcongr; exact hnear.near
    _ = 2 ^ 52 * 2 ^ e / 2 ^ 53 := by ring
    _ ≤ q / 2 ^ 53 := by gcongr

theorem nonneg (h : Rounds q c) : 0 ≤ c := by
  obtain ⟨e, n, -, -, rfl⟩ := h
  positivity

/-- A natural number of at most 53 digits stays as it is, and so does the next one. -/
theorem eq_natCast {n : ℕ} (h : Rounds n c) (hn : n ≤ 2 ^ 53) : c = n := by
  rcases hn.eq_or_lt with rfl | hlt
  · have htwice : ((2 ^ 53 : ℕ) : ℚ) = (2 ^ 52 : ℕ) * 2 ^ (1 : ℤ) := by norm_num
    rw [htwice] at h ⊢
    exact h.eq_of_fits (by norm_num) (by norm_num)
  · simpa using eq_of_fits (f := 0) (by simpa using h) hlt (by norm_num)

end Rounds

/-- `c` is the double nearest to a number of either sign. -/
def Nearest (q c : ℚ) : Prop := if q < 0 then Rounds (-q) (-c) else Rounds q c

namespace Nearest

theorem of_nonneg (h : Rounds q c) (hq : 0 ≤ q) : Nearest q c := (if_neg hq.not_gt).mpr h

theorem of_nonpos (h : Rounds (-q) (-c)) (hq : q ≤ 0) : Nearest q c := by
  rcases hq.eq_or_lt with rfl | hneg
  · rw [neg_zero] at h
    obtain rfl : c = 0 := neg_eq_zero.mp (h.unique .zero)
    exact of_nonneg .zero le_rfl
  · exact (if_pos hneg).mpr h

theorem mono (hq : Nearest q c) (hr : Nearest r d) (h : q ≤ r) : c ≤ d := by
  unfold Nearest at hq hr
  split_ifs at hq hr with hqneg hrneg hrneg
  · exact neg_le_neg_iff.mp (hr.mono hq (neg_le_neg h))
  · linarith [hq.nonneg, hr.nonneg]
  · linarith
  · exact hq.mono hr h

theorem unique (hc : Nearest q c) (hd : Nearest q d) : c = d :=
  le_antisymm (hc.mono hd le_rfl) (hd.mono hc le_rfl)

theorem eq_intCast {n : ℤ} (h : Nearest n c) (hn : |n| ≤ 2 ^ 53) : c = n := by
  unfold Nearest at h
  split_ifs at h with hneg
  · have hneg' : n < 0 := by exact_mod_cast hneg
    obtain ⟨m, hm⟩ := Int.eq_ofNat_of_zero_le (neg_nonneg.mpr hneg'.le)
    obtain rfl : n = -m := by omega
    have hmle : m ≤ 2 ^ 53 := by
      rw [abs_neg, Nat.abs_cast] at hn
      exact_mod_cast hn
    push_cast at h ⊢
    rw [neg_neg] at h
    rw [← neg_eq_iff_eq_neg]
    exact h.eq_natCast hmle
  · have hnonneg : 0 ≤ n := by exact_mod_cast not_lt.mp hneg
    obtain ⟨m, rfl⟩ := Int.eq_ofNat_of_zero_le hnonneg
    rw [Nat.abs_cast] at hn
    push_cast at h ⊢
    exact h.eq_natCast (by exact_mod_cast hn)

theorem near (h : Nearest q c) (hq : q = 0 ∨ 2 ^ (-1022 : ℤ) ≤ |q|) : |c - q| ≤ |q| / 2 ^ 53 := by
  rcases hq with rfl | hq
  · obtain rfl : c = 0 := h.unique (of_nonneg .zero le_rfl)
    simp
  · unfold Nearest at h
    split_ifs at h with hneg
    · rw [abs_of_neg hneg] at hq ⊢
      rw [← neg_sub_neg, abs_sub_comm]
      exact (Rounds.near h hq)
    · rw [abs_of_nonneg (not_lt.mp hneg)] at hq ⊢
      exact h.near hq

end Nearest
end Binary64
end StreamSelect
