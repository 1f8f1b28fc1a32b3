import StreamSelect.Proofs.Binary64.Parts

/-!
How far a double is from the number it is meant for, in units of one part in `2 ^ 53`. One operation
adds the errors of its operands and its own rounding, as long as the numbers are far from the ends
of the range.
-/
namespace StreamSelect.Binary64

/-- `c` is off from `q` by at most `k` parts in `2 ^ 53`. -/
def Near (k : ℕ) (c q : ℚ) : Prop := |c - q| ≤ k / 2 ^ 53 * q

/-- A positive number far from where doubles lose digits and from where they end. -/
structure Moderate (q : ℚ) : Prop where
  least : 1 ≤ q * 2 ^ 100
  greatest : q ≤ 2 ^ 100

variable {k l : ℕ} {c d q r : ℚ} {x y : Float}

theorem Moderate.pos (h : Moderate q) : 0 < q :=
  pos_of_mul_pos_left (zero_lt_one.trans_le h.least) (by positivity)

namespace Near

theorem mono (h : Near k c q) (hkl : k ≤ l) (hq : 0 ≤ q) : Near l c q :=
  h.trans (by gcongr)

theorem of_rounds (h : Rounds q c) (hq : 2 ^ (-1022 : ℤ) ≤ q) : Near 1 c q :=
  (h.near hq).trans_eq (by push_cast; ring)

/-- With few errors the number keeps its magnitude. -/
theorem bounds (h : Near k c q) (hk : k ≤ 2 ^ 52) (hq : 0 ≤ q) : q / 2 ≤ c ∧ c ≤ 2 * q := by
  have hk' : (k : ℚ) ≤ 2 ^ 52 := by exact_mod_cast hk
  have hhalf : (k : ℚ) / 2 ^ 53 * q ≤ 2 ^ 52 / 2 ^ 53 * q := by gcongr
  obtain ⟨hlow, hhigh⟩ := abs_le.mp (h.trans hhalf)
  exact ⟨by linarith, by linarith⟩

/-- Rounding adds its own error, and that of the error before. -/
theorem round (h : Near k c q) (hrounds : Rounds c d) (hk : k ≤ 2 ^ 52) (hq : 0 ≤ q)
    (hc : 2 ^ (-1022 : ℤ) ≤ c) : Near (k + 2) d q := by
  have hrounding : |d - c| ≤ c / 2 ^ 53 := hrounds.near hc
  -- its power is one that the tactics below would try to evaluate
  clear hc
  calc |d - q| ≤ |d - c| + |c - q| := abs_sub_le _ _ _
    _ ≤ 2 * q / 2 ^ 53 + k / 2 ^ 53 * q := by
        refine add_le_add (hrounding.trans ?_) h
        gcongr
        exact (h.bounds hk hq).2
    _ = (k + 2 : ℕ) / 2 ^ 53 * q := by push_cast; ring

theorem mul (hx : Near k c q) (hy : Near l d r) (hkl : k * l ≤ 2 ^ 53) (hq : 0 ≤ q) (hr : 0 ≤ r) :
    Near (k + l + 1) (c * d) (q * r) := by
  have hsplit : c * d - q * r = (c - q) * (d - r) + (c - q) * r + q * (d - r) := by ring
  have hkl' : (k : ℚ) * l ≤ 2 ^ 53 := by exact_mod_cast hkl
  unfold Near at *
  rw [hsplit]
  calc |(c - q) * (d - r) + (c - q) * r + q * (d - r)|
      ≤ |c - q| * |d - r| + |c - q| * r + q * |d - r| := by
        refine (abs_add_three _ _ _).trans_eq ?_
        rw [abs_mul, abs_mul, abs_mul, abs_of_nonneg hq, abs_of_nonneg hr]
    _ ≤ k / 2 ^ 53 * q * (l / 2 ^ 53 * r) + k / 2 ^ 53 * q * r + q * (l / 2 ^ 53 * r) := by
        gcongr
    _ = (k * l / 2 ^ 53 + k + l) / 2 ^ 53 * (q * r) := by ring
    _ ≤ (1 + k + l) / 2 ^ 53 * (q * r) := by
        gcongr
        exact (div_le_one (by positivity)).mpr hkl'
    _ = (k + l + 1 : ℕ) / 2 ^ 53 * (q * r) := by push_cast; ring

theorem add (hx : Near k c q) (hy : Near k d r) : Near k (c + d) (q + r) := by
  unfold Near at *
  calc |c + d - (q + r)| = |(c - q) + (d - r)| := by ring_nf
    _ ≤ |c - q| + |d - r| := abs_add_le _ _
    _ ≤ k / 2 ^ 53 * q + k / 2 ^ 53 * r := add_le_add hx hy
    _ = k / 2 ^ 53 * (q + r) := by ring

theorem div (hx : Near k c q) (hy : Near l d r) (hkl : (k + l + 1) * l ≤ 2 ^ 53) (hl : l ≤ 2 ^ 52)
    (hq : 0 ≤ q) (hr : 0 < r) : Near (k + l + 1) (c / d) (q / r) := by
  have hd : r / 2 ≤ d := (hy.bounds hl hr.le).1
  have hd' : 0 < d := by linarith
  have hkl' : ((k : ℚ) + l + 1) * l / 2 ^ 53 ≤ 1 :=
    (div_le_one (by positivity)).mpr (by exact_mod_cast hkl)
  have hcross : c / d - q / r = ((c - q) * r - q * (d - r)) / (d * r) := by
    field_simp
    ring
  have hlow : (1 - l / 2 ^ 53) * r ≤ d := by
    have := (abs_le.mp hy).1
    linarith
  have hstep : (k + l) * r ≤ (k + l + 1) * d := calc
    (k + l) * r ≤ (k + l + (1 - (k + l + 1) * l / 2 ^ 53)) * r := by
        refine mul_le_mul_of_nonneg_right ?_ hr.le
        linarith
    _ = (k + l + 1) * ((1 - l / 2 ^ 53) * r) := by ring
    _ ≤ (k + l + 1) * d := by gcongr
  unfold Near at *
  rw [hcross, abs_div, abs_of_pos (mul_pos hd' hr), div_le_iff₀ (mul_pos hd' hr)]
  calc |(c - q) * r - q * (d - r)| ≤ |c - q| * r + q * |d - r| := by
        refine (abs_sub _ _).trans_eq ?_
        rw [abs_mul, abs_mul, abs_of_nonneg hq, abs_of_pos hr]
    _ ≤ k / 2 ^ 53 * q * r + q * (l / 2 ^ 53 * r) := by gcongr
    _ = q * ((k + l) * r) / 2 ^ 53 := by ring
    _ ≤ q * ((k + l + 1) * d) / 2 ^ 53 := by gcongr
    _ = (k + l + 1 : ℕ) / 2 ^ 53 * (q / r) * (d * r) := by
        push_cast
        field_simp

end Near

/-- The double stands for a number that is off by at most `k` parts in `2 ^ 53`. -/
def IsNear (k : ℕ) (x : Float) (q : ℚ) : Prop := ∃ c, number? x = some c ∧ Near k c q

theorem least_le (h : 1 ≤ c * 2 ^ 250) : 2 ^ (-1022 : ℤ) ≤ c := by
  have hstep : (2 : ℚ) ^ (-1022 : ℤ) ≤ 2 ^ (-250 : ℤ) :=
    zpow_le_zpow_right₀ (by norm_num) (by norm_num)
  refine hstep.trans ?_
  rw [zpow_neg, inv_le_iff_one_le_mul₀ (by positivity)]
  exact_mod_cast h

theorem lt_of_le_two_pow (h : c ≤ 2 ^ 250) : c < 2 ^ 1023 :=
  h.trans_lt (pow_lt_pow_right₀ (by norm_num) (by norm_num))

namespace IsNear

theorem mono (h : IsNear k x q) (hkl : k ≤ l) (hq : 0 ≤ q) : IsNear l x q :=
  h.imp fun _ hc => ⟨hc.1, hc.2.mono hkl hq⟩

theorem of_rounds (h : Rounds q c) (hx : number? x = some c) (hq : Moderate q) : IsNear 1 x q :=
  ⟨c, hx, .of_rounds h (least_le (hq.least.trans (by
    have := hq.pos
    gcongr <;> norm_num)))⟩

theorem exists_number (h : IsNear k x q) (hk : k ≤ 64) (hq : 0 < q) :
    ∃ c, number? x = some c ∧ Near k c q ∧ 0 < c ∧ q / 2 ≤ c ∧ c ≤ 2 * q := by
  obtain ⟨c, hc, hnear⟩ := h
  obtain ⟨hlow, hhigh⟩ := hnear.bounds (by omega) hq.le
  exact ⟨c, hc, hnear, by linarith, hlow, hhigh⟩

theorem mul (hx : IsNear k x q) (hy : IsNear l y r) (hk : k ≤ 64) (hl : l ≤ 64) (hq : Moderate q)
    (hr : Moderate r) : IsNear (k + l + 3) (x * y) (q * r) := by
  obtain ⟨c, hc, hcq, hc', hclow, hchigh⟩ := hx.exists_number hk hq.pos
  obtain ⟨d, hd, hdr, hd', hdlow, hdhigh⟩ := hy.exists_number hl hr.pos
  have hq' := hq.pos
  have hr' := hr.pos
  have hleast : 1 ≤ c * d * 2 ^ 250 := calc
    (1 : ℚ) ≤ q * 2 ^ 100 * (r * 2 ^ 100) := one_le_mul_of_one_le_of_one_le hq.least hr.least
    _ = q / 2 * (r / 2) * 2 ^ 202 := by ring
    _ ≤ c * d * 2 ^ 250 := by gcongr <;> norm_num
  have hgreatest : c * d ≤ 2 ^ 250 := calc
    c * d ≤ 2 * 2 ^ 100 * (2 * 2 ^ 100) := by
        gcongr
        · exact hchigh.trans (by linarith [hq.greatest])
        · exact hdhigh.trans (by linarith [hr.greatest])
    _ ≤ 2 ^ 250 := by norm_num
  obtain ⟨p, hrounds, hp⟩ := rounds_mul hc hd hc' hd' (lt_of_le_two_pow hgreatest)
  have hkl : k * l ≤ 64 * 64 := Nat.mul_le_mul hk hl
  exact ⟨p, hp, (hcq.mul hdr (by omega) hq'.le hr'.le).round hrounds (by omega) (by positivity)
    (least_le hleast)⟩

theorem add (hx : IsNear k x q) (hy : IsNear k y r) (hk : k ≤ 64) (hq : Moderate q)
    (hr : Moderate r) : IsNear (k + 2) (x + y) (q + r) := by
  obtain ⟨c, hc, hcq, hc', hclow, hchigh⟩ := hx.exists_number hk hq.pos
  obtain ⟨d, hd, hdr, hd', hdlow, hdhigh⟩ := hy.exists_number hk hr.pos
  have hq' := hq.pos
  have hr' := hr.pos
  have hleast : 1 ≤ (c + d) * 2 ^ 250 := calc
    (1 : ℚ) ≤ q * 2 ^ 100 := hq.least
    _ = q / 2 * 2 ^ 101 := by ring
    _ ≤ (c + d) * 2 ^ 250 := by
        gcongr
        · linarith
        · norm_num
        · norm_num
  have hgreatest : c + d ≤ 2 ^ 250 := by linarith [hq.greatest, hr.greatest]
  obtain ⟨p, hrounds, hp⟩ := rounds_add hc hd hc' hd' (lt_of_le_two_pow hgreatest)
  exact ⟨p, hp, (hcq.add hdr).round hrounds (by omega) (by positivity) (least_le hleast)⟩

theorem div (hx : IsNear k x q) (hy : IsNear l y r) (hk : k ≤ 64) (hl : l ≤ 64) (hq : Moderate q)
    (hr : Moderate r) : IsNear (k + l + 3) (x / y) (q / r) := by
  obtain ⟨c, hc, hcq, hc', hclow, hchigh⟩ := hx.exists_number hk hq.pos
  obtain ⟨d, hd, hdr, hd', hdlow, hdhigh⟩ := hy.exists_number hl hr.pos
  have hq' := hq.pos
  have hr' := hr.pos
  have hleast : 1 ≤ c / d * 2 ^ 250 := by
    rw [div_mul_eq_mul_div, one_le_div hd']
    calc d ≤ 2 * 2 ^ 100 * 1 := by linarith [hr.greatest]
      _ ≤ 2 * 2 ^ 100 * (q * 2 ^ 100) := by gcongr; exact hq.least
      _ = q / 2 * 2 ^ 202 := by ring
      _ ≤ c * 2 ^ 250 := by gcongr <;> norm_num
  have hgreatest : c / d ≤ 2 ^ 250 := by
    rw [div_le_iff₀ hd']
    calc c ≤ 2 * 2 ^ 100 * 1 := by linarith [hq.greatest]
      _ ≤ 2 * 2 ^ 100 * (r * 2 ^ 100) := by gcongr; exact hr.least
      _ = 2 ^ 202 * (r / 2) := by ring
      _ ≤ 2 ^ 250 * d := by gcongr <;> norm_num
  obtain ⟨p, hrounds, hp⟩ := rounds_div hc hd hc' hd' (least_le hleast) (lt_of_le_two_pow hgreatest)
  have hkl : (k + l + 1) * l ≤ 129 * 64 := Nat.mul_le_mul (by omega) hl
  exact ⟨p, hp, (hcq.div hdr (by omega) (by omega) hq'.le hr').round hrounds (by omega)
    (by positivity) (least_le hleast)⟩

/-- Rounding to an integer finds a small one exactly, and a half is little for a large one. -/
theorem round {n : ℕ} (h : IsNear k x n) (hk : k ≤ 15) (hn : Moderate n) :
    IsNear (k + 16) (round x) n := by
  have hpos : (0 : ℚ) < n := hn.pos
  obtain ⟨c, hc, hcn, hc', -⟩ := h.exists_number (by omega) hpos
  obtain ⟨m, hm, hmc⟩ := number?_round hc hc'
  have hmn : |(m : ℚ) - n| ≤ 1 / 2 + k / 2 ^ 53 * n := (abs_sub_le _ c _).trans (add_le_add hmc hcn)
  refine ⟨m, hm, ?_⟩
  rcases Nat.lt_or_ge n (2 ^ 48) with hsmall | hlarge
  · -- off by less than one, so not at all
    have hk' : (k : ℚ) ≤ 15 := by exact_mod_cast hk
    have hn' : (n : ℚ) ≤ 2 ^ 48 := by exact_mod_cast hsmall.le
    have herror : (k : ℚ) / 2 ^ 53 * n ≤ 15 / 2 ^ 53 * 2 ^ 48 := by gcongr
    have hclose : |(m : ℚ) - n| < 1 := by linarith
    have hequal : m = n := by
      have : |(m : ℤ) - n| < 1 := by exact_mod_cast hclose
      rw [Int.abs_lt_one_iff] at this
      omega
    rw [hequal, Near, sub_self, abs_zero]
    positivity
  · have hlarge' : (2 : ℚ) ^ 48 ≤ n := by exact_mod_cast hlarge
    calc |(m : ℚ) - n| ≤ 1 / 2 + k / 2 ^ 53 * n := hmn
      _ = 16 / 2 ^ 53 * 2 ^ 48 + k / 2 ^ 53 * n := by norm_num
      _ ≤ 16 / 2 ^ 53 * n + k / 2 ^ 53 * n := by gcongr
      _ = (k + 16 : ℕ) / 2 ^ 53 * n := by push_cast; ring

end IsNear

theorem Moderate.of_natCast {n : ℕ} (hpos : 0 < n) (hn : n ≤ 2 ^ 100) : Moderate n where
  least := one_le_mul_of_one_le_of_one_le (by exact_mod_cast hpos) (one_le_pow₀ (by norm_num))
  greatest := by exact_mod_cast hn

theorem Moderate.div_natCast {m n : ℕ} (hm : 0 < m) (hm' : m ≤ 2 ^ 100) (hn : 0 < n)
    (hn' : n ≤ 2 ^ 100) : Moderate (m / n) := by
  have hpos : (0 : ℚ) < n := by exact_mod_cast hn
  have hn'' : (n : ℚ) ≤ 2 ^ 100 := by exact_mod_cast hn'
  constructor
  · rw [div_mul_eq_mul_div, one_le_div hpos]
    exact hn''.trans (le_mul_of_one_le_left (by positivity) (by exact_mod_cast hm))
  · refine (div_le_self (Nat.cast_nonneg m) (by exact_mod_cast hn)).trans ?_
    exact_mod_cast hm'

theorem isNear_ofNat {n : ℕ} (h : Moderate n) : IsNear 1 (Float.ofNat n) n := by
  obtain ⟨c, hrounds, hc⟩ := rounds_ofNat (lt_of_le_two_pow (h.greatest.trans (by norm_num)))
  exact .of_rounds hrounds hc h

/-- Whether the double next to a power of ten is off by at most one part in `2 ^ 53`. -/
def tenPowIsNear (places : ℕ) : Bool :=
  match (tenPow places).toModel.unpack with
  | .finite .positive m e _ =>
    let found := m * Nat.pow 2 (e + 100).toNat
    let exact := Nat.pow 10 places * Nat.pow 2 100
    decide (-100 ≤ e) && Nat.ble (Nat.pow 2 53 * found) (Nat.pow 2 53 * exact + exact) &&
      Nat.ble (Nat.pow 2 53 * exact) (Nat.pow 2 53 * found + exact)
  | _ => false

theorem tenPowIsNear_of_lt : ∀ places < 29, tenPowIsNear places = true := by
  decide +kernel

theorem isNear_tenPow {places : ℕ} (h : places ≤ 28) :
    IsNear 1 (tenPow places) ((10 ^ places : ℕ) : ℚ) := by
  have hnear := tenPowIsNear_of_lt places (by omega)
  unfold tenPowIsNear at hnear
  split at hnear
  next m e hm hunpack =>
    simp only [Bool.and_eq_true, decide_eq_true_eq, Nat.ble_eq, Nat.pow_eq] at hnear
    obtain ⟨⟨he, habove⟩, hbelow⟩ := hnear
    obtain ⟨n, hn⟩ := Int.le.dest he
    obtain rfl : e = n - 100 := by omega
    have hscaled : (m : ℚ) * 2 ^ ((n : ℤ) - 100) = m * 2 ^ n / 2 ^ 100 := by
      rw [zpow_sub₀ two_ne_zero, zpow_natCast, mul_div_assoc]
      norm_cast
    rw [sub_add_cancel, Int.toNat_natCast] at habove hbelow
    have habove' : (2 ^ 53 : ℚ) * (m * 2 ^ n) ≤
        2 ^ 53 * (10 ^ places * 2 ^ 100) + 10 ^ places * 2 ^ 100 := by exact_mod_cast habove
    have hbelow' : (2 ^ 53 : ℚ) * (10 ^ places * 2 ^ 100) ≤
        2 ^ 53 * (m * 2 ^ n) + 10 ^ places * 2 ^ 100 := by exact_mod_cast hbelow
    refine ⟨m * 2 ^ ((n : ℤ) - 100), by rw [number?, hunpack, unpackedNumber?_positive], ?_⟩
    rw [Near, hscaled, abs_le]
    push_cast
    generalize (m : ℚ) * 2 ^ n = a, (10 : ℚ) ^ places = b at *
    constructor <;> linarith
  next => cases hnear

end StreamSelect.Binary64
