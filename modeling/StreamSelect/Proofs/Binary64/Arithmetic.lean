import StreamSelect.Proofs.Binary64.Nearest
import StreamSelect.Proofs.Binary64.Number

/-!
Arithmetic on doubles that are not negative: the result is the double nearest to the exact one.
-/
namespace StreamSelect.Binary64
open Float.Model (Format UnpackedFloat totalExponent)
open Float.Model.UnpackedFloat

/-- The residual bits say where a number lies between the mantissa and the next one. -/
def Represents (em : ExtendedMantissa) (x : ℚ) : Prop :=
  match em.roundBit, em.stickyBit with
  | false, false => x = em.mantissa
  | false, true => em.mantissa < x ∧ x < em.mantissa + 1 / 2
  | true, false => x = em.mantissa + 1 / 2
  | true, true => em.mantissa + 1 / 2 < x ∧ x < em.mantissa + 1

namespace Represents
variable {em : ExtendedMantissa} {x : ℚ}

theorem le (h : Represents em x) : em.mantissa ≤ x := by
  obtain ⟨m, round, sticky⟩ := em
  cases round <;> cases sticky <;> simp only [Represents] at h ⊢ <;> linarith

theorem lt (h : Represents em x) : x < em.mantissa + 1 := by
  obtain ⟨m, round, sticky⟩ := em
  cases round <;> cases sticky <;> simp only [Represents] at h ⊢ <;> linarith

/-- Rounding by the residual bits gives the nearest integer. -/
theorem nearestEven (h : Represents em x) : NearestEven x em.roundedMantissa := by
  obtain ⟨m, round, sticky⟩ := em
  cases round with
  | false =>
    cases sticky with
    | false =>
      obtain rfl : x = m := h
      exact NearestEven.natCast m
    | true =>
      obtain ⟨habove, hbelow⟩ : (m : ℚ) < x ∧ x < m + 1 / 2 := h
      refine .of_lt (abs_lt.mpr ?_)
      change -(1 / 2) < (m : ℚ) - x ∧ (m : ℚ) - x < 1 / 2
      exact ⟨by linarith, by linarith⟩
  | true =>
    cases sticky with
    | false =>
      -- the number is a half above the mantissa, whose parity decides
      obtain rfl : x = m + 1 / 2 := h
      have hbit : m % 2 = 0 ∨ m % 2 = 1 := Nat.mod_two_eq_zero_or_one m
      refine ⟨?_, fun _ => ?_⟩
      · rcases hbit with hbit | hbit <;>
          norm_num [ExtendedMantissa.roundedMantissa, ExtendedMantissa.accuracy,
            Accuracy.roundToNearestEven, hbit, abs_of_pos]
      · change Even (m + m % 2)
        rw [Nat.even_iff]
        omega
    | true =>
      obtain ⟨habove, hbelow⟩ : (m : ℚ) + 1 / 2 < x ∧ x < m + 1 := h
      refine .of_lt (abs_lt.mpr ?_)
      change -(1 / 2) < ((m + 1 : ℕ) : ℚ) - x ∧ ((m + 1 : ℕ) : ℚ) - x < 1 / 2
      push_cast
      exact ⟨by linarith, by linarith⟩

/-- A shift by one bit halves the number. -/
theorem shiftRightOne (h : Represents em x) : Represents em.shiftRightOne (x / 2) := by
  obtain ⟨m, round, sticky⟩ := em
  have hm : (m : ℚ) = 2 * (m / 2 : ℕ) + (m % 2 : ℕ) := by exact_mod_cast (Nat.div_add_mod m 2).symm
  rcases Nat.mod_two_eq_zero_or_one m with hbit | hbit <;>
    cases round <;> cases sticky <;>
      simp [Represents, ExtendedMantissa.shiftRightOne, hbit] at h hm ⊢ <;>
      first | linarith | exact ⟨by linarith, by linarith⟩

theorem shiftRight (h : Represents em x) (k : ℕ) : Represents (em >>> k) (x / 2 ^ k) := by
  change Represents (k.repeat ExtendedMantissa.shiftRightOne em) _
  induction k with
  | zero => simpa [Nat.repeat] using h
  | succ k ih =>
    rw [Nat.repeat, pow_succ, ← div_div]
    exact ih.shiftRightOne

end Represents

section Rounding
variable {m : ℕ} {e : ℤ} {accuracy : Accuracy} {x : ℚ}

/-- The place to which a mantissa is rounded is the last place of the number. -/
theorem lastPlace_targetExponent (hm : 0 < m) (hle : m ≤ x) (hlt : x < m + 1) :
    LastPlace (x * 2 ^ e) (Format.binary64.targetExponent (totalExponent m e)) := by
  have htarget : Format.binary64.targetExponent (totalExponent m e) =
      max (m.log2 + 1 + e - 53) (-1074) := rfl
  have hlow : (2 : ℚ) ^ m.log2 ≤ x := le_trans (by exact_mod_cast Nat.log2_self_le hm.ne') hle
  have hhigh : x < 2 ^ (m.log2 + 1) := by
    refine hlt.trans_le ?_
    exact_mod_cast Nat.lt_log2_self
  rw [htarget]
  refine ⟨le_max_right _ _, ?_, ?_⟩
  · have hexponent : ((m.log2 + 1 : ℕ) : ℤ) + e ≤ 53 + max (m.log2 + 1 + e - 53) (-1074) := by omega
    calc x * 2 ^ e < 2 ^ (m.log2 + 1) * 2 ^ e := by gcongr
      _ = 2 ^ (((m.log2 + 1 : ℕ) : ℤ) + e) := by rw [zpow_add₀ two_ne_zero, zpow_natCast]
      _ ≤ 2 ^ (53 + max (m.log2 + 1 + e - 53 : ℤ) (-1074)) :=
        zpow_le_zpow_right₀ (by norm_num) hexponent
      _ = 2 ^ 53 * 2 ^ max (m.log2 + 1 + e - 53 : ℤ) (-1074) := by
        rw [zpow_add₀ two_ne_zero]
        norm_cast
  · rcases le_or_gt (m.log2 + 1 + e - 53) (-1074) with h | h
    · exact .inl (max_eq_right h)
    · refine .inr ?_
      rw [max_eq_left h.le]
      calc (2 : ℚ) ^ 52 * 2 ^ (m.log2 + 1 + e - 53 : ℤ) = 2 ^ m.log2 * 2 ^ e := by
            rw [← zpow_natCast, ← zpow_natCast, ← zpow_add₀ two_ne_zero, ← zpow_add₀ two_ne_zero]
            congr 1
            push_cast
            ring
        _ ≤ x * 2 ^ e := by gcongr

theorem LastPlace.le_of_lt {q : ℚ} {t : ℤ} (h : LastPlace q t) (hq : q < 2 ^ 1023) : t ≤ 970 := by
  rcases h.normal with rfl | hnormal
  · norm_num
  · have hlt : (2 : ℚ) ^ (52 + t) < 2 ^ (1023 : ℤ) := by
      rw [zpow_add₀ two_ne_zero]
      exact_mod_cast hnormal.trans_lt hq
    have := (zpow_lt_zpow_iff_right₀ (by norm_num : (1 : ℚ) < 2)).mp hlt
    omega

/-- A mantissa of at most 53 digits is in its place already. -/
theorem shiftToTargetExponent_of_lt {n : ℕ} {t : ℤ} (hn : n < 2 ^ 53) (ht : -1074 ≤ t) :
    shiftToTargetExponent Format.binary64 n t .exact = (⟨n, false, false⟩, t) := by
  have htarget : Format.binary64.targetExponent (totalExponent n t) =
      max (n.log2 + 1 + t - 53) (-1074) := rfl
  have hlog : n.log2 < 53 := by
    rcases Nat.eq_zero_or_pos n with rfl | hpos
    · decide
    · exact (Nat.log2_lt hpos.ne').mpr hn
  have hshift : (Format.binary64.targetExponent (totalExponent n t) - t).toNat = 0 := by omega
  simp only [shiftToTargetExponent, shiftToExponent, hshift]
  exact Prod.ext rfl (add_zero t)

/-- If rounding leads to the next power of two, the last place moves up. -/
theorem shiftToTargetExponent_carry {t : ℤ} (ht : -1074 ≤ t) :
    shiftToTargetExponent Format.binary64 (2 ^ 53) t .exact =
      (⟨2 ^ 52, false, false⟩, t + 1) := by
  have htarget : Format.binary64.targetExponent (totalExponent (2 ^ 53) t) =
      max ((2 ^ 53 : ℕ).log2 + 1 + t - 53) (-1074) := rfl
  rw [Nat.log2_two_pow] at htarget
  have hshift : (Format.binary64.targetExponent (totalExponent (2 ^ 53) t) - t).toNat = 1 := by
    omega
  simp only [shiftToTargetExponent, shiftToExponent, hshift]
  rfl

/-- The last step of rounding: a rounded mantissa that has become too long is shifted once more. -/
def settle (sign : Sign) (n : ℕ) (t : ℤ) : UnpackedFloat :=
  let (em, e) := shiftToTargetExponent Format.binary64 n t .exact
  if h : em.mantissa = 0 then .zero sign else .finite sign em.mantissa e (Nat.pos_of_ne_zero h)

theorem roundWithAccuracy_eq_settle (sign : Sign) {em : ExtendedMantissa} {t : ℤ}
    (h : shiftToTargetExponent Format.binary64 m e accuracy = (em, t)) :
    roundWithAccuracy Format.binary64 sign m e accuracy = settle sign em.roundedMantissa t := by
  unfold roundWithAccuracy
  rw [h]
  rfl

theorem number?_settle {n : ℕ} {t : ℤ} (hn : n ≤ 2 ^ 53) (hleast : -1074 ≤ t)
    (hgreatest : t ≤ 970) (hnormal : t = -1074 ∨ 2 ^ 52 ≤ n) :
    number? (.ofModel (.pack (settle .positive n t))) = some ((n : ℚ) * 2 ^ t) := by
  unfold settle
  rcases hn.eq_or_lt with rfl | hn
  · rw [shiftToTargetExponent_carry hleast]
    change number? (.ofModel (.pack (.finite .positive (2 ^ 52) (t + 1) (by decide)))) = _
    rw [number?_pack (u := .finite .positive (2 ^ 52) (t + 1) (by decide))
      ⟨by norm_num, by omega, by omega, .inr le_rfl⟩, unpackedNumber?_positive,
      zpow_add_one₀ two_ne_zero]
    congr 1
    push_cast
    ring
  · rw [shiftToTargetExponent_of_lt hn hleast]
    by_cases hzero : n = 0
    · subst hzero
      change number? (.ofModel (.pack (.zero .positive))) = _
      rw [number?_pack (u := .zero .positive) trivial]
      simp [unpackedNumber?]
    · have hpos : 0 < n := Nat.pos_of_ne_zero hzero
      have hsettled : (if h : n = 0 then UnpackedFloat.zero .positive
          else .finite .positive n t (Nat.pos_of_ne_zero h)) = .finite .positive n t hpos :=
        dif_neg hzero
      change number? (.ofModel (.pack (if h : n = 0 then .zero .positive
          else .finite .positive n t (Nat.pos_of_ne_zero h)))) = _
      rw [hsettled, number?_pack (u := .finite .positive n t hpos)
        ⟨hn, hleast, by omega, hnormal⟩, unpackedNumber?_positive]

/-- Rounding a mantissa gives the nearest double, if it has digits enough. -/
theorem rounds_roundWithAccuracy (hm : 0 < m)
    (hx : Represents (.ofMantissaAndAccuracy m accuracy) x)
    (he : e ≤ Format.binary64.targetExponent (totalExponent m e)) (hbound : x * 2 ^ e < 2 ^ 1023) :
    ∃ c, Rounds (x * 2 ^ e) c ∧
      number? (.ofModel (.pack (roundWithAccuracy Format.binary64 .positive m e accuracy))) =
        some c := by
  have hmantissa : (ExtendedMantissa.ofMantissaAndAccuracy m accuracy).mantissa = m := by
    unfold ExtendedMantissa.ofMantissaAndAccuracy
    split <;> rfl
  have hplace : LastPlace (x * 2 ^ e) (Format.binary64.targetExponent (totalExponent m e)) :=
    lastPlace_targetExponent hm (by simpa [hmantissa] using hx.le)
      (by simpa [hmantissa] using hx.lt)
  generalize htarget : Format.binary64.targetExponent (totalExponent m e) = t at he hplace
  obtain ⟨k, rfl⟩ := Int.le.dest he
  have hshift : shiftToTargetExponent Format.binary64 m e accuracy =
      (ExtendedMantissa.ofMantissaAndAccuracy m accuracy >>> k, e + k) := by
    simp only [shiftToTargetExponent, shiftToExponent, htarget, add_sub_cancel_left,
      Int.toNat_natCast]
  have hscaled : x * 2 ^ e / 2 ^ (e + k) = x / 2 ^ k := by
    rw [zpow_add₀ two_ne_zero, zpow_natCast]
    field_simp
  have hnear := hscaled ▸ (hx.shiftRight k).nearestEven
  rw [roundWithAccuracy_eq_settle _ hshift]
  generalize (ExtendedMantissa.ofMantissaAndAccuracy m accuracy >>> k).roundedMantissa = n at *
  refine ⟨n * 2 ^ (e + k), ⟨e + k, n, hplace, hnear, rfl⟩, number?_settle ?_ hplace.least
    (hplace.le_of_lt hbound) (hplace.normal.imp id fun hnormal => ?_)⟩
  · refine hnear.mono (NearestEven.natCast (2 ^ 53)) ?_
    rw [div_le_iff₀ (by positivity)]
    exact_mod_cast hplace.lt.le
  · refine (NearestEven.natCast (2 ^ 52)).mono hnear ?_
    rw [le_div_iff₀ (by positivity)]
    exact_mod_cast hnormal

theorem represents_exact (m : ℕ) : Represents (.ofMantissaAndAccuracy m .exact) m := rfl

theorem le_targetExponent (h : 52 ≤ m.log2 ∨ e ≤ -1074) :
    e ≤ Format.binary64.targetExponent (totalExponent m e) := by
  change e ≤ max (m.log2 + 1 + e - 53) (-1074)
  omega

/-- Rounding a mantissa of any length gives the nearest double. -/
theorem rounds_round (hm : 0 < m) (hbound : (m : ℚ) * 2 ^ e < 2 ^ 1023) :
    ∃ c, Rounds (m * 2 ^ e) c ∧
      number? (.ofModel (.pack (UnpackedFloat.round Format.binary64 .positive m e))) = some c := by
  have htarget (n : ℕ) (f : ℤ) : Format.binary64.targetExponent (totalExponent n f) =
      max (n.log2 + 1 + f - 53) (-1074) := rfl
  unfold UnpackedFloat.round
  simp only [decreaseExponent]
  generalize hk : (e - Format.binary64.targetExponent (totalExponent m e)).toNat = k
  have hscaled : ((m <<< k : ℕ) : ℚ) * 2 ^ (e - k) = m * 2 ^ e := by
    rw [Nat.shiftLeft_eq, Nat.cast_mul, Nat.cast_pow, Nat.cast_ofNat, zpow_sub₀ two_ne_zero,
      zpow_natCast]
    field_simp
  have hlog : (m <<< k).log2 = m.log2 + k := by
    rw [Nat.shiftLeft_eq, Nat.log2_eq_iff (by positivity), pow_add, Nat.add_right_comm, pow_add]
    exact ⟨Nat.mul_le_mul_right _ (Nat.log2_self_le hm.ne'),
      Nat.mul_lt_mul_of_pos_right Nat.lt_log2_self (by positivity)⟩
  rw [← hscaled]
  refine rounds_roundWithAccuracy (by rw [Nat.shiftLeft_eq]; positivity) (represents_exact _) ?_
    (hscaled ▸ hbound)
  rw [htarget] at hk ⊢
  omega

end Rounding

section Operations
variable {x y : Float} {q r : ℚ}

/-- A positive double has a positive mantissa. -/
theorem unpack_of_number?_pos (h : number? x = some q) (hq : 0 < q) :
    ∃ m e hm, x.toModel.unpack = .finite .positive m e hm ∧ Canonical m e ∧ q = m * 2 ^ e := by
  have hcanonical := isCanonical x
  rcases unpacked_of_number? h with ⟨hzero, -⟩ | ⟨-, m, e, hm, hu, hnumber⟩ | ⟨hneg, -⟩
  · exact absurd hzero hq.ne'
  · exact ⟨m, e, hm, hu, by rwa [hu] at hcanonical, hnumber⟩
  · exact absurd hneg hq.not_gt

theorem unpack_of_number?_zero (h : number? x = some 0) : ∃ s, x.toModel.unpack = .zero s := by
  rcases unpacked_of_number? h with ⟨-, hzero⟩ | ⟨hpos, -⟩ | ⟨hneg, -⟩
  · exact hzero
  · exact absurd hpos (lt_irrefl _)
  · exact absurd hneg (lt_irrefl _)

theorem rounds_mul (hx : number? x = some q) (hy : number? y = some r) (hq : 0 < q) (hr : 0 < r)
    (hbound : q * r < 2 ^ 1023) : ∃ c, Rounds (q * r) c ∧ number? (x * y) = some c := by
  obtain ⟨m, e, hm, hux, hcanonical, rfl⟩ := unpack_of_number?_pos hx hq
  obtain ⟨n, f, hn, huy, hcanonical', rfl⟩ := unpack_of_number?_pos hy hr
  have hproduct : (m : ℚ) * 2 ^ e * (n * 2 ^ f) = ((m * n : ℕ) : ℚ) * 2 ^ (e + f) := by
    rw [zpow_add₀ two_ne_zero]
    push_cast
    ring
  have hmul : x * y = .ofModel (.pack (roundWithAccuracy Format.binary64 .positive (m * n) (e + f)
      .exact)) := by
    change Float.ofModel (.pack (UnpackedFloat.mul _ x.toModel.unpack y.toModel.unpack)) = _
    rw [hux, huy]
    rfl
  rw [hproduct] at hbound ⊢
  rw [hmul]
  refine rounds_roundWithAccuracy (Nat.mul_pos hm hn) (represents_exact _)
    (le_targetExponent ?_) hbound
  rcases hcanonical.normal with rfl | hnormal
  · rcases hcanonical'.normal with rfl | hnormal'
    · exact .inr (by norm_num)
    · exact .inl ((Nat.le_log2 (by positivity)).mpr (hnormal'.trans (Nat.le_mul_of_pos_left n hm)))
  · exact .inl ((Nat.le_log2 (by positivity)).mpr (hnormal.trans (Nat.le_mul_of_pos_right m hn)))

theorem normalize_natCast {n : ℕ} (h : 0 < n) (e : ℤ) (sign : Sign) :
    UnpackedFloat.normalize Format.binary64 n e sign =
      UnpackedFloat.round Format.binary64 .positive n e := by
  unfold UnpackedFloat.normalize
  rw [Int.compare_eq_gt.mpr (by exact_mod_cast h)]
  rfl

theorem rounds_add (hx : number? x = some q) (hy : number? y = some r) (hq : 0 < q) (hr : 0 < r)
    (hbound : q + r < 2 ^ 1023) : ∃ c, Rounds (q + r) c ∧ number? (x + y) = some c := by
  obtain ⟨m, e, hm, hux, _, rfl⟩ := unpack_of_number?_pos hx hq
  obtain ⟨n, f, hn, huy, _, rfl⟩ := unpack_of_number?_pos hy hr
  generalize hk : (e - min e f).toNat = k
  generalize hl : (f - min e f).toNat = l
  have hpos : 0 < m <<< k + n <<< l := by
    rw [Nat.shiftLeft_eq, Nat.shiftLeft_eq]
    positivity
  have hadd : x + y = .ofModel (.pack (UnpackedFloat.round Format.binary64 .positive
      (m <<< k + n <<< l) (min e f))) := by
    change Float.ofModel (.pack (UnpackedFloat.add _ x.toModel.unpack y.toModel.unpack)) = _
    rw [hux, huy]
    simp only [UnpackedFloat.add, decreaseExponent, hk, hl, Sign.apply]
    rw [← Int.natCast_add, normalize_natCast hpos]
  have hsum : (m : ℚ) * 2 ^ e + n * 2 ^ f = ((m <<< k + n <<< l : ℕ) : ℚ) * 2 ^ min e f := by
    have hshift (m : ℕ) (e g : ℤ) (k : ℕ) (h : g ≤ e) (hk : (e - g).toNat = k) :
        (m : ℚ) * 2 ^ e = ((m <<< k : ℕ) : ℚ) * 2 ^ g := by
      obtain rfl : e = g + k := by omega
      rw [zpow_add₀ two_ne_zero, Nat.shiftLeft_eq, zpow_natCast]
      push_cast
      ring
    rw [hshift m e _ k (min_le_left e f) hk, hshift n f _ l (min_le_right e f) hl]
    push_cast
    ring
  rw [hsum] at hbound ⊢
  rw [hadd]
  exact rounds_round hpos hbound

theorem number?_zero_add (hx : number? x = some 0) (hy : number? y = some r) (hr : 0 < r) :
    number? (x + y) = some r := by
  obtain ⟨s, hux⟩ := unpack_of_number?_zero hx
  obtain ⟨n, f, hn, huy, hcanonical, rfl⟩ := unpack_of_number?_pos hy hr
  change number? (.ofModel (.pack (UnpackedFloat.add _ x.toModel.unpack y.toModel.unpack))) = _
  rw [hux, huy]
  exact number?_pack (u := .finite .positive n f hn) hcanonical

/-- The accuracy of a quotient says where the exact one lies. -/
theorem represents_quotient (m : ℕ) {n : ℕ} (hn : 0 < n) :
    Represents (.ofMantissaAndAccuracy (m / n) (accuracyOfFraction (m % n) n)) (m / n) := by
  have hpos : (0 : ℚ) < n := by exact_mod_cast hn
  have hquotient : (m : ℚ) / n = (m / n : ℕ) + (m % n : ℕ) / n := by
    rw [div_eq_iff hpos.ne', add_mul, div_mul_cancel₀ _ hpos.ne']
    exact_mod_cast (Nat.div_add_mod' m n).symm
  have hlt : ((m % n : ℕ) : ℚ) < n := by exact_mod_cast Nat.mod_lt m hn
  rw [hquotient]
  generalize m / n = q, m % n = r at *
  unfold accuracyOfFraction
  split
  next hzero =>
    subst hzero
    simpa using represents_exact q
  next hzero =>
    have hr : (0 : ℚ) < r := by exact_mod_cast Nat.pos_of_ne_zero hzero
    rcases lt_trichotomy (2 * r) n with h | h | h
    · rw [compare_lt_iff_lt.mpr h]
      have h' : 2 * (r : ℚ) < n := by exact_mod_cast h
      refine ⟨?_, ?_⟩
      · change (q : ℚ) < _
        have : 0 < (r : ℚ) / n := by positivity
        linarith
      · change _ < (q : ℚ) + 1 / 2
        have : (r : ℚ) / n < 1 / 2 := by rw [div_lt_iff₀ hpos]; linarith
        linarith
    · rw [compare_eq_iff_eq.mpr h]
      have h' : 2 * (r : ℚ) = n := by exact_mod_cast h
      change _ = (q : ℚ) + 1 / 2
      rw [← h']
      field_simp
    · rw [compare_gt_iff_gt.mpr h]
      have h' : (n : ℚ) < 2 * r := by exact_mod_cast h
      refine ⟨?_, ?_⟩
      · change (q : ℚ) + 1 / 2 < _
        have : 1 / 2 < (r : ℚ) / n := by rw [lt_div_iff₀ hpos]; linarith
        linarith
      · change _ < (q : ℚ) + 1
        have : (r : ℚ) / n < 1 := by rw [div_lt_iff₀ hpos]; linarith
        linarith

theorem rounds_div (hx : number? x = some q) (hy : number? y = some r) (hq : 0 < q) (hr : 0 < r)
    (hnormal : 2 ^ (-1022 : ℤ) ≤ q / r) (hbound : q / r < 2 ^ 1023) :
    ∃ c, Rounds (q / r) c ∧ number? (x / y) = some c := by
  obtain ⟨m, e, hm, hux, hcanonical, rfl⟩ := unpack_of_number?_pos hx hq
  obtain ⟨n, f, hn, huy, hcanonical', rfl⟩ := unpack_of_number?_pos hy hr
  generalize ht : min (e - f) (Format.binary64.targetExponent
    (totalExponent m e - totalExponent n f)) = t
  generalize hk : (e - f - t).toNat = k
  have hdiv : x / y = .ofModel (.pack (roundWithAccuracy Format.binary64 .positive ((m <<< k) / n) t
      (accuracyOfFraction (m <<< k % n) n))) := by
    change Float.ofModel (.pack (UnpackedFloat.div _ x.toModel.unpack y.toModel.unpack)) = _
    rw [hux, huy]
    simp only [UnpackedFloat.div, divCore, ht, hk]
    rfl
  have hquotient : (m : ℚ) * 2 ^ e / (n * 2 ^ f) = ((m <<< k : ℕ) : ℚ) / n * 2 ^ t := by
    obtain rfl : e = f + t + k := by omega
    rw [Nat.shiftLeft_eq, zpow_add₀ two_ne_zero, zpow_add₀ two_ne_zero, zpow_natCast]
    push_cast
    field_simp
  rw [hquotient] at hnormal hbound ⊢
  rw [hdiv]
  have hsize : 2 ^ 52 * n ≤ m <<< k := by
    have htarget : t ≤ max (((m.log2 + 1 + e) - (n.log2 + 1 + f)) - 53) (-1074) :=
      ht ▸ min_le_right _ _
    rcases le_max_iff.mp htarget with hfull | hleast
    · have hdigits : n.log2 + 1 + 52 ≤ m.log2 + k := by
        have : t ≤ e - f := ht ▸ min_le_left _ _
        omega
      rw [Nat.shiftLeft_eq]
      calc 2 ^ 52 * n ≤ 2 ^ 52 * 2 ^ (n.log2 + 1) := Nat.mul_le_mul_left _ Nat.lt_log2_self.le
        _ = 2 ^ (n.log2 + 1 + 52) := by ring
        _ ≤ 2 ^ (m.log2 + k) := Nat.pow_le_pow_right (by norm_num) hdigits
        _ = 2 ^ m.log2 * 2 ^ k := pow_add ..
        _ ≤ m * 2 ^ k := Nat.mul_le_mul_right _ (Nat.log2_self_le hm.ne')
    · have hn' : (0 : ℚ) < n := by exact_mod_cast hn
      have hleast' : (2 : ℚ) ^ t ≤ 2 ^ (-1074 : ℤ) := zpow_le_zpow_right₀ (by norm_num) hleast
      have hquotient' : (0 : ℚ) ≤ (m <<< k : ℕ) / n := div_nonneg (Nat.cast_nonneg _) hn'.le
      have hsmall : (2 : ℚ) ^ 52 * 2 ^ (-1074 : ℤ) ≤ (m <<< k : ℕ) / n * 2 ^ (-1074 : ℤ) :=
        least_normal.trans_le (hnormal.trans (mul_le_mul_of_nonneg_left hleast' hquotient'))
      have hratio := le_of_mul_le_mul_right hsmall (zpow_pos two_pos _)
      rw [le_div_iff₀ hn'] at hratio
      exact_mod_cast hratio
  have hlong : 2 ^ 52 ≤ m <<< k / n := (Nat.le_div_iff_mul_le hn).mpr hsize
  exact rounds_roundWithAccuracy (by omega) (represents_quotient _ hn)
    (le_targetExponent (.inl ((Nat.le_log2 (by omega)).mpr hlong))) hbound

end Operations

section Naturals
variable {n : ℕ}

private theorem number?_one : number? Float.exactlyRepresentablePowersOfTen[0] = some 1 := by
  have hunpack : Float.exactlyRepresentablePowersOfTen[0].toModel.unpack =
      .finite .positive (2 ^ 52) (-52) (by decide) := rfl
  rw [number?, hunpack, unpackedNumber?_positive]
  norm_num

theorem number?_zero : number? (Float.ofNat 0) = some 0 := by
  have hunpack : (Float.ofNat 0).toModel.unpack = .zero .positive := rfl
  rw [number?, hunpack]
  rfl

/-- Small numbers go through a machine word. -/
private theorem rounds_ofNat_of_lt (hpos : 0 < n) (hn : n < 2 ^ 53) (hbound : (n : ℚ) < 2 ^ 1023) :
    ∃ c, Rounds n c ∧ number? (Float.ofNat n) = some c := by
  have hword : n.toUInt64.toFloat =
      .ofModel (.pack (UnpackedFloat.round Format.binary64 .positive n 0)) := by
    have hvalue : n.toUInt64.toNat = n := Nat.mod_eq_of_lt (by omega)
    change Float.ofModel (.pack (UnpackedFloat.normalize _ (n.toUInt64.toNat : ℤ) 0 .positive)) = _
    rw [hvalue, normalize_natCast hpos]
  have hproduct : Float.ofNat n =
      n.toUInt64.toFloat * Float.exactlyRepresentablePowersOfTen[0] := by
    change Float.ofScientific n false 0 = _
    rw [Float.ofScientific, dif_pos ⟨hn, by norm_num⟩]
    rfl
  obtain ⟨c, hc, hnumber⟩ := rounds_round (e := 0) hpos (by simpa using hbound)
  obtain rfl := Rounds.eq_natCast (by simpa using hc) hn.le
  obtain ⟨d, hd, hnumber'⟩ := rounds_mul (hword ▸ hnumber) number?_one (by exact_mod_cast hpos)
    one_pos (by simpa using hbound)
  exact ⟨d, by simpa using hd, hproduct ▸ hnumber'⟩

/-- Other numbers are multiplied by the zeroth power of ten, without a word. -/
private theorem rounds_ofNat_of_le (hn : 2 ^ 53 ≤ n) (hbound : (n : ℚ) < 2 ^ 1023) :
    ∃ c, Rounds n c ∧ number? (Float.ofNat n) = some c := by
  have hpos : 0 < n := by omega
  have hmodel : Float.ofNat n =
      .ofModel (.pack (roundWithAccuracy Format.binary64 .positive (n <<< 53) (-53) .exact)) := by
    change Float.ofScientific n false 0 = _
    rw [Float.ofScientific, dif_neg (by omega)]
    change Float.ofModel (.pack (UnpackedFloat.ofScientific _ n (Int.ofNat 0))) = _
    have hlarge : ¬(Int.ofNat 0 < -(2 ^ 11 + (n.log2 : ℤ))) := by
      change ¬((0 : ℤ) < _)
      omega
    rw [UnpackedFloat.ofScientific, dif_neg hpos.ne', if_neg (by decide), if_neg hlarge,
      if_pos (by decide)]
    rw [← Nat.mul_one (n <<< 53)]
    rfl
  have hscaled : ((n <<< 53 : ℕ) : ℚ) * 2 ^ (-53 : ℤ) = n := by
    rw [Nat.shiftLeft_eq, zpow_neg]
    push_cast
    exact mul_inv_cancel_right₀ (by positivity) _
  have hlog : 52 ≤ (n <<< 53).log2 := by
    refine (Nat.le_log2 ?_).mpr ?_ <;> rw [Nat.shiftLeft_eq] <;> omega
  have h := rounds_roundWithAccuracy (m := n <<< 53) (e := -53)
    (by rw [Nat.shiftLeft_eq]; omega) (represents_exact _) (le_targetExponent (.inl hlog))
    (by rwa [hscaled])
  rwa [hscaled, ← hmodel] at h

theorem rounds_ofNat (hbound : (n : ℚ) < 2 ^ 1023) :
    ∃ c, Rounds n c ∧ number? (Float.ofNat n) = some c := by
  rcases Nat.lt_or_ge n (2 ^ 53) with hn | hn
  · rcases Nat.eq_zero_or_pos n with rfl | hpos
    · exact ⟨0, by simpa using Rounds.zero, number?_zero⟩
    · exact rounds_ofNat_of_lt hpos hn hbound
  · exact rounds_ofNat_of_le hn hbound

end Naturals
end StreamSelect.Binary64
