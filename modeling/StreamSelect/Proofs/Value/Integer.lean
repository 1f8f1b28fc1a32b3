import Mathlib.Data.Rat.Floor
import StreamSelect.Value.Arithmetic

/-!
Arithmetic on integers of 64 bits. An operation gives the exact number where that fits into 64 bits,
and is refused everywhere else, so no number is ever wrapped. A remainder goes by its quotient: it
is refused where the quotient does not fit, though a remainder always would.
-/
namespace StreamSelect

/-- The number is one of those that 64 bits hold, half of them below zero. -/
def FitsInt64 (n : ℤ) : Prop := -2 ^ 63 ≤ n ∧ n < 2 ^ 63

instance (n : ℤ) : Decidable (FitsInt64 n) := inferInstanceAs (Decidable (_ ∧ _))

theorem fitsInt64_toInt (i : Int64) : FitsInt64 i.toInt := ⟨i.le_toInt, i.toInt_lt⟩

/-- What is no farther from zero than a number that fits, and not across it, fits too. -/
theorem FitsInt64.of_natAbs_le {m n : ℤ} (h : FitsInt64 n) (hle : m.natAbs ≤ n.natAbs)
    (hside : n < 0 → m ≤ 0) : FitsInt64 m := by
  unfold FitsInt64 at *
  omega

/-- A sum that fits is not wrapped. -/
theorem toInt_add_of_fits {a b : Int64} (h : FitsInt64 (a.toInt + b.toInt)) :
    (a + b).toInt = a.toInt + b.toInt := by
  rw [Int64.toInt_add]
  unfold FitsInt64 at h
  exact Int.bmod_eq_of_le (by omega) (by omega)

theorem toInt_sub_of_fits {a b : Int64} (h : FitsInt64 (a.toInt - b.toInt)) :
    (a - b).toInt = a.toInt - b.toInt := by
  rw [Int64.toInt_sub]
  unfold FitsInt64 at h
  exact Int.bmod_eq_of_le (by omega) (by omega)

theorem int64?_of_fits {k : ℤ} (h : FitsInt64 k) :
    ∃ n : Int64, int64? k = some n ∧ n.toInt = k := by
  have hgreatest : Int64.maxValue.toInt = 2 ^ 63 - 1 := rfl
  refine ⟨.ofInt k, if_pos ⟨h.1, ?_⟩, Int64.toInt_ofInt_of_le h.1 h.2⟩
  have := h.2
  omega

theorem int64?_eq_none_iff {k : ℤ} : int64? k = none ↔ ¬FitsInt64 k := by
  constructor
  · intro hnone h
    obtain ⟨n, hn, _⟩ := int64?_of_fits h
    rw [hnone] at hn
    cases hn
  · intro h
    refine if_neg fun hbounds => h ⟨hbounds.1, ?_⟩
    have hgreatest : Int64.maxValue.toInt = 2 ^ 63 - 1 := rfl
    have := hbounds.2
    omega

theorem int64?_eq_some_iff {k : ℤ} {n : Int64} : int64? k = some n ↔ n.toInt = k := by
  constructor
  · intro hn
    by_cases h : FitsInt64 k
    · obtain ⟨m, hm, hk⟩ := int64?_of_fits h
      obtain rfl := Option.some.inj (hm.symm.trans hn)
      exact hk
    · rw [int64?_eq_none_iff.mpr h] at hn
      cases hn
  · rintro rfl
    obtain ⟨m, hm, hk⟩ := int64?_of_fits (fitsInt64_toInt n)
    rw [hm, Int64.toInt_inj.mp hk]

/-- A number without its fraction. -/
def truncate (x : ℚ) : ℤ := if 0 ≤ x then ⌊x⌋ else ⌈x⌉

theorem truncate_neg (x : ℚ) : truncate (-x) = -truncate x := by
  unfold truncate
  rcases lt_trichotomy x 0 with h | rfl | h
  · rw [if_pos (neg_nonneg.mpr h.le), if_neg (not_le.mpr h), Int.floor_neg]
  · simp
  · rw [if_neg (not_le.mpr (neg_neg_of_pos h)), if_pos h.le, Int.ceil_neg]

/-- Quotients are cut toward zero. That of a number by zero is zero on both sides. -/
theorem truncate_div (a b : ℤ) : truncate (a / b) = a.tdiv b := by
  have hnat (m n : ℕ) : truncate (m / n) = (m : ℤ).tdiv n := by
    have hfloor := Rat.floor_intCast_div_natCast m n
    rw [Int.cast_natCast] at hfloor
    rw [truncate, if_pos (by positivity), hfloor, Int.tdiv_eq_ediv_of_nonneg m.cast_nonneg]
  obtain ⟨m, rfl | rfl⟩ := a.eq_nat_or_neg <;> obtain ⟨n, rfl | rfl⟩ := b.eq_nat_or_neg <;>
    simp [neg_div, div_neg, truncate_neg, hnat, Int.neg_tdiv, Int.tdiv_neg]

/-- The quotient of two integers fits unless it is the opposite of the least one. -/
theorem fitsInt64_tdiv_iff (a b : Int64) :
    FitsInt64 (a.toInt.tdiv b.toInt) ↔ ¬(a = Int64.minValue ∧ b = -1) := by
  have ha := fitsInt64_toInt a
  have hleast : Int64.minValue.toInt = -2 ^ 63 := rfl
  have hunit : (-1 : Int64).toInt = -1 := rfl
  constructor
  · rintro h ⟨rfl, rfl⟩
    exact absurd h (by decide)
  · intro hne
    rw [← Int64.toInt_inj, ← Int64.toInt_inj, hleast, hunit] at hne
    have hsize : (a.toInt.tdiv b.toInt).natAbs = a.toInt.natAbs / b.toInt.natAbs :=
      Int.natAbs_tdiv _ _
    rcases Nat.lt_trichotomy b.toInt.natAbs 1 with hzero | hone | hmore
    · obtain hb : b.toInt = 0 := by omega
      rw [hb, Int.tdiv_zero]
      decide
    · rcases (by omega : b.toInt = 1 ∨ b.toInt = -1) with hb | hb
      · rwa [hb, Int.tdiv_one]
      · rw [hb, Int.tdiv_neg, Int.tdiv_one]
        unfold FitsInt64 at *
        omega
    · have hhalf : a.toInt.natAbs / b.toInt.natAbs ≤ a.toInt.natAbs / 2 :=
        Nat.div_le_div_left hmore (by decide)
      unfold FitsInt64 at *
      omega

/-- The remainder of integers always fits. -/
theorem fitsInt64_tmod (a b : Int64) : FitsInt64 (a.toInt.tmod b.toInt) := by
  refine (fitsInt64_toInt a).of_natAbs_le ?_ fun hneg => ?_
  · rw [Int.natAbs_tmod]
    exact Nat.mod_le _ _
  · have hopposite := Int.tmod_nonneg b.toInt (Int.neg_nonneg_of_nonpos hneg.le)
    rw [Int.neg_tmod] at hopposite
    exact Int.neg_nonneg.mp hopposite

namespace Value
variable {op : Arithmetic} {a b : Int64}

/-- The exact quotient, cut toward zero. -/
def quotient (a b : Int64) : ℤ := truncate (a.toInt / b.toInt)

theorem quotient_eq (a b : Int64) : quotient a b = a.toInt.tdiv b.toInt := truncate_div _ _

theorem sub_mul_quotient (a b : Int64) :
    a.toInt - b.toInt * quotient a b = a.toInt.tmod b.toInt := by
  rw [quotient_eq, Int.tmod_def]

/-- The operation comes to the exact number wherever the condition holds, and fails as an operation
everywhere else. -/
structure ExactWhere (condition : Prop) (exact : ℤ) (result : Outcome Value) : Prop where
  exact : condition → ∃ n : Int64, n.toInt = exact ∧ result = .ok (.integer n)
  refused : ¬condition → ∃ message, result = .error (.failure message)

/-- The fault of an operation whose number does not fit. -/
def overflow (op : Arithmetic) (a b : ℤ) : Fault :=
  .failure ("Integer overflow in " ++ toString a ++ " " ++ op.symbol ++ " " ++ toString b)

/-- An operation that does not divide by zero comes to its number, if that fits. -/
theorem arithmetic_of_onInt64? {k : ℤ} (hop : op.onInt64? a b = int64? k)
    (hzero : op.divides = true → b ≠ 0) :
    (FitsInt64 k → ∃ n : Int64, n.toInt = k ∧
      (integer a).arithmetic op (.integer b) = .ok (.integer n)) ∧
    (¬FitsInt64 k → (integer a).arithmetic op (.integer b) =
      .error (overflow op a.toInt b.toInt)) := by
  have hintegers : (integer a).arithmetic op (.integer b) = integerArithmetic op a b := rfl
  rw [hintegers, integerArithmetic, if_neg fun h => hzero h.1 h.2, hop]
  constructor
  · intro h
    obtain ⟨n, hn, hk⟩ := int64?_of_fits h
    exact ⟨n, hk, by rw [hn]⟩
  · intro h
    rw [int64?_eq_none_iff.mpr h]
    rfl

theorem onInt64?_of_ne_modulo (hop : op ≠ .modulo) (a b : Int64) :
    op.onInt64? a b = int64? (op.onInt a.toInt b.toInt) :=
  if_neg fun h => hop h.1

theorem exactWhere_of_fits (op : Arithmetic) (hop : op ≠ .modulo)
    (hzero : op.divides = true → b ≠ 0) :
    ExactWhere (FitsInt64 (op.onInt a.toInt b.toInt)) (op.onInt a.toInt b.toInt)
      ((integer a).arithmetic op (.integer b)) := by
  obtain ⟨hexact, hoverflow⟩ := arithmetic_of_onInt64? (onInt64?_of_ne_modulo hop a b) hzero
  exact ⟨hexact, fun h => ⟨_, hoverflow h⟩⟩

/-- A remainder is refused exactly where the quotient does not fit. -/
theorem exactWhere_modulo (hb : b ≠ 0) :
    ExactWhere (FitsInt64 (a.toInt.tdiv b.toInt)) (a.toInt.tmod b.toInt)
      ((integer a).arithmetic .modulo (.integer b)) := by
  constructor
  · intro h
    have hop : Arithmetic.onInt64? .modulo a b = int64? (a.toInt.tmod b.toInt) :=
      if_neg fun hnone => int64?_eq_none_iff.mp hnone.2 h
    exact (arithmetic_of_onInt64? hop fun _ => hb).1 (fitsInt64_tmod a b)
  · intro h
    have hnone := int64?_eq_none_iff.mpr h
    have hop : Arithmetic.onInt64? .modulo a b = int64? (a.toInt.tdiv b.toInt) :=
      (if_pos ⟨rfl, hnone⟩).trans hnone.symm
    exact ⟨_, (arithmetic_of_onInt64? hop fun _ => hb).2 h⟩

theorem arithmetic_by_zero (hop : op.divides = true) :
    (integer a).arithmetic op (.integer 0) = .error .divisionByZero :=
  if_pos ⟨hop, rfl⟩

/-- A zero on the right is refused before anything else is asked. -/
theorem ExactWhere.of_nonzero (hop : op.divides = true) {condition : Prop} {exact : ℤ}
    (h : b ≠ 0 → ExactWhere condition exact ((integer a).arithmetic op (.integer b))) :
    ExactWhere (b ≠ 0 ∧ condition) exact ((integer a).arithmetic op (.integer b)) := by
  refine ⟨fun hc => (h hc.1).exact hc.2, fun hc => ?_⟩
  by_cases hb : b = 0
  · subst hb
    exact ⟨_, arithmetic_by_zero hop⟩
  · exact (h hb).refused fun hcondition => hc ⟨hb, hcondition⟩

/-- What an exact operation returns is the number that it is to return. -/
theorem ExactWhere.eq {condition : Prop} {exact : ℤ} {result : Outcome Value}
    (h : ExactWhere condition exact result) {n : Int64} (hn : result = .ok (.integer n)) :
    condition ∧ n.toInt = exact := by
  by_cases hc : condition
  · obtain ⟨m, hm, hresult⟩ := h.exact hc
    rw [hn] at hresult
    cases hresult
    exact ⟨hc, hm⟩
  · obtain ⟨message, hresult⟩ := h.refused hc
    rw [hn] at hresult
    cases hresult

/-- Integers are added, subtracted and multiplied exactly where the result fits into 64 bits, and
divided exactly, with the quotient cut toward zero, where the divisor is not zero and the quotient
fits. A remainder is given where the quotient is, so only the least integer by minus one, which
leaves nothing, has none. Everything else fails. Where there are both, quotient and remainder make
up the dividend, and the remainder is smaller than the divisor and has the sign of the dividend. -/
theorem arithmetic_integers_exact (a b : Int64) :
    ExactWhere (FitsInt64 (a.toInt + b.toInt)) (a.toInt + b.toInt)
      ((integer a).arithmetic .add (.integer b)) ∧
    ExactWhere (FitsInt64 (a.toInt - b.toInt)) (a.toInt - b.toInt)
      ((integer a).arithmetic .subtract (.integer b)) ∧
    ExactWhere (FitsInt64 (a.toInt * b.toInt)) (a.toInt * b.toInt)
      ((integer a).arithmetic .multiply (.integer b)) ∧
    ExactWhere (b ≠ 0 ∧ FitsInt64 (quotient a b)) (quotient a b)
      ((integer a).arithmetic .divide (.integer b)) ∧
    ExactWhere (b ≠ 0 ∧ FitsInt64 (quotient a b)) (a.toInt - b.toInt * quotient a b)
      ((integer a).arithmetic .modulo (.integer b)) ∧
    (FitsInt64 (quotient a b) ↔ ¬(a = Int64.minValue ∧ b = -1)) ∧
    ∀ q r : Int64, (integer a).arithmetic .divide (.integer b) = .ok (.integer q) →
      (integer a).arithmetic .modulo (.integer b) = .ok (.integer r) →
      q.toInt * b.toInt + r.toInt = a.toInt ∧ |r.toInt| < |b.toInt| ∧
        (r = 0 ∨ r.toInt.sign = a.toInt.sign) := by
  rw [sub_mul_quotient, quotient_eq]
  have hdivide : ExactWhere (b ≠ 0 ∧ FitsInt64 (a.toInt.tdiv b.toInt)) (a.toInt.tdiv b.toInt)
      ((integer a).arithmetic .divide (.integer b)) :=
    .of_nonzero rfl fun hb => exactWhere_of_fits .divide (by decide) fun _ => hb
  have hmodulo : ExactWhere (b ≠ 0 ∧ FitsInt64 (a.toInt.tdiv b.toInt)) (a.toInt.tmod b.toInt)
      ((integer a).arithmetic .modulo (.integer b)) := .of_nonzero rfl exactWhere_modulo
  refine ⟨exactWhere_of_fits .add (by decide) nofun,
    exactWhere_of_fits .subtract (by decide) nofun,
    exactWhere_of_fits .multiply (by decide) nofun, hdivide, hmodulo,
    fitsInt64_tdiv_iff a b, fun q r hq hr => ?_⟩
  obtain ⟨⟨hb, _⟩, hq⟩ := hdivide.eq hq
  obtain ⟨_, hr⟩ := hmodulo.eq hr
  have hb' : b.toInt ≠ 0 := fun h => hb (Int64.toInt_inj.mp h)
  refine ⟨?_, ?_, ?_⟩
  · rw [hq, hr, Int.mul_comm, Int.mul_tdiv_add_tmod]
  · rw [hr, Int.abs_eq_natAbs, Int.abs_eq_natAbs, Int.natAbs_tmod, Int.ofNat_lt]
    exact Nat.mod_lt _ (Int.natAbs_pos.mpr hb')
  · rw [hr, Int.sign_tmod, ← Int64.toInt_inj, hr]
    split
    next hdvd => exact .inl (Int.tmod_eq_zero_of_dvd hdvd)
    next => exact .inr rfl

/-- Below zero the quotient is cut upward, and the remainder is below zero as well. -/
theorem arithmetic_integers_exact_minusSevenByTwo :
    (integer (-7)).arithmetic .divide (.integer 2) = .ok (.integer (-3)) ∧
    (integer (-7)).arithmetic .modulo (.integer 2) = .ok (.integer (-1)) ∧
    ((-1 : Int64) = 0 ∨ (-1 : Int64).toInt.sign = (-7 : Int64).toInt.sign) := by
  have hq : (integer (-7)).arithmetic .divide (.integer 2) = .ok (.integer (-3)) := rfl
  have hr : (integer (-7)).arithmetic .modulo (.integer 2) = .ok (.integer (-1)) := rfl
  obtain ⟨_, _, _, _, _, _, hboth⟩ := arithmetic_integers_exact (-7) 2
  exact ⟨hq, hr, (hboth _ _ hq hr).2.2⟩

/-- The least integer divided by minus one leaves zero, but the remainder is refused. -/
theorem fitting_remainder_refused :
    let a := Int64.minValue
    let b : Int64 := -1
    let remainder := a.toInt - b.toInt * quotient a b
    b ≠ 0 ∧ remainder = 0 ∧ FitsInt64 remainder ∧
      (integer a).arithmetic .modulo (.integer b) =
        .error (.failure "Integer overflow in -9223372036854775808 % -1") ∧
      ¬ExactWhere (b ≠ 0 ∧ FitsInt64 remainder) remainder
        ((integer a).arithmetic .modulo (.integer b)) := by
  intro a b remainder
  have hb : b ≠ 0 := by decide
  have hremainder : remainder = 0 := by
    rw [show remainder = a.toInt.tmod b.toInt from sub_mul_quotient a b]
    decide
  have hfits : FitsInt64 remainder := by
    rw [hremainder]
    decide
  have hrefused : (integer a).arithmetic .modulo (.integer b) =
      .error (.failure "Integer overflow in -9223372036854775808 % -1") := rfl
  refine ⟨hb, hremainder, hfits, hrefused, fun h => ?_⟩
  obtain ⟨n, _, hn⟩ := h.exact ⟨hb, hfits⟩
  rw [hrefused] at hn
  cases hn

end Value
end StreamSelect
