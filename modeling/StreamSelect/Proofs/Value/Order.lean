import StreamSelect.Evaluation
import StreamSelect.Proofs.Decimal.Difference
import StreamSelect.Proofs.Decimal.Double
import StreamSelect.Proofs.Value.Integer
import StreamSelect.Proofs.Value.Ordered

/-!
Comparison of integers and decimals with the numbers that they stand for. Two integers and two
decimals are compared as numbers. An integer and a decimal are compared through their doubles, so
different numbers can come out equal, and a decimal with a fraction on the wrong side of an integer;
equal numbers never come out different. A difference has no part in this: it is exact, or it gives
up digits, but is zero only for equal numbers.
-/
namespace StreamSelect
open Binary64 (number? Nearest compareFloat?_eq nearest_ofInt nearest_intCast)

/-- A value that stands for a number exactly. -/
inductive ExactNumber
  | integer (i : Int64)
  | decimal (d : Decimal)

namespace ExactNumber

def value : ExactNumber → Value
  | .integer i => .integer i
  | .decimal d => .decimal d

/-- The number. -/
def toRat : ExactNumber → ℚ
  | .integer i => i.toInt
  | .decimal d => d.toRat

/-- The double by which it is compared with a number of another kind. -/
def toFloat : ExactNumber → Float
  | .integer i => Binary64.ofInt i.toInt
  | .decimal d => d.toFloat

def SameKind : ExactNumber → ExactNumber → Prop
  | .integer _, .integer _ | .decimal _, .decimal _ => True
  | _, _ => False

/-- `c` is the number of the double. It is off by at most one part in `2 ^ 48`, and of an integral
number it is the nearest double. -/
structure HasDouble (a : ExactNumber) (c : ℚ) : Prop where
  number : number? a.toFloat = some c
  near : |c - a.toRat| ≤ |a.toRat| / 2 ^ 48
  nearest : ∀ n : ℤ, a.toRat = n → Nearest n c

variable {a b : ExactNumber} {c d : ℚ} {m n : ℤ}

theorem hasDouble_integer (i : Int64) : ∃ c, HasDouble (.integer i) c := by
  have hlow := Int64.le_toInt i
  have hhigh := Int64.toInt_lt i
  obtain ⟨c, hnearest, hc⟩ := @nearest_ofInt i.toInt (abs_le.mpr ⟨by omega, by omega⟩)
  refine ⟨c, hc, (hnearest.near ?_).trans ?_, fun n hn => ?_⟩
  · rcases eq_or_ne i.toInt 0 with hzero | hne
    · exact .inl (by exact_mod_cast hzero)
    · refine .inr ((zpow_le_one_of_nonpos₀ (by norm_num) (by norm_num)).trans ?_)
      exact_mod_cast Int.one_le_abs hne
  · rw [toRat]
    gcongr <;> norm_num
  · rwa [← hn]

theorem hasDouble_decimal (x : Decimal) : ∃ c, HasDouble (.decimal x) c := by
  obtain ⟨c, hc, hnear⟩ := x.near_toFloat
  refine ⟨c, hc, hnear, fun n hn => ?_⟩
  obtain ⟨d, hnearest, hd⟩ := (Decimal.isWhole_of_toRat_eq hn).nearest_toFloat
  obtain rfl : c = d := Option.some.inj (hc.symm.trans hd)
  exact hn ▸ hnearest

theorem exists_hasDouble (a : ExactNumber) : ∃ c, HasDouble a c := by
  cases a with
  | integer i => exact hasDouble_integer i
  | decimal x => exact hasDouble_decimal x

theorem compare?_sameKind (h : a.SameKind b) :
    a.value.compare? b.value = some (compare a.toRat b.toRat) := by
  cases a with
  | integer i =>
    cases b with
    | integer j => exact congrArg some (compare_congr Int.cast_lt.symm Int.cast_lt.symm)
    | decimal y => cases h
  | decimal x =>
    cases b with
    | integer j => cases h
    | decimal y => exact congrArg some (x.compare_eq y)

theorem compare?_mixed (h : ¬a.SameKind b) (hc : HasDouble a c) (hd : HasDouble b d) :
    a.value.compare? b.value = some (compare c d) := by
  have hdoubles := compareFloat?_eq hc.number hd.number
  cases a with
  | integer i =>
    cases b with
    | integer j => exact absurd trivial h
    | decimal y => exact hdoubles
  | decimal x =>
    cases b with
    | integer j => exact hdoubles
    | decimal y => exact absurd trivial h

theorem sameKind_comm : a.SameKind b ↔ b.SameKind a := by
  cases a <;> cases b <;> rfl

/-- A number of both kinds is integral. -/
theorem integral_of_mixed (h : ¬a.SameKind b) (heq : a.toRat = b.toRat) : ∃ n : ℤ, a.toRat = n := by
  cases a with
  | integer i => exact ⟨i.toInt, rfl⟩
  | decimal x =>
    cases b with
    | integer j => exact ⟨j.toInt, heq⟩
    | decimal y => exact absurd trivial h

section Doubles
variable (hc : HasDouble a c) (hd : HasDouble b d)
include hc hd

theorem compare_doubles_of_eq (hmixed : ¬a.SameKind b) (heq : a.toRat = b.toRat) : c = d := by
  obtain ⟨n, hn⟩ := integral_of_mixed hmixed heq
  exact (hc.nearest n hn).unique (hd.nearest n (heq ▸ hn))

/-- Doubles of numbers that are far enough apart are ordered like the numbers. -/
theorem lt_of_separated (hlt : a.toRat < b.toRat)
    (hfar : |a.toRat| + |b.toRat| < 2 ^ 48 * |a.toRat - b.toRat|) : c < d := by
  have hc' := (abs_le.mp hc.near).2
  have hd' := (abs_le.mp hd.near).1
  rw [abs_sub_comm, abs_of_pos (sub_pos.mpr hlt)] at hfar
  have hgap : |a.toRat| / 2 ^ 48 + |b.toRat| / 2 ^ 48 < b.toRat - a.toRat := by
    rw [← add_div, div_lt_iff₀ (by positivity)]
    linarith
  linarith

/-- Doubles of integral numbers are ordered like the numbers or equal, and equal only where one of
the numbers has more than 53 digits. -/
theorem lt_or_eq_of_integral (hm : a.toRat = m) (hn : b.toRat = n) (hlt : m < n) :
    (c < d ∨ c = d) ∧ (|m| < 2 ^ 53 ∨ |n| < 2 ^ 53 → c < d) := by
  have hcm := hc.nearest m hm
  have hdn := hd.nearest n hn
  refine ⟨(hcm.mono hdn (by exact_mod_cast hlt.le)).lt_or_eq, ?_⟩
  rintro (hsmall | hsmall)
  · obtain rfl := hcm.eq_intCast hsmall.le
    rw [abs_lt] at hsmall
    have hnext := (@nearest_intCast (m + 1) (abs_le.mpr ⟨by omega, by omega⟩)).mono hdn
      (by exact_mod_cast hlt)
    push_cast at hnext
    linarith
  · obtain rfl := hdn.eq_intCast hsmall.le
    rw [abs_lt] at hsmall
    have hprevious := hcm.mono (@nearest_intCast (n - 1) (abs_le.mpr ⟨by omega, by omega⟩))
      (by exact_mod_cast Int.le_sub_one_of_lt hlt)
    push_cast at hprevious
    linarith

end Doubles

/-- Doubles are ordered as numbers that are far enough apart. -/
theorem compare_doubles_of_separated (hc : HasDouble a c) (hd : HasDouble b d)
    (hfar : |a.toRat| + |b.toRat| < 2 ^ 48 * |a.toRat - b.toRat|) :
    compare c d = compare a.toRat b.toRat := by
  rcases lt_trichotomy a.toRat b.toRat with h | h | h
  · rw [compare_lt_iff_lt.mpr h, compare_lt_iff_lt.mpr (lt_of_separated hc hd h hfar)]
  · rw [h, sub_self, abs_zero, mul_zero] at hfar
    linarith [abs_nonneg b.toRat]
  · rw [compare_gt_iff_gt.mpr h, compare_gt_iff_gt.mpr (lt_of_separated hd hc h ?_)]
    rwa [add_comm, abs_sub_comm]

theorem compare_doubles_of_integral (hc : HasDouble a c) (hd : HasDouble b d) (hm : a.toRat = m)
    (hn : b.toRat = n) (hmixed : ¬a.SameKind b) :
    (compare c d = compare a.toRat b.toRat ∨ compare c d = .eq) ∧
      (|m| < 2 ^ 53 ∨ |n| < 2 ^ 53 → compare c d = compare a.toRat b.toRat) := by
  rw [hm, hn]
  rcases lt_trichotomy m n with h | h | h
  · obtain ⟨hle, hlt⟩ := lt_or_eq_of_integral hc hd hm hn h
    have hnumbers : compare (m : ℚ) n = .lt := compare_lt_iff_lt.mpr (by exact_mod_cast h)
    rw [hnumbers, compare_lt_iff_lt, compare_eq_iff_eq]
    exact ⟨hle, hlt⟩
  · have heq := compare_doubles_of_eq hc hd hmixed (by rw [hm, hn, h])
    rw [compare_eq_iff_eq.mpr heq, h, compare_eq_iff_eq.mpr rfl]
    exact ⟨.inl rfl, fun _ => rfl⟩
  · obtain ⟨hle, hlt⟩ := lt_or_eq_of_integral hd hc hn hm h
    have hnumbers : compare (m : ℚ) n = .gt := compare_gt_iff_gt.mpr (by exact_mod_cast h)
    rw [hnumbers, compare_gt_iff_gt, compare_eq_iff_eq, eq_comm, @or_comm (|m| < 2 ^ 53)]
    exact ⟨hle, hlt⟩

/-- A decimal of few digits is far enough from every integer. -/
theorem separated_of_mantissa_lt {x : Decimal} {i : Int64} (h : x.mantissa < 2 ^ 47)
    (hne : x.toRat ≠ i.toInt) :
    |x.toRat| + |(i.toInt : ℚ)| < 2 ^ 48 * |x.toRat - i.toInt| := by
  have hunit : (0 : ℚ) < 10 ^ x.scale := by positivity
  have hx : |x.toRat| * 10 ^ x.scale = x.mantissa := by
    rw [Decimal.abs_toRat, Decimal.magnitude, div_mul_cancel₀ _ hunit.ne']
  -- in units of the last place the difference is an integer
  have hscaled : (x.toRat - i.toInt) * 10 ^ x.scale = (x.signed - i.toInt * 10 ^ x.scale : ℤ) := by
    rw [sub_mul, Decimal.toRat, div_mul_cancel₀ _ hunit.ne']
    push_cast
    rfl
  have hgap : 1 ≤ |x.toRat - i.toInt| * 10 ^ x.scale := by
    have hne' : x.signed - i.toInt * 10 ^ x.scale ≠ 0 := fun hzero => by
      rw [hzero, Int.cast_zero, mul_eq_zero, or_iff_left hunit.ne', sub_eq_zero] at hscaled
      exact hne hscaled
    have habs := congrArg abs hscaled
    rw [abs_mul, abs_of_pos hunit] at habs
    rw [habs]
    exact_mod_cast Int.one_le_abs hne'
  have hmantissa : (x.mantissa : ℚ) + 1 ≤ 2 ^ 47 := by exact_mod_cast h
  have htriangle : |(i.toInt : ℚ)| ≤ |x.toRat| + |x.toRat - i.toInt| := by
    have := abs_sub_abs_le_abs_sub (i.toInt : ℚ) x.toRat
    rw [abs_sub_comm] at this
    linarith
  refine lt_of_mul_lt_mul_right ?_ hunit.le
  calc (|x.toRat| + |(i.toInt : ℚ)|) * 10 ^ x.scale
      ≤ (|x.toRat| + (|x.toRat| + |x.toRat - i.toInt|)) * 10 ^ x.scale := by gcongr
    _ = 2 * x.mantissa + |x.toRat - i.toInt| * 10 ^ x.scale := by rw [← hx]; ring
    _ < 2 ^ 48 * (|x.toRat - i.toInt| * 10 ^ x.scale) := by linarith
    _ = 2 ^ 48 * |x.toRat - i.toInt| * 10 ^ x.scale := by ring

/-- A decimal of few digits is compared with integers as a number. -/
theorem compare_doubles_of_mantissa_lt {x : Decimal} (hc : HasDouble a c) (hd : HasDouble b d)
    (hx : a = .decimal x ∨ b = .decimal x) (h : x.mantissa < 2 ^ 47) (hmixed : ¬a.SameKind b) :
    compare c d = compare a.toRat b.toRat := by
  by_cases heq : a.toRat = b.toRat
  · rw [compare_eq_iff_eq.mpr (compare_doubles_of_eq hc hd hmixed heq), compare_eq_iff_eq.mpr heq]
  · refine compare_doubles_of_separated hc hd ?_
    rcases hx with rfl | rfl
    · cases b with
      | integer i => exact separated_of_mantissa_lt h heq
      | decimal y => exact absurd trivial hmixed
    · cases a with
      | integer i =>
        rw [add_comm, abs_sub_comm]
        exact separated_of_mantissa_lt h (Ne.symm heq)
      | decimal y => exact absurd trivial hmixed

theorem toRat_ofInt64 (i : Int64) : (Decimal.ofInt64 i).toRat = i.toInt := by
  rw [Decimal.toRat, Decimal.signed_ofInt64]
  simp [Decimal.ofInt64]

/-- A difference is zero exactly for equal numbers, even if it had to give up digits. -/
theorem subtract_eq_zero_iff {v : Value} (h : a.value.arithmetic .subtract b.value = .ok v) :
    ∃ r : ExactNumber, v = r.value ∧ (r.toRat = 0 ↔ a.toRat = b.toRat) := by
  have hdecimal {x y : Decimal} (h : Value.decimalArithmetic .subtract x y = .ok v) :
      ∃ r : ExactNumber, v = r.value ∧ (r.toRat = 0 ↔ x.toRat = y.toRat) := by
    unfold Value.decimalArithmetic at h
    split_ifs at h with hzero
    cases hr : Arithmetic.onDecimal? .subtract x y with
    | none =>
      rw [hr] at h
      cases h
    | some r =>
      rw [hr] at h
      cases h
      exact ⟨.decimal r, rfl, Decimal.sub?_eq_zero_iff hr⟩
  cases a with
  | integer i =>
    cases b with
    | integer j =>
      change Value.integerArithmetic .subtract i j = .ok v at h
      unfold Value.integerArithmetic at h
      split_ifs at h with hzero
      cases hr : Arithmetic.onInt64? .subtract i j with
      | none =>
        rw [hr] at h
        cases h
      | some r =>
        rw [hr] at h
        cases h
        have hdifference : r.toInt = i.toInt - j.toInt := int64?_eq_some_iff.mp hr
        refine ⟨.integer r, rfl, ?_⟩
        simp only [toRat, Int.cast_eq_zero, Int.cast_inj, hdifference, sub_eq_zero]
    | decimal y =>
      have := hdecimal h
      rwa [toRat_ofInt64] at this
  | decimal x =>
    cases b with
    | integer j =>
      have := hdecimal h
      rwa [toRat_ofInt64] at this
    | decimal y => exact hdecimal h

theorem isNull_value (a : ExactNumber) : a.value.isNull = false := by
  cases a <;> rfl

/-- Relations go by the order. -/
theorem apply_relation {o : Ordering} (h : a.value.compare? b.value = some o) (op : Relation) :
    BinaryOp.apply (.relation op) a.value b.value = .ok (.boolean (op.holds o)) := by
  simp only [BinaryOp.apply, isNull_value, Bool.or_self, Bool.false_eq_true, if_false]
  exact Value.relation_compare h op

/-- A best value is replaced if the order of the next one to it is the one that is kept. -/
theorem better_eq {o : Ordering} (h : a.value.compare? b.value = some o) (name : String)
    (keep : Ordering) : AggregateFunction.better name keep (some b.value) a.value =
      .ok (some (if o = keep then a.value else b.value)) := by
  simp only [AggregateFunction.better, h]

/-- The order that comparison finds: that of the numbers or that of their doubles. -/
theorem compare?_eq (hc : HasDouble a c) (hd : HasDouble b d) :
    ∃ o, a.value.compare? b.value = some o ∧ b.value.compare? a.value = some o.swap ∧
      (a.SameKind b ∧ o = compare a.toRat b.toRat ∨ ¬a.SameKind b ∧ o = compare c d) := by
  by_cases h : a.SameKind b
  · refine ⟨compare a.toRat b.toRat, compare?_sameKind h, ?_, .inl ⟨h, rfl⟩⟩
    rw [compare?_sameKind (sameKind_comm.mp h), Std.OrientedOrd.eq_swap]
  · refine ⟨compare c d, compare?_mixed h hc hd, ?_, .inr ⟨h, rfl⟩⟩
    rw [compare?_mixed (fun h' => h (sameKind_comm.mp h')) hd hc, Std.OrientedOrd.eq_swap]

/-- Integers and decimals are always comparable, and comparing them the other way round gives the
opposite. The order is that of the numbers if the kinds are the same, and otherwise exactly if the
doubles are ordered as the numbers. They are where the numbers are equal or far enough apart, and so
for every decimal with a mantissa below `2 ^ 47`; integral numbers come out in their order or equal,
and are told apart if one of them is below `2 ^ 53`. Where two numbers come out equal their
difference, unless it overflows, is still zero only if they are. Relations and extremes go by the
order. -/
theorem compare?_eq_compare_iff (a b : ExactNumber) :
    ∃ c d o, HasDouble a c ∧ HasDouble b d ∧
      a.value.compare? b.value = some o ∧ b.value.compare? a.value = some o.swap ∧
      (o = compare a.toRat b.toRat ↔ a.SameKind b ∨ compare c d = compare a.toRat b.toRat) ∧
      (a.toRat = b.toRat → o = .eq) ∧
      (|a.toRat| + |b.toRat| < 2 ^ 48 * |a.toRat - b.toRat| → o = compare a.toRat b.toRat) ∧
      (∀ x : Decimal, a = .decimal x ∨ b = .decimal x → x.mantissa < 2 ^ 47 →
        o = compare a.toRat b.toRat) ∧
      (∀ m n : ℤ, a.toRat = m → b.toRat = n → (o = compare a.toRat b.toRat ∨ o = .eq) ∧
        (|m| < 2 ^ 53 ∨ |n| < 2 ^ 53 → o = compare a.toRat b.toRat)) ∧
      (∀ v, a.value.arithmetic .subtract b.value = .ok v →
        ∃ r : ExactNumber, v = r.value ∧ (r.toRat = 0 ↔ a.toRat = b.toRat)) ∧
      (∀ op, BinaryOp.apply (.relation op) a.value b.value = .ok (.boolean (op.holds o))) ∧
      (∀ name keep, AggregateFunction.better name keep (some b.value) a.value =
        .ok (some (if o = keep then a.value else b.value))) := by
  obtain ⟨c, hc⟩ := a.exists_hasDouble
  obtain ⟨d, hd⟩ := b.exists_hasDouble
  obtain ⟨o, ho, hswap, hkind⟩ := compare?_eq hc hd
  refine ⟨c, d, o, hc, hd, ho, hswap, ?_⟩
  rcases hkind with ⟨hsame, rfl⟩ | ⟨hmixed, rfl⟩
  · exact ⟨iff_of_true rfl (.inl hsame), compare_eq_iff_eq.mpr, fun _ => rfl, fun _ _ _ => rfl,
      fun m n _ _ => ⟨.inl rfl, fun _ => rfl⟩, fun v => subtract_eq_zero_iff, apply_relation ho,
      better_eq ho⟩
  · exact ⟨(or_iff_right hmixed).symm,
      fun heq => compare_eq_iff_eq.mpr (compare_doubles_of_eq hc hd hmixed heq),
      compare_doubles_of_separated hc hd,
      fun x hx hlt => compare_doubles_of_mantissa_lt hc hd hx hlt hmixed,
      fun m n hm hn => compare_doubles_of_integral hc hd hm hn hmixed,
      fun v => subtract_eq_zero_iff, apply_relation ho,
      better_eq ho⟩

/-- A decimal just above an integer can come out below it. -/
example : (Value.integer 49).compare?
    (.decimal ⟨false, 4900000000000000000000001, 23, by decide, by decide⟩) = some .gt := by
  decide +kernel

/-- The integer `2 ^ 53 + 1` and the decimal `2 ^ 53` come out equal, and differ by one. -/
theorem integer_meets_decimal :
    let a := ExactNumber.integer 9007199254740993
    let b := ExactNumber.decimal ⟨false, 9007199254740992, 0, by decide, by decide⟩
    a.value.compare? b.value = some .eq ∧ compare a.toRat b.toRat = .gt ∧
      a.value.equals b.value = true ∧
      a.value.arithmetic .subtract b.value =
        .ok (.decimal ⟨false, 1, 0, by decide, by decide⟩) := by
  intro a b
  have hcompare : a.value.compare? b.value = some .eq := by decide +kernel
  have ha : a.toRat = 9007199254740993 := by
    have hi : Int64.toInt 9007199254740993 = 9007199254740993 := by decide
    simp only [a, toRat, hi]
    norm_num
  have hb : b.toRat = 9007199254740992 := by
    norm_num [b, toRat, Decimal.toRat, Decimal.signed]
  refine ⟨hcompare, ?_, ?_, rfl⟩
  · rw [ha, hb, compare_gt_iff_gt]
    norm_num
  · unfold Value.equals
    rw [hcompare]
    rfl

end ExactNumber
end StreamSelect
