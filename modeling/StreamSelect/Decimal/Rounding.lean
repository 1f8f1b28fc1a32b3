import StreamSelect.Decimal.Basic
import StreamSelect.Binary64.Parts

/-!
Rounding a decimal to a number of places or to an integer, and the double next to a decimal.
Rounding to an integer up or down keeps the sign, also where the result is zero.
-/
namespace StreamSelect.Decimal

/-- The quotient of two naturals, rounded; a half goes up. -/
def roundHalfUp (n d : Nat) : Nat := (2 * n + d) / (2 * d)

theorem roundHalfUp_le (n d : Nat) : roundHalfUp n d ≤ n := by
  unfold roundHalfUp
  rcases Nat.eq_zero_or_pos d with rfl | hd
  · simp
  · refine Nat.le_of_lt_succ ((Nat.div_lt_iff_lt_mul (by omega)).2 ?_)
    have h : n ≤ n * d := Nat.le_mul_of_pos_right n hd
    calc 2 * n + d ≤ 2 * (n * d) + d := by omega
      _ < 2 * (n * d) + 2 * d := by omega
      _ = (n + 1) * (2 * d) := by rw [Nat.add_mul, Nat.one_mul, Nat.mul_left_comm]

/-- Rounds to `places` fractional digits, a half away from zero. Fewer digits stay as they are. A
number that becomes zero loses its sign, zero itself keeps it. -/
def roundTo (d : Decimal) (places : Nat) : Decimal :=
  if h : d.scale ≤ places then d
  else
    let rounded := roundHalfUp d.mantissa (Nat.pow 10 (d.scale - places))
    { negative := d.negative && (rounded != 0 || d.isZero)
      mantissa := rounded
      scale := places
      mantissa_lt := Nat.lt_of_le_of_lt (roundHalfUp_le _ _) d.mantissa_lt
      scale_le := by have := d.scale_le; omega }

/-- The integer part, moved away from zero by one if `away` and there is a fraction. -/
def wholePart (d : Decimal) (away : Bool) : Decimal :=
  let unit := Nat.pow 10 d.scale
  { d with
    mantissa := if away ∧ d.mantissa % unit ≠ 0 then d.mantissa / unit + 1 else d.mantissa / unit
    scale := 0
    mantissa_lt := by
      have hlt := d.mantissa_lt
      have hle : d.mantissa / unit ≤ d.mantissa := Nat.div_le_self _ _
      split
      next h =>
        have hpos : 0 < d.mantissa := by
          rcases Nat.eq_zero_or_pos d.mantissa with h0 | h0
          · simp [h0] at h
          · exact h0
        have hunit : 1 < unit := by
          rcases Nat.lt_or_ge 1 unit with h1 | h1
          · exact h1
          · have : unit = 1 := by
              have : 0 < unit := Nat.pow_pos (by decide)
              omega
            rw [this, Nat.mod_one] at h
            simp at h
        have := Nat.div_lt_self hpos hunit
        omega
      next => omega
    scale_le := zero.scale_le }

/-- The largest integer not above the number. -/
def floor (d : Decimal) : Decimal := d.wholePart d.negative

/-- The smallest integer not below the number. -/
def ceil (d : Decimal) : Decimal := d.wholePart (!d.negative)

/-- The double next to the decimal, found from integer part and fraction and then rounded to its
places. It is not always the nearest double. -/
def toFloat (d : Decimal) : Float :=
  if d.scale = 0 then Binary64.ofInt d.signed
  else
    let whole := Float.ofNat (d.mantissa / Nat.pow 10 d.scale)
    let fraction := d.mantissa % Nat.pow 10 d.scale
    let size :=
      if fraction = 0 then whole
      else
        let unit := Binary64.tenPow d.scale
        let part := Float.ofNat fraction / Float.ofNat (Nat.pow 10 d.scale)
        Binary64.round ((whole + part) * unit) / unit
    if d.negative then -size else size

end StreamSelect.Decimal
