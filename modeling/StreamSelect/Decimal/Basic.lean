/-!
Decimal numbers of bounded size: a mantissa of 96 bits and at most 28 fractional digits. The
number of fractional digits is kept, so `1.5` and `1.50` are two representations of one number;
order is that of the numbers, decided by cross multiplication.
-/
namespace StreamSelect

/-- The number `± mantissa / 10 ^ scale`. Zero may carry a sign, which only its text shows. -/
structure Decimal where
  negative : Bool
  mantissa : Nat
  scale : Nat
  mantissa_lt : mantissa < Nat.pow 2 96
  scale_le : scale ≤ 28
  deriving DecidableEq, Repr

namespace Decimal

/-- The decimal of these parts, if they are in bounds. Zero gets no sign. -/
def ofParts? (negative : Bool) (mantissa scale : Nat) : Option Decimal :=
  if h : mantissa < Nat.pow 2 96 ∧ scale ≤ 28 then
    some ⟨negative && mantissa != 0, mantissa, scale, h.1, h.2⟩
  else none

def zero : Decimal := ⟨false, 0, 0, by decide, by decide⟩

instance : Inhabited Decimal := ⟨zero⟩

/-- The integer `± mantissa`. -/
def signed (d : Decimal) : Int := if d.negative then -d.mantissa else d.mantissa

def isZero (d : Decimal) : Bool := d.mantissa = 0

def neg (d : Decimal) : Decimal := { d with negative := !d.negative }

def abs (d : Decimal) : Decimal := { d with negative := false }

/-- The numbers `a` and `b` brought to one denominator. -/
def aligned (a b : Decimal) : Int × Int :=
  (a.signed * Nat.pow 10 b.scale, b.signed * Nat.pow 10 a.scale)

/-- The order of the numbers; the count of fractional digits plays no part. -/
def compare (a b : Decimal) : Ordering :=
  Ord.compare (a.aligned b).1 (a.aligned b).2

/-- A 64-bit integer as a decimal without fractional digits. -/
def ofInt64 (i : Int64) : Decimal :=
  { negative := i.toInt < 0
    mantissa := i.toInt.natAbs
    scale := 0
    mantissa_lt := by
      have := Int64.le_toInt i
      have := Int64.toInt_lt i
      have : 9223372036854775808 < Nat.pow 2 96 := by decide
      omega
    scale_le := by decide }

theorem ofParts?_eq_none_iff {negative : Bool} {mantissa scale : Nat} :
    ofParts? negative mantissa scale = none ↔ Nat.pow 2 96 ≤ mantissa ∨ 28 < scale := by
  by_cases h : mantissa < Nat.pow 2 96 ∧ scale ≤ 28
  · simp only [ofParts?, dif_pos h, reduceCtorEq, false_iff]
    omega
  · simp only [ofParts?, dif_neg h, true_iff]
    omega

theorem signed_ofInt64 (i : Int64) : (ofInt64 i).signed = i.toInt := by
  simp only [ofInt64, signed, decide_eq_true_eq]
  split <;> omega

end Decimal
end StreamSelect
