import StreamSelect.Binary64.Parts

/-!
The fewest decimal digits that read back to a given double, found by exact arithmetic: for one
digit, two digits and so on, the two decimal grid points next to the number are tested against the
interval of reals that round to it.
-/
namespace StreamSelect.Binary64

/-- Which of two equally near shortest decimals is taken. -/
inductive Tie
  | up
  | even
  deriving DecidableEq, Repr

/-- The number `digits · 10 ^ exponent`. -/
structure Scientific where
  digits : Nat
  exponent : Int
  deriving DecidableEq, Repr

/-- A positive real as a quotient, with the ends of the interval that rounds to it; all three are
over the same denominator. -/
structure Rounding where
  value : Nat
  lower : Nat
  upper : Nat
  denominator : Nat
  closed : Bool

/-- The interval of `significand · 2 ^ exponent`. Its lower half is shorter where the significand is
the least one of its binade, and its ends belong to it iff the significand is even. -/
def Rounding.ofParts (significand : Nat) (exponent : Int) : Rounding :=
  let up := Nat.pow 2 exponent.toNat
  let down := Nat.pow 2 (-exponent).toNat
  let below := if significand = Nat.pow 2 52 ∧ -1074 < exponent then 1 else 2
  { value := 4 * significand * up
    lower := (4 * significand - below) * up
    upper := (4 * significand + 2) * up
    denominator := 4 * down
    closed := significand % 2 = 0 }

/-- The exponent of the leading decimal digit of a positive quotient. -/
def leadingExponent (num den : Nat) : Int :=
  let e : Int := (Nat.toDigits 10 num).length - (Nat.toDigits 10 den).length
  if num * Nat.pow 10 (-e).toNat < den * Nat.pow 10 e.toNat then e - 1 else e

/-- The grid point of step `10 ^ exponent` in the interval that is nearest to the number. -/
def Rounding.onGrid? (r : Rounding) (tie : Tie) (exponent : Int) : Option Nat :=
  let step := r.denominator * Nat.pow 10 exponent.toNat
  let scale := Nat.pow 10 (-exponent).toNat
  let low := r.value * scale / step
  let rest := r.value * scale % step
  let inside (n : Nat) : Bool :=
    let x := n * step
    if r.closed then r.lower * scale ≤ x ∧ x ≤ r.upper * scale
    else r.lower * scale < x ∧ x < r.upper * scale
  let takesLow : Bool :=
    2 * rest < step ∨ (2 * rest = step ∧ tie = .even ∧ low % 2 = 0)
  match inside low, inside (low + 1) with
  | true, true => some (if takesLow then low else low + 1)
  | true, false => some low
  | false, true => some (low + 1)
  | false, false => none

/-- Drops the trailing zeros of the digits. At most `fuel` of them. -/
def Scientific.trim : Nat → Scientific → Scientific
  | 0, s => s
  | fuel + 1, s =>
    if s.digits ≠ 0 ∧ s.digits % 10 = 0 then trim fuel ⟨s.digits / 10, s.exponent + 1⟩ else s

/-- The fewest digits that read back to `significand · 2 ^ exponent`, and of those the nearest.
Seventeen digits are always enough. -/
def shortest (tie : Tie) (significand : Nat) (exponent : Int) : Scientific :=
  if significand = 0 then ⟨0, 0⟩
  else
    let r := Rounding.ofParts significand exponent
    let lead := leadingExponent r.value r.denominator
    let hit := (List.range 17).findSome? fun (n : Nat) =>
      let e := lead - n
      (r.onGrid? tie e).map (Scientific.trim 18 ⟨·, e⟩)
    hit.getD ⟨0, 0⟩

end StreamSelect.Binary64
