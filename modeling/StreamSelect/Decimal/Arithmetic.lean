import StreamSelect.Decimal.Basic

/-!
Sum, difference, product, quotient and remainder of decimals. A result that needs more than 96 bits
or 28 places loses the fewest fractional digits that make it fit, rounding a half to the even
neighbour; `none` says that no such loss is enough. The remainder by a divisor of more than 64 bits
comes from a long division that can lose a digit.
-/
namespace StreamSelect.Decimal

/-- The quotient of two naturals, rounded; a half goes to the even neighbour. -/
def roundHalfEven (n d : Nat) : Nat :=
  let q := n / d
  let r := n % d
  if d < 2 * r ∨ (2 * r = d ∧ q % 2 = 1) then q + 1 else q

/-- The number `± n / 10 ^ scale` after dropping the fewest fractional digits that make it fit. -/
def fit? (negative : Bool) (n scale : Nat) : Option Decimal :=
  (List.range (scale + 1)).findSome? fun drop =>
    ofParts? negative (roundHalfEven n (Nat.pow 10 drop)) (scale - drop)

/-- The sum. A zero operand leaves the other as it is, with its own scale. -/
def add? (a b : Decimal) : Option Decimal :=
  if a.isZero then some b
  else if b.isZero then some a
  else
    let scale := max a.scale b.scale
    let sum := a.signed * Nat.pow 10 (scale - a.scale) + b.signed * Nat.pow 10 (scale - b.scale)
    fit? (sum < 0) sum.natAbs scale

/-- The difference, the sum with the opposite number. A zero subtrahend counts as positive. -/
def sub? (a b : Decimal) : Option Decimal :=
  if b.isZero then add? a b else add? a b.neg

/-- The product. A zero factor gives a zero without places, and so do two factors below `2 ^ 32`
with more than 47 places in all. A product of other factors keeps its sign when it rounds to zero,
unless both are below `2 ^ 32`. -/
def mul? (a b : Decimal) : Option Decimal :=
  if a.isZero ∨ b.isZero then some zero
  else
    let scale := a.scale + b.scale
    let negative := a.negative != b.negative
    let product := fit? negative (a.mantissa * b.mantissa) scale
    if Nat.pow 2 32 ≤ a.mantissa ∨ Nat.pow 2 32 ≤ b.mantissa then product.map ({ · with negative })
    else if 47 < scale then some zero
    else product

/-- The number of places, at most nine, by which a quotient can be extended within the bounds;
`none` if the scale is below zero and the bounds are reached before it is zero. -/
def extension? (quotient : Nat) (scale : Int) : Option Nat :=
  let widest := (List.range 10).countP fun places =>
    0 < places ∧ quotient * Nat.pow 10 places ≤ Nat.pow 2 96
  if widest < 9 ∧ scale + widest < 0 then none else some (min widest (28 - scale).toNat)

theorem extension?_le {quotient : Nat} {scale : Int} {places : Nat}
    (h : extension? quotient scale = some places) : places ≤ (28 - scale).toNat := by
  simp only [extension?] at h
  split at h
  · contradiction
  · injection h with h
    omega

/-- Takes back the last digit of a mantissa that no longer fits. `inexact` says that a five counts
as more than a half. -/
def retract? (mantissa : Nat) (scale : Int) (inexact : Bool) : Option (Nat × Int) :=
  if scale < 1 then none
  else
    let q := mantissa / 10
    let r := mantissa % 10
    some (if 5 < r ∨ (r = 5 ∧ (inexact ∨ q % 2 = 1)) then q + 1 else q, scale - 1)

/-- Long division of `a / b`, where `a / b` has `scale` places: the mantissa and scale of the
quotient, and whether digits had to be added to reach it. Digits are added up to nine at a time
until the remainder is zero or no place is left. Where the last digit is taken back, a five rounds
up if there is a remainder or the divisor has more than 64 bits. -/
def longDivision? (a b : Nat) (scale : Int) (extended : Bool) : Option (Nat × Int × Bool) :=
  let q := a / b
  let r := a % b
  if Nat.pow 2 96 ≤ q then
    (retract? q scale (r ≠ 0 ∨ Nat.pow 2 64 ≤ b)).map fun (m, s) => (m, s, extended)
  else if r = 0 then
    if 0 ≤ scale then some (q, scale, extended)
    else
      let places := min 9 (-scale).toNat
      longDivision? (a * Nat.pow 10 places) b (scale + places) extended
  else
    match _h : extension? q scale with
    | none => none
    | some places =>
      if places = 0 ∨ 28 ≤ scale then
        if b < 2 * r ∨ (2 * r = b ∧ q % 2 = 1) then
          if q + 1 = Nat.pow 2 96 then (retract? (q + 1) scale true).map fun (m, s) => (m, s, true)
          else some (q + 1, scale, true)
        else some (q, scale, true)
      else longDivision? (a * Nat.pow 10 places) b (scale + places) true
termination_by (28 - scale).toNat
decreasing_by
  · omega
  · have := extension?_le _h
    omega

/-- Drops `places` trailing zeros if there are that many fractional digits, all of them zero. -/
def dropZeros (places : Nat) (p : Nat × Nat) : Nat × Nat :=
  if places ≤ p.2 ∧ p.1 % Nat.pow 10 places = 0 then (p.1 / Nat.pow 10 places, p.2 - places) else p

/-- Drops eight zeros as long as the low 32 bits are clear. -/
def dropEights : Nat → Nat × Nat → Nat × Nat
  | 0, p => p
  | fuel + 1, p =>
    if p.1 % Nat.pow 2 32 = 0 ∧ 8 ≤ p.2 ∧ p.1 % Nat.pow 10 8 = 0 then
      dropEights fuel (p.1 / Nat.pow 10 8, p.2 - 8)
    else p

/-- Shortens a quotient: eight zeros at a time, then at most once four, two and one. Not every
trailing zero is removed. -/
def shorten (mantissa scale : Nat) : Nat × Nat :=
  dropZeros 1 (dropZeros 2 (dropZeros 4 (dropEights 3 (mantissa, scale))))

/-- The quotient; the divisor must not be zero. A zero dividend gives a zero without places. -/
def div? (a b : Decimal) : Option Decimal :=
  if b.isZero then none
  else if a.isZero then some zero
  else do
    let (mantissa, scale, extended) ←
      longDivision? a.mantissa b.mantissa ((a.scale : Int) - b.scale) false
    let (mantissa, scale) :=
      if extended then shorten mantissa scale.toNat else (mantissa, scale.toNat)
    ofParts? (a.negative != b.negative) mantissa scale

/-- One step of a long division in base `2 ^ 32` by a divisor of three digits: what is left of the
rest and the digit behind it. A rest that leads with the same digit as the divisor loses that digit,
and then what is left is not the remainder. -/
def longStep (divisor rest digit : Nat) : Nat :=
  let part := rest * Nat.pow 2 32 + digit
  (if part / Nat.pow 2 96 = divisor / Nat.pow 2 64 then part % Nat.pow 2 96 else part) % divisor

/-- What a long division of `x / y` leaves, for a divisor of 65 to 96 bits: both numbers are shifted
so that the divisor fills 96 bits, and the seven digits of `x` are brought down in turn. -/
def longRemainder (x y : Nat) : Nat :=
  let shift := 95 - y.log2
  let digits := (List.range 7).reverse.map fun i => (x <<< shift) >>> (32 * i) % Nat.pow 2 32
  digits.foldl (longStep (y <<< shift)) 0 >>> shift

/-- The remainder of the quotient truncated toward zero, with the sign of the dividend; the divisor
must not be zero. It is exact for a divisor below `2 ^ 64` when both are brought to one scale. -/
def rem? (a b : Decimal) : Option Decimal :=
  if b.isZero then none
  else if a.isZero then some zero
  else
    let scale := max a.scale b.scale
    let x := a.mantissa * Nat.pow 10 (scale - a.scale)
    let y := b.mantissa * Nat.pow 10 (scale - b.scale)
    if x = y then some zero
    else if x < y then some a
    else ofParts? a.negative (if y < Nat.pow 2 64 then x % y else longRemainder x y) scale

end StreamSelect.Decimal
