/-!
A double as a sign, a significand and a power of two, and the operations on doubles that are
defined through this exact view: rounding to an integer, the remainder of a division, and reading
back the double that a view stands for.
-/
namespace StreamSelect.Binary64

/-- The number `± significand · 2 ^ exponent`. -/
structure Parts where
  negative : Bool
  significand : Nat
  exponent : Int
  deriving DecidableEq, Repr

/-- A double is not a number, an infinity or a finite number. -/
inductive Shape
  | nan
  | infinite (negative : Bool)
  | finite (parts : Parts)
  deriving DecidableEq, Repr

/-- Splits the 64 bits. Zero keeps its sign. -/
def shape (x : Float) : Shape :=
  let bits := x.toBits.toNat
  let negative : Bool := bits / Nat.pow 2 63 = 1
  let field : Nat := bits / Nat.pow 2 52 % Nat.pow 2 11
  let fraction : Nat := bits % Nat.pow 2 52
  if field = Nat.pow 2 11 - 1 then
    if fraction = 0 then .infinite negative else .nan
  else if field = 0 then .finite ⟨negative, fraction, -1074⟩
  else .finite ⟨negative, fraction + Nat.pow 2 52, (field : Int) - 1075⟩

/-- The double with these parts. It is meant for numbers that a double holds exactly: a significand
below `2 ^ 53` and an exponent from -1074 to 971. -/
def Parts.toFloat (p : Parts) : Float :=
  let room := if p.significand = 0 then 0 else 52 - p.significand.log2
  let shift := min room (p.exponent + 1074).toNat
  let significand := p.significand * Nat.pow 2 shift
  let field := if significand < Nat.pow 2 52 then 0 else (p.exponent - shift + 1075).toNat
  let sign := if p.negative then Nat.pow 2 63 else 0
  Float.ofBits (sign + field * Nat.pow 2 52 + significand % Nat.pow 2 52).toUInt64

/-- The largest integer not above the number. -/
def Parts.floor (p : Parts) : Int :=
  let signed : Int := if p.negative then -p.significand else p.significand
  if 0 ≤ p.exponent then signed * Nat.pow 2 p.exponent.toNat
  else signed / Nat.pow 2 (-p.exponent).toNat

/-- The smallest integer not below the number. -/
def Parts.ceil (p : Parts) : Int :=
  -Parts.floor ⟨!p.negative, p.significand, p.exponent⟩

/-- The 64-bit integer nearest to an integer: one out of range becomes the end of the range. -/
def saturate (n : Int) : Int64 :=
  if n < Int64.minValue.toInt then Int64.minValue
  else if Int64.maxValue.toInt < n then Int64.maxValue
  else Int64.ofInt n

/-- An integer read off a double: `pick` on a finite number, the end of the range on an infinity,
zero on what is not a number. -/
def toInt64By (pick : Parts → Int) (x : Float) : Int64 :=
  match shape x with
  | .nan => 0
  | .infinite negative => if negative then Int64.minValue else Int64.maxValue
  | .finite p => saturate (pick p)

def floorInt64 (x : Float) : Int64 := toInt64By Parts.floor x

def ceilInt64 (x : Float) : Int64 := toInt64By Parts.ceil x

/-- Rounds to an integer; a half goes away from zero, and a result of zero keeps the sign. -/
def round (x : Float) : Float :=
  match shape x with
  | .finite p =>
    if 0 ≤ p.exponent then x
    else
      let unit := Nat.pow 2 (-p.exponent).toNat
      Parts.toFloat ⟨p.negative, (2 * p.significand + unit) / (2 * unit), 0⟩
  | _ => x

/-- The absolute value. -/
def abs (x : Float) : Float :=
  match shape x with
  | .infinite true => -x
  | .finite p => if p.negative then -x else x
  | _ => x

private def nan : Float := 0.0 / 0.0

/-- The remainder of the quotient truncated toward zero. It is exact and has the sign of `x`. -/
def remainder (x y : Float) : Float :=
  match shape x, shape y with
  | .nan, _ => x
  | _, .nan => y
  | .infinite _, _ => nan
  | .finite _, .infinite _ => x
  | .finite p, .finite q =>
    if q.significand = 0 then nan
    else
      let e := min p.exponent q.exponent
      let a := p.significand * Nat.pow 2 (p.exponent - e).toNat
      let b := q.significand * Nat.pow 2 (q.exponent - e).toNat
      Parts.toFloat ⟨p.negative, a % b, e⟩

/-- The double nearest to an integer. -/
def ofInt (n : Int) : Float :=
  if n < 0 then -Float.ofNat n.natAbs else Float.ofNat n.natAbs

/-- `acc · base ^ n` by squaring, in the rounding of doubles. -/
def powNat (acc base : Float) (n : Nat) : Float :=
  let acc := if n % 2 = 1 then acc * base else acc
  if n / 2 = 0 then acc else powNat acc (base * base) (n / 2)
termination_by n
decreasing_by omega

/-- A power of ten by squaring; a negative power is the reciprocal of the positive one. -/
def tenPow (n : Int) : Float :=
  let r := powNat 1.0 10.0 n.natAbs
  if n < 0 then 1.0 / r else r

end StreamSelect.Binary64
