import StreamSelect.Decimal.Arithmetic
import StreamSelect.Decimal.Rounding

/-!
Decimals as text. Writing shows every fractional digit and the sign, also that of zero. Reading
takes digits with at most one point, `_` between digits, a sign in front and an exponent behind;
text of 18 bytes or more is cut at 28 places or 96 bits, rounding on the next digit and ignoring the
digits behind it.
-/
namespace StreamSelect.Decimal

/-- The text of a decimal: every fractional digit is written. -/
def render (d : Decimal) : String :=
  let digits := Nat.toDigits 10 d.mantissa
  let digits := List.replicate (d.scale + 1 - digits.length) '0' ++ digits
  let whole := digits.take (digits.length - d.scale)
  let fraction := digits.drop (digits.length - d.scale)
  (if d.negative then "-" else "") ++ String.ofList whole ++
    (if fraction.isEmpty then "" else "." ++ String.ofList fraction)

/-- Why a text is not a decimal. -/
inductive Malformed
  | empty
  | noDigits
  | twoPoints
  | leadingSeparator
  | unknownCharacter
  | tooManyDigits
  | roundedTooFar
  | badExponent
  /-- An exponent asks for more than 28 places. -/
  | scaleTooLarge (scale : Nat)
  /-- An exponent asks for more than 96 bits. -/
  | tooLarge
  deriving DecidableEq, Repr

def Malformed.message : Malformed → String
  | .empty => "Invalid decimal: empty"
  | .noDigits => "Invalid decimal: no digits found"
  | .twoPoints => "Invalid decimal: two decimal points"
  | .leadingSeparator => "Invalid decimal: must start lead with a number"
  | .unknownCharacter => "Invalid decimal: unknown character"
  | .tooManyDigits => "Invalid decimal: overflow from too many digits"
  | .roundedTooFar => "Invalid decimal: overflow from mantissa after rounding"
  | .badExponent => "Failed to parse"
  | .scaleTooLarge scale =>
    "Scale exceeds the maximum precision allowed: " ++ toString scale ++ " > 28"
  | .tooLarge => "Number exceeds maximum value that can be represented."

/-- What has been read so far. -/
structure Reading where
  negative : Bool := false
  value : Nat := 0
  scale : Nat := 0
  point : Bool := false
  hasDigit : Bool := false

/-- The number read, once the text is over. -/
def Reading.finish (r : Reading) : Except Malformed Decimal :=
  if !r.hasDigit then .error .noDigits
  else
    match ofParts? r.negative r.value r.scale with
    | some d => .ok d
    | none => .error .tooManyDigits

/-- The fault of a character that may not stand where it does. -/
def strayCharacter (c : Char) : Malformed :=
  if c = '.' then .twoPoints else if c = '_' then .leadingSeparator else .unknownCharacter

/-- Adds one to the number read. A number that no longer fits gives up its last place. -/
def Reading.roundUp (r : Reading) : Except Malformed Decimal :=
  if r.value + 1 < Nat.pow 2 96 then { r with value := r.value + 1 }.finish
  else if r.scale = 0 then .error .roundedTooFar
  else { r with value := (r.value + 5) / 10, scale := r.scale - 1 }.finish

/-- Ends the reading where no more digits fit. What is left may hold digits and separators only; its
first character rounds, and a separator counts as zero there. -/
def Reading.cut (r : Reading) (left : List Char) : Except Malformed Decimal :=
  match left.find? fun c => !c.isDigit && c != '_' with
  | some c => .error (strayCharacter c)
  | none => if left.head?.any fun c => c.isDigit && '5' ≤ c then r.roundUp else r.finish

/-- Once this value is reached, separators at the last place are skipped. -/
def longValue : Nat := (Nat.pow 2 64 - 1) / 10 - 255

/-- Reads digits, points and separators. `wide` says that the text is long enough for the limits of
size to matter. -/
def Reading.scan (wide : Bool) (r : Reading) : List Char → Except Malformed Decimal
  | [] => r.finish
  | c :: rest =>
    if c.isDigit then
      let value := 10 * r.value + (c.toNat - '0'.toNat)
      if Nat.pow 2 96 ≤ value then
        if r.point then r.cut (c :: rest) else .error .tooManyDigits
      else
        let next := { r with
          value, hasDigit := true, scale := if r.point then r.scale + 1 else r.scale }
        if wide ∧ 28 ≤ next.scale then
          next.cut (if longValue ≤ r.value then rest.dropWhile (· = '_') else rest)
        else scan wide next rest
    else if c = '.' ∧ !r.point then scan wide { r with point := true } rest
    else if c = '_' ∧ r.hasDigit then scan wide r rest
    else .error (strayCharacter c)

/-- Reads a decimal without an exponent. -/
def parsePlain (text : List Char) : Except Malformed Decimal :=
  let wide : Bool := 18 ≤ (String.ofList text).utf8ByteSize
  match text with
  | [] => .error .empty
  | '-' :: rest => Reading.scan wide { negative := true } rest
  | '+' :: rest => Reading.scan wide {} rest
  | chars => Reading.scan wide {} chars

/-- Drops all trailing zeros of the fraction, at most `fuel` of them. Zero becomes plain zero. -/
def dropTrailingZeros : Nat → Nat × Nat → Nat × Nat
  | 0, p => p
  | fuel + 1, p =>
    if 0 < p.2 ∧ p.1 % 10 = 0 then dropTrailingZeros fuel (p.1 / 10, p.2 - 1) else p

/-- The number times a power of ten. Within its places only the point moves; beyond them zeros are
added and the fraction that is left loses its trailing zeros. -/
def timesTenPow (d : Decimal) (power : Nat) : Except Malformed Decimal :=
  if power ≤ d.scale then
    .ok { d with
      scale := d.scale - power
      scale_le := by have := d.scale_le; omega }
  else if 28 < power then .error (.scaleTooLarge power)
  else
    match (ofParts? false (Nat.pow 10 power) 0).bind d.mul? with
    | none => .error .tooLarge
    | some product =>
      let (mantissa, scale) := dropTrailingZeros product.scale (product.mantissa, product.scale)
      ((ofParts? product.negative mantissa scale).map Except.ok).getD (.error .tooLarge)

/-- The number divided by a power of ten, the 28th at most. What goes beyond 28 places is rounded, a
half away from zero; the sign stays, also if nothing else does. -/
def overTenPow (d : Decimal) (power : Nat) : Except Malformed Decimal :=
  if 28 < power then .error (.scaleTooLarge power)
  else
    .ok { d with
      mantissa := roundHalfUp d.mantissa (Nat.pow 10 (d.scale + power - 28))
      scale := min (d.scale + power) 28
      mantissa_lt := Nat.lt_of_le_of_lt (roundHalfUp_le _ _) d.mantissa_lt
      scale_le := Nat.min_le_right _ _ }

/-- The number that the digits of an exponent stand for, if it has 32 bits. -/
def exponent? (digits : List Char) : Option Nat :=
  let digits := match digits with
    | '+' :: rest => rest
    | digits => digits
  if digits.isEmpty ∨ !digits.all Char.isDigit then none
  else
    let n := digits.foldl (fun n c => 10 * n + (c.toNat - '0'.toNat)) 0
    if n < Nat.pow 2 32 then some n else none

/-- Applies an exponent to the number read before it. -/
def applyExponent (d : Decimal) (written : List Char) : Except Malformed Decimal :=
  match written with
  | '-' :: digits =>
    match exponent? digits with
    | some n => d.overTenPow n
    | none => .error .badExponent
  | digits =>
    match exponent? digits with
    | some n => d.timesTenPow n
    | none => .error .badExponent

/-- Reads a decimal. -/
def parse (text : String) : Except Malformed Decimal :=
  let isMark (c : Char) : Bool := c = 'e' || c = 'E'
  let chars := text.toList
  match chars.dropWhile (!isMark ·) with
  | [] => parsePlain chars
  | _ :: exponent => do
    applyExponent (← parsePlain (chars.takeWhile (!isMark ·))) exponent

end StreamSelect.Decimal
