import StreamSelect.Binary64.Shortest

/-!
Doubles as decimal text. A `Notation64` fixes what is left open by the shortest digits: where
positional notation ends, whether a whole number keeps a point, and how special values are spelt.
Reading accepts a decimal number with an optional exponent.
-/
namespace StreamSelect.Binary64

/-- The choices of a decimal notation for doubles. -/
structure Notation64 where
  /-- Which of two equally near shortest decimals is written. -/
  tie : Tie
  /-- The least and greatest exponent of the leading digit written positionally, if bounded. -/
  positional : Option (Int × Int)
  /-- Whether a whole number is written with `.0`. -/
  keepsPoint : Bool
  nan : String
  infinity : String
  negativeInfinity : String

/-- Digits with a point after the leading `point` of them, filled up with zeros on both sides. -/
def positionalText (keepsPoint : Bool) (digits : List Char) (point : Int) : String :=
  if point ≤ 0 then
    "0." ++ String.ofList (List.replicate (-point).toNat '0' ++ digits)
  else
    let whole := digits.take point.toNat
    let whole := whole ++ List.replicate (point.toNat - whole.length) '0'
    let fraction := digits.drop point.toNat
    if fraction.isEmpty then String.ofList whole ++ (if keepsPoint then ".0" else "")
    else String.ofList whole ++ "." ++ String.ofList fraction

/-- One digit before the point, then the exponent with its sign. -/
def exponentText (digits : List Char) (lead : Int) : String :=
  let mantissa := match digits with
    | d :: e :: rest => String.ofList (d :: '.' :: e :: rest)
    | short => String.ofList short
  mantissa ++ "e" ++ (if lead < 0 then "-" else "+") ++ toString lead.natAbs

/-- The decimal text of a double. -/
def render (style : Notation64) (x : Float) : String :=
  match shape x with
  | .nan => style.nan
  | .infinite negative => if negative then style.negativeInfinity else style.infinity
  | .finite p =>
    let s := shortest style.tie p.significand p.exponent
    let digits := Nat.toDigits 10 s.digits
    let lead := s.exponent + digits.length - 1
    let positional := match style.positional with
      | none => true
      | some (least, greatest) => decide (least ≤ lead ∧ lead ≤ greatest)
    (if p.negative then "-" else "") ++
      (if positional then positionalText style.keepsPoint digits (lead + 1)
       else exponentText digits lead)

private def digitValue (c : Char) : Nat := c.toNat - '0'.toNat

private def digitsValue (digits : List Char) : Nat :=
  digits.foldl (fun n c => 10 * n + digitValue c) 0

/-- Splits an optional sign off; `true` stands for minus. -/
private def splitSign : List Char → Bool × List Char
  | '-' :: rest => (true, rest)
  | '+' :: rest => (false, rest)
  | rest => (false, rest)

private def exponent? : List Char → Option Int
  | [] => some 0
  | c :: rest =>
    if c = 'e' ∨ c = 'E' then
      let (negative, digits) := splitSign rest
      if digits.isEmpty ∨ !digits.all Char.isDigit then none
      else
        let n : Int := digitsValue digits
        some (if negative then -n else n)
    else none

private def magnitude? (text : List Char) : Option Float := do
  let whole := text.takeWhile Char.isDigit
  let rest := text.dropWhile Char.isDigit
  let (fraction, rest) := match rest with
    | '.' :: rest => (rest.takeWhile Char.isDigit, rest.dropWhile Char.isDigit)
    | rest => ([], rest)
  if whole.isEmpty ∧ fraction.isEmpty then none
  let exponent ← exponent? rest
  let digits := digitsValue (whole ++ fraction)
  let power := exponent - fraction.length
  if digits = 0 then return 0.0
  return Float.ofScientific digits (power < 0) power.natAbs

/-- Reads a double, correctly rounded: decimal digits with an optional point and exponent, `NaN`,
`inf` or `infinity` in any case, each with an optional sign. -/
def parse? (text : String) : Option Float :=
  let (negative, body) := splitSign text.toList
  let word := (String.ofList body).toLower
  let magnitude :=
    if word = "inf" ∨ word = "infinity" then some (1.0 / 0.0)
    else if word = "nan" then some (0.0 / 0.0)
    else magnitude? body
  magnitude.map fun x => if negative then -x else x

end StreamSelect.Binary64
