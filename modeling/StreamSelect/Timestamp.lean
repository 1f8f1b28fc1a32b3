/-!
Calendar date-times without a time zone, and their text. A nanosecond count of a second or more
stands for a leap second and shows as one more second.
-/
namespace StreamSelect

/-- A calendar date and a time of day. Fields are compared from left to right. -/
structure Timestamp where
  year : Int
  month : Nat
  day : Nat
  hour : Nat
  minute : Nat
  second : Nat
  nanosecond : Nat
  deriving DecidableEq, Repr

namespace Timestamp

def compare (a b : Timestamp) : Ordering :=
  (Ord.compare a.year b.year).then <|
  (Ord.compare a.month b.month).then <|
  (Ord.compare a.day b.day).then <|
  (Ord.compare a.hour b.hour).then <|
  (Ord.compare a.minute b.minute).then <|
  (Ord.compare a.second b.second).then <|
  Ord.compare a.nanosecond b.nanosecond

/-- Decimal digits filled up with zeros in front. -/
def padded (width n : Nat) : String :=
  let digits := Nat.toDigits 10 n
  String.ofList (List.replicate (width - digits.length) '0' ++ digits)

/-- A year of four digits; outside 0 to 9999 it has a sign. -/
def yearText (year : Int) : String :=
  let sign := if year < 0 then "-" else if 9999 < year then "+" else ""
  sign ++ padded 4 year.natAbs

/-- Date and time of day up to the second. -/
def secondsText (t : Timestamp) : String :=
  let second := t.second + t.nanosecond / 1000000000
  yearText t.year ++ "-" ++ padded 2 t.month ++ "-" ++ padded 2 t.day ++ " " ++
    padded 2 t.hour ++ ":" ++ padded 2 t.minute ++ ":" ++ padded 2 second

/-- The text with a fraction of no, three, six or nine digits, the fewest that are exact. -/
def render (t : Timestamp) : String :=
  let nano := t.nanosecond % 1000000000
  let fraction :=
    if nano = 0 then ""
    else if nano % 1000000 = 0 then "." ++ padded 3 (nano / 1000000)
    else if nano % 1000 = 0 then "." ++ padded 6 (nano / 1000)
    else "." ++ padded 9 nano
  t.secondsText ++ fraction

/-- The text with a fraction of three digits, the rest cut off. -/
def renderMillis (t : Timestamp) : String :=
  t.secondsText ++ "." ++ padded 3 (t.nanosecond % 1000000000 / 1000000)

end Timestamp
end StreamSelect
