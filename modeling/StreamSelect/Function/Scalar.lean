import StreamSelect.Function.Basic

/-!
The scalar functions: rounding, case and length of texts, joining, and the first value that is not
null. Null goes through the functions of one argument.
-/
namespace StreamSelect.ScalarFunction

def numberExpected (v : Value) : Fault := .wrongKind "NUMBER" v.kindName (some v.display)

def textExpected (v : Value) : Fault := .wrongKind "STRING" v.kindName (some v.display)

/-- The only argument of the function with this upper-case name. -/
def single (name : String) : List Value → Outcome Value
  | [v] => .ok v
  | _ => .error (.failure (name ++ " requires exactly one argument"))

def absolute : Value → Outcome Value
  | .integer i => .ok (.integer (if i < 0 then -i else i))
  | .float x => .ok (.float (Binary64.abs x))
  | .decimal d => .ok (.decimal d.abs)
  | .null => .ok .null
  | v => .error (numberExpected v)

/-- The 32-bit integer with the same low bits. -/
def narrow (i : Int64) : Int := i.toInt32.toInt

/-- Rounds to a number of decimal places, a half away from zero. Below zero places only doubles
are rounded further; integers stay as they are. -/
def roundTo (places : Int) : Value → Outcome Value
  | .float x =>
    let unit := Binary64.tenPow places
    .ok (.float (Binary64.round (x * unit) / unit))
  | .decimal d => .ok (.decimal (d.roundTo places.toNat))
  | .integer i => .ok (.integer i)
  | .null => .ok .null
  | v => .error (numberExpected v)

/-- The number of places is narrowed to 32 bits before use. -/
def rounding : List Value → Outcome Value
  | [v] => roundTo 0 v
  | [v, .integer places] => roundTo (narrow places) v
  | [_, .null] => .ok .null
  | [_, _] => .error (.failure "ROUND precision must be an integer")
  | _ => .error (.failure "ROUND requires 1 or 2 arguments: ROUND(number[, precision])")

def ceiling : Value → Outcome Value
  | .float x => .ok (.integer (Binary64.ceilInt64 x))
  | .decimal d => .ok (.decimal d.ceil)
  | .integer i => .ok (.integer i)
  | .null => .ok .null
  | v => .error (numberExpected v)

def flooring : Value → Outcome Value
  | .float x => .ok (.integer (Binary64.floorInt64 x))
  | .decimal d => .ok (.decimal d.floor)
  | .integer i => .ok (.integer i)
  | .null => .ok .null
  | v => .error (numberExpected v)

/-- The texts of the arguments in a row; null adds nothing. -/
def joined (args : List Value) : Value :=
  .text (String.join (args.map fun v => if v.isNull then "" else v.display))

/-- A mapping of texts. -/
def onText (f : String → String) : Value → Outcome Value
  | .text s => .ok (.text (f s))
  | .null => .ok .null
  | v => .error (textExpected v)

/-- The number of characters, items or entries. -/
def size : Value → Outcome Value
  | .text s => .ok (.integer (.ofNat s.length))
  | .array items => .ok (.integer (.ofNat items.length))
  | .map entries => .ok (.integer (.ofNat entries.length))
  | .null => .ok .null
  | v => .error (textExpected v)

def firstNonNull (args : List Value) : Outcome Value :=
  if args.isEmpty then
    .error (.execution "COALESCE function requires at least one argument" (some "COALESCE()"))
  else .ok ((args.find? fun v => !v.isNull).getD .null)

/-- The value of a call. -/
def apply (f : ScalarFunction) (args : List Value) : Outcome Value :=
  match f with
  | .abs => single "ABS" args >>= absolute
  | .round => rounding args
  | .ceil => single "CEIL" args >>= ceiling
  | .floor => single "FLOOR" args >>= flooring
  | .concat => .ok (joined args)
  | .upper => single "UPPER" args >>= onText Text.upper
  | .lower => single "LOWER" args >>= onText Text.lower
  | .length => single "LENGTH" args >>= size
  | .coalesce => firstNonNull args

/-- The value of the scalar function called `name`. -/
def call (name : String) (args : List Value) : Outcome Value :=
  match Function.ofName? name with
  | some (.scalar f) => f.apply args
  | _ => .error (.unknownFunction name)

end StreamSelect.ScalarFunction
