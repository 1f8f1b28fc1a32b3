import StreamSelect.Decimal.Arithmetic
import StreamSelect.Fault
import StreamSelect.Value.Text

/-!
Arithmetic on values. Two integers stay integers and are exact or fail; decimals combine exactly
with integers and decimals; a double makes the result a double; null with anything is null.
-/
namespace StreamSelect

inductive Arithmetic
  | add
  | subtract
  | multiply
  | divide
  | modulo
  deriving DecidableEq, Repr

namespace Arithmetic

def symbol : Arithmetic → String
  | .add => "+"
  | .subtract => "-"
  | .multiply => "*"
  | .divide => "/"
  | .modulo => "%"

/-- Whether a zero on the right is refused. -/
def divides : Arithmetic → Bool
  | .divide | .modulo => true
  | _ => false

/-- The operation on unbounded integers; quotients are truncated toward zero. -/
def onInt : Arithmetic → Int → Int → Int
  | .add => (· + ·)
  | .subtract => (· - ·)
  | .multiply => (· * ·)
  | .divide => Int.tdiv
  | .modulo => Int.tmod

def onFloat : Arithmetic → Float → Float → Float
  | .add => (· + ·)
  | .subtract => (· - ·)
  | .multiply => (· * ·)
  | .divide => (· / ·)
  | .modulo => Binary64.remainder

def onDecimal? : Arithmetic → Decimal → Decimal → Option Decimal
  | .add => Decimal.add?
  | .subtract => Decimal.sub?
  | .multiply => Decimal.mul?
  | .divide => Decimal.div?
  | .modulo => Decimal.rem?

end Arithmetic

/-- The 64-bit integer equal to an integer, if there is one. -/
def int64? (n : Int) : Option Int64 :=
  if Int64.minValue.toInt ≤ n ∧ n ≤ Int64.maxValue.toInt then some (Int64.ofInt n) else none

/-- A remainder counts as out of range where its quotient is: the least integer by minus one. -/
def Arithmetic.onInt64? (op : Arithmetic) (a b : Int64) : Option Int64 :=
  if op = .modulo ∧ int64? (Arithmetic.onInt .divide a.toInt b.toInt) = none then none
  else int64? (op.onInt a.toInt b.toInt)

namespace Value

/-- The fault of two operands that an operator does not take. -/
def invalidOperation (a b : Value) (symbol : String) : Fault :=
  .failure ("invalid operation " ++ a.kindName ++ "(" ++ a.display ++ ") " ++ symbol ++ " " ++
    b.kindName ++ "(" ++ b.display ++ ")")

def integerArithmetic (op : Arithmetic) (a b : Int64) : Outcome Value :=
  if op.divides ∧ b = 0 then .error .divisionByZero
  else
    match op.onInt64? a b with
    | some n => .ok (.integer n)
    | none => .error (.failure ("Integer overflow in " ++ toString a.toInt ++ " " ++ op.symbol ++
        " " ++ toString b.toInt))

def decimalArithmetic (op : Arithmetic) (a b : Decimal) : Outcome Value :=
  if op.divides ∧ b.isZero then .error .divisionByZero
  else
    match op.onDecimal? a b with
    | some d => .ok (.decimal d)
    | none => .error (.failure ("Decimal overflow in " ++ a.render ++ " " ++ op.symbol ++ " " ++
        b.render))

def floatArithmetic (op : Arithmetic) (a b : Float) : Outcome Value :=
  if op.divides ∧ b == 0 then .error .divisionByZero else .ok (.float (op.onFloat a b))

/-- One arithmetic operation. -/
def arithmetic (op : Arithmetic) : Value → Value → Outcome Value
  | .null, _ => .ok .null
  | _, .null => .ok .null
  | .integer a, .integer b => integerArithmetic op a b
  | .decimal a, .decimal b => decimalArithmetic op a b
  | .decimal a, .integer b => decimalArithmetic op a (.ofInt64 b)
  | .integer a, .decimal b => decimalArithmetic op (.ofInt64 a) b
  | a, b =>
    match a.toFloat?, b.toFloat? with
    | some x, some y => floatArithmetic op x y
    | _, _ => .error (invalidOperation a b op.symbol)

/-- The opposite number. -/
def negate : Value → Outcome Value
  | .integer i =>
    match int64? (-i.toInt) with
    | some n => .ok (.integer n)
    | none => .error (.failure "Integer overflow in negation")
  | .float x => .ok (.float (-x))
  | .decimal d => .ok (.decimal d.neg)
  | .null => .ok .null
  | v => .error (.wrongKind "NUMBER" v.kindName (some v.display))

/-- A value as a condition; null counts as false. -/
def truth : Value → Outcome Bool
  | .boolean b => .ok b
  | .null => .ok false
  | v => .error (.wrongKind "BOOLEAN" v.kindName (some v.display))

end Value
end StreamSelect
