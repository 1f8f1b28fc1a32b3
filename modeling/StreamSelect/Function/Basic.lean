import StreamSelect.Expr.Basic

/-!
The functions that expressions can call, by kind. Names are matched in upper case, in the full
mapping of Unicode, so several spellings beyond ASCII name the same function.
-/
namespace StreamSelect

/-- Functions of the values of one row. -/
inductive ScalarFunction
  | abs
  | round
  | ceil
  | floor
  | concat
  | upper
  | lower
  | length
  | coalesce
  deriving DecidableEq, Repr

/-- Functions of all rows of a group. -/
inductive AggregateFunction
  | count
  | sum
  | avg
  | min
  | max
  | collect
  | deduplicate
  deriving DecidableEq, Repr

inductive Function
  | scalar (function : ScalarFunction)
  | aggregate (function : AggregateFunction)
  /-- The start or the end of the window of the row. -/
  | windowBoundary
  /-- The metadata of the row. -/
  | metadata
  deriving DecidableEq, Repr

namespace Function

/-- The functions by upper-case name. -/
def table : List (String × Function) := [
  ("COUNT", .aggregate .count),
  ("SUM", .aggregate .sum),
  ("AVG", .aggregate .avg),
  ("MIN", .aggregate .min),
  ("MAX", .aggregate .max),
  ("COLLECT", .aggregate .collect),
  ("DEDUPLICATE", .aggregate .deduplicate),
  ("ABS", .scalar .abs),
  ("ROUND", .scalar .round),
  ("CEIL", .scalar .ceil),
  ("FLOOR", .scalar .floor),
  ("CONCAT", .scalar .concat),
  ("UPPER", .scalar .upper),
  ("LOWER", .scalar .lower),
  ("LENGTH", .scalar .length),
  ("COALESCE", .scalar .coalesce),
  ("WINDOW_START", .windowBoundary),
  ("WINDOW_END", .windowBoundary),
  ("META", .metadata)]

/-- The function that a name calls. -/
def ofName? (name : String) : Option Function := table.lookup (Text.upper name)

def isAggregate : Function → Bool
  | .aggregate _ => true
  | _ => false

/-- Whether a name calls an aggregate function. -/
def namesAggregate (name : String) : Bool := (ofName? name).any isAggregate

theorem ofName?_congr {a b : String} (h : Text.upper a = Text.upper b) :
    ofName? a = ofName? b := by
  simp [ofName?, h]

end Function

/-- Whether an aggregate function is called anywhere in the expression. -/
def Expr.containsAggregate (e : Expr) : Bool := e.functions.any Function.namesAggregate

end StreamSelect
