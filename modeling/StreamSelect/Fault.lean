import StreamSelect.Text.Case

/-!
What can go wrong while a selection is compiled or applied, and the text of each fault. Faults are
data: one from an earlier stage is handed on as it is. Only a step into a value that has no keys
counts as missing data.
-/
namespace StreamSelect

inductive Fault
  /-- An operation failed; the text of the expression is kept if it is known. -/
  | execution (message : String) (query : Option String)
  /-- A value is of the wrong kind. -/
  | wrongKind (expected actual : String) (value : Option String)
  /-- A step by key into a value that is neither a mapping nor null. -/
  | notNavigable (key actual : String)
  | indexOutOfRange (index : Int64) (length : Nat)
  | unknownFunction (name : String)
  /-- An aggregate function was given what it cannot work on. -/
  | aggregate (function message : String)
  /-- The evaluation of one output field failed. -/
  | field (label : Option String) (expression : String) (cause : Fault)
  /-- The shape of the data does not fit the plan. -/
  | unsupportedInput (shape reason : String)
  /-- A fault of an earlier stage. -/
  | earlierStage (message : String)
  | configuration (message : String)
  deriving DecidableEq, Repr, Inhabited

namespace Fault

/-- The text shown for a fault. -/
def message : Fault → String
  | .execution message none => "Query execution error: " ++ message
  | .execution message (some query) =>
    "Query execution error in '" ++ query ++ "': " ++ message
  | .wrongKind expected actual none => "Type error: expected " ++ expected ++ ", got " ++ actual
  | .wrongKind expected actual (some value) =>
    "Type error: expected " ++ expected ++ ", got " ++ actual ++ " for value '" ++ value ++ "'"
  | .notNavigable key actual => "cannot access key '" ++ key ++ "' on " ++ actual ++ " value"
  | .indexOutOfRange index length =>
    "out of index: " ++ toString index.toInt ++ " of " ++ toString length
  | .unknownFunction name => "unknown function '" ++ name ++ "'"
  | .aggregate function message => "call func " ++ function ++ " error: " ++ message
  | .field none expression cause =>
    "run Select error: expr: " ++ expression ++ " meet error, err: " ++ cause.message
  | .field (some label) expression cause =>
    "run Select error: alias: " ++ label ++ " expr: " ++ expression ++ " meet error, err: " ++
      cause.message
  | .unsupportedInput shape reason => "run Select error: invalid input " ++ shape ++ ": " ++ reason
  | .earlierStage message => message
  | .configuration message => "Configuration error: " ++ message

/-- Whether the fault says that data is not there, rather than that it is wrong. -/
def isMissingData : Fault → Bool
  | .notNavigable _ _ => true
  | .field _ _ cause => cause.isMissingData
  | _ => false

/-- A failed operation of which nothing more is known. -/
def failure (message : String) : Fault := .execution message none

def divisionByZero : Fault := failure "Division by zero"

/-- A misuse of the aggregate function called `name`, which is reported in lower case. -/
def aggregateMisuse (name message : String) : Fault := .aggregate (Text.lower name) message

end Fault

/-- A value or the fault that prevented it. -/
abbrev Outcome (α : Type) := Except Fault α

end StreamSelect
