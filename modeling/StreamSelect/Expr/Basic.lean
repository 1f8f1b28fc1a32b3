import StreamSelect.Value.Arithmetic

/-!
Expressions of a selection: columns, links to earlier aliases, literals, operators, calls, case
distinctions, steps into structured values, and the star as an argument.
-/
namespace StreamSelect

/-- A column, read from one source if it is qualified. -/
structure Column where
  name : String
  source : Option String := none
  deriving DecidableEq, Repr, Inhabited

/-- A constant. A decimal is kept as it was written and may be malformed. -/
inductive Literal
  | null
  | boolean (value : Bool)
  | integer (value : Int64)
  | float (value : Float)
  | text (value : String)
  | decimal (written : String)
  deriving DecidableEq

/-- Comparisons. -/
inductive Relation
  | equal
  | notEqual
  | less
  | lessOrEqual
  | greater
  | greaterOrEqual
  deriving DecidableEq, Repr

/-- Logical operators, which skip the right operand where the left one decides. -/
inductive Connective
  | and
  | or
  deriving DecidableEq, Repr

inductive BinaryOp
  | arithmetic (op : Arithmetic)
  | relation (op : Relation)
  | connective (op : Connective)
  | concat
  deriving DecidableEq, Repr

inductive UnaryOp
  | not
  | negate
  | isNull
  | isNotNull
  deriving DecidableEq, Repr

inductive Expr
  | column (column : Column)
  /-- A link to the alias `name`, with the expression that the alias stands for. -/
  | aliasRef (name : String) (body : Expr)
  | literal (literal : Literal)
  | binary (op : BinaryOp) (left right : Expr)
  | unary (op : UnaryOp) (operand : Expr)
  | call (function : String) (args : List Expr)
  /-- With an operand each condition is compared to it; without one it is taken as a truth. -/
  | case (operand : Option Expr) (branches : List (Expr × Expr)) (otherwise : Option Expr)
  /-- The value at a key of a mapping. -/
  | member (base : Expr) (key : String)
  /-- The value at a position of a sequence. -/
  | element (base : Expr) (position : Int64)
  | slice (base : Expr) (start stop : Option Int64)
  /-- All fields of the row but `except`, with the replacements put in one after the other. -/
  | star (except : List String) (replace : List (Expr × String))
  deriving Inhabited

namespace Expr

def isLiteral : Expr → Bool
  | .literal _ => true
  | _ => false

mutual

/-- The expression and all parts of it, each before its own parts. What an alias stands for is
not a part: it belongs to the field that declares the alias. -/
def walk : Expr → List Expr
  | .column c => [.column c]
  | .aliasRef name body => [.aliasRef name body]
  | .literal l => [.literal l]
  | .binary op left right => .binary op left right :: (walk left ++ walk right)
  | .unary op operand => .unary op operand :: walk operand
  | .call function args => .call function args :: walkAll args
  | .case operand branches otherwise =>
    .case operand branches otherwise ::
      (walkOption operand ++ walkBranches branches ++ walkOption otherwise)
  | .member base key => .member base key :: walk base
  | .element base position => .element base position :: walk base
  | .slice base start stop => .slice base start stop :: walk base
  | .star except replace => .star except replace :: walkReplacements replace

def walkAll : List Expr → List Expr
  | [] => []
  | e :: es => walk e ++ walkAll es

def walkOption : Option Expr → List Expr
  | none => []
  | some e => walk e

def walkBranches : List (Expr × Expr) → List Expr
  | [] => []
  | (condition, result) :: rest => walk condition ++ walk result ++ walkBranches rest

def walkReplacements : List (Expr × String) → List Expr
  | [] => []
  | (e, _) :: rest => walk e ++ walkReplacements rest

end

def column? : Expr → Option Column
  | .column c => some c
  | _ => none

def calledFunction? : Expr → Option String
  | .call function _ => some function
  | _ => none

/-- The columns that occur in the expression, in order and with repetitions. -/
def columns (e : Expr) : List Column := e.walk.filterMap column?

/-- The names of the functions called in the expression, in order and with repetitions. -/
def functions (e : Expr) : List String := e.walk.filterMap calledFunction?

end Expr
end StreamSelect
