import StreamSelect.Expr.Basic

/-!
The text of an expression, as faults and answers show it. No parentheses are written, so the text
does not determine the expression.
-/
namespace StreamSelect

def Column.render (c : Column) : String :=
  match c.source with
  | some source => source ++ "." ++ c.name
  | none => c.name

def Literal.render : Literal → String
  | .null => "NULL"
  | .boolean b => if b then "true" else "false"
  | .integer i => toString i.toInt
  | .float x => Binary64.render Value.plainNotation x
  | .text s => "'" ++ s ++ "'"
  | .decimal written => written

def Relation.symbol : Relation → String
  | .equal => "="
  | .notEqual => "!="
  | .less => "<"
  | .lessOrEqual => "<="
  | .greater => ">"
  | .greaterOrEqual => ">="

def Connective.symbol : Connective → String
  | .and => "AND"
  | .or => "OR"

def BinaryOp.symbol : BinaryOp → String
  | .arithmetic op => op.symbol
  | .relation op => op.symbol
  | .connective op => op.symbol
  | .concat => "||"

/-- An operator written before or after its operand. -/
def UnaryOp.apply (op : UnaryOp) (operand : String) : String :=
  match op with
  | .not => "NOT " ++ operand
  | .negate => "-" ++ operand
  | .isNull => operand ++ " IS NULL"
  | .isNotNull => operand ++ " IS NOT NULL"

namespace Expr

/-- A bound of a range; a missing one is not written. -/
def boundText : Option Int64 → String
  | some i => toString i.toInt
  | none => ""

mutual

def render : Expr → String
  | .column c => c.render
  | .aliasRef name _ => name
  | .literal l => l.render
  | .binary op left right => render left ++ " " ++ op.symbol ++ " " ++ render right
  | .unary op operand => op.apply (render operand)
  | .call function args => function ++ "(" ++ String.intercalate ", " (renderAll args) ++ ")"
  | .case operand branches otherwise =>
    "CASE" ++ renderAfter " " operand ++ String.join (renderBranches branches) ++
      renderAfter " ELSE " otherwise ++ " END"
  | .member base key => render base ++ "->" ++ key
  | .element base position => render base ++ "[" ++ toString position.toInt ++ "]"
  | .slice base start stop =>
    render base ++ "[" ++ boundText start ++ ":" ++ boundText stop ++ "]"
  | .star except replace =>
    "*" ++
      (if except.isEmpty then "" else " EXCEPT(" ++ String.intercalate ", " except ++ ")") ++
      (if replace.isEmpty then ""
       else " REPLACE(" ++ String.intercalate ", " (renderReplacements replace) ++ ")")

def renderAll : List Expr → List String
  | [] => []
  | e :: es => render e :: renderAll es

/-- A part that may be missing, after a lead. -/
def renderAfter (lead : String) : Option Expr → String
  | none => ""
  | some e => lead ++ render e

def renderBranches : List (Expr × Expr) → List String
  | [] => []
  | (condition, result) :: rest =>
    (" WHEN " ++ render condition ++ " THEN " ++ render result) :: renderBranches rest

def renderReplacements : List (Expr × String) → List String
  | [] => []
  | (e, name) :: rest => (render e ++ " AS " ++ name) :: renderReplacements rest

end

end Expr
end StreamSelect
