import StreamSelect.Decimal.Rounding
import StreamSelect.KeyedMap
import StreamSelect.Timestamp

/-!
The values that flow through expressions: scalars, and sequences and mappings nested in any way.
-/
namespace StreamSelect

/-- A value. The entries of a mapping are in increasing key order. -/
inductive Value
  | null
  | boolean (value : Bool)
  | integer (value : Int64)
  | float (value : Float)
  | decimal (value : Decimal)
  | text (value : String)
  | timestamp (value : Timestamp)
  | array (items : List Value)
  | map (entries : List (String × Value))
  deriving Inhabited

/-- Named values. -/
abbrev FieldMap := KeyedMap Value

namespace Value

def ofFields (fields : FieldMap) : Value := .map fields.entries

/-- The name of the kind of value, as faults report it. -/
def kindName : Value → String
  | .null => "NULL"
  | .boolean _ => "BOOLEAN"
  | .integer _ => "INTEGER"
  | .float _ => "FLOAT"
  | .decimal _ => "DECIMAL"
  | .text _ => "STRING"
  | .timestamp _ => "TIMESTAMP"
  | .array _ => "ARRAY"
  | .map _ => "MAP"

def isNull : Value → Bool
  | .null => true
  | _ => false

def isNumeric : Value → Bool
  | .integer _ | .float _ | .decimal _ => true
  | _ => false

/-- A number as a double. -/
def toFloat? : Value → Option Float
  | .integer i => some (Binary64.ofInt i.toInt)
  | .float x => some x
  | .decimal d => some d.toFloat
  | _ => none

@[simp] theorem isNull_iff {v : Value} : v.isNull = true ↔ v = .null := by
  cases v <;> simp [isNull]

end Value
end StreamSelect
