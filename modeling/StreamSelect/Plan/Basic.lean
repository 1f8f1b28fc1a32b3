import StreamSelect.Expr.Basic
import StreamSelect.KeyedMap

/-!
Compiled SELECT lists. A plan is built once and then only read: the fields in declaration order,
what the stars ask for, whether rows are aggregated, and for some plans a layout by position.
-/
namespace StreamSelect

/-- What a compiled field computes. -/
inductive FieldForm
  /-- A copy of an input field under its declared name. -/
  | column (column : Column)
  | alias (name : String) (e : Expr)
  /-- An expression without an alias, under a name derived from it. -/
  | derived (name : String) (e : Expr)
  deriving Inhabited

structure PlannedField where
  form : FieldForm
  hidden : Bool
  deriving Inhabited

namespace PlannedField

/-- The name under which the field is written. -/
def outputName (f : PlannedField) : String :=
  match f.form with
  | .column c => c.name
  | .alias name _ => name
  | .derived name _ => name

/-- The expression to evaluate; a copied column has none. -/
def expr? (f : PlannedField) : Option Expr :=
  match f.form with
  | .column _ => none
  | .alias _ e => some e
  | .derived _ e => some e

def alias? (f : PlannedField) : Option String :=
  match f.form with
  | .alias name _ => some name
  | _ => none

end PlannedField

structure Replacement where
  name : String
  expr : Expr
  deriving Inhabited

/-- What the stars of a list ask for together. -/
structure Star where
  except : List String := []
  replace : List Replacement := []
  deriving Inhabited

/-- The excluded names in order, each once. -/
def Star.excluded (s : Star) : List String :=
  (KeyedMap.ofList (s.except.map fun name => (name, ()))).keys

/-- Where a slot of a layout takes its value from. -/
inductive SlotSource
  | read (position : Nat)
  /-- The schema lacks the column; the slot stays null. -/
  | absent
  | evaluate (e : Expr)
  deriving Inhabited

/-- One field of a layout. -/
structure Slot where
  name : String
  /-- The alias under which later fields see the value. -/
  alias? : Option String
  /-- The position written; a hidden field has none. -/
  write : Option Nat
  source : SlotSource
  deriving Inhabited

/-- A plan laid out over the positions of a schema. -/
structure Layout where
  slots : List Slot
  /-- The number of values that every input row must have. -/
  inputWidth : Nat
  outputSchema : List String
  deriving Inhabited

structure Plan where
  fields : List PlannedField
  star : Option Star
  sourceStars : List String
  aggregate : Bool
  layout : Option Layout
  deriving Inhabited

namespace Plan

/-- The names of the fields that are computed but not written. -/
def hiddenNames (p : Plan) : List String := (p.fields.filter (·.hidden)).map (·.outputName)

/-- Whether a field that is written has this name. -/
def writes (p : Plan) (name : String) : Bool :=
  p.fields.any fun f => !f.hidden && f.outputName == name

end Plan

/-- The metadata of a row are written under this name. -/
def metadataName : String := "__meta"

/-- The name of the `n`-th expression that has neither an alias nor a function name. -/
def placeholderName (n : Nat) : String := "kuiper_field_" ++ toString n

end StreamSelect
