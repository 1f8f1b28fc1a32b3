import StreamSelect.Plan.Basic

/-!
Layout of a plan over a schema. Only a plan without stars and aggregates qualifies whose
expressions all have aliases and refer to columns of the schema alone. Written fields get the
positions 0, 1, 2 and so on in declaration order.
-/
namespace StreamSelect

/-- The last position of a name in a schema. -/
def schemaPosition? (schema : List String) (name : String) : Option Nat :=
  KeyedMap.lookupEntry name schema.zipIdx.reverse

/-- The source of a column that is read by position. -/
def Column.slotSource (c : Column) (schema : List String) : SlotSource :=
  match schemaPosition? schema c.name with
  | some position => .read position
  | none => .absent

/-- The source of an expression under an alias, if all its columns are in the schema. -/
def Expr.slotSource? (e : Expr) (schema : List String) : Option SlotSource :=
  if e.columns.all fun c => (schemaPosition? schema c.name).isSome then
    match e with
    | .column c => some (c.slotSource schema)
    | other => some (.evaluate other)
  else none

def PlannedField.slotSource? (f : PlannedField) (schema : List String) : Option SlotSource :=
  match f.form with
  | .column c => some (c.slotSource schema)
  | .alias _ e => e.slotSource? schema
  | .derived _ _ => none

namespace Layout

/-- The slots of fields, the first written one at position `next`. -/
def slotsFrom? (schema : List String) (next : Nat) : List PlannedField → Option (List Slot)
  | [] => some []
  | f :: rest => do
    let source ← f.slotSource? schema
    let slots ← slotsFrom? schema (if f.hidden then next else next + 1) rest
    let write := if f.hidden then none else some next
    return ⟨f.outputName, f.alias?, write, source⟩ :: slots

/-- The layout of a plan, if the plan qualifies. -/
def ofPlan? (p : Plan) (schema : List String) : Option Layout :=
  if p.star.isSome || !p.sourceStars.isEmpty || p.aggregate then none
  else do
    let slots ← slotsFrom? schema 0 p.fields
    return { slots
             inputWidth := schema.length
             outputSchema := (p.fields.filter (!·.hidden)).map (·.outputName) }

end Layout
end StreamSelect
