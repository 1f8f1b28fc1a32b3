import StreamSelect.Evaluation
import StreamSelect.Plan.Basic
import StreamSelect.Policy.Basic

/-!
Projection of tuples by position. Columns are read without a look-up by name, expressions are
evaluated on the input tuple. The output always has the width of the layout: a slot without a value
stays null whether or not nulls are written.
-/
namespace StreamSelect.Layout

/-- The output values so far and the values of the aliases stored so far. -/
structure Filling where
  values : List Value
  aliases : FieldMap := ∅

/-- The value of a slot, if there is one. -/
def slotValue (policy : OutputPolicy) (input : Tuple) (window : Option Window) (aliases : FieldMap)
    (slot : Slot) : Outcome (Option Value) :=
  match slot.source with
  | .read position => .ok input.values[position]?
  | .absent => .ok none
  | .evaluate e =>
    policy.settle slot.alias? e (e.evaluate (.row (.tuple input)) { aliases, window })

/-- Stores the alias of a slot and writes its value. -/
def fill (policy : OutputPolicy) (input : Tuple) (window : Option Window) (f : Filling)
    (slot : Slot) : Outcome Filling := do
  match ← slotValue policy input window f.aliases slot with
  | none => return f
  | some v =>
    let aliases := match slot.alias? with
      | some name => f.aliases.insert name v
      | none => f.aliases
    let values := match slot.write with
      | some position => f.values.set position v
      | none => f.values
    return { values, aliases }

/-- The output tuple. The input must be as wide as the schema of the layout. -/
def project (layout : Layout) (policy : OutputPolicy) (input : Tuple) (window : Option Window) :
    Outcome Tuple :=
  if input.width ≠ layout.inputWidth then
    .error (.unsupportedInput (Row.tuple input).shapeName
      ("expected " ++ toString layout.inputWidth ++ " columns but found " ++
        toString input.width))
  else do
    let blank := List.replicate layout.outputSchema.length Value.null
    let f ← layout.slots.foldlM (fill policy input window) { values := blank }
    return { emitter := input.emitter, schema := layout.outputSchema, values := f.values }

end StreamSelect.Layout
