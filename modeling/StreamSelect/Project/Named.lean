import StreamSelect.Evaluation
import StreamSelect.Plan.Basic
import StreamSelect.Policy.Basic

/-!
Projection to events with named fields. One event is made for a row, or for all rows of a group.
The first row supplies stars, copied columns and metadata; fields are written in this order: stars
and their replacements, stars of one source, copied columns, expressions. What is written later
overwrites what stands under the same name, and hidden names are removed at the end.
-/
namespace StreamSelect.Plan

/-- The fields that the star copies from the row. -/
def starFields (p : Plan) (first? : Option Row) : FieldMap :=
  match p.star, first? with
  | some star, some row => row.allFields.filterKeys (!star.except.contains ·)
  | _, _ => ∅

def replacements (p : Plan) : List Replacement := (p.star.map Star.replace).getD []

/-- Writes one replacement of the star. No alias is stored yet. -/
def writeReplacement (policy : OutputPolicy) (subject : Subject) (window : Option Window)
    (output : FieldMap) (r : Replacement) : Outcome FieldMap := do
  match ← policy.settle (some r.name) r.expr (r.expr.evaluate subject { window }) with
  | some v => return policy.write output r.name v
  | none => return output

/-- Writes the fields of the sources that are named with a star. -/
def writeSources (p : Plan) (first? : Option Row) (output : FieldMap) : FieldMap :=
  match first? with
  | some row => p.sourceStars.foldl (fun output s => output.override (row.sourceFields s)) output
  | none => output

/-- Writes a field if it is a column that is copied. -/
def writeColumn (policy : OutputPolicy) (first? : Option Row) (output : FieldMap)
    (f : PlannedField) : FieldMap :=
  match f.form with
  | .column c => if f.hidden then output else policy.write output c.name (c.valueIn first?)
  | _ => output

/-- The output so far and the values of the aliases stored so far. -/
structure Assembly where
  output : FieldMap
  aliases : FieldMap := ∅

/-- Evaluates a field if it is an expression, stores its alias and writes it. A hidden expression
without an alias is not evaluated. -/
def writeExpression (policy : OutputPolicy) (subject : Subject) (window : Option Window)
    (a : Assembly) (f : PlannedField) : Outcome Assembly :=
  match f.expr? with
  | none => .ok a
  | some e =>
    if f.hidden && f.alias?.isNone then .ok a
    else do
      match ← policy.settle f.alias? e (e.evaluate subject { aliases := a.aliases, window }) with
      | none => return a
      | some v =>
        let aliases := match f.alias? with
          | some name => a.aliases.insert name v
          | none => a.aliases
        let output := if f.hidden then a.output else policy.write a.output f.outputName v
        return { output, aliases }

/-- Removes the hidden names that no written field has. -/
def dropHidden (p : Plan) (output : FieldMap) : FieldMap :=
  p.hiddenNames.foldl (fun output name => if p.writes name then output else output.erase name)
    output

/-- Attaches metadata if there are any, unless a field has their name. -/
def attach (policy : OutputPolicy) (metadata output : FieldMap) : FieldMap :=
  if policy.attachMetadata && !metadata.isEmpty && !output.contains metadataName then
    output.insert metadataName (.ofFields metadata)
  else output

/-- The event for a row or for a group of rows. -/
def assemble (p : Plan) (policy : OutputPolicy) (subject : Subject) (window : Option Window) :
    Outcome Event := do
  let first? := subject.first?
  let output ← p.replacements.foldlM (writeReplacement policy subject window)
    (p.starFields first?)
  let output := p.writeSources first? output
  let output := p.fields.foldl (writeColumn policy first?) output
  let a ← p.fields.foldlM (writeExpression policy subject window) { output }
  let metadata := (first?.bind Row.metadata?).getD ∅
  return {
    emitter := (first?.map Row.emitter).getD ""
    fields := attach policy metadata (p.dropHidden a.output)
    metadata
    timestamp := (first?.map Row.timestamp).getD 0 }

end StreamSelect.Plan
