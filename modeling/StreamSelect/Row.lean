import StreamSelect.Instant
import StreamSelect.Value.Text

/-!
Rows in three shapes: a single event with named fields, a join of events from several sources, and
a tuple whose values are named by position. All shapes answer the same questions: a field or a
metadata key by name, all fields, the fields of one source.
-/
namespace StreamSelect

/-- An event: the stream it comes from, its fields, and data about it that are not fields. -/
structure Event where
  emitter : String := ""
  fields : FieldMap := ∅
  metadata : FieldMap := ∅
  /-- Milliseconds since the epoch. -/
  timestamp : Int64 := 0
  deriving Inhabited

namespace Event

/-- A field by name: as it is spelt, else up to the case of ASCII letters. -/
def field? (e : Event) (name : String) : Option Value := e.fields.find? name

def meta? (e : Event) (key : String) : Option Value := e.metadata.find? key

/-- The plain text of the fields. -/
def render (e : Event) : String := (Value.ofFields e.fields).render

/-- The JSON text of the fields. -/
def json (e : Event) : String := (Value.ofFields e.fields).json

def processingTime? (e : Event) : Option Instant := Instant.ofMillis? e.timestamp

end Event

/-- A row made of one event for each joined source, in the order of the sources. -/
structure Joined where
  constituents : List Event
  deriving Inhabited

namespace Joined

/-- The first constituent that comes from the named source. -/
def source? (j : Joined) (source : String) : Option Event :=
  j.constituents.find? fun e => Text.sameIgnoringCase e.emitter source

/-- The constituents that a reference may read: with a source only that one, if it takes part. -/
def candidates (j : Joined) : Option String → List Event
  | some source => (j.source? source).toList
  | none => j.constituents

/-- A field of the first candidate that has it. -/
def field? (j : Joined) (source : Option String) (name : String) : Option Value :=
  (j.candidates source).findSome? (·.field? name)

def meta? (j : Joined) (source : Option String) (key : String) : Option Value :=
  (j.candidates source).findSome? (·.meta? key)

/-- The fields of all constituents; where a name occurs twice the earlier source wins. -/
def mergedFields (j : Joined) : FieldMap :=
  j.constituents.foldr (fun e merged => merged.override e.fields) ∅

/-- The first constituent, which gives the row its emitter and timestamp. -/
def primary? (j : Joined) : Option Event := j.constituents.head?

end Joined

/-- Values by position; `schema` names them as far as it goes. -/
structure Tuple where
  emitter : String := ""
  schema : List String
  values : List Value
  deriving Inhabited

namespace Tuple

def width (t : Tuple) : Nat := t.values.length

/-- The position of a column: the first spelt like this, else the first up to ASCII case. -/
def position? (t : Tuple) (name : String) : Option Nat :=
  (t.schema.findIdx? (· == name)).or (t.schema.findIdx? (Text.sameIgnoringCase · name))

def field? (t : Tuple) (name : String) : Option Value :=
  (t.position? name).bind (t.values[·]?)

/-- The named values; of two columns with one name the later one stays. -/
def toEvent (t : Tuple) : Event :=
  { emitter := t.emitter, fields := .ofList (t.schema.zip t.values) }

end Tuple

inductive Row
  | event (e : Event)
  | joined (j : Joined)
  | tuple (t : Tuple)
  deriving Inhabited

namespace Row

def emitter : Row → String
  | .event e => e.emitter
  | .joined j => (j.primary?.map Event.emitter).getD ""
  | .tuple t => t.emitter

/-- A tuple has no time of its own. -/
def timestamp : Row → Int64
  | .event e => e.timestamp
  | .joined j => (j.primary?.map Event.timestamp).getD 0
  | .tuple _ => 0

/-- A field by name. Only a joined row regards the source. -/
def field? (row : Row) (source : Option String) (name : String) : Option Value :=
  match row with
  | .event e => e.field? name
  | .joined j => j.field? source name
  | .tuple t => t.field? name

/-- A metadata value by key. Only a joined row regards the source, and a tuple has none. -/
def meta? (row : Row) (source : Option String) (key : String) : Option Value :=
  match row with
  | .event e => e.meta? key
  | .joined j => j.meta? source key
  | .tuple _ => none

/-- All metadata; of a joined row that of the first constituent that has any. -/
def metadata? : Row → Option FieldMap
  | .event e => some e.metadata
  | .joined j => (j.constituents.find? fun e => !e.metadata.isEmpty).map Event.metadata
  | .tuple _ => none

/-- The fields that `*` stands for. -/
def allFields : Row → FieldMap
  | .event e => e.fields
  | .joined j => j.mergedFields
  | .tuple t => t.toEvent.fields

/-- The fields that `source.*` stands for. -/
def sourceFields (row : Row) (source : String) : FieldMap :=
  match row with
  | .joined j => ((j.source? source).map Event.fields).getD ∅
  | other => if Text.sameIgnoringCase other.emitter source then other.allFields else ∅

def shapeName : Row → String
  | .event _ => "record"
  | .joined _ => "joined record"
  | .tuple _ => "columnar record"

end Row
end StreamSelect
