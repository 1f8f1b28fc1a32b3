import StreamSelect.Proofs.Row.TupleEvent

/-!
One row in several shapes. A tuple is the event of its named values if no two columns have one name
up to case. An event is the join of that event alone to all who name no other source. Either way
both shapes have one emitter and timestamp, and the same fields of every source.
-/
namespace StreamSelect

/-- To those who name these columns and metadata keys alone, both rows are the same. -/
structure Row.Interchangeable (columns : List Column) (r r' : Row) : Prop where
  answers : Row.AlikeOn columns (some r) (some r')
  source : ∀ name, r.sourceFields name = r'.sourceFields name
  emitter : r.emitter = r'.emitter
  timestamp : r.timestamp = r'.timestamp

/-- The second row is the first one, or holds its data in another shape. A join of one event takes
the place of the event if the columns name no other source. -/
inductive Row.Reshaped (columns : List Column) : Row → Row → Prop
  | same (r : Row) : Reshaped columns r r
  | named {t : Tuple} (h : Text.DistinctIgnoringCase t.schema) :
    Reshaped columns (.tuple t) (.event t.toEvent)
  | joined {e : Event} (h : ∀ c ∈ columns, ∀ source ∈ c.source,
      Text.sameIgnoringCase e.emitter source = true) :
    Reshaped columns (.event e) (.joined ⟨[e]⟩)

theorem Row.Interchangeable.refl (columns : List Column) (r : Row) :
    Row.Interchangeable columns r r :=
  ⟨.refl columns (some r), fun _ => rfl, rfl, rfl⟩

theorem Row.AlikeOn.of_interchangeable {columns : List Column} {a b : Option Row}
    (h : Option.Rel (Row.Interchangeable columns) a b) : Row.AlikeOn columns a b := by
  cases h with
  | none => exact .refl columns none
  | some hr => exact hr.answers

theorem Row.Interchangeable.origin {columns : List Column} {a b : Option Row}
    (h : Option.Rel (Row.Interchangeable columns) a b) :
    (a.map Row.emitter).getD "" = (b.map Row.emitter).getD "" ∧
      (a.map Row.timestamp).getD 0 = (b.map Row.timestamp).getD 0 := by
  cases h with
  | none => exact ⟨rfl, rfl⟩
  | some hr => exact ⟨hr.emitter, hr.timestamp⟩

theorem Tuple.interchangeable_toEvent {t : Tuple} (h : Text.DistinctIgnoringCase t.schema)
    (columns : List Column) : Row.Interchangeable columns (.tuple t) (.event t.toEvent) :=
  ⟨.of_alike (.some (toEvent_alike h)) columns, fun _ => rfl, rfl, rfl⟩

namespace Joined
variable (e : Event)

theorem candidates_single {source : Option String}
    (h : ∀ name ∈ source, Text.sameIgnoringCase e.emitter name = true) :
    candidates ⟨[e]⟩ source = [e] := by
  cases source with
  | none => rfl
  | some name => simp [candidates, source?, h name rfl]

theorem mergedFields_single : mergedFields ⟨[e]⟩ = e.fields :=
  KeyedMap.ext_get? fun k => by simp [mergedFields]

/-- Metadata that are empty are found with no constituent, and count as empty then. -/
theorem metadata?_single : (Row.joined ⟨[e]⟩).metadata?.getD ∅ = e.metadata := by
  cases hempty : e.metadata.isEmpty with
  | false => simp [Row.metadata?, hempty]
  | true =>
    have hentries : e.metadata.entries = [] := List.isEmpty_iff.mp hempty
    simp only [Row.metadata?, List.find?_cons, hempty]
    exact KeyedMap.ext_entries hentries.symm

theorem sourceFields_single (name : String) :
    (Row.joined ⟨[e]⟩).sourceFields name = (Row.event e).sourceFields name := by
  cases hsource : Text.sameIgnoringCase e.emitter name <;>
    simp [Row.sourceFields, source?, Row.emitter, Row.allFields, hsource]

theorem interchangeable_single {columns : List Column} (h : ∀ c ∈ columns, ∀ source ∈ c.source,
    Text.sameIgnoringCase e.emitter source = true) :
    Row.Interchangeable columns (.event e) (.joined ⟨[e]⟩) where
  answers := {
    value := fun c hc => by
      simp [Column.valueIn, Row.field?, field?, candidates_single e (h c hc)]
    key := fun c hc => by
      simp [Row.meta?, meta?, candidates_single e (h c hc)]
    metadata := (metadata?_single e).symm
    fields := (mergedFields_single e).symm }
  source name := (sourceFields_single e name).symm
  emitter := rfl
  timestamp := rfl

end Joined

theorem Row.Reshaped.interchangeable {columns : List Column} {r r' : Row}
    (h : Row.Reshaped columns r r') : Row.Interchangeable columns r r' := by
  cases h with
  | same => exact .refl columns r
  | named h => exact Tuple.interchangeable_toEvent h columns
  | joined h => exact Joined.interchangeable_single _ h

end StreamSelect
