import StreamSelect.Plan.Layout
import StreamSelect.Proofs.Project.Phases
import StreamSelect.Proofs.Row.TupleEvent

/-!
The slots of a layout on a tuple of its schema: each slot has the value that its field has on the
event of the named values.
-/
namespace StreamSelect

theorem schemaPosition?_eq_some_iff {schema : List String} (h : schema.Nodup) {name : String}
    {p : Nat} : schemaPosition? schema name = some p ↔ schema[p]? = some name := by
  have hkeys : (schema.zipIdx.reverse.map Prod.fst).Nodup := by
    rw [List.map_reverse, List.zipIdx_map_fst]
    exact List.nodup_reverse.mpr h
  rw [schemaPosition?, KeyedMap.lookupEntry_eq_some_iff hkeys, List.mem_reverse,
    List.mk_mem_zipIdx_iff_getElem?]

namespace Tuple
variable {t : Tuple} {name : String}

theorem field?_of_getElem? (h : Text.DistinctIgnoringCase t.schema) {p : Nat}
    (hp : t.schema[p]? = some name) : t.field? name = t.values[p]? := by
  obtain ⟨hlt, hname⟩ := List.getElem?_eq_some_iff.mp hp
  have hposition : t.position? name = some p := by
    rw [position?_eq h, List.findIdx?_eq_some_iff_getElem]
    refine ⟨hlt, by rw [hname]; exact Text.sameIgnoringCase_refl name, fun q hq hsame => ?_⟩
    have hdistinct := List.pairwise_iff_getElem.mp h q p (by omega) hlt hq
    rw [hname, hsame] at hdistinct
    cases hdistinct
  rw [field?, hposition, Option.bind_some]

theorem field?_of_unmatched (h : Text.DistinctIgnoringCase t.schema)
    (hname : ∀ column ∈ t.schema, Text.sameIgnoringCase column name = false) :
    t.field? name = none := by
  have hposition : t.position? name = none := by
    rw [position?_eq h, List.findIdx?_eq_none_iff]
    exact hname
  rw [field?, hposition, Option.bind_none]

theorem valueIn_toEvent (h : Text.DistinctIgnoringCase t.schema) (c : Column) :
    c.valueIn (some (.event t.toEvent)) = (t.field? c.name).getD .null := by
  rw [Column.valueIn, Option.bind_some]
  exact congrArg (·.getD .null) (toEvent_field? h c.name)

end Tuple

namespace Layout
variable {t : Tuple} {policy : OutputPolicy} {window : Option Window} {aliases : FieldMap}
  {slot : Slot}

/-- A column is spelled as in the schema, or it has no match there even up to case. -/
def Resolved (schema : List String) (c : Column) : Prop :=
  c.name ∈ schema ∨ ∀ column ∈ schema, Text.sameIgnoringCase column c.name = false

theorem slotValue_column (h : Text.DistinctIgnoringCase t.schema) {c : Column}
    (hc : Resolved t.schema c) (hslot : slot.source = c.slotSource t.schema) :
    slotValue policy t window aliases slot = .ok (t.field? c.name) := by
  rw [slotValue, hslot, Column.slotSource]
  cases hposition : schemaPosition? t.schema c.name with
  | some p =>
    have hp := (schemaPosition?_eq_some_iff h.nodup).mp hposition
    simp only [Tuple.field?_of_getElem? h hp]
  | none =>
    rcases hc with hmem | hunmatched
    · obtain ⟨p, hp⟩ := List.getElem?_of_mem hmem
      rw [(schemaPosition?_eq_some_iff h.nodup).mpr hp] at hposition
      cases hposition
    · simp only [Tuple.field?_of_unmatched h hunmatched]

/-- The slot of an alias settles as its expression does on the named values, also where the
expression is a column that is read by position. -/
theorem slotValue_alias (h : Text.DistinctIgnoringCase t.schema)
    (hwidth : t.values.length = t.schema.length) {e : Expr} {source : SlotSource}
    (hsource : e.slotSource? t.schema = some source) (hslot : slot.source = source) :
    slotValue policy t window aliases slot =
      policy.settle slot.alias? e
        (e.evaluate (.row (.event t.toEvent)) { aliases, window }) := by
  have heval : ∀ e' : Expr, slot.source = .evaluate e' → e' = e →
      slotValue policy t window aliases slot = policy.settle slot.alias? e
        (e.evaluate (.row (.event t.toEvent)) { aliases, window }) := by
    rintro e' hslot' rfl
    rw [slotValue, hslot', Tuple.evaluate_toEvent h]
  unfold Expr.slotSource? at hsource
  split at hsource
  · rename_i hall
    split at hsource
    · rename_i c
      obtain rfl := Option.some.inj hsource
      obtain ⟨p, hposition⟩ : ∃ p, schemaPosition? t.schema c.name = some p :=
        Option.isSome_iff_exists.mp (by simpa [Expr.columns, Expr.walk, Expr.column?] using hall)
      have hp := (schemaPosition?_eq_some_iff h.nodup).mp hposition
      obtain ⟨v, hv⟩ : ∃ v, t.values[p]? = some v := by
        have hlt := (List.getElem?_eq_some_iff.mp hp).1
        exact ⟨t.values[p], List.getElem?_eq_getElem (by omega)⟩
      have hfield : t.field? c.name = some v := (Tuple.field?_of_getElem? h hp).trans hv
      rw [slotValue_column h (.inl (List.mem_of_getElem? hp)) hslot, hfield]
      simp only [Expr.evaluate, Subject.first?, Tuple.valueIn_toEvent h, hfield, Option.getD_some,
        OutputPolicy.settle_ok]
    · obtain rfl := Option.some.inj hsource
      exact heval _ hslot rfl
  · cases hsource

end Layout
end StreamSelect
