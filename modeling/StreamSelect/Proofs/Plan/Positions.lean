import StreamSelect.Proofs.KeyedMap
import StreamSelect.Proofs.Plan.Layout

/-!
Positions in a layout. The fields that are written take the positions of the output schema one after
the other, and every position that is read is one of the input schema.
-/
namespace StreamSelect
variable {schema : List String}

/-- Where a schema repeats a name, one of its positions is found. -/
theorem getElem?_of_schemaPosition? {name : String} {position : Nat}
    (h : schemaPosition? schema name = some position) : schema[position]? = some name := by
  have hmem := KeyedMap.mem_of_lookupEntry h
  rw [List.mem_reverse] at hmem
  exact List.mk_mem_zipIdx_iff_getElem?.mp hmem

theorem Column.slotSource_read {c : Column} {position : Nat}
    (h : c.slotSource schema = .read position) : schema[position]? = some c.name := by
  unfold slotSource at h
  split at h
  · rename_i hposition
    cases h
    exact getElem?_of_schemaPosition? hposition
  · cases h

/-- A slot reads inside of the schema. -/
theorem PlannedField.slotSource?_read {f : PlannedField} {position : Nat}
    (h : f.slotSource? schema = some (.read position)) : position < schema.length := by
  obtain ⟨form, hidden⟩ := f
  cases form with
  | column c => exact (List.getElem?_eq_some_iff.mp (c.slotSource_read (Option.some.inj h))).1
  | «alias» name e =>
    rcases Expr.slotSource?_cases h with hsource | ⟨c, _, _, hposition, hsource⟩
    · cases hsource
    · cases hsource
      exact (List.getElem?_eq_some_iff.mp (getElem?_of_schemaPosition? hposition)).1
  | derived name e => cases h

/-- Only a copied column may be absent. -/
theorem PlannedField.slotSource?_alias {f : PlannedField} (halias : f.alias?.isSome = true) :
    f.slotSource? schema ≠ some .absent := by
  intro h
  obtain ⟨form, hidden⟩ := f
  cases form with
  | column c => cases halias
  | «alias» name e =>
    rcases Expr.slotSource?_cases h with hsource | ⟨_, _, _, _, hsource⟩ <;> cases hsource
  | derived name e => cases halias

namespace Layout
open PlannedField (written)
variable {fields : List PlannedField} {slots : List Slot} {next : Nat}

theorem Places.read {f : PlannedField} {slot : Slot} (h : Places schema f slot) {position : Nat}
    (hread : slot.source = .read position) : position < schema.length :=
  f.slotSource?_read (h.source.trans (congrArg some hread))

theorem Places.ne_absent {f : PlannedField} {slot : Slot} (h : Places schema f slot)
    (halias : slot.alias?.isSome = true) : slot.source ≠ .absent := by
  intro habsent
  exact f.slotSource?_alias (h.aliased ▸ halias) (h.source.trans (congrArg some habsent))

/-- From the next free position on, every written field takes one position. -/
theorem slotsFrom?_writes (h : slotsFrom? schema next fields = some slots) :
    slots.filterMap Slot.write = List.range' next (written fields).length := by
  induction fields generalizing next slots with
  | nil =>
    obtain rfl := Option.some.inj h
    rfl
  | cons f fields ih =>
    obtain ⟨source, rest, _, hrest, rfl⟩ := slotsFrom?_cons h
    rw [PlannedField.written_cons]
    cases hhidden : f.hidden with
    | true => simpa [hhidden] using ih (by simpa [hhidden] using hrest)
    | false =>
      have hrange := ih (by simpa [hhidden] using hrest)
      simpa [List.range'_succ] using hrange

/-- At the position that a slot writes stands its name. -/
theorem slotsFrom?_names (h : slotsFrom? schema next fields = some slots) :
    ∀ slot ∈ slots, ∀ w, slot.write = some w →
      next ≤ w ∧ (written fields)[w - next]? = some slot.name := by
  induction fields generalizing next slots with
  | nil =>
    obtain rfl := Option.some.inj h
    simp
  | cons f fields ih =>
    obtain ⟨source, rest, _, hrest, rfl⟩ := slotsFrom?_cons h
    rw [PlannedField.written_cons]
    cases hhidden : f.hidden with
    | true =>
      have hlater := ih (by simpa [hhidden] using hrest)
      simpa using hlater
    | false =>
      have hlater := ih (by simpa [hhidden] using hrest)
      refine List.forall_mem_cons.mpr ⟨?_, fun slot hslot w hw => ?_⟩
      · intro w hw
        obtain rfl : next = w := by simpa using hw
        simp
      · obtain ⟨hle, hname⟩ := hlater slot hslot w hw
        have hposition : w - next = (w - (next + 1)) + 1 := by omega
        refine ⟨by omega, ?_⟩
        rw [hposition]
        exact hname

/-- The slots stand for the fields in order. Those of written fields take the positions of the output
schema one after the other, each under its own name. Whatever is read has a position in the input
schema, and no alias stands for a column that is absent. -/
structure WellFormed (schema : List String) (fields : List PlannedField) (layout : Layout) :
    Prop where
  inputWidth : layout.inputWidth = schema.length
  slots : List.Forall₂ (Places schema) fields layout.slots
  writes : layout.slots.filterMap Slot.write = List.range layout.outputSchema.length
  names : ∀ slot ∈ layout.slots, ∀ w, slot.write = some w →
    layout.outputSchema[w]? = some slot.name
  reads : ∀ slot ∈ layout.slots, ∀ position, slot.source = .read position →
    position < layout.inputWidth
  aliases : ∀ slot ∈ layout.slots, slot.alias?.isSome = true → slot.source ≠ .absent

theorem wellFormed_of_ofPlan? {p : Plan} {layout : Layout} (h : ofPlan? p schema = some layout) :
    layout.WellFormed schema p.fields := by
  obtain ⟨_, _, _, slots, hslots, rfl⟩ := ofPlan?_eq_some h
  refine ⟨rfl, slotsFrom?_places hslots, ?_, ?_, ?_, ?_⟩
  · rw [slotsFrom?_writes hslots, List.range_eq_range']
  · intro slot hmem w hw
    simpa using (slotsFrom?_names hslots slot hmem w hw).2
  · intro slot hmem position hposition
    obtain ⟨f, _, hf⟩ := exists_field hslots slot hmem
    exact hf.read hposition
  · intro slot hmem
    obtain ⟨f, _, hf⟩ := exists_field hslots slot hmem
    exact hf.ne_absent

/-- A position that is written is one of the output. -/
theorem WellFormed.write_lt {layout : Layout} (h : layout.WellFormed schema fields) {slot : Slot}
    (hslot : slot ∈ layout.slots) {w : Nat} (hw : slot.write = some w) :
    w < layout.outputSchema.length :=
  (List.getElem?_eq_some_iff.mp (h.names slot hslot w hw)).1

end Layout
end StreamSelect
