import StreamSelect.Proofs.Packet
import StreamSelect.Proofs.Project.Mirror

/-!
A plan laid out over a schema projects tuples of the schema as the plan without a layout projects
their named values: it fails with the same fault, or makes a tuple that shows what the event shows.
-/
namespace StreamSelect

/-- The named values that are not null. -/
def Tuple.presentFields (t : Tuple) : FieldMap :=
  .ofList ((t.schema.zip t.values).filter fun e => !e.2.isNull)

/-- The tuple has the names in order, one value for each, and the event has its named values: all of
them, or without nulls those that are not null. -/
structure Tuple.Shows (policy : OutputPolicy) (names : List String) (t : Tuple) (e : Event) :
    Prop where
  schema : t.schema = names
  width : t.values.length = names.length
  emitter : t.emitter = e.emitter
  all : policy.writeNulls = true → e.fields = t.toEvent.fields
  present : policy.writeNulls = false → e.fields = t.presentFields

/-- A tuple and the event that it shows, as rows. -/
inductive Row.Shows (policy : OutputPolicy) (names : List String) : Row → Row → Prop
  | tuple {t : Tuple} {e : Event} (h : t.Shows policy names e) :
    Row.Shows policy names (.tuple t) (.event e)

namespace Layout
variable {policy : OutputPolicy} {t : Tuple} {window : Option Window}

/-- Before the first slot is filled only the copied columns are shown. -/
private theorem mirrors_start {row : Row} {fields : List PlannedField}
    (h : (PlannedField.written fields).Nodup) :
    Mirrors policy row [] fields
      { values := List.replicate (PlannedField.written fields).length .null }
      { output := fields.foldl (Plan.writeColumn policy (some row)) ∅ } := by
  refine ⟨rfl, [], rfl, rfl, fun k => ?_⟩
  have hkeys := h.sublist (Plan.copies_sublist (some row) fields)
  rw [Plan.get?_foldl_writeColumn, ← KeyedMap.get?_ofList, KeyedMap.get?_ofList_of_nodup hkeys]
  cases hlookup : KeyedMap.lookupEntry k (Plan.copies (some row) fields) with
  | none => simp [hlookup]
  | some v => simp [hlookup]

private theorem shows_of_lookup {e : Event} {names : List String} (hnames : names.Nodup)
    (hschema : t.schema = names) (hwidth : t.values.length = names.length)
    (hemitter : t.emitter = e.emitter)
    (h : ∀ k, e.fields.get? k =
      (KeyedMap.lookupEntry k (t.schema.zip t.values)).bind policy.shown) :
    t.Shows policy names e := by
  have hkeys : ((t.schema.zip t.values).map Prod.fst).Nodup := by
    rw [List.map_fst_zip (hschema ▸ Nat.le_of_eq hwidth.symm), hschema]
    exact hnames
  refine ⟨hschema, hwidth, hemitter, fun hwrite => ?_, fun homit => ?_⟩
  · refine KeyedMap.ext_get? fun k => ?_
    rw [h, OutputPolicy.bind_shown_of_writeNulls hwrite]
    exact (KeyedMap.get?_ofList_of_nodup hkeys k).symm
  · refine KeyedMap.ext_get? fun k => ?_
    have hpresent := KeyedMap.lookupEntry_filter hkeys (fun v => !v.isNull) k
    rw [h, OutputPolicy.bind_shown_of_omit homit, ← hpresent, Tuple.presentFields]
    exact (KeyedMap.get?_ofList_of_nodup (hkeys.sublist (List.filter_sublist.map _)) k).symm

theorem project_agree {p : Plan} {layout : Layout} (h : ofPlan? p t.schema = some layout)
    (hdistinct : Text.DistinctIgnoringCase t.schema) (hwidth : t.values.length = t.schema.length)
    (hcolumn : ∀ field ∈ p.fields, ∀ c, field.form = .column c → Resolved t.schema c)
    (hnames : (PlannedField.written p.fields).Nodup) :
    Outcome.Agree (fun out e => out.Shows policy (PlannedField.written p.fields) e)
      (layout.project policy t window) (p.assemble policy (.row (.event t.toEvent)) window) := by
  obtain ⟨hstar, hsources, _, slots, hslots, rfl⟩ := ofPlan?_eq_some h
  have hstart : Mirrors policy (.event t.toEvent) [] p.fields _ _ := mirrors_start hnames
  have hfits : ¬t.width ≠ t.schema.length := by simpa [Tuple.width] using hwidth
  rw [Plan.assemble_of_no_star hstar hsources, project, if_neg hfits]
  refine (hstart.run hdistinct hwidth hcolumn (by simpa using hnames) hslots).bind
    fun f a hf => .ok ?_
  obtain ⟨placed, hlength, hvalues, houtput⟩ := hf.values
  simp only [PlannedField.written, List.filter_nil, List.map_nil, List.length_nil,
    List.replicate_zero, List.append_nil, List.nil_append] at hlength hvalues houtput
  refine shows_of_lookup hnames rfl (hvalues ▸ hlength) rfl fun k => ?_
  change (Plan.attach policy ∅ (p.dropHidden a.output)).get? k =
    (KeyedMap.lookupEntry k ((PlannedField.written p.fields).zip f.values)).bind policy.shown
  rw [Plan.attach_empty, Plan.get?_dropHidden, hvalues]
  split
  · rename_i hdropped
    have hfresh : k ∉ PlannedField.written p.fields := fun hmem => by
      simp [(p.writes_iff k).mpr hmem] at hdropped
    rw [lookup_placed hfresh, Option.bind_none]
  · rw [houtput]
    simp [Plan.copies, PlannedField.written]

end Layout

/-- One value for each column of the schema. -/
structure Tuple.Fits (columns : List String) (t : Tuple) : Prop where
  schema : t.schema = columns
  width : t.values.length = columns.length

namespace Projector
variable {schema : List String} {declarations : List Declaration} {plan : Plan}

private theorem projectRow_agree {named : Plan} {layout : Layout}
    (hnamed : Plan.compile declarations = .ok named)
    (hlayout : Layout.ofPlan? named schema = some layout)
    (hschema : Text.DistinctIgnoringCase schema)
    (hnames : (declarations.filterMap Declaration.writtenName?).Nodup)
    (hcolumns : ∀ d ∈ declarations, ∀ c, d.item.copied? = some c → Layout.Resolved schema c)
    (policy : OutputPolicy) (window : Option Window) {t : Tuple} (ht : t.Fits schema) :
    Outcome.Agree (Row.Shows policy (declarations.filterMap Declaration.writtenName?))
      (projectRow ⟨{ named with layout := Layout.ofPlan? named schema }, policy⟩ (.tuple t) window)
      (projectRow ⟨named, policy⟩ (.event t.toEvent) window) := by
  obtain ⟨rfl, hwidth⟩ := ht
  obtain ⟨_, _, _, slots, hslots, _⟩ := Layout.ofPlan?_eq_some hlayout
  have hwritten : PlannedField.written named.fields =
      declarations.filterMap Declaration.writtenName? :=
    Plan.written_names_of_compile hnamed (Layout.slotsFrom?_not_derived hslots)
  have hcolumn : ∀ field ∈ named.fields, ∀ c, field.form = .column c →
      Layout.Resolved t.schema c := by
    intro field hfield c hc
    obtain ⟨d, hd, hcopied⟩ := Plan.exists_copied_of_compile hnamed field hfield c hc
    exact hcolumns d hd c hcopied
  have hagree : Outcome.Agree
      (Tuple.Shows policy (declarations.filterMap Declaration.writtenName?))
      (layout.project policy t window)
      (named.assemble policy (.row (.event t.toEvent)) window) := by
    rw [← hwritten] at hnames ⊢
    exact Layout.project_agree hlayout hschema hwidth hcolumn hnames
  simp only [projectRow, hlayout]
  exact hagree.map fun _ _ h => Row.Shows.tuple h

/-- Over a schema, a plan that has a layout projects by position what the plan without a layout
projects by name, row by row, in any window and under any policy. Names of the schema differ by more
than case, names that are written differ, and a bare column is spelt as in the schema unless it has
no match there at all. -/
theorem positional_agrees_with_named (hplan : Plan.compileOver schema declarations = .ok plan)
    (hlayout : plan.layout.isSome = true) (hschema : Text.DistinctIgnoringCase schema)
    (hnames : (declarations.filterMap Declaration.writtenName?).Nodup)
    (hcolumns : ∀ d ∈ declarations, ∀ c, d.item.copied? = some c → Layout.Resolved schema c) :
    ∃ named, Plan.compile declarations = .ok named ∧ ∀ policy : OutputPolicy,
      (∀ t : Tuple, t.Fits schema → Outcome.Agree
        (Packet.Rowwise (Row.Shows policy (declarations.filterMap Declaration.writtenName?)))
        (project ⟨plan, policy⟩ (.row (.tuple t)))
        (project ⟨named, policy⟩ (.row (.event t.toEvent)))) ∧
      ∀ (tuples : List Tuple) (window : Option Window), (∀ t ∈ tuples, t.Fits schema) →
        Outcome.Agree
          (Packet.Rowwise (Row.Shows policy (declarations.filterMap Declaration.writtenName?)))
          (project ⟨plan, policy⟩ (.batch ⟨tuples.map .tuple, window⟩))
          (project ⟨named, policy⟩ (.batch ⟨tuples.map fun t => .event t.toEvent, window⟩)) := by
  obtain ⟨named, hnamed, rfl⟩ := Outcome.map_eq_ok.mp hplan
  obtain ⟨layout, hlayout : Layout.ofPlan? named schema = some layout⟩ :=
    Option.isSome_iff_exists.mp hlayout
  have haggregate : named.aggregate = false := (Layout.ofPlan?_eq_some hlayout).2.2.1
  refine ⟨named, hnamed, fun policy => ⟨fun t ht => ?_, fun tuples window htuples => ?_⟩⟩
  · have hrow := projectRow_agree hnamed hlayout hschema hnames hcolumns policy none ht
    simp only [project, haggregate]
    exact hrow.map fun _ _ h => .row h
  · have hrows : List.Forall₂ (fun r r' => ∃ t : Tuple, t.Fits schema ∧ r = Row.tuple t ∧
        r' = Row.event t.toEvent) (tuples.map .tuple) (tuples.map fun t => .event t.toEvent) := by
      rw [List.forall₂_map_left_iff, List.forall₂_map_right_iff, List.forall₂_same]
      exact fun t ht => ⟨t, htuples t ht, rfl, rfl⟩
    simp only [project, projectBatch, haggregate]
    refine (Outcome.Agree.mapM hrows ?_).bind fun _ _ h => .ok (.batch h)
    rintro _ _ ⟨t, ht, rfl, rfl⟩
    exact projectRow_agree hnamed hlayout hschema hnames hcolumns policy window ht

/-- A bare column, a hidden sum and a total over the sum. -/
def totalList : List Declaration := [
  { item := .column { name := "b" } },
  { item := .computed (.binary (.arithmetic .add) (.column { name := "a" })
      (.column { name := "b" })) (some "sum"), hidden := true },
  { item := .computed (.binary (.arithmetic .add) (.column { name := "sum" })
      (.column { name := "b" })) (some "total") }]

theorem positional_agrees_with_named_totalList :
    ∃ plan named, Plan.compileOver ["a", "b"] totalList = .ok plan ∧
      Plan.compile totalList = .ok named ∧ ∀ policy : OutputPolicy, ∀ t : Tuple,
        t.Fits ["a", "b"] → Outcome.Agree (Packet.Rowwise (Row.Shows policy ["b", "total"]))
          (project ⟨plan, policy⟩ (.row (.tuple t)))
          (project ⟨named, policy⟩ (.row (.event t.toEvent))) := by
  have hcolumns : ∀ d ∈ totalList, ∀ c, d.item.copied? = some c →
      Layout.Resolved ["a", "b"] c := by
    simp [totalList, Item.copied?, Layout.Resolved]
  obtain ⟨named, hnamed, h⟩ := @positional_agrees_with_named ["a", "b"] totalList _ rfl rfl
    (by decide) (by decide) hcolumns
  exact ⟨_, named, rfl, hnamed, fun policy t ht => (h policy).1 t ht⟩

end Projector
end StreamSelect
