import StreamSelect.Proofs.Outcome
import StreamSelect.Proofs.Packet
import StreamSelect.Proofs.Project.Phases

/-!
Two runs of one plan on one input, the first writing nulls and the second leaving them out. If the
first succeeds so does the second, since it evaluates the same expressions with the same aliases,
and the outputs differ only in nulls that the second has dropped.
-/
namespace StreamSelect

/-- What the second run shows of a value: the same, or nothing instead of a null. If it is strict,
it never shows a null. -/
inductive Thinned (strict : Prop) : Option Value → Option Value → Prop
  | same (v? : Option Value) (h : strict → ∀ v, v? = some v → v.isNull = false) :
    Thinned strict v? v?
  | dropped {v : Value} (h : v.isNull = true) : Thinned strict (some v) none

namespace Thinned
variable {strict : Prop} {full thin : Option Value} {attach : Bool}

theorem kept (h : Thinned strict full thin) {v : Value} (hv : thin = some v) : full = some v := by
  cases h with
  | same => exact hv
  | dropped => cases hv

theorem present (h : Thinned strict full thin) {v : Value} (hv : full = some v)
    (hnull : v.isNull = false) : thin = some v := by
  cases h with
  | same => exact hv
  | dropped hdropped =>
    cases hv
    rw [hnull] at hdropped
    cases hdropped

theorem nullFree (h : Thinned strict full thin) (hstrict : strict) {v : Value}
    (hv : thin = some v) : v.isNull = false := by
  cases h with
  | same _ hfree => exact hfree hstrict v hv
  | dropped => cases hv

theorem exact (h : Thinned strict full thin) (hstrict : strict) :
    thin = full.filter fun v => !v.isNull := by
  cases h with
  | same _ hfree =>
    cases full with
    | none => rfl
    | some v => simp [Option.filter, hfree hstrict v rfl]
  | dropped hdropped => simp [Option.filter, hdropped]

theorem shown (v : Value) : Thinned strict (OutputPolicy.shown ⟨attach, true⟩ v)
    (OutputPolicy.shown ⟨attach, false⟩ v) := by
  cases hv : v.isNull with
  | true =>
    simp only [OutputPolicy.shown, hv]
    exact .dropped hv
  | false =>
    simp only [OutputPolicy.shown, hv]
    exact .same _ fun _ w hw => Option.some.inj hw ▸ hv

end Thinned

/-- Everything in the second map is thinned from the first. -/
def FieldsThinned (strict : Prop) (full thin : FieldMap) : Prop :=
  ∀ k, Thinned strict (full.get? k) (thin.get? k)

namespace FieldsThinned
variable {strict : Prop} {full thin : FieldMap} {attach : Bool}

theorem empty : FieldsThinned strict ∅ ∅ := fun _ => .same _ fun _ _ hv => by cases hv

theorem refl (h : ¬strict) (fields : FieldMap) : FieldsThinned strict fields fields :=
  fun _ => .same _ fun hstrict => absurd hstrict h

theorem write (h : FieldsThinned strict full thin) (name : String) (v : Value) :
    FieldsThinned strict (OutputPolicy.write ⟨attach, true⟩ full name v)
      (OutputPolicy.write ⟨attach, false⟩ thin name v) := by
  intro k
  rw [OutputPolicy.get?_write, OutputPolicy.get?_write]
  split
  · exact .shown v
  · exact h k

theorem override (h : FieldsThinned strict full thin) (hstrict : ¬strict) (fields : FieldMap) :
    FieldsThinned strict (full.override fields) (thin.override fields) := by
  intro k
  rw [KeyedMap.get?_override, KeyedMap.get?_override]
  cases fields.get? k with
  | some v => exact .same _ fun hs => absurd hs hstrict
  | none => exact h k

theorem dropHidden (h : FieldsThinned strict full thin) (p : Plan) :
    FieldsThinned strict (p.dropHidden full) (p.dropHidden thin) := by
  intro k
  rw [Plan.get?_dropHidden, Plan.get?_dropHidden]
  split
  · exact .same _ fun _ _ hv => by cases hv
  · exact h k

end FieldsThinned

namespace Plan

/-- No `*` and no star of a source. -/
def Starless (p : Plan) : Prop := p.star = none ∧ p.sourceStars = []

variable {p : Plan} {full thin : FieldMap} {attach : Bool} {subject : Subject}
  {window : Option Window}

/-- What succeeds while nulls are written is a value, and it is one in the other run too. -/
theorem settle_carries (label : Option String) (e : Expr) (result : Outcome Value) :
    Outcome.Carries (fun v? w? => v? = w? ∧ v?.isSome = true)
      (OutputPolicy.settle ⟨attach, true⟩ label e result)
      (OutputPolicy.settle ⟨attach, false⟩ label e result) := by
  intro v? h
  cases result with
  | ok v =>
    cases h
    exact ⟨some v, rfl, rfl, rfl⟩
  | error fault =>
    simp [OutputPolicy.settle] at h

theorem starFields_thinned (first? : Option Row) :
    FieldsThinned p.Starless (p.starFields first?) (p.starFields first?) := by
  by_cases hstar : p.star = none
  · have hcopied : p.starFields first? = ∅ := by
      unfold starFields
      rw [hstar]
    rw [hcopied]
    exact .empty
  · exact .refl (fun h => hstar h.1) _

theorem writeReplacement_carries (h : FieldsThinned p.Starless full thin) (r : Replacement) :
    Outcome.Carries (FieldsThinned p.Starless)
      (writeReplacement ⟨attach, true⟩ subject window full r)
      (writeReplacement ⟨attach, false⟩ subject window thin r) := by
  refine (settle_carries (some r.name) r.expr _).bind ?_
  rintro v? _ ⟨rfl, hsome⟩
  cases v? with
  | none => cases hsome
  | some v => exact .of_ok (h.write r.name v)

theorem writeSources_thinned (h : FieldsThinned p.Starless full thin) (first? : Option Row) :
    FieldsThinned p.Starless (p.writeSources first? full) (p.writeSources first? thin) := by
  cases first? with
  | none => exact h
  | some row =>
    by_cases hsources : p.sourceStars = []
    · simpa [writeSources, hsources] using h
    · have hstrict : ¬p.Starless := fun hs => hsources hs.2
      simp only [writeSources]
      induction p.sourceStars generalizing full thin with
      | nil => exact h
      | cons source sources ih => exact ih (h.override hstrict _)

theorem writeColumns_thinned (h : FieldsThinned p.Starless full thin) (first? : Option Row)
    (fields : List PlannedField) : FieldsThinned p.Starless
      (fields.foldl (writeColumn ⟨attach, true⟩ first?) full)
      (fields.foldl (writeColumn ⟨attach, false⟩ first?) thin) := by
  induction fields generalizing full thin with
  | nil => exact h
  | cons f fields ih =>
    refine ih ?_
    obtain ⟨form, hidden⟩ := f
    cases form with
    | column c =>
      cases hidden with
      | true => exact h
      | false => exact h.write c.name _
    | «alias» name e => exact h
    | derived name e => exact h

/-- Both runs store the same aliases. -/
structure AssemblyThinned (strict : Prop) (a b : Assembly) : Prop where
  output : FieldsThinned strict a.output b.output
  aliases : a.aliases = b.aliases

theorem writeExpression_carries {a b : Assembly} (h : AssemblyThinned p.Starless a b)
    (f : PlannedField) : Outcome.Carries (AssemblyThinned p.Starless)
      (writeExpression ⟨attach, true⟩ subject window a f)
      (writeExpression ⟨attach, false⟩ subject window b f) := by
  obtain ⟨output, aliases⟩ := a
  obtain ⟨output', _⟩ := b
  obtain ⟨houtput, rfl⟩ := h
  obtain ⟨form, hidden⟩ := f
  cases form with
  | column c => exact .of_ok ⟨houtput, rfl⟩
  | «alias» name e =>
    rw [writeExpression_alias, writeExpression_alias]
    refine (settle_carries (some name) e _).bind ?_
    rintro v? _ ⟨rfl, hsome⟩
    cases v? with
    | none => cases hsome
    | some v =>
      cases hidden with
      | true => exact .of_ok ⟨houtput, rfl⟩
      | false => exact .of_ok ⟨houtput.write name v, rfl⟩
  | derived name e =>
    rw [writeExpression_derived, writeExpression_derived]
    cases hidden with
    | true => exact .of_ok ⟨houtput, rfl⟩
    | false =>
      refine (settle_carries none e _).bind ?_
      rintro v? _ ⟨rfl, hsome⟩
      cases v? with
      | none => cases hsome
      | some v => exact .of_ok ⟨houtput.write name v, rfl⟩

end Plan

/-- The second event is the first without some of its nulls. The metadata field is left aside, as it
is attached only where no field has its name. If it is strict, no null is left. -/
structure Event.Thinned (strict : Prop) (full thin : Event) : Prop where
  emitter : full.emitter = thin.emitter
  metadata : full.metadata = thin.metadata
  timestamp : full.timestamp = thin.timestamp
  kept : ∀ k ≠ metadataName, ∀ v, thin.fields.get? k = some v → full.fields.get? k = some v
  present : ∀ k ≠ metadataName, ∀ v, full.fields.get? k = some v → v.isNull = false →
    thin.fields.get? k = some v
  nullFree : strict → ∀ k v, thin.fields.get? k = some v → v.isNull = false
  exact : strict → ∀ k ≠ metadataName,
    thin.fields.get? k = (full.fields.get? k).filter fun v => !v.isNull

theorem Event.Thinned.attached {strict : Prop} {full thin : FieldMap}
    (h : FieldsThinned strict full thin) (attach : Bool) (emitter : String) (metadata : FieldMap)
    (timestamp : Int64) :
    Event.Thinned strict
      ⟨emitter, Plan.attach ⟨attach, true⟩ metadata full, metadata, timestamp⟩
      ⟨emitter, Plan.attach ⟨attach, false⟩ metadata thin, metadata, timestamp⟩ where
  emitter := rfl
  metadata := rfl
  timestamp := rfl
  kept k hk v hv := by
    rw [Plan.get?_attach_of_ne _ _ _ hk] at hv ⊢
    exact (h k).kept hv
  present k hk v hv hnull := by
    rw [Plan.get?_attach_of_ne _ _ _ hk] at hv ⊢
    exact (h k).present hv hnull
  nullFree hstrict k v hv := by
    unfold Plan.attach at hv
    split at hv
    · rw [KeyedMap.get?_insert] at hv
      split at hv
      · cases hv
        rfl
      · exact (h k).nullFree hstrict hv
    · exact (h k).nullFree hstrict hv
  exact hstrict k hk := by
    rw [Plan.get?_attach_of_ne _ _ _ hk, Plan.get?_attach_of_ne _ _ _ hk]
    exact (h k).exact hstrict

/-- Tuples are the same in both runs, and events differ only in nulls. -/
inductive Row.Thinned (strict : Prop) : Row → Row → Prop
  | tuple (t : Tuple) : Row.Thinned strict (.tuple t) (.tuple t)
  | event {full thin : Event} (h : full.Thinned strict thin) :
    Row.Thinned strict (.event full) (.event thin)

theorem Plan.assemble_carries (p : Plan) (attach : Bool) (subject : Subject)
    (window : Option Window) : Outcome.Carries (Event.Thinned p.Starless)
      (p.assemble ⟨attach, true⟩ subject window) (p.assemble ⟨attach, false⟩ subject window) := by
  unfold assemble
  refine (Outcome.Carries.foldlM (fun _ _ r h => writeReplacement_carries h r)
    (starFields_thinned subject.first?)).bind fun full thin h => ?_
  have hcolumns : FieldsThinned p.Starless
      (p.fields.foldl (writeColumn ⟨attach, true⟩ subject.first?)
        (p.writeSources subject.first? full))
      (p.fields.foldl (writeColumn ⟨attach, false⟩ subject.first?)
        (p.writeSources subject.first? thin)) :=
    writeColumns_thinned (writeSources_thinned h subject.first?) subject.first? p.fields
  have hstart : AssemblyThinned p.Starless ⟨_, ∅⟩ ⟨_, ∅⟩ := ⟨hcolumns, rfl⟩
  refine (Outcome.Carries.foldlM (fun _ _ f h => writeExpression_carries h f) hstart).bind
    fun a b hab => .of_ok ?_
  exact .attached (hab.output.dropHidden p) attach _ _ _

/-- By position a slot that stays null stays null in both runs. -/
theorem Layout.project_carries (layout : Layout) (attach : Bool) (input : Tuple)
    (window : Option Window) : Outcome.Carries (· = ·)
      (layout.project ⟨attach, true⟩ input window)
      (layout.project ⟨attach, false⟩ input window) := by
  unfold project
  split
  · exact fun _ h => by cases h
  · refine (Outcome.Carries.foldlM ?_ rfl).bind fun f g h => .of_ok (by rw [h])
    rintro f _ slot rfl
    have hvalue : Outcome.Carries (· = ·) (slotValue ⟨attach, true⟩ input window f.aliases slot)
        (slotValue ⟨attach, false⟩ input window f.aliases slot) := by
      unfold slotValue
      cases slot.source with
      | read position => exact .of_ok rfl
      | absent => exact .of_ok rfl
      | evaluate e =>
        intro v? hv
        obtain ⟨_, hother, rfl, _⟩ := Plan.settle_carries _ _ _ _ hv
        exact ⟨v?, hother, rfl⟩
    refine hvalue.bind ?_
    rintro v? _ rfl
    exact fun g hg => ⟨g, hg, rfl⟩

namespace Projector
variable (p : Plan) (attach : Bool)

private theorem projectRow_carries (row : Row) (window : Option Window) :
    Outcome.Carries (Row.Thinned p.Starless) (projectRow ⟨p, ⟨attach, true⟩⟩ row window)
      (projectRow ⟨p, ⟨attach, false⟩⟩ row window) := by
  have hnamed : Outcome.Carries (Row.Thinned p.Starless)
      (.event <$> p.assemble ⟨attach, true⟩ (.row row) window)
      (.event <$> p.assemble ⟨attach, false⟩ (.row row) window) :=
    (p.assemble_carries attach (.row row) window).map fun _ _ h => .event h
  unfold projectRow
  cases row with
  | event e => exact hnamed
  | joined j => exact hnamed
  | tuple input =>
    cases hlayout : p.layout with
    | none => simpa only [hlayout] using hnamed
    | some layout =>
      simp only
      refine (layout.project_carries attach input window).map ?_
      rintro t _ rfl
      exact .tuple t

private theorem projectMember_carries (group : Batch) :
    Outcome.Carries (Row.Thinned p.Starless) (projectMember ⟨p, ⟨attach, true⟩⟩ group)
      (projectMember ⟨p, ⟨attach, false⟩⟩ group) := by
  unfold projectMember
  cases p.aggregate with
  | true =>
    exact (p.assemble_carries attach (.group group.rows) group.window).map fun _ _ h => .event h
  | false =>
    cases group.first? with
    | some row => exact projectRow_carries p attach row group.window
    | none => exact .of_ok (.event (.attached .empty false "" ∅ 0))

/-- Leaving nulls out changes nothing else: a projection that succeeds while nulls are written also
succeeds while they are left out, with a packet of the same shape. Row by row the two differ in
dropped nulls alone; without stars no null is left. -/
theorem project_omits_only_nulls {input out : Packet}
    (h : project ⟨p, ⟨attach, true⟩⟩ input = .ok out) :
    ∃ out', project ⟨p, ⟨attach, false⟩⟩ input = .ok out' ∧
      Packet.Rowwise (Row.Thinned p.Starless) out out' := by
  suffices hcarries : Outcome.Carries (Packet.Rowwise (Row.Thinned p.Starless))
      (project ⟨p, ⟨attach, true⟩⟩ input) (project ⟨p, ⟨attach, false⟩⟩ input) from
    hcarries out h
  have hgroup : ∀ rows window, Outcome.Carries (Packet.Rowwise (Row.Thinned p.Starless))
      ((fun e => .row (.event e)) <$> p.assemble ⟨attach, true⟩ (.group rows) window)
      ((fun e => .row (.event e)) <$> p.assemble ⟨attach, false⟩ (.group rows) window) :=
    fun rows window =>
      (p.assemble_carries attach (.group rows) window).map fun _ _ h => .row (.event h)
  cases input with
  | fault fault => exact fun _ hok => by cases hok
  | row row =>
    unfold project
    cases p.aggregate with
    | true => exact hgroup [row] none
    | false => exact (projectRow_carries p attach row none).map fun _ _ h => .row h
  | batch batch =>
    simp only [project]
    unfold projectBatch
    cases p.aggregate with
    | true => exact hgroup batch.rows batch.window
    | false =>
      exact (Outcome.Carries.mapM fun row _ => projectRow_carries p attach row batch.window).bind
        fun _ _ h => .of_ok (.batch h)
  | groups groups =>
    exact (Outcome.Carries.mapM fun group _ => projectMember_carries p attach group).bind
      fun _ _ h => .of_ok (.batch h)

/-- The columns `a` and `b`, an alias that adds to `b`, and a test of the alias for null. -/
def addedToMissing : Plan :=
  let sum : Expr := .binary (.arithmetic .add) (.column { name := "b" }) (.literal (.integer 1))
  { fields := [
      ⟨.column { name := "a" }, false⟩,
      ⟨.column { name := "b" }, false⟩,
      ⟨.alias "sum" sum, false⟩,
      ⟨.derived (placeholderName 0) (.unary .isNull (.aliasRef "sum" sum)), false⟩]
    star := none
    sourceStars := []
    aggregate := false
    layout := none }

/-- Without `b` the column and the alias come to null and are dropped. The alias is stored as null
all the same, so the test of it is true in both runs. -/
theorem project_omits_only_nulls_addedToMissing :
    let input : Packet := .row (.event { fields := .ofList [("a", .integer 1)] })
    let full : Packet := .row (.event { fields := .ofList [("a", .integer 1), ("b", .null),
      ("sum", .null), (placeholderName 0, .boolean true)] })
    let thin : Packet := .row (.event { fields := .ofList [("a", .integer 1),
      (placeholderName 0, .boolean true)] })
    project ⟨addedToMissing, ⟨false, true⟩⟩ input = .ok full ∧
      project ⟨addedToMissing, ⟨false, false⟩⟩ input = .ok thin ∧
      Packet.Rowwise (Row.Thinned addedToMissing.Starless) full thin := by
  intro input full thin
  have hfull : project ⟨addedToMissing, ⟨false, true⟩⟩ input = .ok full := rfl
  obtain ⟨out, hout, hthinned⟩ := project_omits_only_nulls addedToMissing false hfull
  obtain rfl : thin = out := Except.ok.inj hout
  exact ⟨hfull, hout, hthinned⟩

end Projector
end StreamSelect
