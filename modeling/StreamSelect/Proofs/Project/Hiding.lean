import StreamSelect.Proofs.KeyedMap
import StreamSelect.Proofs.Plan.Hiding
import StreamSelect.Proofs.Project.Phases
import StreamSelect.Proofs.Project.Rowwise

/-!
A field that is hidden is only hidden. Two runs are compared, one of a plan that writes the field
and one of the plan that hides it: after every step they differ at the name of the field alone, and
an alias has the same value in both. At the end the name is dropped from the second run.
-/
namespace StreamSelect

def Event.without (name : String) (e : Event) : Event := { e with fields := e.fields.erase name }

/-- The tuple without the first column of this name and its value. -/
def Tuple.without (name : String) (t : Tuple) : Tuple :=
  { t with
    schema := t.schema.eraseIdx (t.schema.idxOf name)
    values := t.values.eraseIdx (t.schema.idxOf name) }

def Row.without (name : String) : Row → Row
  | .event e => .event (e.without name)
  | .joined j => .joined ⟨j.constituents.map (Event.without name)⟩
  | .tuple t => .tuple (t.without name)

namespace OutputPolicy
variable {policy : OutputPolicy}

theorem erase_write_self (fields : FieldMap) (name : String) (v : Value) :
    (policy.write fields name v).erase name = fields.erase name := by
  refine KeyedMap.ext_get? fun k => ?_
  by_cases hk : k = name <;> simp [hk]

/-- Maps that differ at one name alone still do so after a value is written to both. -/
theorem erase_write {fields others : FieldMap} {gone : String}
    (h : fields.erase gone = others.erase gone) (name : String) (v : Value) :
    (policy.write fields name v).erase gone = (policy.write others name v).erase gone := by
  refine KeyedMap.ext_get? fun k => ?_
  have hk := congrArg (KeyedMap.get? · k) h
  by_cases hgone : k = gone
  · simp [hgone]
  · simp only [KeyedMap.get?_erase, if_neg hgone] at hk
    simp [hgone, hk]

end OutputPolicy

namespace Plan
variable {p q : Plan} {f : PlannedField} {policy : OutputPolicy} {s : Subject}
  {window : Option Window} {strict : Prop} {gone : String}

/-- Two outputs in the making differ at one name alone, and the same aliases are stored. -/
structure Assembly.SameBut (gone : String) (a b : Assembly) : Prop where
  output : a.output.erase gone = b.output.erase gone
  aliases : a.aliases = b.aliases

theorem writeColumn_sameBut {output output' : FieldMap}
    (h : output.erase gone = output'.erase gone) (first? : Option Row) (g : PlannedField) :
    (writeColumn policy first? output g).erase gone =
      (writeColumn policy first? output' g).erase gone := by
  obtain ⟨form, hidden⟩ := g
  cases form with
  | column c =>
    cases hidden with
    | true => exact h
    | false => exact OutputPolicy.erase_write h c.name _
  | «alias» name e => exact h
  | derived name e => exact h

/-- The copied column that is hidden differs at its own name alone. -/
theorem writeColumn_hide {output output' : FieldMap}
    (h : output.erase f.outputName = output'.erase f.outputName) (first? : Option Row) :
    (writeColumn policy first? output f).erase f.outputName =
      (writeColumn policy first? output' f.hide).erase f.outputName := by
  obtain ⟨form, hidden⟩ := f
  cases form with
  | column c =>
    cases hidden with
    | true => exact h
    | false => exact (OutputPolicy.erase_write_self output c.name _).trans h
  | «alias» name e => exact h
  | derived name e => exact h

theorem writeColumns_sameBut {output output' : FieldMap}
    (h : output.erase gone = output'.erase gone) (first? : Option Row)
    (fields : List PlannedField) :
    (fields.foldl (writeColumn policy first?) output).erase gone =
      (fields.foldl (writeColumn policy first?) output').erase gone := by
  induction fields generalizing output output' with
  | nil => exact h
  | cons g fields ih => exact ih (writeColumn_sameBut h first? g)

theorem Assembly.SameBut.writeExpression {a b : Assembly} (h : a.SameBut gone b)
    (g : PlannedField) :
    Outcome.Tracks strict (SameBut gone) (writeExpression policy s window a g)
      (writeExpression policy s window b g) := by
  obtain ⟨form, hidden⟩ := g
  cases form with
  | column c => exact .of_ok h
  | «alias» name e =>
    rw [writeExpression_alias, writeExpression_alias, h.aliases]
    refine (Outcome.Tracks.refl _).bind ?_
    rintro v? _ rfl
    cases v? with
    | none => exact .of_ok h
    | some v =>
      refine .of_ok ⟨?_, rfl⟩
      cases hidden with
      | true => exact h.output
      | false => exact OutputPolicy.erase_write h.output name v
  | derived name e =>
    rw [writeExpression_derived, writeExpression_derived, h.aliases]
    cases hidden with
    | true => exact .of_ok h
    | false =>
      refine (Outcome.Tracks.refl _).bind ?_
      rintro v? _ rfl
      cases v? with
      | none => exact .of_ok h
      | some v => exact .of_ok ⟨OutputPolicy.erase_write h.output name v, rfl⟩

/-- An alias is evaluated and stored though it is hidden. A field with a derived name is not even
evaluated, so that its faults are lost. -/
theorem Assembly.SameBut.hide {a b : Assembly} (h : a.SameBut f.outputName b)
    (hvisible : f.hidden = false) (hform : strict → ∀ name e, f.form ≠ .derived name e) :
    Outcome.Tracks strict (SameBut f.outputName) (Plan.writeExpression policy s window a f)
      (Plan.writeExpression policy s window b f.hide) := by
  obtain ⟨form, hidden⟩ := f
  obtain rfl : hidden = false := hvisible
  cases form with
  | column c => exact .of_ok h
  | «alias» name e =>
    rw [PlannedField.hide, writeExpression_alias, writeExpression_alias, h.aliases]
    refine (Outcome.Tracks.refl _).bind ?_
    rintro v? _ rfl
    cases v? with
    | none => exact .of_ok h
    | some v => exact .of_ok ⟨(OutputPolicy.erase_write_self a.output name v).trans h.output, rfl⟩
  | derived name e =>
    constructor
    · intro c hc
      refine ⟨b, rfl, ?_⟩
      rw [writeExpression_derived] at hc
      obtain ⟨v?, _, hc⟩ := Outcome.bind_eq_ok.mp hc
      cases v? with
      | none =>
        cases hc
        exact h
      | some v =>
        cases hc
        exact ⟨(OutputPolicy.erase_write_self a.output name v).trans h.output, h.aliases⟩
    · intro hstrict
      exact absurd rfl (hform hstrict name e)

theorem mem_hiddenNames_hides (h : p.Hides f q) (k : String) :
    k ∈ q.hiddenNames ↔ k = f.outputName ∨ k ∈ p.hiddenNames := by
  obtain ⟨earlier, later, hp, hq⟩ := h.fields
  simp only [hiddenNames, hp, hq, List.filter_append, List.filter_cons, h.visible,
    PlannedField.hide_hidden, if_true, Bool.false_eq_true, if_false, List.map_append,
    List.map_cons, List.mem_append, List.mem_cons, PlannedField.hide_outputName]
  rw [or_left_comm]

theorem mem_written_hides (h : p.Hides f q) {k : String} (hk : k ≠ f.outputName) :
    k ∈ PlannedField.written q.fields ↔ k ∈ PlannedField.written p.fields := by
  obtain ⟨earlier, later, hp, hq⟩ := h.fields
  simp [hp, hq, PlannedField.written_append, PlannedField.written_cons, h.visible, hk]

/-- Once hidden names are dropped, outputs that differed at the name of the field differ in that the
second does not have it. -/
theorem dropHidden_hides (h : p.Hides f q) {output output' : FieldMap}
    (houtput : output.erase f.outputName = output'.erase f.outputName) :
    q.dropHidden output' = (p.dropHidden output).erase f.outputName := by
  refine KeyedMap.ext_get? fun k => ?_
  have hlookup := congrArg (KeyedMap.get? · k) houtput
  rw [KeyedMap.get?_erase, get?_dropHidden, get?_dropHidden]
  by_cases hk : k = f.outputName
  · have hwrites : q.writes k = false := by
      rw [← Bool.not_eq_true, writes_iff, hk]
      exact h.fresh
    rw [if_pos ⟨(mem_hiddenNames_hides h k).mpr (.inl hk), hwrites⟩, if_pos hk]
  · have hhidden : k ∈ q.hiddenNames ↔ k ∈ p.hiddenNames := by
      rw [mem_hiddenNames_hides h, or_iff_right hk]
    have hwrites : q.writes k = p.writes k := by
      rw [Bool.eq_iff_iff, writes_iff, writes_iff, mem_written_hides h hk]
    simp only [KeyedMap.get?_erase, if_neg hk] at hlookup
    rw [if_neg hk, hwrites, hlookup]
    simp only [hhidden]

theorem attach_erase (metadata output : FieldMap) (hgone : gone ≠ metadataName) :
    attach policy metadata (output.erase gone) = (attach policy metadata output).erase gone := by
  have hcontains : (output.erase gone).contains metadataName = output.contains metadataName := by
    simp [KeyedMap.contains, hgone.symm]
  unfold attach
  rw [hcontains]
  split
  · refine KeyedMap.ext_get? fun k => ?_
    by_cases hk : k = gone
    · simp [hk, hgone]
    · simp [hk]
  · rfl

theorem writeColumns_hides (h : p.Hides f q) (first? : Option Row) (output : FieldMap) :
    (p.fields.foldl (writeColumn policy first?) output).erase f.outputName =
      (q.fields.foldl (writeColumn policy first?) output).erase f.outputName := by
  obtain ⟨earlier, later, hp, hq⟩ := h.fields
  rw [hp, hq, List.foldl_append, List.foldl_append]
  exact writeColumns_sameBut (writeColumn_hide rfl first?) first? later

theorem writeExpressions_hides (h : p.Hides f q)
    (hform : strict → ∀ name e, f.form ≠ .derived name e) {a b : Assembly}
    (hab : a.SameBut f.outputName b) :
    Outcome.Tracks strict (Assembly.SameBut f.outputName)
      (p.fields.foldlM (writeExpression policy s window) a)
      (q.fields.foldlM (writeExpression policy s window) b) := by
  have hrun : ∀ (fields : List PlannedField) {a b : Assembly}, a.SameBut f.outputName b →
      Outcome.Tracks strict (Assembly.SameBut f.outputName)
        (fields.foldlM (writeExpression policy s window) a)
        (fields.foldlM (writeExpression policy s window) b) :=
    fun _ _ _ => Outcome.Tracks.foldlM fun _ _ g hab => hab.writeExpression g
  obtain ⟨earlier, later, hp, hq⟩ := h.fields
  rw [hp, hq, List.foldlM_append, List.foldlM_append]
  refine (hrun earlier hab).bind fun a b hab => ?_
  rw [List.foldlM_cons, List.foldlM_cons]
  exact (hab.hide h.visible hform).bind fun a b hab => hrun later hab

/-- The event of the second plan is the event of the first without the field. -/
theorem assemble_hides (h : p.Hides f q) (hname : f.outputName ≠ metadataName)
    (hform : strict → ∀ name e, f.form ≠ .derived name e) :
    Outcome.Tracks strict (fun e e' => e.without f.outputName = e')
      (p.assemble policy s window) (q.assemble policy s window) := by
  have hreplacements : q.replacements = p.replacements := by
    rw [replacements, replacements, h.star]
  have hstar : q.starFields s.first? = p.starFields s.first? := by
    unfold starFields
    rw [h.star]
  have hsources : q.writeSources s.first? = p.writeSources s.first? := by
    funext output
    unfold writeSources
    rw [h.sourceStars]
  simp only [assemble, hreplacements, hstar, hsources]
  refine (Outcome.Tracks.refl _).bind ?_
  rintro output _ rfl
  have hstart : ∀ before, Assembly.SameBut f.outputName
      { output := p.fields.foldl (writeColumn policy s.first?) before }
      { output := q.fields.foldl (writeColumn policy s.first?) before } :=
    fun before => ⟨writeColumns_hides h s.first? before, rfl⟩
  refine (writeExpressions_hides h hform (hstart _)).bind fun a b hab => .of_ok ?_
  rw [Event.without, dropHidden_hides h hab.output, attach_erase _ _ hname]

end Plan

namespace Layout
variable {policy : OutputPolicy} {input : Tuple} {window : Option Window} {gone : Nat}

/-- The filling without the value at one position. -/
def Filling.drop (gone : Nat) (f : Filling) : Filling :=
  { f with values := f.values.eraseIdx gone }

theorem fill_shift (f : Filling) (slot : Slot) :
    fill policy input window (f.drop gone) (slot.shift gone) =
      Filling.drop gone <$> fill policy input window f slot := by
  have hvalue : slotValue policy input window (f.drop gone).aliases (slot.shift gone) =
      slotValue policy input window f.aliases slot := rfl
  unfold fill
  rw [hvalue]
  cases slotValue policy input window f.aliases slot with
  | error fault => rfl
  | ok v? =>
    cases v? with
    | none => rfl
    | some v =>
      refine congrArg Except.ok ?_
      cases hwrite : slot.write with
      | none => simp [Slot.shift, Filling.drop, hwrite]
      | some i =>
        rcases Nat.lt_trichotomy i gone with hlt | rfl | hgt
        · simp [Slot.shift, Filling.drop, hwrite, hlt, List.eraseIdx_set_gt hlt]
        · simp [Slot.shift, Filling.drop, hwrite, List.eraseIdx_set_eq]
        · have hnlt : ¬i < gone := by omega
          have hne : i ≠ gone := by omega
          simp [Slot.shift, Filling.drop, hwrite, hnlt, hne, List.eraseIdx_set_lt hgt]

theorem fills_shift (f : Filling) (slots : List Slot) :
    (slots.map (Slot.shift gone)).foldlM (fill policy input window) (f.drop gone) =
      Filling.drop gone <$> slots.foldlM (fill policy input window) f := by
  induction slots generalizing f with
  | nil => rfl
  | cons slot slots ih =>
    rw [List.map_cons, List.foldlM_cons, List.foldlM_cons, fill_shift]
    cases fill policy input window f slot with
    | error fault => rfl
    | ok f' => exact ih f'

/-- A layout without one of its output positions makes the tuple without that column. -/
theorem project_shift (layout : Layout) {name : String} (hname : name ∈ layout.outputSchema) :
    (layout.shift (layout.outputSchema.idxOf name)).project policy input window =
      Tuple.without name <$> layout.project policy input window := by
  have hlt := List.idxOf_lt_length_of_mem hname
  generalize hgone : layout.outputSchema.idxOf name = gone at hlt ⊢
  have hblank : List.replicate (layout.outputSchema.eraseIdx gone).length Value.null =
      (List.replicate layout.outputSchema.length Value.null).eraseIdx gone := by
    rw [List.eraseIdx_replicate, if_pos hlt, List.length_eraseIdx_of_lt hlt]
  have hrun : (layout.slots.map (Slot.shift gone)).foldlM (fill policy input window)
      { values := (List.replicate layout.outputSchema.length Value.null).eraseIdx gone } =
        Filling.drop gone <$> layout.slots.foldlM (fill policy input window)
          { values := List.replicate layout.outputSchema.length Value.null } :=
    fills_shift { values := List.replicate layout.outputSchema.length Value.null } layout.slots
  by_cases hwidth : input.width ≠ layout.inputWidth
  · rw [project, project, if_pos hwidth, Layout.shift, if_pos hwidth]
    rfl
  · rw [project, project, if_neg hwidth, Layout.shift, if_neg hwidth, hblank]
    simp only [hrun]
    cases layout.slots.foldlM (fill policy input window)
        { values := List.replicate layout.outputSchema.length Value.null } with
    | error fault => rfl
    | ok f =>
      subst hgone
      rfl

end Layout

namespace Projector
variable {p q : Plan} {f : PlannedField} {policy : OutputPolicy} {window : Option Window}
  {strict : Prop}

theorem projectRow_hides (h : p.Hides f q) (hname : f.outputName ≠ metadataName)
    (hform : strict → ∀ name e, f.form ≠ .derived name e) (hlayout : p.SharesLayout f q)
    (row : Row) (window : Option Window) :
    Outcome.Tracks strict (fun r r' => r.without f.outputName = r')
      (projectRow ⟨p, policy⟩ row window) (projectRow ⟨q, policy⟩ row window) := by
  have hevent : Outcome.Tracks strict (fun r r' => r.without f.outputName = r')
      (Row.event <$> p.assemble policy (.row row) window)
      (Row.event <$> q.assemble policy (.row row) window) :=
    (Plan.assemble_hides h hname hform).map fun _ _ he => congrArg Row.event he
  cases row with
  | event e => exact hevent
  | joined j => exact hevent
  | tuple t =>
    rcases hlayout with ⟨hp, hq⟩ | ⟨layout, hmem, hp, hq⟩
    · simp only [projectRow, hp, hq]
      exact hevent
    · simp only [projectRow, hp, hq]
      rw [Layout.project_shift layout hmem]
      cases layout.project policy t window with
      | error fault => exact .of_error fault
      | ok out => exact .of_ok rfl

/-- Row by row the second plan makes what the first makes, without the field. -/
theorem project_hides (h : p.Hides f q) (hname : f.outputName ≠ metadataName)
    (hform : strict → ∀ name e, f.form ≠ .derived name e) (hlayout : p.SharesLayout f q)
    (input : Packet) :
    Outcome.Tracks strict (Packet.Rowwise fun r r' => r.without f.outputName = r')
      (project ⟨p, policy⟩ input) (project ⟨q, policy⟩ input) := by
  refine project_tracks h.aggregate (projectRow_hides h hname hform hlayout) ?_ rfl input
  intro rows window
  exact (Plan.assemble_hides h hname hform).imp fun _ _ he => congrArg Row.event he

end Projector

/-- Under every policy the second plan makes of a packet what the first makes of it, without the
field of this name. If the condition holds, the plans fail on the same packets with the same
faults. -/
structure Plan.Conceals (name : String) (alike : Prop) (p q : Plan) : Prop where
  success : ∀ policy input out, Projector.project ⟨p, policy⟩ input = .ok out →
    Projector.project ⟨q, policy⟩ input = .ok (out.mapRows (Row.without name))
  fault : alike → ∀ policy input fault, Projector.project ⟨p, policy⟩ input = .error fault ↔
    Projector.project ⟨q, policy⟩ input = .error fault

theorem Plan.Hides.conceals {p q : Plan} {f : PlannedField} {alike : Prop} (h : p.Hides f q)
    (hname : f.outputName ≠ metadataName) (hform : alike → ∀ name e, f.form ≠ .derived name e)
    (hlayout : p.SharesLayout f q) : p.Conceals f.outputName alike q := by
  have htracks : ∀ policy input, Outcome.Tracks alike
      (Packet.Rowwise fun r r' => r.without f.outputName = r')
      (Projector.project ⟨p, policy⟩ input) (Projector.project ⟨q, policy⟩ input) :=
    fun _ input => Projector.project_hides h hname hform hlayout input
  constructor
  · intro policy input out hout
    obtain ⟨out', hq, hrows⟩ := (htracks policy input).carries out hout
    rw [hq, hrows.mapRows_eq]
  · intro halike policy input
    exact (htracks policy input).error_iff halike

namespace Projector

/-- Hiding a declaration only hides it. Two lists that differ in the visibility of one declaration
both compile or fail alike, with or without a schema. If no other visible declaration has its name,
and it is not that of the metadata, every packet that is projected with the declaration visible is
projected with it hidden to the same rows without the field. For a bare column or an alias the
faults are the same, too. -/
theorem project_hidden {before after : List Declaration} {item : Item} {name : String}
    (hname : item.outputName? (Declaration.placeholders before) = some name)
    (hmeta : name ≠ metadataName)
    (hfresh : name ∉ Declaration.visibleNames 0 (before ++ ⟨item, true⟩ :: after)) :
    Outcome.Agree (Plan.Conceals name (item.isNamed = true))
        (Plan.compile (before ++ ⟨item, false⟩ :: after))
        (Plan.compile (before ++ ⟨item, true⟩ :: after)) ∧
      ∀ schema, Outcome.Agree (Plan.Conceals name (item.isNamed = true))
        (Plan.compileOver schema (before ++ ⟨item, false⟩ :: after))
        (Plan.compileOver schema (before ++ ⟨item, true⟩ :: after)) := by
  have hplans := Plan.compile_hiding hname hfresh
  constructor
  · refine hplans.imp fun p q _ _ h => ?_
    obtain ⟨f, rfl, hform, h, hp, hq⟩ := h
    exact h.conceals hmeta hform (.inl ⟨hp, hq⟩)
  · intro schema
    refine hplans.map fun p q h => ?_
    obtain ⟨f, rfl, hform, h, _, _⟩ := h
    exact (h.withLayouts _ _).conceals hmeta hform (h.sharesLayout schema)

/-- A star, an alias of a column and a sum that refers to the alias. -/
def starAndTwice (hidden : Bool) : List Declaration := [
  { item := .star [] [] },
  { item := .computed (.column { name := "a" }) (some "x"), hidden },
  { item := .computed (.binary (.arithmetic .add) (.column { name := "x" })
      (.column { name := "x" })) (some "twice") }]

theorem project_hidden_starAndTwice :
    ∃ p q, Plan.compile (starAndTwice false) = .ok p ∧ Plan.compile (starAndTwice true) = .ok q ∧
      p.Conceals "x" True q := by
  have h := (@project_hidden [{ item := .star [] [] }] [{ item := .computed (.binary
    (.arithmetic .add) (.column { name := "x" }) (.column { name := "x" })) (some "twice") }]
    (.computed (.column { name := "a" }) (some "x")) "x" rfl (by decide) (by decide)).1
  refine ⟨_, _, rfl, rfl, ?_⟩
  cases h with
  | ok h => exact ⟨h.success, fun _ => h.fault rfl⟩

end Projector
end StreamSelect
