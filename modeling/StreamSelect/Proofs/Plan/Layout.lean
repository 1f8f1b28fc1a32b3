import StreamSelect.Plan.Layout
import StreamSelect.Proofs.Plan.Declared

/-!
The layout of a plan, slot by slot: each field has its slot, and what a slot evaluates is the
expression of its field.
-/
namespace StreamSelect
variable {schema : List String} {e : Expr}

theorem Column.slotSource_ne_evaluate (c : Column) : c.slotSource schema ≠ .evaluate e := by
  intro h
  unfold slotSource at h
  split at h <;> cases h

/-- An expression is evaluated in its slot, unless it is a column, which is read where it stands. -/
theorem Expr.slotSource?_cases {source : SlotSource} (h : e.slotSource? schema = some source) :
    source = .evaluate e ∨
      ∃ c p, e = .column c ∧ schemaPosition? schema c.name = some p ∧ source = .read p := by
  unfold slotSource? at h
  split at h
  · rename_i hall
    split at h
    · rename_i c
      obtain ⟨p, hp⟩ : ∃ p, schemaPosition? schema c.name = some p :=
        Option.isSome_iff_exists.mp (by simpa [Expr.columns, Expr.walk, Expr.column?] using hall)
      obtain rfl := Option.some.inj h
      exact .inr ⟨c, p, rfl, hp, by rw [Column.slotSource, hp]⟩
    · exact .inl (Option.some.inj h).symm
  · cases h

theorem Expr.eq_of_slotSource? {body : Expr} (h : body.slotSource? schema = some (.evaluate e)) :
    body = e := by
  unfold slotSource? at h
  split at h
  · split at h
    · exact absurd (Option.some.inj h) (Column.slotSource_ne_evaluate _)
    · cases h
      rfl
  · cases h

namespace Layout

theorem slotsFrom?_cons {next : Nat} {field : PlannedField}
    {fields : List PlannedField} {slots : List Slot}
    (h : slotsFrom? schema next (field :: fields) = some slots) :
    ∃ source rest, field.slotSource? schema = some source ∧
      slotsFrom? schema (if field.hidden then next else next + 1) fields = some rest ∧
      slots = ⟨field.outputName, field.alias?, if field.hidden then none else some next, source⟩ ::
        rest := by
  simp only [slotsFrom?, Option.bind_eq_bind, Option.bind_eq_some_iff] at h
  obtain ⟨source, hsource, rest, hrest, hslots⟩ := h
  exact ⟨source, rest, hsource, hrest, (Option.some.inj hslots).symm⟩

/-- The slot is made from the field: it has its alias, and its source if the schema gives it one. -/
structure OfField (schema : List String) (f : PlannedField) (slot : Slot) : Prop where
  source : f.slotSource? schema = some slot.source
  aliased : slot.alias? = f.alias?

/-- The slot has the name of the field as well, and it is written unless the field is hidden. -/
structure Places (schema : List String) (f : PlannedField) (slot : Slot) : Prop
    extends OfField schema f slot where
  name : slot.name = f.outputName
  hidden : slot.write = none ↔ f.hidden = true

theorem slotsFrom?_places {next : Nat} {fields : List PlannedField} {slots : List Slot}
    (h : slotsFrom? schema next fields = some slots) :
    List.Forall₂ (Places schema) fields slots := by
  induction fields generalizing next slots with
  | nil =>
    obtain rfl := Option.some.inj h
    exact .nil
  | cons field fields ih =>
    obtain ⟨source, rest, hsource, hrest, rfl⟩ := slotsFrom?_cons h
    refine .cons ⟨⟨hsource, rfl⟩, rfl, ?_⟩ (ih hrest)
    cases field.hidden <;> simp

theorem slotsFrom?_ofField {next : Nat} {fields : List PlannedField} {slots : List Slot}
    (h : slotsFrom? schema next fields = some slots) :
    List.Forall₂ (OfField schema) fields slots :=
  (slotsFrom?_places h).imp fun _ _ hf => hf.toOfField

theorem exists_field {next : Nat} {fields : List PlannedField} {slots : List Slot}
    (h : slotsFrom? schema next fields = some slots) :
    ∀ slot ∈ slots, ∃ f ∈ fields, Places schema f slot := by
  have hplaces := slotsFrom?_places h
  clear h
  induction hplaces with
  | nil => simp
  | cons hf _ ih =>
    refine List.forall_mem_cons.mpr ⟨⟨_, List.mem_cons_self, hf⟩, fun slot hslot => ?_⟩
    obtain ⟨f, hmem, hplace⟩ := ih slot hslot
    exact ⟨f, List.mem_cons_of_mem _ hmem, hplace⟩

/-- A slot without a derived name is a column or an alias. -/
theorem slotsFrom?_not_derived {next : Nat} {fields : List PlannedField}
    {slots : List Slot} (h : slotsFrom? schema next fields = some slots) :
    ∀ field ∈ fields, ∀ name e, field.form ≠ .derived name e := by
  induction fields generalizing next slots with
  | nil => simp
  | cons field fields ih =>
    obtain ⟨source, rest, hsource, hrest, _⟩ := slotsFrom?_cons h
    refine List.forall_mem_cons.mpr ⟨fun name e hform => ?_, ih hrest⟩
    rw [PlannedField.slotSource?, hform] at hsource
    cases hsource

theorem ofPlan?_eq_some {p : Plan} {layout : Layout}
    (h : ofPlan? p schema = some layout) :
    p.star = none ∧ p.sourceStars = [] ∧ p.aggregate = false ∧
      ∃ slots, slotsFrom? schema 0 p.fields = some slots ∧
        layout = ⟨slots, schema.length, PlannedField.written p.fields⟩ := by
  unfold ofPlan? at h
  split at h
  · cases h
  · rename_i hqualifies
    obtain ⟨slots, hslots, hlayout⟩ := Option.bind_eq_some_iff.mp h
    simp only [Bool.or_eq_true, Option.isSome_iff_ne_none, Bool.not_eq_true',
      List.isEmpty_eq_false_iff, not_or, not_not, Bool.not_eq_true] at hqualifies
    exact ⟨hqualifies.1.1, hqualifies.1.2, hqualifies.2, slots, hslots,
      (Option.some.inj hlayout).symm⟩

/-- What a slot evaluates is the expression of a field, under the field's alias. -/
theorem exists_field_of_evaluate {next : Nat} {fields : List PlannedField} {slots : List Slot}
    (h : slotsFrom? schema next fields = some slots) :
    ∀ slot ∈ slots, ∀ e, slot.source = .evaluate e →
      ∃ f ∈ fields, f.expr? = some e ∧ f.alias? = slot.alias? := by
  intro slot hslot e he
  obtain ⟨field, hfield, hplace⟩ := exists_field h slot hslot
  refine ⟨field, hfield, ?_, hplace.aliased.symm⟩
  have hsource := hplace.source
  rw [he] at hsource
  obtain ⟨form, hidden⟩ := field
  cases form with
  | column c => exact absurd (Option.some.inj hsource) c.slotSource_ne_evaluate
  | «alias» name body => exact congrArg some (Expr.eq_of_slotSource? hsource)
  | derived name body => cases hsource

end Layout
end StreamSelect
