import StreamSelect.Proofs.Plan.Positions
import StreamSelect.Proofs.Project.Attribution

/-!
Projection by position stays inside of its tuples. The width of the input is checked once; after
that no slot reads behind the input or writes behind the output, which keeps the width of the
layout.
-/
namespace StreamSelect
namespace Layout
variable {schema : List String} {fields : List PlannedField} {layout : Layout}
  {policy : OutputPolicy} {t out : Tuple} {window : Option Window} {f g : Filling} {slot : Slot}
  {slots done rest : List Slot} {fault : Fault}

/-- The slot reads a position of the input and writes one of the output. -/
structure InBounds (t : Tuple) (f : Filling) (slot : Slot) : Prop where
  read : ∀ position, slot.source = .read position → position < t.width
  write : ∀ position, slot.write = some position → position < f.values.length

/-- A slot is filled in place. -/
theorem length_of_fill (h : fill policy t window f slot = .ok g) :
    g.values.length = f.values.length := by
  obtain ⟨v?, _, hg⟩ := Outcome.bind_eq_ok.mp h
  cases v? with
  | none =>
    cases hg
    rfl
  | some v =>
    cases hg
    cases slot.write <;> simp

theorem length_of_run (h : slots.foldlM (fill policy t window) f = .ok g) :
    g.values.length = f.values.length := by
  refine Outcome.foldlM_induction (motive := fun _ b => b.values.length = f.values.length) rfl ?_ h
  intro done slot rest b c _ ih hfill
  rw [length_of_fill hfill, ih]

/-- A projection of tuples under a layout. Tuples of another width are not supported. On any other
tuple no slot leads out of it or out of the output, the output has the schema of the layout with one
value for each name, and the only faults are those of expressions. -/
structure Total (layout : Layout) (policy : OutputPolicy) (t : Tuple) (window : Option Window) :
    Prop where
  unsupported : (∃ shape reason, layout.project policy t window =
    .error (.unsupportedInput shape reason)) ↔ t.width ≠ layout.inputWidth
  bounds : t.width = layout.inputWidth → ∀ done slot rest f, layout.slots = done ++ slot :: rest →
    done.foldlM (fill policy t window) layout.blank = .ok f → InBounds t f slot
  output : ∀ out, layout.project policy t window = .ok out →
    out.schema = layout.outputSchema ∧ out.values.length = layout.outputSchema.length
  fault : t.width = layout.inputWidth → ∀ fault, layout.project policy t window = .error fault →
    ∃ slot ∈ layout.slots, ∃ e cause, slot.source = .evaluate e ∧
      fault = .field slot.alias? e.render cause

theorem WellFormed.inBounds (h : layout.WellFormed schema fields)
    (hwidth : t.width = layout.inputWidth) (hsplit : layout.slots = done ++ slot :: rest)
    (hrun : done.foldlM (fill policy t window) layout.blank = .ok f) : InBounds t f slot := by
  have hslot : slot ∈ layout.slots := by rw [hsplit]; simp
  have hlength : f.values.length = layout.outputSchema.length := by
    rw [length_of_run hrun, blank, List.length_replicate]
  constructor
  · intro position hread
    rw [hwidth]
    exact h.reads slot hslot position hread
  · intro position hwrite
    rw [hlength]
    exact h.write_lt hslot hwrite

theorem fault_of_project (hwidth : t.width = layout.inputWidth)
    (h : layout.project policy t window = .error fault) :
    ∃ slot ∈ layout.slots, ∃ e cause, slot.source = .evaluate e ∧
      fault = .field slot.alias? e.render cause := by
  rw [project_of_width_eq hwidth] at h
  obtain ⟨done, slot, rest, f, hsplit, _, hfill⟩ :=
    Outcome.foldlM_eq_error (Outcome.map_eq_error.mp h)
  obtain ⟨e, he, hsettled⟩ := fill_eq_error hfill
  obtain ⟨cause, _, hlabelled, _⟩ := OutputPolicy.settle_eq_error hsettled
  exact ⟨slot, by rw [hsplit]; simp, e, cause, he, hlabelled⟩

theorem output_of_project (h : layout.project policy t window = .ok out) :
    out.schema = layout.outputSchema ∧ out.values.length = layout.outputSchema.length := by
  by_cases hwidth : t.width = layout.inputWidth
  · rw [project_of_width_eq hwidth] at h
    obtain ⟨f, hrun, rfl⟩ := Outcome.map_eq_ok.mp h
    refine ⟨rfl, ?_⟩
    rw [length_of_run hrun, blank, List.length_replicate]
  · obtain ⟨reason, hunsupported⟩ := @project_of_width_ne layout policy t window hwidth
    rw [hunsupported] at h
    cases h

theorem WellFormed.total (h : layout.WellFormed schema fields) (policy : OutputPolicy) (t : Tuple)
    (window : Option Window) : layout.Total policy t window := by
  refine ⟨⟨?_, fun hwidth => ⟨_, project_of_width_ne hwidth⟩⟩, ?_, fun _ => output_of_project,
    fun hwidth _ => fault_of_project hwidth⟩
  · rintro ⟨shape, reason, hunsupported⟩ hwidth
    obtain ⟨_, _, _, _, _, hfault⟩ := fault_of_project hwidth hunsupported
    cases hfault
  · intro hwidth done slot rest f hsplit hrun
    exact h.inBounds hwidth hsplit hrun

end Layout

namespace Plan
variable {schema : List String} {declarations : List Declaration} {p : Plan} {layout : Layout}

/-- A list that is laid out over a schema has no stars and no aggregates, and no expression without
an alias. Its positions are well formed, whatever names the schema repeats, with one name for each
field that is declared to be written; and so no projection leads out of a tuple. -/
theorem layout_inBounds (h : compileOver schema declarations = .ok p)
    (hlayout : p.layout = some layout) :
    p.star = none ∧ p.sourceStars = [] ∧ p.aggregate = false ∧
    (∀ f ∈ p.fields, ∀ name e, f.form ≠ .derived name e) ∧
    layout.WellFormed schema p.fields ∧
    layout.outputSchema = declarations.filterMap Declaration.writtenName? ∧
    ∀ policy t window, layout.Total policy t window := by
  obtain ⟨named, hnamed, rfl⟩ := Outcome.map_eq_ok.mp h
  have hplan : Layout.ofPlan? named schema = some layout := hlayout
  obtain ⟨hstar, hsources, haggregate, slots, hslots, heq⟩ := Layout.ofPlan?_eq_some hplan
  have hderived := Layout.slotsFrom?_not_derived hslots
  have hwellFormed := Layout.wellFormed_of_ofPlan? hplan
  refine ⟨hstar, hsources, haggregate, hderived, hwellFormed, ?_, hwellFormed.total⟩
  rw [heq]
  exact written_names_of_compile hnamed hderived

/-- A column, a hidden sum, a column that the schema lacks and a repeated column under an alias. -/
def mixedSlots : List Declaration := [
  { item := .column { name := "b" } },
  { item := .computed (.binary (.arithmetic .add) (.column { name := "a" })
      (.column { name := "b" })) (some "sum"), hidden := true },
  { item := .column { name := "zz" } },
  { item := .computed (.column { name := "a" }) (some "x") }]

/-- Tuples of two values are refused; on others the second `a` is read and three values come
out. -/
theorem layout_inBounds_mixedSlots :
    ∃ p layout, compileOver ["a", "b", "a"] mixedSlots = .ok p ∧ p.layout = some layout ∧
      layout.slots.map Slot.write = [some 0, none, some 1, some 2] ∧
      layout.slots[3]?.map Slot.source = some (.read 2) ∧
      ∀ policy t window,
        (t.width = 2 → ∃ shape reason,
          layout.project policy t window = .error (.unsupportedInput shape reason)) ∧
        ∀ out, layout.project policy t window = .ok out → out.schema = ["b", "zz", "x"] ∧
          out.values.length = 3 := by
  refine ⟨_, _, rfl, rfl, rfl, rfl, fun policy t window => ?_⟩
  obtain ⟨_, _, _, _, _, _, htotal⟩ := @layout_inBounds ["a", "b", "a"] mixedSlots _ _ rfl rfl
  constructor
  · intro hwidth
    exact (htotal policy t window).unsupported.mpr (by rw [hwidth]; decide)
  · exact (htotal policy t window).output

end Plan
end StreamSelect
