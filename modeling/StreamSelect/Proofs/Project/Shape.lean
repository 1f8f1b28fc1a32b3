import StreamSelect.Plan.Compile
import StreamSelect.Proofs.Evaluation.Group
import StreamSelect.Proofs.Outcome
import StreamSelect.Proofs.Packet
import StreamSelect.Proofs.Row.Reshaping
import StreamSelect.Project.Basic

/-!
Projection by name does not depend on how its input is put. A row counts as the group of that row
alone, so the two ways to make an event are one. And a row may take another shape, wherever it
stands in the input, as long as the plan cannot tell the shapes apart.
-/
namespace StreamSelect

/-- Both subjects have as many rows, which are interchangeable one by one. -/
def Subject.Interchangeable (columns : List Column) (s t : Subject) : Prop :=
  List.Forall₂ (Row.Interchangeable columns) s.rows t.rows

namespace Subject.Interchangeable
variable {columns : List Column} {s t : Subject}

/-- The first row is the first of those that aggregates run over. -/
theorem first (h : s.Interchangeable columns t) :
    Option.Rel (Row.Interchangeable columns) s.first? t.first? := by
  have hfirst : ∀ s : Subject, s.first? = s.rows.head? := fun s => by cases s <;> rfl
  unfold Subject.Interchangeable at h
  rw [hfirst, hfirst]
  generalize s.rows = rows, t.rows = rows' at h ⊢
  cases h with
  | nil => exact .none
  | cons hr _ => exact .some hr

theorem evaluate (h : s.Interchangeable columns t) {e : Expr} (he : e.reachedColumns ⊆ columns)
    (scope : Scope) : e.evaluate s scope = e.evaluate t scope :=
  Expr.evaluate_of_alikeFor
    ⟨(Row.AlikeOn.of_interchangeable h.first).mono he,
      fun _ => List.Forall₂.imp (fun _ _ hr => hr.answers.mono he) h⟩ scope

end Subject.Interchangeable

def PlannedField.namedColumns (f : PlannedField) : List Column :=
  match f.form with
  | .column c => [c]
  | .alias _ e => e.reachedColumns
  | .derived _ e => e.reachedColumns

namespace Plan

/-- The columns and metadata keys that the plan names: copied ones and those in its expressions,
within what links stand for as well. -/
def namedColumns (p : Plan) : List Column :=
  p.fields.flatMap (·.namedColumns) ++ p.replacements.flatMap (·.expr.reachedColumns)

variable {p : Plan} {policy : OutputPolicy} {window : Option Window} {columns : List Column}
  {a b : Option Row} {s t : Subject}

theorem starFields_congr (h : Option.Rel (Row.Interchangeable columns) a b) :
    p.starFields a = p.starFields b := by
  cases h with
  | none => rfl
  | some hr =>
    have hfields : Row.allFields _ = Row.allFields _ := hr.answers.fields
    cases hstar : p.star <;> simp only [starFields, hstar, hfields]

theorem writeSources_congr (h : Option.Rel (Row.Interchangeable columns) a b)
    (output : FieldMap) : p.writeSources a output = p.writeSources b output := by
  cases h with
  | none => rfl
  | some hr => simp only [writeSources, hr.source]

theorem writeReplacement_congr (h : s.Interchangeable columns t) {r : Replacement}
    (hr : r.expr.reachedColumns ⊆ columns) (output : FieldMap) :
    writeReplacement policy s window output r = writeReplacement policy t window output r := by
  simp only [writeReplacement, h.evaluate hr]

theorem writeColumn_congr (h : s.Interchangeable columns t) {f : PlannedField}
    (hf : f.namedColumns ⊆ columns) (output : FieldMap) :
    writeColumn policy s.first? output f = writeColumn policy t.first? output f := by
  obtain ⟨form, hidden⟩ := f
  cases form with
  | column c =>
    have hvalue := (Row.AlikeOn.of_interchangeable h.first).value c (hf List.mem_cons_self)
    simp only [writeColumn, hvalue]
  | «alias» name e => rfl
  | derived name e => rfl

theorem writeExpression_congr (h : s.Interchangeable columns t) {f : PlannedField}
    (hf : f.namedColumns ⊆ columns) (a : Assembly) :
    writeExpression policy s window a f = writeExpression policy t window a f := by
  obtain ⟨form, hidden⟩ := f
  cases form with
  | column c => rfl
  | «alias» name e =>
    have he : e.reachedColumns ⊆ columns := hf
    simp only [writeExpression, PlannedField.expr?, h.evaluate he]
  | derived name e =>
    have he : e.reachedColumns ⊆ columns := hf
    simp only [writeExpression, PlannedField.expr?, h.evaluate he]

/-- The event is the same for subjects whose rows the plan cannot tell apart. -/
theorem assemble_congr (h : s.Interchangeable p.namedColumns t) :
    p.assemble policy s window = p.assemble policy t window := by
  have hfield : ∀ f ∈ p.fields, f.namedColumns ⊆ p.namedColumns := fun f hf _ hc =>
    List.mem_append_left _ (List.mem_flatMap.mpr ⟨f, hf, hc⟩)
  have hreplacement : ∀ r ∈ p.replacements, r.expr.reachedColumns ⊆ p.namedColumns :=
    fun r hr _ hc => List.mem_append_right _ (List.mem_flatMap.mpr ⟨r, hr, hc⟩)
  have hreplacements : ∀ output,
      p.replacements.foldlM (writeReplacement policy s window) output =
        p.replacements.foldlM (writeReplacement policy t window) output :=
    Outcome.foldlM_congr fun output r hr => writeReplacement_congr h (hreplacement r hr) output
  have hcolumns : ∀ output, p.fields.foldl (writeColumn policy s.first?) output =
      p.fields.foldl (writeColumn policy t.first?) output := fun output =>
    List.foldl_ext _ _ _ fun output f hf => writeColumn_congr h (hfield f hf) output
  have hexpressions : ∀ a, p.fields.foldlM (writeExpression policy s window) a =
      p.fields.foldlM (writeExpression policy t window) a :=
    Outcome.foldlM_congr fun a f hf => writeExpression_congr h (hfield f hf) a
  have hmetadata := (Row.AlikeOn.of_interchangeable h.first).metadata
  have horigin := Row.Interchangeable.origin h.first
  simp only [assemble, starFields_congr h.first, hreplacements, writeSources_congr h.first,
    hcolumns, hexpressions, hmetadata, horigin.1, horigin.2]

/-- A group of one row is assembled as the row. -/
theorem assemble_singleton (p : Plan) (policy : OutputPolicy) (r : Row)
    (window : Option Window) :
    p.assemble policy (.group [r]) window = p.assemble policy (.row r) window :=
  assemble_congr (.cons (.refl _ r) .nil)

end Plan

namespace Projector
variable {p : Projector}

/-- Only a tuple under a plan with a layout goes by position. -/
theorem projectRow_named {r : Row} (h : ∀ t, r = .tuple t → p.plan.layout = none)
    (window : Option Window) :
    p.projectRow r window = .event <$> p.plan.assemble p.policy (.row r) window := by
  cases r with
  | event e => rfl
  | joined j => rfl
  | tuple t => simp only [projectRow, h t rfl]

/-- A row counts as the group of that row alone. Every expression, with all its aggregates, has one
outcome on both, so both make the same event or fail with the same fault. -/
theorem projectRow_eq_projectGroup :
    (∀ (e : Expr) (r : Row) (scope : Scope),
      e.evaluate (.row r) scope = e.evaluate (.group [r]) scope) ∧
    ∀ (p : Projector) (r : Row) (window : Option Window),
      p.plan.assemble p.policy (.row r) window = p.projectGroup [r] window ∧
      ((∀ t, r = .tuple t → p.plan.layout = none) →
        p.projectRow r window = .event <$> p.projectGroup [r] window) := by
  refine ⟨fun e r scope => (e.evaluate_singleton r scope).symm, fun p r window => ?_⟩
  have hgroup : p.plan.assemble p.policy (.row r) window = p.projectGroup [r] window :=
    (Plan.assemble_singleton p.plan p.policy r window).symm
  refine ⟨hgroup, fun hnamed => ?_⟩
  rw [projectRow_named hnamed, hgroup]

/-- The field `a` in upper case, the first row for each of its values, and the counts of it that are
made over single rows. -/
def firstAndCounts : List Declaration := [
  { item := .computed (.call "UPPER" [.column { name := "a" }]) (some "x") },
  { item := .computed (.call "deduplicate" [.column { name := "x" }, .literal (.boolean true)])
      (some "first") },
  { item := .computed (.call "COLLECT" [.call "COUNT" [.column { name := "x" }]]) (some "counts") }]

theorem projectRow_eq_projectGroup_firstAndCounts :
    ∃ p, Plan.compile firstAndCounts = .ok p ∧
      let projector : Projector := ⟨p, {}⟩
      let row := Row.event { fields := .ofList [("a", .text "k")] }
      projector.projectRow row none = .ok (.event {
        fields := .ofList [
          ("x", .text "K"),
          ("first", .array [.ofFields (.ofList [("a", .text "k")])]),
          ("counts", .array [.integer 1])] }) ∧
      projector.projectRow row none = .event <$> projector.projectGroup [row] none := by
  refine ⟨_, rfl, rfl, ?_⟩
  exact (projectRow_eq_projectGroup.2 _ _ none).2 fun _ h => by cases h

private theorem projectGroup_reshaped {rows rows' : List Row} {window : Option Window}
    (h : List.Forall₂ (Row.Reshaped p.plan.namedColumns) rows rows') :
    p.projectGroup rows window = p.projectGroup rows' window :=
  Plan.assemble_congr (s := .group rows) (t := .group rows')
    (h.imp fun _ _ hr => hr.interchangeable)

private theorem projectRow_reshaped (hlayout : p.plan.layout = none) {r r' : Row}
    {window : Option Window} (h : Row.Reshaped p.plan.namedColumns r r') :
    p.projectRow r window = p.projectRow r' window := by
  have hevent : p.plan.assemble p.policy (.row r) window =
      p.plan.assemble p.policy (.row r') window :=
    Plan.assemble_congr (.cons h.interchangeable .nil)
  rw [projectRow_named fun _ _ => hlayout, projectRow_named fun _ _ => hlayout, hevent]

private theorem projectMember_reshaped (hlayout : p.plan.layout = none) {b b' : Batch}
    (h : Packet.Rowwise (Row.Reshaped p.plan.namedColumns) (.batch b) (.batch b')) :
    p.projectMember b = p.projectMember b' := by
  cases h with
  | batch h =>
    simp only [projectMember, Batch.first?, projectGroup_reshaped h]
    cases h with
    | nil => rfl
    | cons hr _ => simp only [List.head?_cons, projectRow_reshaped hlayout hr]

/-- A plan without a layout makes the same of a packet whatever shape its rows have: tuples count
as their named values, and an event as the join of that event alone, unless the plan names another
source. -/
theorem project_reshaped (hlayout : p.plan.layout = none) {input input' : Packet}
    (h : input.Matched (Row.Reshaped p.plan.namedColumns) input') :
    p.project input = p.project input' := by
  cases h with
  | fault cause => rfl
  | rowwise h =>
    cases h with
    | row h =>
      simp only [project, projectGroup_reshaped (.cons h .nil), projectRow_reshaped hlayout h]
    | @batch rows rows' window h =>
      have hrows : rows.mapM (p.projectRow · window) = rows'.mapM (p.projectRow · window) :=
        Outcome.mapM_congr (h.imp fun _ _ hr => projectRow_reshaped hlayout hr)
      simp only [project, projectBatch, projectGroup_reshaped h, hrows]
  | groups h =>
    have hmembers := Outcome.mapM_congr (h.imp fun _ _ hb => projectMember_reshaped hlayout hb)
    simp only [project, hmembers]

/-- All fields but `b`, those of the source `s`, the metadata key `k` of this source, and the sum of
its field `a`. -/
def totalOfSource : List Declaration := [
  { item := .star ["b"] [] },
  { item := .sourceStar "s" },
  { item := .computed (.call "META" [.column { name := "k", source := some "S" }]) (some "k") },
  { item := .computed (.call "SUM" [.column { name := "a", source := some "s" }]) (some "total") }]

/-- A group of an event and of a tuple whose schema is longer than its values. -/
theorem project_reshaped_totalOfSource :
    let e : Event := {
      emitter := "s"
      fields := .ofList [("a", .integer 1)]
      metadata := .ofList [("k", .text "v")] }
    let t : Tuple := { emitter := "t", schema := ["a", "b"], values := [.integer 2] }
    ∃ p, Plan.compile totalOfSource = .ok p ∧ ∀ policy,
      project ⟨p, policy⟩ (.groups [⟨[.event e, .tuple t], none⟩]) =
        project ⟨p, policy⟩ (.groups [⟨[.joined ⟨[e]⟩, .event t.toEvent], none⟩]) := by
  intro e t
  obtain ⟨p, hp, hlayout, hcolumns⟩ : ∃ p, Plan.compile totalOfSource = .ok p ∧
      p.layout = none ∧ p.namedColumns =
        [{ name := "k", source := some "S" }, { name := "a", source := some "s" }] :=
    ⟨_, rfl, rfl, rfl⟩
  have hevent : Row.Reshaped p.namedColumns (.event e) (.joined ⟨[e]⟩) := by
    rw [hcolumns]
    exact .joined (by decide)
  have htuple : Row.Reshaped p.namedColumns (.tuple t) (.event t.toEvent) := .named (by decide)
  refine ⟨p, hp, fun policy => project_reshaped hlayout ?_⟩
  exact .groups (.cons (.batch (.cons hevent (.cons htuple .nil))) .nil)

end Projector
end StreamSelect
