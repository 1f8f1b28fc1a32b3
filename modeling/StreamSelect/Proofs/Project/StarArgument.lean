import StreamSelect.Project.Basic
import StreamSelect.Proofs.Evaluation.Group
import StreamSelect.Proofs.Expr.Linking
import StreamSelect.Proofs.Project.Phases

/-!
The star of a list and the star as an argument. A list of one star, projected with nulls and without
metadata, gives the fields that the star has as an expression. Where the expression fails, the
projection reports the fault under the name of the replacement that failed.
-/
namespace StreamSelect

/-- Both sides succeed with related results, or the second side reports the fault of the first under
the name and the text of one of the replacements. -/
inductive Outcome.Reports {α β : Type} (R : α → β → Prop) (replace : List (Expr × String)) :
    Outcome α → Outcome β → Prop
  | ok {a : α} {b : β} (h : R a b) : Reports R replace (.ok a) (.ok b)
  | fault {r : Expr × String} (h : r ∈ replace) (cause : Fault) :
      Reports R replace (.error cause) (.error (.field (some r.2) r.1.render cause))

namespace Outcome.Reports
variable {α β γ δ : Type} {R : α → β → Prop} {S : γ → δ → Prop}
  {replace : List (Expr × String)}

theorem map {x : Outcome α} {y : Outcome β} {f : α → γ} {g : β → δ} (h : Reports R replace x y)
    (hfg : ∀ a b, R a b → S (f a) (g b)) : Reports S replace (f <$> x) (g <$> y) := by
  cases h with
  | ok h => exact .ok (hfg _ _ h)
  | fault hr cause => exact .fault hr cause

theorem cons {x : Outcome α} {y : Outcome β} (r : Expr × String) (h : Reports R replace x y) :
    Reports R (r :: replace) x y := by
  cases h with
  | ok h => exact .ok h
  | fault hr cause => exact .fault (List.mem_cons_of_mem _ hr) cause

end Outcome.Reports

namespace Plan
variable {policy : OutputPolicy} {s : Subject} {window : Option Window}

/-- Replacements that are written one after the other are those of the star as an argument. -/
theorem reports_writeReplacement (hnulls : policy.writeNulls = true)
    (replace : List (Expr × String)) (fields : FieldMap) :
    Outcome.Reports (· = ·) replace
      (Expr.evaluateReplacements fields replace s { window })
      ((replace.map fun r => Replacement.mk r.2 r.1).foldlM (writeReplacement policy s window)
        fields) := by
  induction replace generalizing fields with
  | nil => exact .ok rfl
  | cons r rest ih =>
    obtain ⟨e, name⟩ := r
    rw [List.map_cons, List.foldlM_cons, writeReplacement_eq_settled, Expr.evaluateReplacements]
    cases e.evaluate s { window } with
    | error cause =>
      rw [OutputPolicy.settle, hnulls, Bool.not_true, Bool.and_false]
      exact .fault List.mem_cons_self cause
    | ok v =>
      have hwritten : policy.writeSettled fields name (some v) = fields.insert name v := by
        rw [OutputPolicy.writeSettled, OutputPolicy.write, hnulls, Bool.not_true, Bool.and_false]
        rfl
      rw [OutputPolicy.settle_ok]
      change Outcome.Reports _ _ _ (List.foldlM _ (policy.writeSettled fields name (some v)) _)
      rw [hwritten]
      exact (ih _).cons (e, name)

/-- The plan of a list of one star. -/
def ofStar (except : List String) (replace : List (Expr × String)) : Plan where
  fields := []
  star := some ⟨except, replace.map fun r => ⟨r.2, r.1⟩⟩
  sourceStars := []
  aggregate := replace.any fun r => r.1.containsAggregate
  layout := none

theorem compile_star (except : List String) {replace : List (Expr × String)}
    (hnamed : ∀ r ∈ replace, r.2 ≠ "") (hidden : Bool) :
    compile [⟨.star except replace, hidden⟩] = .ok (ofStar except replace) := by
  have hall : (replace.any fun r => r.2.isEmpty) = false :=
    List.any_eq_false.mpr fun r hr => by simpa using hnamed r hr
  have hadd : Draft.addStar {} except replace =
      .ok { star := some ⟨except, replace.map fun r => ⟨r.2, r.1⟩⟩ } := by
    simp only [Draft.addStar, hall, Expr.link_nil]
    rfl
  have haggregate : ((replace.map fun r => Replacement.mk r.2 r.1).map (·.expr)).any
      Expr.containsAggregate = replace.any fun r => r.1.containsAggregate := by
    rw [List.map_map, List.any_map]
    rfl
  change Draft.finish <$> (Draft.addStar {} except replace >>= fun d => .ok d) = _
  rw [hadd, ofStar, ← haggregate]
  rfl

/-- A plan with a star has no layout. -/
theorem compileOver_star (schema except : List String) {replace : List (Expr × String)}
    (hnamed : ∀ r ∈ replace, r.2 ≠ "") (hidden : Bool) :
    compileOver schema [⟨.star except replace, hidden⟩] = .ok (ofStar except replace) := by
  rw [compileOver, compile_star except hnamed hidden]
  rfl

/-- An event is made of a list of one star by writing its replacements. -/
theorem assemble_star (hmetadata : policy.attachMetadata = false) (except : List String)
    (replace : List (Expr × String)) (s : Subject) (window : Option Window) :
    (ofStar except replace).assemble policy s window =
      (fun fields => {
        emitter := (s.first?.map Row.emitter).getD ""
        fields
        metadata := (s.first?.bind Row.metadata?).getD ∅
        timestamp := (s.first?.map Row.timestamp).getD 0 }) <$>
      (replace.map fun r => Replacement.mk r.2 r.1).foldlM (writeReplacement policy s window)
        (((s.first?.map Row.allFields).getD ∅).filterKeys (!except.contains ·)) := by
  have hcopied : (ofStar except replace).starFields s.first? =
      ((s.first?.map Row.allFields).getD ∅).filterKeys (!except.contains ·) := by
    cases s.first? <;> rfl
  have hsources : ∀ output, (ofStar except replace).writeSources s.first? output = output := by
    intro output
    cases s.first? <;> rfl
  have hattach : ∀ metadata output, attach policy metadata output = output := by
    intro metadata output
    rw [attach, hmetadata]
    rfl
  rw [assemble, hcopied]
  simp only [hsources, hattach]
  rfl

/-- The event of a list of one star has the fields of the star as an argument. -/
theorem reports_assemble_star (hnulls : policy.writeNulls = true)
    (hmetadata : policy.attachMetadata = false) (except : List String)
    (replace : List (Expr × String)) (s : Subject) (window : Option Window) :
    Outcome.Reports (fun v (e : Event) => v = .ofFields e.fields) replace
      ((Expr.star except replace).evaluate s { window })
      ((ofStar except replace).assemble policy s window) := by
  rw [Expr.evaluate, assemble_star hmetadata]
  refine (reports_writeReplacement hnulls replace _).map (f := Value.ofFields) ?_
  rintro fields _ rfl
  rfl

end Plan

namespace Projector

/-- The packet is one event, and its fields are the entries of the value. -/
def HasFields (v : Value) (packet : Packet) : Prop :=
  ∃ e : Event, packet = .row (.event e) ∧ v = .ofFields e.fields

/-- A list of one star, projected with nulls and without metadata, comes to what the star comes to
as an argument: on a row of any shape, and if a replacement aggregates also on a batch. Either both
succeed and the event has the fields of the value, or the projection fails with the fault of the
expression, reported under the replacement that failed. -/
theorem project_star {except : List String} {replace : List (Expr × String)}
    (hnamed : ∀ r ∈ replace, r.2 ≠ "") {policy : OutputPolicy} (hnulls : policy.writeNulls = true)
    (hmetadata : policy.attachMetadata = false) (hidden : Bool) :
    ∃ p, Plan.compile [⟨.star except replace, hidden⟩] = .ok p ∧
      (∀ schema, Plan.compileOver schema [⟨.star except replace, hidden⟩] = .ok p) ∧
      (∀ row, Outcome.Reports HasFields replace
        ((Expr.star except replace).evaluate (.row row) {}) (project ⟨p, policy⟩ (.row row))) ∧
      ((replace.any fun r => r.1.containsAggregate) = true → ∀ batch : Batch,
        Outcome.Reports HasFields replace
          ((Expr.star except replace).evaluate (.group batch.rows) { window := batch.window })
          (project ⟨p, policy⟩ (.batch batch))) := by
  have hevent : ∀ s window, Outcome.Reports HasFields replace
      ((Expr.star except replace).evaluate s { window })
      ((fun e => Packet.row (.event e)) <$>
        (Plan.ofStar except replace).assemble policy s window) := by
    intro s window
    have h := (Plan.reports_assemble_star hnulls hmetadata except replace s window).map
      (f := id) (g := fun e => Packet.row (.event e)) (S := HasFields) fun v e hv => ⟨e, rfl, hv⟩
    rwa [id_map] at h
  refine ⟨_, Plan.compile_star except hnamed hidden,
    fun schema => Plan.compileOver_star schema except hnamed hidden, fun row => ?_,
    fun haggregate batch => ?_⟩
  · rw [project]
    split
    · rw [← Expr.evaluate_singleton]
      exact hevent (.group [row]) none
    · have hrow : Packet.row <$> projectRow ⟨Plan.ofStar except replace, policy⟩ row none =
          (fun e => Packet.row (.event e)) <$>
            (Plan.ofStar except replace).assemble policy (.row row) none := by
        have hnamed : projectRow ⟨Plan.ofStar except replace, policy⟩ row none =
            Row.event <$> (Plan.ofStar except replace).assemble policy (.row row) none := by
          cases row <;> rfl
        rw [hnamed]
        cases (Plan.ofStar except replace).assemble policy (.row row) none <;> rfl
      rw [hrow]
      exact hevent (.row row) none
  · have haggregates : (Plan.ofStar except replace).aggregate = true := haggregate
    rw [project, projectBatch, if_pos haggregates]
    exact hevent (.group batch.rows) batch.window

/-- A sum in place of `a`, and null under `c`, which no row has. -/
def summedReplacements : List (Expr × String) :=
  [(.call "sum" [.column { name := "a" }], "a"), (.literal .null, "c")]

/-- Over two rows, with one field excluded, and over a row where the sum fails. -/
theorem project_star_summedReplacements :
    let rows := [Row.event { fields := .ofList [("a", .integer 1), ("b", .integer 7)] },
      Row.event { fields := .ofList [("a", .integer 2)] }]
    let text := Row.event { fields := .ofList [("a", .text "x")] }
    let star := Expr.star ["b"] summedReplacements
    ∃ p, Plan.compile [⟨.star ["b"] summedReplacements, false⟩] = .ok p ∧
      star.evaluate (.group rows) {} = .ok (.map [("a", .integer 3), ("c", .null)]) ∧
      Outcome.Reports HasFields summedReplacements (star.evaluate (.group rows) {})
        (project ⟨p, { writeNulls := true }⟩ (.batch { rows })) ∧
      (∃ cause, star.evaluate (.row text) {} = .error cause) ∧
      Outcome.Reports HasFields summedReplacements (star.evaluate (.row text) {})
        (project ⟨p, { writeNulls := true }⟩ (.row text)) := by
  intro rows text star
  have hnamed : ∀ r ∈ summedReplacements, r.2 ≠ "" := by decide
  obtain ⟨p, hp, _, hrow, hbatch⟩ := @project_star ["b"] summedReplacements hnamed
    { writeNulls := true } rfl rfl false
  exact ⟨p, hp, rfl, hbatch rfl { rows }, ⟨_, rfl⟩, hrow text⟩

end Projector
end StreamSelect
