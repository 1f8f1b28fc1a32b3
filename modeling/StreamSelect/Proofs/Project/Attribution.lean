import StreamSelect.Proofs.Evaluation.Fault
import StreamSelect.Proofs.Plan.Layout
import StreamSelect.Proofs.Project.Phases

/-!
Where the fault of a projection comes from: a tuple that is not as wide as the layout asks, or one
expression of the plan, which failed on a row or group of the input. The fault of an expression has
the label and the text of the expression around it, once, and is not one for missing data if nulls
are left out.
-/
namespace StreamSelect

/-- What a projection of the packet evaluates expressions against, with its window: the single rows,
and all rows of a group. -/
inductive Packet.Offers : Packet → Subject → Option Window → Prop
  | row (r : Row) : Offers (.row r) (.row r) none
  | single (r : Row) : Offers (.row r) (.group [r]) none
  | member {b : Batch} {r : Row} (h : r ∈ b.rows) : Offers (.batch b) (.row r) b.window
  | all (b : Batch) : Offers (.batch b) (.group b.rows) b.window
  | group {groups : List Batch} {b : Batch} {s : Subject} {window : Option Window}
    (hb : b ∈ groups) (h : Offers (.batch b) s window) : Offers (.groups groups) s window

/-- The expressions of a plan with the labels that their faults are reported under: replacements
under the name that they write, fields under their alias if they have one. -/
def Plan.labelled (p : Plan) : List (Option String × Expr) :=
  p.replacements.map (fun r => (some r.name, r.expr)) ++
    p.fields.filterMap fun f => f.expr?.map (f.alias?, ·)

/-- The layout, if there is one, is made from the plan. -/
def Plan.LaidOut (p : Plan) : Prop :=
  ∀ layout, p.layout = some layout → ∃ schema, Layout.ofPlan? p schema = some layout

theorem Plan.laidOut_of_compileOver {schema : List String} {declarations : List Declaration}
    {p : Plan} (h : compileOver schema declarations = .ok p) : p.LaidOut := by
  obtain ⟨named, _, rfl⟩ := Outcome.map_eq_ok.mp h
  exact fun layout hlayout => ⟨schema, hlayout⟩

/-- A projection of the subject comes to the expression, with the aliases stored by what is
evaluated before it. Replacements are evaluated while no alias is stored. -/
inductive Plan.Evaluates (p : Plan) (policy : OutputPolicy) (s : Subject)
    (window : Option Window) : Option String → Expr → FieldMap → Prop
  | replacement {r : Replacement} (h : r ∈ p.replacements) :
    Evaluates p policy s window (some r.name) r.expr ∅
  | field {done rest : List PlannedField} {f : PlannedField} {e : Expr} {output : FieldMap}
    {a : Assembly} (hsplit : p.fields = done ++ f :: rest) (he : f.expr? = some e)
    (hrun : done.foldlM (writeExpression policy s window) { output } = .ok a) :
    Evaluates p policy s window f.alias? e a.aliases
  | slot {layout : Layout} {t : Tuple} {done rest : List Slot} {slot : Slot} {e : Expr}
    {values : List Value} {f : Layout.Filling} (hlayout : p.layout = some layout)
    (hs : s = .row (.tuple t)) (hsplit : layout.slots = done ++ slot :: rest)
    (he : slot.source = .evaluate e)
    (hrun : done.foldlM (Layout.fill policy t window) { values } = .ok f) :
    Evaluates p policy s window slot.alias? e f.aliases

/-- The fault is that of an expression that the projection comes to. -/
def Plan.Attributed (p : Plan) (policy : OutputPolicy) (s : Subject) (window : Option Window)
    (fault : Fault) : Prop :=
  ∃ label e aliases cause, p.Evaluates policy s window label e aliases ∧
    e.evaluate s { aliases, window } = .error cause ∧ fault = .field label e.render cause ∧
    (policy.writeNulls = false → cause.isMissingData = false)

namespace Plan
variable {p : Plan} {policy : OutputPolicy} {s : Subject} {window : Option Window} {fault : Fault}

theorem Evaluates.mem_labelled {label : Option String} {e : Expr} {aliases : FieldMap}
    (h : p.Evaluates policy s window label e aliases) (hp : p.LaidOut) :
    (label, e) ∈ p.labelled := by
  have hfields : ∀ f ∈ p.fields, f.expr? = some e → (f.alias?, e) ∈ p.labelled := fun f hf he =>
    List.mem_append_right _ (List.mem_filterMap.mpr ⟨f, hf, by rw [he]; rfl⟩)
  cases h with
  | replacement h =>
    exact List.mem_append_left _ (List.mem_map_of_mem (f := fun r => (some r.name, r.expr)) h)
  | field hsplit he _ => exact hfields _ (by rw [hsplit]; simp) he
  | @slot layout _ _ _ slot _ _ _ hlayout _ hsplit he _ =>
    obtain ⟨schema, hschema⟩ := hp layout hlayout
    obtain ⟨_, _, _, slots, hslots, rfl⟩ := Layout.ofPlan?_eq_some hschema
    have hmem : slot ∈ slots := by
      rw [show slots = _ from hsplit]
      simp
    obtain ⟨f, hf, hexpr, halias⟩ := Layout.exists_field_of_evaluate hslots slot hmem e he
    rw [← halias]
    exact hfields f hf hexpr

/-- A fault of an expression that is settled under its label. -/
private theorem attributed_of_settle {label : Option String} {e : Expr} {aliases : FieldMap}
    (h : p.Evaluates policy s window label e aliases)
    (hfault : policy.settle label e (e.evaluate s { aliases, window }) = .error fault) :
    p.Attributed policy s window fault := by
  obtain ⟨cause, hcause, hwrapped, hmissing⟩ := OutputPolicy.settle_eq_error hfault
  exact ⟨label, e, aliases, cause, h, hcause, hwrapped, hmissing⟩

/-- A step over a replacement fails only in its expression. -/
theorem writeReplacement_eq_error {output : FieldMap} {r : Replacement}
    (h : writeReplacement policy s window output r = .error fault) :
    policy.settle (some r.name) r.expr (r.expr.evaluate s { window }) = .error fault := by
  rcases Outcome.bind_eq_error.mp h with h | ⟨v?, _, hwrite⟩
  · exact h
  · cases v? <;> cases hwrite

/-- A step over a field fails only in its expression. -/
theorem writeExpression_eq_error {a : Assembly} {f : PlannedField}
    (h : writeExpression policy s window a f = .error fault) :
    ∃ e, f.expr? = some e ∧
      policy.settle f.alias? e (e.evaluate s { aliases := a.aliases, window }) = .error fault := by
  obtain ⟨form, hidden⟩ := f
  cases form with
  | column c => cases h
  | «alias» name e =>
    rw [writeExpression_alias] at h
    rcases Outcome.bind_eq_error.mp h with h | ⟨v?, _, hwrite⟩
    · exact ⟨e, rfl, h⟩
    · cases v? <;> cases hwrite
  | derived name e =>
    rw [writeExpression_derived] at h
    split at h
    · cases h
    · rcases Outcome.bind_eq_error.mp h with h | ⟨v?, _, hwrite⟩
      · exact ⟨e, rfl, h⟩
      · cases v? <;> cases hwrite

theorem assemble_attributed (h : p.assemble policy s window = .error fault) :
    p.Attributed policy s window fault := by
  unfold assemble at h
  rcases Outcome.bind_eq_error.mp h with hreplace | ⟨output, _, h⟩
  · obtain ⟨done, r, rest, _, hsplit, _, hstep⟩ := Outcome.foldlM_eq_error hreplace
    have hr : r ∈ p.replacements := by
      rw [hsplit]
      simp
    exact attributed_of_settle (.replacement hr) (writeReplacement_eq_error hstep)
  · rcases Outcome.bind_eq_error.mp h with hfields | ⟨a, _, hdone⟩
    · obtain ⟨done, f, rest, a, hsplit, hrun, hstep⟩ := Outcome.foldlM_eq_error hfields
      obtain ⟨e, he, hsettled⟩ := writeExpression_eq_error hstep
      exact attributed_of_settle (.field hsplit he hrun) hsettled
    · cases hdone

end Plan

namespace Layout
variable {p : Plan} {layout : Layout} {policy : OutputPolicy} {t : Tuple} {window : Option Window}
  {fault : Fault}

/-- The output before a slot is filled. -/
def blank (layout : Layout) : Filling where
  values := List.replicate layout.outputSchema.length .null

theorem project_of_width_ne (h : t.width ≠ layout.inputWidth) :
    ∃ reason, layout.project policy t window =
      .error (.unsupportedInput (Row.tuple t).shapeName reason) :=
  ⟨_, if_pos h⟩

theorem project_of_width_eq (h : t.width = layout.inputWidth) :
    layout.project policy t window =
      (fun f : Filling => { emitter := t.emitter, schema := layout.outputSchema,
                            values := f.values }) <$>
        layout.slots.foldlM (fill policy t window) layout.blank :=
  (if_neg (not_not_intro h)).trans (bind_pure_comp _ _)

/-- A step over a slot fails only in its expression. -/
theorem fill_eq_error {f : Filling} {slot : Slot} (h : fill policy t window f slot = .error fault) :
    ∃ e, slot.source = .evaluate e ∧ policy.settle slot.alias? e
      (e.evaluate (.row (.tuple t)) { aliases := f.aliases, window }) = .error fault := by
  rcases Outcome.bind_eq_error.mp h with h | ⟨v?, _, hwrite⟩
  · unfold slotValue at h
    cases hsource : slot.source with
    | read position =>
      rw [hsource] at h
      cases h
    | absent =>
      rw [hsource] at h
      cases h
    | evaluate e =>
      rw [hsource] at h
      exact ⟨e, rfl, h⟩
  · cases v? <;> cases hwrite

theorem project_attributed (hlayout : p.layout = some layout) (hwidth : t.width = layout.inputWidth)
    (h : layout.project policy t window = .error fault) :
    p.Attributed policy (.row (.tuple t)) window fault := by
  rw [project_of_width_eq hwidth] at h
  obtain ⟨done, slot, rest, f, hsplit, hrun, hstep⟩ :=
    Outcome.foldlM_eq_error (Outcome.map_eq_error.mp h)
  obtain ⟨e, he, hsettled⟩ := fill_eq_error hstep
  obtain ⟨cause, hcause, hwrapped, hmissing⟩ := OutputPolicy.settle_eq_error hsettled
  exact ⟨slot.alias?, e, f.aliases, cause, .slot hlayout rfl hsplit he hrun, hcause, hwrapped,
    hmissing⟩

end Layout

namespace Projector
variable {p : Projector} {fault : Fault}

/-- A tuple among what is projected does not have the width that the layout asks for. -/
def Misfit (p : Projector) (s : Subject) (fault : Fault) : Prop :=
  ∃ layout t, p.plan.layout = some layout ∧ s = .row (.tuple t) ∧ t.width ≠ layout.inputWidth ∧
    ∃ reason, fault = .unsupportedInput (Row.tuple t).shapeName reason

private theorem projectRow_fault {r : Row} {window : Option Window}
    (h : p.projectRow r window = .error fault) :
    p.Misfit (.row r) fault ∨ p.plan.Attributed p.policy (.row r) window fault := by
  have hnamed : Row.event <$> p.plan.assemble p.policy (.row r) window = .error fault →
      p.plan.Attributed p.policy (.row r) window fault := fun h =>
    Plan.assemble_attributed (Outcome.map_eq_error.mp h)
  unfold projectRow at h
  cases r with
  | event e => exact .inr (hnamed h)
  | joined j => exact .inr (hnamed h)
  | tuple t =>
    cases hlayout : p.plan.layout with
    | none =>
      rw [hlayout] at h
      exact .inr (hnamed h)
    | some layout =>
      rw [hlayout] at h
      have hproject := Outcome.map_eq_error.mp h
      by_cases hwidth : t.width = layout.inputWidth
      · exact .inr (Layout.project_attributed hlayout hwidth hproject)
      · obtain ⟨reason, hunsupported⟩ :=
          @Layout.project_of_width_ne layout p.policy t window hwidth
        rw [hunsupported] at hproject
        exact .inl ⟨layout, t, hlayout, rfl, hwidth, reason, (Except.error.inj hproject).symm⟩

private theorem projectGroup_fault {rows : List Row} {window : Option Window} {α : Type}
    {f : Event → α} (h : f <$> p.projectGroup rows window = .error fault) :
    p.plan.Attributed p.policy (.group rows) window fault :=
  Plan.assemble_attributed (Outcome.map_eq_error.mp h)

/-- A projection fails on one subject that the packet offers. -/
private theorem exists_offered {input : Packet} (hinput : ∀ earlier, input ≠ .fault earlier)
    (h : p.project input = .error fault) :
    ∃ s window, input.Offers s window ∧
      (p.Misfit s fault ∨ p.plan.Attributed p.policy s window fault) := by
  cases input with
  | fault earlier => exact absurd rfl (hinput earlier)
  | row r =>
    simp only [project] at h
    split at h
    · exact ⟨_, _, .single r, .inr (projectGroup_fault h)⟩
    · exact ⟨_, _, .row r, projectRow_fault (Outcome.map_eq_error.mp h)⟩
  | batch b =>
    simp only [project, projectBatch] at h
    split at h
    · exact ⟨_, _, .all b, .inr (projectGroup_fault h)⟩
    · rcases Outcome.bind_eq_error.mp h with h | ⟨_, _, hdone⟩
      · obtain ⟨r, hr, hfault⟩ := Outcome.mapM_eq_error h
        exact ⟨_, _, .member hr, projectRow_fault hfault⟩
      · cases hdone
  | groups groups =>
    rcases Outcome.bind_eq_error.mp h with h | ⟨_, _, hdone⟩
    · obtain ⟨b, hb, hfault⟩ := Outcome.mapM_eq_error h
      unfold projectMember at hfault
      split at hfault
      · exact ⟨_, _, .group hb (.all b), .inr (projectGroup_fault hfault)⟩
      · cases hfirst : b.first? with
        | some r =>
          rw [hfirst] at hfault
          have hr : r ∈ b.rows := List.mem_of_mem_head? hfirst
          exact ⟨_, _, .group hb (.member hr), projectRow_fault hfault⟩
        | none =>
          rw [hfirst] at hfault
          cases hfault
    · cases hdone

/-- A projection that fails on its own account does so in one of two ways. Either a tuple of the
input is not as wide as the layout asks; or an expression of the plan, evaluated on a row or group
of the input, failed with an elementary fault, and this fault is reported with the label and the
text of the expression around it. Without nulls written, the fault is never one for missing data. -/
theorem project_fault {input : Packet} (hinput : ∀ earlier, input ≠ .fault earlier)
    (h : p.project input = .error fault) :
    ((∃ layout t window, p.plan.layout = some layout ∧ input.Offers (.row (.tuple t)) window ∧
        t.width ≠ layout.inputWidth ∧
        ∃ reason, fault = .unsupportedInput (Row.tuple t).shapeName reason) ∨
      ∃ label e cause s window aliases, input.Offers s window ∧
        p.plan.Evaluates p.policy s window label e aliases ∧
        (p.plan.LaidOut → (label, e) ∈ p.plan.labelled) ∧
        e.evaluate s { aliases, window } = .error cause ∧ cause.isElementary = true ∧
        fault = .field label e.render cause) ∧
    (p.policy.writeNulls = false → fault.isMissingData = false) := by
  obtain ⟨s, window, hoffers, hfault⟩ := exists_offered hinput h
  rcases hfault with ⟨layout, t, hlayout, rfl, hwidth, reason, rfl⟩ | hattributed
  · exact ⟨.inl ⟨layout, t, window, hlayout, hoffers, hwidth, reason, rfl⟩, fun _ => rfl⟩
  · obtain ⟨label, e, aliases, cause, hevaluates, hcause, rfl, hmissing⟩ := hattributed
    exact ⟨.inr ⟨label, e, cause, s, window, aliases, hoffers, hevaluates, hevaluates.mem_labelled,
      hcause, e.evaluate_elementary s _ cause hcause, rfl⟩, hmissing⟩

/-- The rounded column `a`, under the alias `r`. -/
def roundedList : List Declaration :=
  [{ item := .computed (.call "ROUND" [.column { name := "a" }]) (some "r") }]

theorem project_fault_roundedList :
    let input := Packet.row (.tuple { schema := ["a"], values := [.text "val_a"] })
    let fault := Fault.field (some "r") "ROUND(a)" (.wrongKind "NUMBER" "STRING" (some "val_a"))
    ∃ plan, Plan.compileOver ["a"] roundedList = .ok plan ∧
      project ⟨plan, {}⟩ input = .error fault ∧
      (∃ label e cause s window aliases, input.Offers s window ∧
        plan.Evaluates {} s window label e aliases ∧ (label, e) ∈ plan.labelled ∧
        e.evaluate s { aliases, window } = .error cause ∧ cause.isElementary = true ∧
        fault = .field label e.render cause) ∧
      fault.isMissingData = false := by
  intro input fault
  have hinput : ∀ earlier, input ≠ .fault earlier := fun _ => Packet.noConfusion
  obtain ⟨plan, hplan, hfault⟩ : ∃ plan, Plan.compileOver ["a"] roundedList = .ok plan ∧
      project ⟨plan, {}⟩ input = .error fault := ⟨_, rfl, rfl⟩
  obtain ⟨⟨_, _, _, _, _, _, _, hmisfit⟩ | hfield, hmissing⟩ := project_fault hinput hfault
  · exact Fault.noConfusion hmisfit
  · obtain ⟨label, e, cause, s, window, aliases, hoffers, hevaluates, hlabelled, hrest⟩ := hfield
    exact ⟨plan, hplan, hfault, ⟨label, e, cause, s, window, aliases, hoffers, hevaluates,
      hlabelled (Plan.laidOut_of_compileOver hplan), hrest⟩, hmissing rfl⟩

end Projector
end StreamSelect
