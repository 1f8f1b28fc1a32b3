import StreamSelect.Project.Basic
import StreamSelect.Proofs.Project.LastWrite

/-!
Which of the fields with one name decides what is under it. Columns are copied before expressions
are evaluated, so an expression goes before the columns of its name, wherever they are declared.
Within columns and within expressions the later field goes before the earlier one, and all of them
go before what the stars supply.
-/
namespace StreamSelect

private theorem exists_last {ι : Type} {P : ι → Prop} {xs : List ι} (h : ∃ x ∈ xs, P x) :
    ∃ before x after, xs = before ++ x :: after ∧ P x ∧ ∀ y ∈ after, ¬ P y := by
  induction xs with
  | nil =>
    obtain ⟨_, hx, _⟩ := h
    cases hx
  | cons x xs ih =>
    by_cases hrest : ∃ y ∈ xs, P y
    · obtain ⟨before, y, after, rfl, hy, hlast⟩ := ih hrest
      exact ⟨x :: before, y, after, rfl, hy, hlast⟩
    · obtain ⟨y, hy, hP⟩ := h
      rcases List.mem_cons.mp hy with rfl | hy
      · exact ⟨[], y, xs, rfl, hP, fun z hz hPz => hrest ⟨z, hz, hPz⟩⟩
      · exact absurd ⟨y, hy, hP⟩ hrest

namespace PlannedField

/-- Of the fields, `f` decides what is under its name. It is the last visible expression with this
name, or the last visible column, if no visible expression has the name. -/
structure Decides (fields done : List PlannedField) (f : PlannedField)
    (rest : List PlannedField) : Prop where
  split : fields = done ++ f :: rest
  visible : f.hidden = false
  expression : f.expr?.isSome = true → f.outputName ∉ evaluatedNames rest
  column : f.expr? = none → f.outputName ∉ copiedNames rest ∧ f.outputName ∉ evaluatedNames fields

theorem Decides.mem_written {fields done rest : List PlannedField} {f : PlannedField}
    (h : Decides fields done f rest) : f.outputName ∈ written fields :=
  List.mem_map.mpr ⟨f, by simp [h.split, h.visible], rfl⟩

theorem exists_decides {fields : List PlannedField} {name : String} (h : name ∈ written fields) :
    ∃ done f rest, Decides fields done f rest ∧ f.outputName = name := by
  by_cases hevaluated : name ∈ evaluatedNames fields
  · obtain ⟨done, f, rest, rfl, ⟨hvisible, hbody, rfl⟩, hlast⟩ :=
      exists_last (mem_evaluatedNames.mp hevaluated)
    refine ⟨done, f, rest, ⟨rfl, hvisible, fun _ hlater => ?_, fun hcolumn => ?_⟩, rfl⟩
    · obtain ⟨g, hg, hlater⟩ := mem_evaluatedNames.mp hlater
      exact hlast g hg hlater
    · rw [hcolumn] at hbody
      cases hbody
  · have hcopied := (mem_written_iff.mp h).resolve_right hevaluated
    obtain ⟨done, f, rest, rfl, ⟨hvisible, hcolumn, rfl⟩, hlast⟩ :=
      exists_last (mem_copiedNames.mp hcopied)
    refine ⟨done, f, rest, ⟨rfl, hvisible, fun hbody => ?_, fun _ => ⟨fun hlater => ?_,
      hevaluated⟩⟩, rfl⟩
    · rw [hcolumn] at hbody
      cases hbody
    · obtain ⟨g, hg, hlater⟩ := mem_copiedNames.mp hlater
      exact hlast g hg hlater

end PlannedField

namespace Plan
variable {p : Plan} {policy : OutputPolicy} {s : Subject} {window : Option Window} {e : Event}
  {done rest : List PlannedField} {f : PlannedField}

/-- An event has under the name of a field what the field comes to. A column has its value on the
first row, which is null if the row lacks it, and an expression its value with the aliases that the
fields `done` before it have stored. -/
structure Gives (p : Plan) (policy : OutputPolicy) (s : Subject) (window : Option Window)
    (done : List PlannedField) (f : PlannedField) (e : Event) : Prop where
  column : ∀ c, f.form = .column c → e.fields.get? c.name = some (c.valueIn s.first?)
  expression : ∀ body, f.expr? = some body → ∃ replaced a v,
    p.replacements.foldlM (writeReplacement policy s window) (p.starFields s.first?) =
      .ok replaced ∧
    done.foldlM (writeExpression policy s window) (p.copied policy s.first? replaced) = .ok a ∧
    body.evaluate s { aliases := a.aliases, window } = .ok v ∧
    e.fields.get? f.outputName = some v

/-- Under each name of a visible field is what the field gives that decides the name. -/
def Decided (p : Plan) (policy : OutputPolicy) (s : Subject) (window : Option Window)
    (e : Event) : Prop :=
  ∀ name ∈ PlannedField.written p.fields, ∃ done f rest,
    PlannedField.Decides p.fields done f rest ∧ f.outputName = name ∧
      p.Gives policy s window done f e

theorem kept_of_written {name : String} (h : name ∈ PlannedField.written p.fields)
    (v? : Option Value) : p.kept name v? = v? := by
  rw [kept, if_neg]
  rintro ⟨_, hunwritten⟩
  rw [(p.writes_iff name).mpr h] at hunwritten
  cases hunwritten

/-- What is left under the name of a written field is in the event. -/
theorem get?_of_written {name : String} {v : Value} {output : FieldMap}
    (h : name ∈ PlannedField.written p.fields)
    (hshown : e.fields.get? name =
      (p.kept name (output.get? name)).or (attached? policy e.metadata name))
    (hv : output.get? name = some v) : e.fields.get? name = some v := by
  rw [hshown, kept_of_written h, hv, Option.some_or]

/-- The last expression of a name is seen there, whatever columns are declared after it. -/
theorem get?_of_lastExpression (hwrite : policy.writeNulls = true)
    (h : p.assemble policy s window = .ok e) {body : Expr}
    (hf : PlannedField.Decides p.fields done f rest) (hbody : f.expr? = some body) :
    ∃ replaced a v,
      p.replacements.foldlM (writeReplacement policy s window) (p.starFields s.first?) =
        .ok replaced ∧
      done.foldlM (writeExpression policy s window) (p.copied policy s.first? replaced) = .ok a ∧
      body.evaluate s { aliases := a.aliases, window } = .ok v ∧
      e.fields.get? f.outputName = some v := by
  obtain ⟨replaced, last, hreplaced, hlast, hshown⟩ := get?_of_assemble h
  rw [hf.split] at hlast
  obtain ⟨a, b, ha, hstep, hrest⟩ := Outcome.foldlM_eq_ok_split hlast
  have hsettled := hstep
  rw [writeExpression_eq_settled, outcome, hbody, hf.visible] at hsettled
  obtain ⟨v?, hsettled, _⟩ := Outcome.map_eq_ok.mp hsettled
  cases v? with
  | none =>
    -- nothing is left out while nulls are written
    rw [(OutputPolicy.settle_eq_none hsettled).1] at hwrite
    cases hwrite
  | some v =>
    have hv := OutputPolicy.settle_eq_some hsettled
    refine ⟨replaced, a, v, hreplaced, ha, hv, get?_of_written hf.mem_written (hshown _) ?_⟩
    rw [get?_writeExpressions (hf.expression (by simp [hbody])) hrest,
      get?_writeExpression hf.visible hbody hstep, if_pos rfl, hv, OutputPolicy.leaves,
      OutputPolicy.shown_of_writeNulls hwrite]

/-- Without an expression of the name, the last column is seen. -/
theorem get?_of_lastColumn (hwrite : policy.writeNulls = true)
    (h : p.assemble policy s window = .ok e) {c : Column}
    (hf : PlannedField.Decides p.fields done f rest) (hc : f.form = .column c) :
    e.fields.get? c.name = some (c.valueIn s.first?) := by
  obtain ⟨form, hidden⟩ := f
  cases hc
  cases hf.visible
  obtain ⟨hlater, hevaluated⟩ : c.name ∉ PlannedField.copiedNames rest ∧
      c.name ∉ PlannedField.evaluatedNames p.fields := hf.column rfl
  obtain ⟨replaced, last, _, hlast, hshown⟩ := get?_of_assemble h
  refine get?_of_written hf.mem_written (hshown _) ?_
  rw [get?_writeExpressions hevaluated hlast, copied, hf.split, List.foldl_append, List.foldl_cons,
    get?_writeColumns hlater]
  simp only [writeColumn, Bool.false_eq_true, if_false]
  rw [OutputPolicy.get?_write, if_pos rfl, OutputPolicy.shown_of_writeNulls hwrite]

private theorem decided_of_assemble (hwrite : policy.writeNulls = true)
    (h : p.assemble policy s window = .ok e) : p.Decided policy s window e := by
  intro name hname
  obtain ⟨done, f, rest, hf, rfl⟩ := PlannedField.exists_decides hname
  exact ⟨done, f, rest, hf, rfl, fun _ => get?_of_lastColumn hwrite h hf,
    fun _ => get?_of_lastExpression hwrite h hf⟩

end Plan

namespace Projector

/-- While nulls are written and no tuples are made by position, each name of a visible field is
decided by its last expression, or without one by its last column: in the event of a row, and in
that of a group. -/
theorem project_decided {p : Projector} (hwrite : p.policy.writeNulls = true)
    (hlayout : p.plan.layout = none) :
    (∀ row window out, p.projectRow row window = .ok out →
      ∃ e, out = .event e ∧ p.plan.Decided p.policy (.row row) window e) ∧
    ∀ rows window e, p.projectGroup rows window = .ok e →
      p.plan.Decided p.policy (.group rows) window e := by
  constructor
  · intro row window out h
    simp only [projectRow, hlayout] at h
    obtain ⟨e, he, rfl⟩ := Outcome.map_eq_ok.mp h
    exact ⟨e, rfl, Plan.decided_of_assemble hwrite he⟩
  · exact fun rows window e h => Plan.decided_of_assemble hwrite h

/-- An alias `a` before the column `a`, a link under the name `b` between two columns `b`, and a
column `d`, over a star that replaces `a`. -/
def sharedNames : Plan where
  fields := [
    ⟨.alias "a" (.literal (.integer 1)), false⟩,
    ⟨.column { name := "b" }, false⟩,
    ⟨.column { name := "a" }, false⟩,
    ⟨.derived "b" (.aliasRef "a" (.literal (.integer 1))), false⟩,
    ⟨.column { name := "b" }, false⟩,
    ⟨.column { name := "d" }, false⟩]
  star := some { replace := [⟨"a", .literal (.integer 4)⟩] }
  sourceStars := []
  aggregate := false
  layout := none

/-- A row without the field `d`. -/
def rowOfTwo : Row := .event { fields := .ofList [("a", .integer 2), ("b", .integer 3)] }

theorem project_decided_sharedNames :
    ∃ e, projectRow ⟨sharedNames, ⟨false, true⟩⟩ rowOfTwo none = .ok (.event e) ∧
      e.fields.get? "a" = some (.integer 1) ∧ e.fields.get? "b" = some (.integer 1) ∧
      e.fields.get? "d" = some .null ∧
      sharedNames.Decided ⟨false, true⟩ (.row rowOfTwo) none e := by
  refine ⟨_, rfl, rfl, rfl, rfl, ?_⟩
  obtain ⟨e, he, hdecided⟩ :=
    (project_decided (p := ⟨sharedNames, ⟨false, true⟩⟩) rfl rfl).1 rowOfTwo none _ rfl
  cases he
  exact hdecided

/-- A column declared last under its name does not decide it where an expression has the name. -/
theorem column_after_alias_unseen :
    let row := Row.event { fields := .ofList [("a", .integer 2)] }
    ∃ p e, Plan.compile [⟨.computed (.literal (.integer 1)) (some "a"), false⟩,
        ⟨.column { name := "a" }, false⟩] = .ok p ∧
      p.fields.getLast?.map PlannedField.outputName = some "a" ∧
      p.fields.getLast?.map PlannedField.hidden = some false ∧
      p.fields.getLast?.map PlannedField.form = some (.column { name := "a" }) ∧
      Column.valueIn { name := "a" } (some row) = .integer 2 ∧
      projectRow ⟨p, ⟨false, true⟩⟩ row none = .ok (.event e) ∧
      e.fields.get? "a" = some (.integer 1) :=
  ⟨_, _, rfl, rfl, rfl, rfl, rfl, rfl, rfl⟩

end Projector
end StreamSelect
