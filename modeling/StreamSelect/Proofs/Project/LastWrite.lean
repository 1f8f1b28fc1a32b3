import StreamSelect.Project.Basic
import StreamSelect.Proofs.Project.Keys

/-!
What the expression that writes a name last does to it. A value is shown and a null is not, whatever
was under the name before. Missing data leaves there what the star and earlier replacements have put
under the name, so an absent value is left out only where they have put nothing.
-/
namespace StreamSelect

namespace OutputPolicy
variable {policy : OutputPolicy}

/-- What is seen under a name once an expression with this outcome was to be written there. After a
fault that does not end the projection it is what was seen before. -/
def leaves (policy : OutputPolicy) (result : Outcome Value) (before? : Option Value) :
    Option Value :=
  match result with
  | .ok v => policy.shown v
  | .error _ => before?

theorem get?_writeSettled {label : Option String} {e : Expr} {result : Outcome Value}
    {v? : Option Value} (h : policy.settle label e result = .ok v?) (output : FieldMap)
    (name k : String) : (policy.writeSettled output name v?).get? k =
      if k = name then policy.leaves result (output.get? k) else output.get? k := by
  cases v? with
  | none =>
    obtain ⟨_, fault, rfl, _⟩ := settle_eq_none h
    rw [leaves, ite_self, writeSettled]
  | some v =>
    rw [settle_eq_some h]
    exact get?_write output name v k

end OutputPolicy

namespace Plan
variable {p : Plan} {policy : OutputPolicy} {s : Subject} {window : Option Window}

theorem get?_writeReplacement {before after : FieldMap} {r : Replacement}
    (h : writeReplacement policy s window before r = .ok after) (k : String) :
    after.get? k = if k = r.name then policy.leaves (r.expr.evaluate s { window }) (before.get? k)
      else before.get? k := by
  rw [writeReplacement_eq_settled] at h
  obtain ⟨v?, hsettled, rfl⟩ := Outcome.map_eq_ok.mp h
  exact OutputPolicy.get?_writeSettled hsettled before r.name k

theorem get?_writeReplacements {replace : List Replacement} {before after : FieldMap} {k : String}
    (hk : ∀ r ∈ replace, r.name ≠ k)
    (h : replace.foldlM (writeReplacement policy s window) before = .ok after) :
    after.get? k = before.get? k := by
  refine Outcome.foldlM_induction
    (motive := fun _ (output : FieldMap) => output.get? k = before.get? k) rfl ?_ h
  intro done r rest output output' hsplit ih hstep
  rw [get?_writeReplacement hstep, if_neg (hk r (by simp [hsplit])).symm, ih]

theorem get?_writeSources {first? : Option Row} {k : String} (hk : k ∉ p.sourceKeys first?)
    (output : FieldMap) : (p.writeSources first? output).get? k = output.get? k := by
  cases first? with
  | none => rfl
  | some row =>
    have hnone : ∀ source ∈ p.sourceStars, (row.sourceFields source).get? k = none := by
      intro source hsource
      by_contra hsome
      exact hk ⟨row, rfl, source, hsource,
        KeyedMap.mem_keySet.mpr (Option.isSome_iff_ne_none.mpr hsome)⟩
    simp only [writeSources]
    generalize p.sourceStars = sources at hnone
    induction sources generalizing output with
    | nil => rfl
    | cons source sources ih =>
      obtain ⟨hfirst, hrest⟩ := List.forall_mem_cons.mp hnone
      rw [List.foldl_cons, ih _ hrest, KeyedMap.get?_override, hfirst, Option.none_or]

theorem get?_writeColumn {first? : Option Row} {f : PlannedField} {k : String}
    (hk : f.hidden = false → f.expr? = none → f.outputName ≠ k) (output : FieldMap) :
    (writeColumn policy first? output f).get? k = output.get? k := by
  obtain ⟨form, hidden⟩ := f
  cases form with
  | column c =>
    cases hidden with
    | true => rfl
    | false => exact (OutputPolicy.get?_write ..).trans (if_neg (hk rfl rfl).symm)
  | «alias» name e => rfl
  | derived name e => rfl

theorem get?_writeColumns {first? : Option Row} {fields : List PlannedField} {k : String}
    (hk : k ∉ PlannedField.copiedNames fields) (output : FieldMap) :
    (fields.foldl (writeColumn policy first?) output).get? k = output.get? k := by
  have hnone : ∀ f ∈ fields, f.hidden = false → f.expr? = none → f.outputName ≠ k :=
    fun f hf hvisible hcolumn hname =>
      hk (PlannedField.mem_copiedNames.mpr ⟨f, hf, hvisible, hcolumn, hname⟩)
  clear hk
  induction fields generalizing output with
  | nil => rfl
  | cons f fields ih =>
    obtain ⟨hfirst, hrest⟩ := List.forall_mem_cons.mp hnone
    rw [List.foldl_cons, ih _ hrest, get?_writeColumn hfirst]

theorem get?_writeExpression {a b : Assembly} {f : PlannedField} {e : Expr}
    (hvisible : f.hidden = false) (he : f.expr? = some e)
    (h : writeExpression policy s window a f = .ok b) (k : String) :
    b.output.get? k = if k = f.outputName then
        policy.leaves (e.evaluate s { aliases := a.aliases, window }) (a.output.get? k)
      else a.output.get? k := by
  rw [writeExpression_eq_settled, outcome, he, hvisible] at h
  obtain ⟨v?, hsettled, rfl⟩ := Outcome.map_eq_ok.mp h
  simp only [Assembly.settled, hvisible]
  exact OutputPolicy.get?_writeSettled hsettled a.output f.outputName k

theorem get?_writeExpression_of_not_evaluated {a b : Assembly} {f : PlannedField} {k : String}
    (hk : f.hidden = false → f.expr?.isSome = true → f.outputName ≠ k)
    (h : writeExpression policy s window a f = .ok b) : b.output.get? k = a.output.get? k := by
  cases hhidden : f.hidden with
  | true =>
    rw [writeExpression_eq_settled] at h
    obtain ⟨v?, _, rfl⟩ := Outcome.map_eq_ok.mp h
    simp [Assembly.settled, hhidden]
  | false =>
    cases he : f.expr? with
    | none =>
      rw [writeExpression, he] at h
      cases h
      rfl
    | some e => rw [get?_writeExpression hhidden he h, if_neg (hk hhidden (by simp [he])).symm]

theorem get?_writeExpressions {fields : List PlannedField} {a b : Assembly} {k : String}
    (hk : k ∉ PlannedField.evaluatedNames fields)
    (h : fields.foldlM (writeExpression policy s window) a = .ok b) :
    b.output.get? k = a.output.get? k := by
  refine Outcome.foldlM_induction
    (motive := fun _ (c : Assembly) => c.output.get? k = a.output.get? k) rfl ?_ h
  rintro done f rest c c' rfl ih hstep
  rw [get?_writeExpression_of_not_evaluated ?_ hstep, ih]
  exact fun hvisible he hname =>
    hk (PlannedField.mem_evaluatedNames.mpr ⟨f, by simp, hvisible, he, hname⟩)

/-- What is kept under a name when hidden names are dropped. -/
def kept (p : Plan) (name : String) (v? : Option Value) : Option Value :=
  if name ∈ p.hiddenNames ∧ p.writes name = false then none else v?

/-- The assembly before expressions are evaluated. -/
def copied (p : Plan) (policy : OutputPolicy) (first? : Option Row) (replaced : FieldMap) :
    Assembly :=
  { output := p.fields.foldl (writeColumn policy first?) (p.writeSources first? replaced) }

/-- An event is made of the replacements and the expressions; of what the expressions leave, hidden
names are dropped, and metadata may be attached. -/
theorem get?_of_assemble {e : Event} (h : p.assemble policy s window = .ok e) :
    ∃ replaced a,
      p.replacements.foldlM (writeReplacement policy s window) (p.starFields s.first?) =
        .ok replaced ∧
      p.fields.foldlM (writeExpression policy s window) (p.copied policy s.first? replaced) =
        .ok a ∧
      ∀ k, e.fields.get? k = (p.kept k (a.output.get? k)).or (attached? policy e.metadata k) := by
  obtain ⟨replaced, hreplaced, h⟩ := Outcome.bind_eq_ok.mp h
  obtain ⟨a, ha, he⟩ := Outcome.bind_eq_ok.mp h
  cases he
  refine ⟨replaced, a, hreplaced, ha, fun k => ?_⟩
  rw [get?_attach, get?_dropHidden, kept]

/-- After the replacement that writes a name last, only it and what was there before count. -/
theorem get?_of_lastReplacement {e : Event} {done rest : List Replacement} {r : Replacement}
    (h : p.assemble policy s window = .ok e) (hsplit : p.replacements = done ++ r :: rest)
    (hlater : ∀ r' ∈ rest, r'.name ≠ r.name) (hsources : r.name ∉ p.sourceKeys s.first?)
    (hfields : r.name ∉ PlannedField.written p.fields) :
    ∃ before v?, done.foldlM (writeReplacement policy s window) (p.starFields s.first?) =
        .ok before ∧
      policy.settle (some r.name) r.expr (r.expr.evaluate s { window }) = .ok v? ∧
      e.fields.get? r.name =
        (p.kept r.name (policy.leaves (r.expr.evaluate s { window }) (before.get? r.name))).or
          (attached? policy e.metadata r.name) := by
  obtain ⟨replaced, a, hreplaced, ha, hshown⟩ := get?_of_assemble h
  rw [hsplit] at hreplaced
  obtain ⟨before, after, hbefore, hstep, hrest⟩ := Outcome.foldlM_eq_ok_split hreplaced
  obtain ⟨v?, hsettled, _⟩ := Outcome.bind_eq_ok.mp hstep
  refine ⟨before, v?, hbefore, hsettled, ?_⟩
  rw [hshown, get?_writeExpressions (PlannedField.not_mem_evaluatedNames hfields) ha, copied,
    get?_writeColumns (PlannedField.not_mem_copiedNames hfields), get?_writeSources hsources,
    get?_writeReplacements hlater hrest, get?_writeReplacement hstep, if_pos rfl]

/-- After the field that writes a name last, only it and what the stars have put there count. -/
theorem get?_of_lastField {e : Event} {done rest : List PlannedField} {f : PlannedField}
    {body : Expr} (h : p.assemble policy s window = .ok e) (hsplit : p.fields = done ++ f :: rest)
    (hvisible : f.hidden = false) (hbody : f.expr? = some body)
    (hsources : f.outputName ∉ p.sourceKeys s.first?)
    (hothers : f.outputName ∉ PlannedField.written (done ++ rest)) :
    ∃ before a v?,
      p.replacements.foldlM (writeReplacement policy s window) (p.starFields s.first?) =
        .ok before ∧
      done.foldlM (writeExpression policy s window) (p.copied policy s.first? before) = .ok a ∧
      policy.settle f.alias? body (body.evaluate s { aliases := a.aliases, window }) = .ok v? ∧
      e.fields.get? f.outputName =
        (p.kept f.outputName (policy.leaves (body.evaluate s { aliases := a.aliases, window })
          (before.get? f.outputName))).or (attached? policy e.metadata f.outputName) := by
  obtain ⟨before, last, hbefore, hlast, hshown⟩ := get?_of_assemble h
  have hrun := hlast
  rw [hsplit] at hrun
  obtain ⟨a, b, ha, hstep, hrest⟩ := Outcome.foldlM_eq_ok_split hrun
  rw [PlannedField.written_append, List.mem_append, not_or] at hothers
  have hcolumns : f.outputName ∉ PlannedField.copiedNames p.fields := by
    intro hcopied
    obtain ⟨g, hg, hgvisible, hgcolumn, hname⟩ := PlannedField.mem_copiedNames.mp hcopied
    rw [hsplit, List.mem_append, List.mem_cons] at hg
    rcases hg with hg | rfl | hg
    · exact hothers.1 (List.mem_map.mpr ⟨g, by simp [hg, hgvisible], hname⟩)
    · rw [hbody] at hgcolumn
      cases hgcolumn
    · exact hothers.2 (List.mem_map.mpr ⟨g, by simp [hg, hgvisible], hname⟩)
  have hsettled := hstep
  rw [writeExpression_eq_settled, outcome, hbody, hvisible] at hsettled
  obtain ⟨v?, hsettled, _⟩ := Outcome.map_eq_ok.mp hsettled
  refine ⟨before, a, v?, hbefore, ha, hsettled, ?_⟩
  -- backwards through the phases: nothing after the field writes the name, nor does anything
  -- before it down to the replacements
  rw [hshown, get?_writeExpressions (PlannedField.not_mem_evaluatedNames hothers.2) hrest,
    get?_writeExpression hvisible hbody hstep, if_pos rfl,
    get?_writeExpressions (PlannedField.not_mem_evaluatedNames hothers.1) ha, copied,
    get?_writeColumns hcolumns, get?_writeSources hsources]

/-- What the event has under a name after the expression that writes it last has come to `result`.
A null is left out. Missing data leaves what the star and earlier replacements have put there, which
is `before?`. In either case attached metadata may take the name. -/
structure Omits (p : Plan) (policy : OutputPolicy) (e : Event) (name : String)
    (result : Outcome Value) (before? : Option Value) : Prop where
  null : result = .ok .null → e.fields.get? name = attached? policy e.metadata name
  missing : ∀ fault, result = .error fault → fault.isMissingData = true ∧
    e.fields.get? name = (p.kept name before?).or (attached? policy e.metadata name)

theorem Omits.of_settled (homit : policy.writeNulls = false) {label : Option String} {body : Expr}
    {result : Outcome Value} {v? before? : Option Value} {e : Event} {name : String}
    (hsettled : policy.settle label body result = .ok v?)
    (hshown : e.fields.get? name = (p.kept name (policy.leaves result before?)).or
      (attached? policy e.metadata name)) : p.Omits policy e name result before? := by
  constructor
  · rintro rfl
    rw [hshown, OutputPolicy.leaves, OutputPolicy.shown_null homit, kept, ite_self, Option.none_or]
  · rintro fault rfl
    cases v? with
    | some v => cases OutputPolicy.settle_eq_some hsettled
    | none =>
      obtain ⟨_, cause, hcause, hmissing⟩ := OutputPolicy.settle_eq_none hsettled
      cases hcause
      exact ⟨hmissing, hshown⟩

/-- What an event has under each name that a replacement or a field writes last. -/
structure OmitsAbsent (p : Plan) (policy : OutputPolicy) (s : Subject) (window : Option Window)
    (e : Event) : Prop where
  /-- No later replacement, source star or field writes the name of the replacement. -/
  replacement : ∀ done r rest, p.replacements = done ++ r :: rest →
    (∀ r' ∈ rest, r'.name ≠ r.name) → r.name ∉ p.sourceKeys s.first? →
    r.name ∉ PlannedField.written p.fields →
    ∃ before, done.foldlM (writeReplacement policy s window) (p.starFields s.first?) =
        .ok before ∧
      p.Omits policy e r.name (r.expr.evaluate s { window }) (before.get? r.name)
  /-- No source star and no other field writes the name of the field. -/
  field : ∀ done f rest body, p.fields = done ++ f :: rest → f.hidden = false →
    f.expr? = some body → f.outputName ∉ p.sourceKeys s.first? →
    f.outputName ∉ PlannedField.written (done ++ rest) →
    ∃ before a,
      p.replacements.foldlM (writeReplacement policy s window) (p.starFields s.first?) =
        .ok before ∧
      done.foldlM (writeExpression policy s window) (p.copied policy s.first? before) = .ok a ∧
      p.Omits policy e f.outputName (body.evaluate s { aliases := a.aliases, window })
        (before.get? f.outputName)

private theorem omitsAbsent_of_assemble (homit : policy.writeNulls = false) {e : Event}
    (h : p.assemble policy s window = .ok e) : p.OmitsAbsent policy s window e where
  replacement done r rest hsplit hlater hsources hfields := by
    obtain ⟨before, v?, hbefore, hsettled, hshown⟩ :=
      get?_of_lastReplacement h hsplit hlater hsources hfields
    exact ⟨before, hbefore, .of_settled homit hsettled hshown⟩
  field done f rest body hsplit hvisible hbody hsources hothers := by
    obtain ⟨before, a, v?, hbefore, ha, hsettled, hshown⟩ :=
      get?_of_lastField h hsplit hvisible hbody hsources hothers
    exact ⟨before, a, hbefore, ha, .of_settled homit hsettled hshown⟩

end Plan

namespace Projector

/-- While nulls are not written, an absent expression that writes a name last puts nothing there. A
null removes what was there before, but missing data does not. -/
theorem project_absent {p : Projector} (homit : p.policy.writeNulls = false) :
    (∀ row window e, p.projectRow row window = .ok (.event e) →
      p.plan.OmitsAbsent p.policy (.row row) window e) ∧
    ∀ rows window e, p.projectGroup rows window = .ok e →
      p.plan.OmitsAbsent p.policy (.group rows) window e := by
  constructor
  · intro row window e h
    unfold projectRow at h
    split at h
    · obtain ⟨t, _, ht⟩ := Outcome.map_eq_ok.mp h
      cases ht
    · obtain ⟨e', he, hsame⟩ := Outcome.map_eq_ok.mp h
      cases hsame
      exact Plan.omitsAbsent_of_assemble homit he
  · exact fun rows window e h => Plan.omitsAbsent_of_assemble homit h

/-- The key `k` of `a` in place of `a`, and null in place of `b`. -/
def replacedAbsent : Plan where
  fields := []
  star := some { replace := [⟨"a", .member (.column { name := "a" }) "k"⟩, ⟨"b", .literal .null⟩] }
  sourceStars := []
  aggregate := false
  layout := none

/-- Of two absent replacements the null is left out, and the missing data leaves the copy. -/
theorem project_absent_replacedAbsent :
    let row := Row.event { fields := .ofList [("a", .integer 1), ("b", .integer 2)] }
    ∃ e, projectRow ⟨replacedAbsent, {}⟩ row none = .ok (.event e) ∧ e.fields.keys = ["a"] ∧
      replacedAbsent.OmitsAbsent {} (.row row) none e :=
  ⟨_, rfl, rfl, (project_absent (p := ⟨replacedAbsent, {}⟩) rfl).1 _ none _ rfl⟩

/-- A replacement that comes to missing data leaves the value that the star has copied. -/
theorem replacement_keeps_copied :
    let row := Row.event { fields := .ofList [("a", .integer 1)] }
    let body := Expr.member (.column { name := "a" }) "k"
    ∃ p fault e, Plan.compile [⟨.star [] [(body, "a")], false⟩] = .ok p ∧
      body.evaluate (.row row) {} = .error fault ∧ fault.isMissingData = true ∧
      projectRow ⟨p, {}⟩ row none = .ok (.event e) ∧ e.fields.get? "a" = some (.integer 1) :=
  ⟨_, _, _, rfl, rfl, rfl, rfl, rfl⟩

end Projector
end StreamSelect
