import StreamSelect.Project.Basic
import StreamSelect.Proofs.KeyedMap
import StreamSelect.Proofs.Plan.Declared

/-!
The phases of the projection to events, each through what it does to a look-up in the output.
-/
namespace StreamSelect

namespace OutputPolicy
variable {policy : OutputPolicy}

/-- What is seen under a name after the value is written: nothing for a null that is left out. -/
def shown (policy : OutputPolicy) (v : Value) : Option Value :=
  if v.isNull && !policy.writeNulls then none else some v

@[simp] theorem get?_write (fields : FieldMap) (name : String) (v : Value) (k : String) :
    (policy.write fields name v).get? k =
      if k = name then policy.shown v else fields.get? k := by
  unfold write shown
  split <;> simp

/-- The output once an expression that is written under the name has been settled. -/
def writeSettled (policy : OutputPolicy) (output : FieldMap) (name : String) :
    Option Value → FieldMap
  | some v => policy.write output name v
  | none => output

theorem shown_null (h : policy.writeNulls = false) : policy.shown .null = none := by
  simp [shown, h, Value.isNull]

theorem shown_of_writeNulls (h : policy.writeNulls = true) (v : Value) :
    policy.shown v = some v := by
  simp [shown, h]

theorem bind_shown_of_writeNulls (h : policy.writeNulls = true) (v? : Option Value) :
    v?.bind policy.shown = v? := by
  cases v? <;> simp [shown_of_writeNulls h]

theorem bind_shown_of_omit (h : policy.writeNulls = false) (v? : Option Value) :
    v?.bind policy.shown = v?.filter fun v => !v.isNull := by
  cases v? with
  | none => rfl
  | some v => cases hv : v.isNull <;> simp [shown, Option.filter, h, hv]

@[simp] theorem settle_ok (label : Option String) (e : Expr) (v : Value) :
    policy.settle label e (.ok v) = .ok (some v) := rfl

theorem settle_eq_some {label : Option String} {e : Expr} {result : Outcome Value} {v : Value}
    (h : policy.settle label e result = .ok (some v)) : result = .ok v := by
  cases result with
  | ok w => cases h; rfl
  | error fault =>
    simp only [settle] at h
    split at h <;> cases h

/-- A field is left out only for missing data, and only if nulls are not written. -/
theorem settle_eq_none {label : Option String} {e : Expr} {result : Outcome Value}
    (h : policy.settle label e result = .ok none) :
    policy.writeNulls = false ∧ ∃ fault, result = .error fault ∧ fault.isMissingData = true := by
  cases result with
  | ok w => cases h
  | error fault =>
    simp only [settle] at h
    split at h
    · rename_i hmissing
      simp only [Bool.and_eq_true, Bool.not_eq_true'] at hmissing
      exact ⟨hmissing.2, fault, rfl, hmissing.1⟩
    · cases h

/-- A fault that is reported has the label and the text of the expression around it. If nulls are
not written, it is never one for missing data. -/
theorem settle_eq_error {label : Option String} {e : Expr} {result : Outcome Value} {fault : Fault}
    (h : policy.settle label e result = .error fault) :
    ∃ cause, result = .error cause ∧ fault = .field label e.render cause ∧
      (policy.writeNulls = false → cause.isMissingData = false) := by
  cases result with
  | ok v => cases h
  | error cause =>
    simp only [settle] at h
    split at h
    · cases h
    · rename_i hreported
      refine ⟨cause, rfl, (Except.error.inj h).symm, fun homit => ?_⟩
      simpa [homit] using hreported

end OutputPolicy

/-- The aliases stored once what has this alias, if any, has come to a value or was left out. -/
def storeAlias (stored : FieldMap) (name? : Option String) (v? : Option Value) : FieldMap :=
  match name?, v? with
  | some name, some v => stored.insert name v
  | _, _ => stored

/-- A field that is left out leaves under its alias what was stored before. -/
theorem get?_storeAlias (stored : FieldMap) (name? : Option String) (v? : Option Value)
    (k : String) : (storeAlias stored name? v?).get? k =
      if name? = some k then v?.or (stored.get? k) else stored.get? k := by
  cases name? with
  | none => cases v? <;> rfl
  | some name =>
    cases v? with
    | none => simp [storeAlias]
    | some v => simp [storeAlias, eq_comm]

namespace Plan
variable {policy : OutputPolicy} {first? : Option Row}

/-- Hidden names without a written field of that name go, and all other names stay. -/
theorem get?_dropHidden (p : Plan) (output : FieldMap) (k : String) :
    (p.dropHidden output).get? k =
      if k ∈ p.hiddenNames ∧ p.writes k = false then none else output.get? k := by
  unfold dropHidden
  induction p.hiddenNames generalizing output with
  | nil => simp
  | cons name names ih =>
    rw [List.foldl_cons, ih]
    by_cases hk : k = name
    · subst hk
      cases p.writes k <;> simp
    · cases p.writes name <;> simp [hk]

/-- The columns of the fields that are written, with their values on the first row. -/
def copies (first? : Option Row) (fields : List PlannedField) : List (String × Value) :=
  fields.filterMap fun f =>
    match f.form with
    | .column c => if f.hidden then none else some (c.name, c.valueIn first?)
    | _ => none

theorem copies_column (c : Column) (fields : List PlannedField) :
    copies first? (⟨.column c, false⟩ :: fields) =
      (c.name, c.valueIn first?) :: copies first? fields := rfl

theorem copies_sublist (row? : Option Row) (fields : List PlannedField) :
    ((copies row? fields).map Prod.fst).Sublist (PlannedField.written fields) := by
  induction fields with
  | nil => exact .slnil
  | cons field fields ih =>
    obtain ⟨form, hidden⟩ := field
    cases hidden with
    | true => cases form <;> exact ih
    | false =>
      cases form with
      | column c => exact ih.cons_cons c.name
      | «alias» name e => exact ih.cons name
      | derived name e => exact ih.cons name

theorem lookup_copies {row? : Option Row} {fields : List PlannedField} {k : String}
    (h : k ∉ PlannedField.written fields) :
    KeyedMap.lookupEntry k (copies row? fields) = none :=
  KeyedMap.lookupEntry_eq_none fun hmem => h ((copies_sublist row? fields).subset hmem)

/-- Of columns with one name the last is seen. -/
theorem get?_foldl_writeColumn (fields : List PlannedField) (output : FieldMap) (k : String) :
    (fields.foldl (writeColumn policy first?) output).get? k =
      match KeyedMap.lookupEntry k (copies first? fields).reverse with
      | some v => policy.shown v
      | none => output.get? k := by
  induction fields generalizing output with
  | nil => rfl
  | cons f fields ih =>
    rw [List.foldl_cons, ih]
    obtain ⟨form, hidden⟩ := f
    cases form with
    | «alias» name e => rfl
    | derived name e => rfl
    | column c =>
      cases hidden with
      | true => rfl
      | false =>
        rw [copies_column, List.reverse_cons, KeyedMap.lookupEntry_append]
        cases KeyedMap.lookupEntry k (copies first? fields).reverse with
        | some v => rfl
        | none => by_cases hk : k = c.name <;> simp [writeColumn, KeyedMap.lookupEntry, hk]

theorem attach_empty (policy : OutputPolicy) (output : FieldMap) :
    attach policy ∅ output = output := by
  unfold attach
  exact if_neg (by simp [show (∅ : FieldMap).isEmpty = true from rfl])

/-- What the metadata put under a name that no field has. -/
def attached? (policy : OutputPolicy) (metadata : FieldMap) (k : String) : Option Value :=
  if k = metadataName ∧ policy.attachMetadata = true ∧ metadata.isEmpty = false then
    some (.ofFields metadata)
  else none

theorem get?_attach (policy : OutputPolicy) (metadata output : FieldMap) (k : String) :
    (attach policy metadata output).get? k =
      (output.get? k).or (attached? policy metadata k) := by
  unfold attach attached?
  by_cases hk : k = metadataName
  · subst hk
    cases hget : output.get? metadataName <;> cases policy.attachMetadata <;>
      cases hempty : metadata.isEmpty <;> simp [KeyedMap.contains, hget]
  · split <;> simp [hk]

theorem get?_attach_of_ne (policy : OutputPolicy) (metadata output : FieldMap) {k : String}
    (hk : k ≠ metadataName) : (attach policy metadata output).get? k = output.get? k := by
  rw [get?_attach, attached?, if_neg fun h => hk h.1, Option.or_none]

/-- Without stars the columns are written first and then the expressions. -/
theorem assemble_of_no_star {p : Plan} (hstar : p.star = none) (hsources : p.sourceStars = [])
    (subject : Subject) (window : Option Window) :
    p.assemble policy subject window = (do
      let a ← p.fields.foldlM (writeExpression policy subject window)
        { output := p.fields.foldl (writeColumn policy subject.first?) ∅ }
      return {
        emitter := (subject.first?.map Row.emitter).getD ""
        fields := attach policy ((subject.first?.bind Row.metadata?).getD ∅) (p.dropHidden a.output)
        metadata := (subject.first?.bind Row.metadata?).getD ∅
        timestamp := (subject.first?.map Row.timestamp).getD 0 }) := by
  have hreplacements : p.replacements = [] := by rw [replacements, hstar]; rfl
  have hcopied : p.starFields subject.first? = ∅ := by
    unfold starFields
    rw [hstar]
  have hsource : ∀ output, p.writeSources subject.first? output = output := by
    intro output
    cases subject.first? <;> simp [writeSources, hsources]
  rw [assemble, hreplacements, hcopied]
  simp only [List.foldlM_nil, pure_bind, hsource]

/-- The plan of a star alone, without replacements. -/
def starOnly (except : List String) : Plan where
  fields := []
  star := some { except }
  sourceStars := []
  aggregate := false
  layout := none

/-- A star alone copies fields of the first row and does nothing else. -/
theorem assemble_starOnly (except : List String) (subject : Subject) (window : Option Window) :
    (starOnly except).assemble policy subject window = .ok {
      emitter := (subject.first?.map Row.emitter).getD ""
      fields := attach policy ((subject.first?.bind Row.metadata?).getD ∅)
        ((starOnly except).starFields subject.first?)
      metadata := (subject.first?.bind Row.metadata?).getD ∅
      timestamp := (subject.first?.map Row.timestamp).getD 0 } := by
  cases subject with
  | row r => rfl
  | group rows => cases rows <;> rfl

/-- What a field comes to with the aliases stored before it. Nothing comes of a column, which is
copied before, and of a hidden expression without an alias. -/
def outcome (policy : OutputPolicy) (subject : Subject) (window : Option Window)
    (aliases : FieldMap) (f : PlannedField) : Outcome (Option Value) :=
  match f.expr? with
  | none => .ok none
  | some e =>
    if f.hidden && f.alias?.isNone then .ok none
    else policy.settle f.alias? e (e.evaluate subject { aliases, window })

/-- The assembly once a field has come to a value or was left out. -/
def Assembly.settled (policy : OutputPolicy) (a : Assembly) (f : PlannedField)
    (v? : Option Value) : Assembly where
  output := if f.hidden then a.output else policy.writeSettled a.output f.outputName v?
  aliases := storeAlias a.aliases f.alias? v?

/-- A step depends on the output so far only in what it writes. -/
theorem writeExpression_eq_settled (subject : Subject) (window : Option Window) (a : Assembly)
    (f : PlannedField) : writeExpression policy subject window a f =
      a.settled policy f <$> outcome policy subject window a.aliases f := by
  have hnone : a.settled policy f none = a := by
    cases halias : f.alias? <;>
      simp [Assembly.settled, storeAlias, OutputPolicy.writeSettled, halias]
  unfold writeExpression outcome
  cases f.expr? with
  | none => exact congrArg Except.ok hnone.symm
  | some e =>
    dsimp only
    split
    · exact congrArg Except.ok hnone.symm
    · cases policy.settle f.alias? e (e.evaluate subject { aliases := a.aliases, window }) with
      | error fault => rfl
      | ok v? =>
        cases v? with
        | none => exact congrArg Except.ok hnone.symm
        | some v => cases halias : f.alias? <;> simp [Assembly.settled, storeAlias, halias] <;> rfl

/-- A replacement is settled and then written. -/
theorem writeReplacement_eq_settled (subject : Subject) (window : Option Window)
    (output : FieldMap) (r : Replacement) : writeReplacement policy subject window output r =
      policy.writeSettled output r.name <$>
        policy.settle (some r.name) r.expr (r.expr.evaluate subject { window }) := by
  unfold writeReplacement
  cases policy.settle (some r.name) r.expr (r.expr.evaluate subject { window }) with
  | error fault => rfl
  | ok v? => cases v? <;> rfl

/-- An expression under an alias stores the alias, and writes its value unless it is hidden. -/
theorem writeExpression_alias (subject : Subject) (window : Option Window) (a : Assembly)
    (name : String) (e : Expr) (hidden : Bool) :
    writeExpression policy subject window a ⟨.alias name e, hidden⟩ = (do
      match ← policy.settle (some name) e (e.evaluate subject { aliases := a.aliases, window }) with
      | none => return a
      | some v => return {
          output := if hidden then a.output else policy.write a.output name v
          aliases := a.aliases.insert name v }) := by
  cases hidden <;> rfl

/-- An expression without an alias stores nothing, and a hidden one is not even evaluated. -/
theorem writeExpression_derived (subject : Subject) (window : Option Window) (a : Assembly)
    (name : String) (e : Expr) (hidden : Bool) :
    writeExpression policy subject window a ⟨.derived name e, hidden⟩ =
      if hidden then .ok a
      else (do
        match ← policy.settle none e (e.evaluate subject { aliases := a.aliases, window }) with
        | none => return a
        | some v => return { a with output := policy.write a.output name v }) := by
  cases hidden <;> rfl

end Plan
end StreamSelect
