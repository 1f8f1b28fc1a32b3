import Mathlib.Order.BooleanAlgebra.Set
import StreamSelect.Proofs.KeyedMap
import StreamSelect.Proofs.Plan.Declared
import StreamSelect.Proofs.Project.Phases

/-!
The keys of the event that a projection makes. Every phase but the last adds the names it writes:
all of them while nulls are written, and otherwise some of them. The last phase takes away the
hidden names that no written field has.
-/
namespace StreamSelect

theorem Joined.mem_keySet_mergedFields {j : Joined} {k : String} :
    k ∈ j.mergedFields.keySet ↔ ∃ e ∈ j.constituents, k ∈ e.fields.keySet := by
  unfold mergedFields
  induction j.constituents with
  | nil => simp
  | cons e rest ih =>
    rw [List.foldr_cons, KeyedMap.keySet_override, Set.mem_union, ih, or_comm]
    simp

/-- The star of one source shows only fields of the row. -/
theorem Row.keySet_sourceFields_subset (r : Row) (source : String) :
    (r.sourceFields source).keySet ⊆ r.allFields.keySet := by
  have hsame : ∀ fields : FieldMap, ∀ b : Bool,
      (if b then fields else ∅).keySet ⊆ fields.keySet := by
    intro fields b
    cases b <;> simp
  cases r with
  | event e => exact hsame _ _
  | tuple t => exact hsame _ _
  | joined j =>
    intro k hk
    cases hsource : j.source? source with
    | none => simp [sourceFields, hsource] at hk
    | some e =>
      rw [sourceFields, hsource] at hk
      exact Joined.mem_keySet_mergedFields.mpr ⟨e, List.mem_of_find?_eq_some hsource, hk⟩

/-- The names of the fields that are copied, and of those that are evaluated, among those that are
written. -/
def PlannedField.copiedNames (fields : List PlannedField) : List String :=
  written (fields.filter (·.expr?.isNone))

def PlannedField.evaluatedNames (fields : List PlannedField) : List String :=
  written (fields.filter (·.expr?.isSome))

theorem PlannedField.mem_written_iff {fields : List PlannedField} {k : String} :
    k ∈ written fields ↔ k ∈ copiedNames fields ∨ k ∈ evaluatedNames fields := by
  simp only [copiedNames, evaluatedNames, written, List.mem_map, List.mem_filter]
  constructor
  · rintro ⟨f, ⟨hf, hvisible⟩, rfl⟩
    cases he : f.expr? with
    | none => exact .inl ⟨f, ⟨⟨hf, by rw [he]; rfl⟩, hvisible⟩, rfl⟩
    | some e => exact .inr ⟨f, ⟨⟨hf, by rw [he]; rfl⟩, hvisible⟩, rfl⟩
  · rintro (⟨f, ⟨⟨hf, _⟩, hvisible⟩, rfl⟩ | ⟨f, ⟨⟨hf, _⟩, hvisible⟩, rfl⟩)
    · exact ⟨f, ⟨hf, hvisible⟩, rfl⟩
    · exact ⟨f, ⟨hf, hvisible⟩, rfl⟩

theorem PlannedField.mem_copiedNames {fields : List PlannedField} {k : String} :
    k ∈ copiedNames fields ↔
      ∃ f ∈ fields, f.hidden = false ∧ f.expr? = none ∧ f.outputName = k := by
  simp [copiedNames, written, and_assoc, and_left_comm]

theorem PlannedField.mem_evaluatedNames {fields : List PlannedField} {k : String} :
    k ∈ evaluatedNames fields ↔
      ∃ f ∈ fields, f.hidden = false ∧ f.expr?.isSome = true ∧ f.outputName = k := by
  simp [evaluatedNames, written, and_assoc, and_left_comm]

theorem PlannedField.not_mem_copiedNames {fields : List PlannedField} {k : String}
    (h : k ∉ written fields) : k ∉ copiedNames fields :=
  fun hk => h (mem_written_iff.mpr (.inl hk))

theorem PlannedField.not_mem_evaluatedNames {fields : List PlannedField} {k : String}
    (h : k ∉ written fields) : k ∉ evaluatedNames fields :=
  fun hk => h (mem_written_iff.mpr (.inr hk))

/-- A phase adds the names to the keys: all of them while nulls are written, and no others. -/
structure OutputPolicy.Adds (policy : OutputPolicy) (names : List String)
    (before after : FieldMap) : Prop where
  within : ∀ k ∈ after.keySet, k ∈ before.keySet ∨ k ∈ names
  all : policy.writeNulls = true → ∀ k, k ∈ before.keySet ∨ k ∈ names → k ∈ after.keySet

namespace OutputPolicy.Adds
variable {policy : OutputPolicy} {names more : List String} {before middle after : FieldMap}

theorem refl (policy : OutputPolicy) (fields : FieldMap) : policy.Adds [] fields fields :=
  ⟨fun _ => .inl, by simp⟩

theorem trans (h : policy.Adds names before middle) (h' : policy.Adds more middle after) :
    policy.Adds (names ++ more) before after where
  within k hk := by
    rw [List.mem_append, ← or_assoc]
    exact (h'.within k hk).imp_left (h.within k)
  all hwrite k hk := by
    rw [List.mem_append, ← or_assoc] at hk
    exact h'.all hwrite k (hk.imp_left (h.all hwrite k))

/-- What is left out adds nothing. This happens only while nulls are not written. -/
theorem leftOut (homit : policy.writeNulls = false) (fields : FieldMap) :
    policy.Adds names fields fields :=
  ⟨fun _ => .inl, fun hwrite => by rw [homit] at hwrite; cases hwrite⟩

theorem write (fields : FieldMap) (name : String) (v : Value) :
    policy.Adds [name] fields (policy.write fields name v) where
  within k hk := by
    unfold OutputPolicy.write at hk
    split at hk
    · rw [KeyedMap.keySet_erase] at hk
      exact .inl hk.1
    · rw [KeyedMap.keySet_insert, Set.mem_insert_iff, or_comm] at hk
      exact hk.imp_right List.mem_singleton.mpr
  all hwrite k hk := by
    rw [OutputPolicy.write, if_neg (by simp [hwrite]), KeyedMap.keySet_insert, Set.mem_insert_iff,
      or_comm]
    exact hk.imp_right List.mem_singleton.mp

/-- An expression adds the name under which it is written, or is left out. -/
theorem settled {label : Option String} {e : Expr} {result : Outcome Value} {v? : Option Value}
    (h : policy.settle label e result = .ok v?) (fields : FieldMap) (name : String) :
    policy.Adds [name] fields (policy.writeSettled fields name v?) := by
  cases v? with
  | none => exact .leftOut (settle_eq_none h).1 fields
  | some v => exact .write fields name v

theorem override (fields added : FieldMap) :
    policy.Adds added.keys fields (fields.override added) :=
  ⟨fun k hk => by rwa [KeyedMap.keySet_override] at hk,
    fun _ k hk => by rwa [KeyedMap.keySet_override]⟩

end OutputPolicy.Adds

namespace Plan
variable {p : Plan} {policy : OutputPolicy} {s : Subject} {window : Option Window}

/-- The keys that `*` writes: those of the row but the excluded ones, and the names of its
replacements. -/
def starKeys (p : Plan) (first? : Option Row) : Set String :=
  match p.star with
  | none => ∅
  | some star =>
    {k | ∃ row ∈ first?, k ∈ row.allFields.keySet ∧ k ∉ star.except} ∪
      {k | ∃ r ∈ star.replace, r.name = k}

/-- The keys that the stars of single sources write. -/
def sourceKeys (p : Plan) (first? : Option Row) : Set String :=
  {k | ∃ row ∈ first?, ∃ source ∈ p.sourceStars, k ∈ (row.sourceFields source).keySet}

/-- The keys of the output while nulls are written and no metadata are attached. -/
def outputKeys (p : Plan) (first? : Option Row) : Set String :=
  (p.starKeys first? ∪ p.sourceKeys first? ∪ {k | k ∈ PlannedField.written p.fields}) \
    {k | k ∈ p.hiddenNames ∧ k ∉ PlannedField.written p.fields}

theorem writeReplacement_adds {before after : FieldMap} {r : Replacement}
    (h : writeReplacement policy s window before r = .ok after) :
    policy.Adds [r.name] before after := by
  rw [writeReplacement_eq_settled] at h
  obtain ⟨v?, hsettled, rfl⟩ := Outcome.map_eq_ok.mp h
  exact .settled hsettled before r.name

theorem writeReplacements_adds {replace : List Replacement} {before after : FieldMap}
    (h : replace.foldlM (writeReplacement policy s window) before = .ok after) :
    policy.Adds (replace.map Replacement.name) before after := by
  refine Outcome.foldlM_induction
    (motive := fun done output => policy.Adds (done.map Replacement.name) before output)
    (.refl policy before) ?_ h
  intro done r _ output output' _ ih hstep
  rw [List.map_append]
  exact ih.trans (writeReplacement_adds hstep)

theorem writeSources_adds (row : Row) (before : FieldMap) :
    policy.Adds (p.sourceStars.flatMap fun source => (row.sourceFields source).keys) before
      (p.writeSources (some row) before) := by
  simp only [writeSources]
  induction p.sourceStars generalizing before with
  | nil => exact .refl policy before
  | cons source sources ih => exact (OutputPolicy.Adds.override before _).trans (ih _)

theorem writeColumn_adds (first? : Option Row) (before : FieldMap) (f : PlannedField) :
    policy.Adds (PlannedField.copiedNames [f]) before (writeColumn policy first? before f) := by
  obtain ⟨form, hidden⟩ := f
  cases form with
  | column c =>
    cases hidden with
    | true => exact .refl policy before
    | false => exact .write before c.name _
  | «alias» name e => exact .refl policy before
  | derived name e => exact .refl policy before

theorem writeColumns_adds (first? : Option Row) (before : FieldMap) (fields : List PlannedField) :
    policy.Adds (PlannedField.copiedNames fields) before
      (fields.foldl (writeColumn policy first?) before) := by
  induction fields generalizing before with
  | nil => exact .refl policy before
  | cons f fields ih =>
    have hnames : PlannedField.copiedNames (f :: fields) =
        PlannedField.copiedNames [f] ++ PlannedField.copiedNames fields := by
      rw [PlannedField.copiedNames, ← List.singleton_append, List.filter_append,
        PlannedField.written_append]
      rfl
    rw [hnames]
    exact (writeColumn_adds first? before f).trans (ih _)

theorem writeExpression_adds {a b : Assembly} {f : PlannedField}
    (h : writeExpression policy s window a f = .ok b) :
    policy.Adds (PlannedField.evaluatedNames [f]) a.output b.output := by
  rw [writeExpression_eq_settled] at h
  obtain ⟨v?, hv, rfl⟩ := Outcome.map_eq_ok.mp h
  obtain ⟨form, hidden⟩ := f
  cases hidden with
  | true =>
    cases form <;> exact .refl policy a.output
  | false =>
    cases form with
    | column c =>
      cases hv
      exact .refl policy a.output
    | «alias» name e => exact .settled hv a.output name
    | derived name e => exact .settled hv a.output name

theorem writeExpressions_adds {fields : List PlannedField} {a b : Assembly}
    (h : fields.foldlM (writeExpression policy s window) a = .ok b) :
    policy.Adds (PlannedField.evaluatedNames fields) a.output b.output := by
  refine Outcome.foldlM_induction
    (motive := fun done (c : Assembly) =>
      policy.Adds (PlannedField.evaluatedNames done) a.output c.output)
    (.refl policy a.output) ?_ h
  intro done f _ c c' _ ih hstep
  have hnames : PlannedField.evaluatedNames (done ++ [f]) =
      PlannedField.evaluatedNames done ++ PlannedField.evaluatedNames [f] := by
    rw [PlannedField.evaluatedNames, List.filter_append, PlannedField.written_append]
    rfl
  rw [hnames]
  exact ih.trans (writeExpression_adds hstep)

/-- What the star copies and the names of its replacements are the keys of the star. -/
theorem mem_starKeys {first? : Option Row} {k : String} :
    k ∈ p.starKeys first? ↔
      k ∈ (p.starFields first?).keySet ∨ k ∈ p.replacements.map Replacement.name := by
  unfold starKeys starFields replacements
  cases p.star with
  | none => simp
  | some star => cases first? <;> simp

theorem mem_sourceKeys {row : Row} {k : String} :
    k ∈ p.sourceKeys (some row) ↔
      k ∈ p.sourceStars.flatMap fun source => (row.sourceFields source).keys := by
  simp [sourceKeys, KeyedMap.keySet]

theorem keySet_dropHidden (p : Plan) (output : FieldMap) :
    (p.dropHidden output).keySet =
      output.keySet \ {k | k ∈ p.hiddenNames ∧ k ∉ PlannedField.written p.fields} := by
  ext k
  have hwrites : p.writes k = false ↔ k ∉ PlannedField.written p.fields := by
    rw [← p.writes_iff, Bool.not_eq_true]
  rw [Set.mem_sdiff, KeyedMap.mem_keySet, KeyedMap.mem_keySet, get?_dropHidden, Set.mem_ofPred_eq,
    ← hwrites]
  split
  · rename_i hdropped
    simp [hdropped]
  · rename_i hkept
    exact ⟨fun h => ⟨h, hkept⟩, And.left⟩

/-- Before hidden names are dropped, the phases have added the keys of the stars and the names of
the written fields. -/
theorem assemble_adds (hmeta : policy.attachMetadata = false) {e : Event}
    (h : p.assemble policy s window = .ok e) :
    ∃ output : FieldMap, e.fields = p.dropHidden output ∧
      (∀ k ∈ output.keySet, k ∈ p.starKeys s.first? ∪ p.sourceKeys s.first? ∪
        {k | k ∈ PlannedField.written p.fields}) ∧
      (policy.writeNulls = true → ∀ k ∈ p.starKeys s.first? ∪ p.sourceKeys s.first? ∪
        {k | k ∈ PlannedField.written p.fields}, k ∈ output.keySet) := by
  obtain ⟨replaced, hreplaced, h⟩ := Outcome.bind_eq_ok.mp h
  obtain ⟨a, ha, he⟩ := Outcome.bind_eq_ok.mp h
  obtain ⟨sources, hsources, hadded⟩ : ∃ sources : List String,
      (∀ k, k ∈ p.sourceKeys s.first? ↔ k ∈ sources) ∧
        policy.Adds sources replaced (p.writeSources s.first? replaced) := by
    cases s.first? with
    | none => exact ⟨[], by simp [sourceKeys], .refl policy replaced⟩
    | some row => exact ⟨_, fun _ => mem_sourceKeys, writeSources_adds row replaced⟩
  have hall := (((writeReplacements_adds hreplaced).trans hadded).trans
    (writeColumns_adds s.first? _ p.fields)).trans (writeExpressions_adds ha)
  have hnames : ∀ k, k ∈ p.starKeys s.first? ∪ p.sourceKeys s.first? ∪
        {k | k ∈ PlannedField.written p.fields} ↔
      k ∈ (p.starFields s.first?).keySet ∨ k ∈ p.replacements.map Replacement.name ++ sources ++
        PlannedField.copiedNames p.fields ++ PlannedField.evaluatedNames p.fields := by
    intro k
    simp only [Set.mem_union, Set.mem_ofPred_eq, mem_starKeys, hsources, List.mem_append,
      PlannedField.mem_written_iff, or_assoc]
  refine ⟨a.output, ?_, fun k hk => (hnames k).mpr (hall.within k hk),
    fun hwrite k hk => hall.all hwrite k ((hnames k).mp hk)⟩
  cases he
  simp [attach, hmeta]

end Plan

/-- The keys of the event made from a row, or from a group whose first row is given. While nulls are
written they are the output keys; otherwise some may be missing. No name that only hidden fields
have is among them, and what is neither written nor replaced is a field of the first row. -/
structure Plan.HasKeys (p : Plan) (policy : OutputPolicy) (first? : Option Row) (e : Event) :
    Prop where
  exact : policy.writeNulls = true → e.fields.keySet = p.outputKeys first?
  within : e.fields.keySet ⊆ p.outputKeys first?
  hidden : ∀ k ∈ p.hiddenNames, k ∉ PlannedField.written p.fields → k ∉ e.fields.keySet
  copied : ∀ k ∈ e.fields.keySet, k ∉ PlannedField.written p.fields →
    (∀ r ∈ p.replacements, r.name ≠ k) → ∃ row ∈ first?, k ∈ row.allFields.keySet

/-- A key that no field and no replacement writes is one of the first row. -/
theorem Plan.mem_allFields_of_outputKeys {p : Plan} {first? : Option Row} {k : String}
    (h : k ∈ p.outputKeys first?) (hwritten : k ∉ PlannedField.written p.fields)
    (hreplaced : ∀ r ∈ p.replacements, r.name ≠ k) :
    ∃ row ∈ first?, k ∈ row.allFields.keySet := by
  obtain ⟨(hstar | ⟨row, hrow, source, _, hsource⟩) | hfield, _⟩ := h
  · rcases mem_starKeys.mp hstar with hcopied | hreplacement
    · unfold starFields at hcopied
      split at hcopied
      · rw [KeyedMap.keySet_filterKeys] at hcopied
        exact ⟨_, rfl, hcopied.1⟩
      · simp at hcopied
    · obtain ⟨r, hr, hname⟩ := List.mem_map.mp hreplacement
      exact absurd hname (hreplaced r hr)
  · exact ⟨row, hrow, row.keySet_sourceFields_subset source hsource⟩
  · exact absurd hfield hwritten

private theorem Plan.assemble_hasKeys {p : Plan} {policy : OutputPolicy}
    (hmeta : policy.attachMetadata = false) {s : Subject} {window : Option Window} {e : Event}
    (h : p.assemble policy s window = .ok e) : p.HasKeys policy s.first? e := by
  obtain ⟨output, he, hwithin, hall⟩ := assemble_adds hmeta h
  have hkeys : e.fields.keySet = output.keySet \
      {k | k ∈ p.hiddenNames ∧ k ∉ PlannedField.written p.fields} := by
    rw [he, keySet_dropHidden]
  have hsubset : e.fields.keySet ⊆ p.outputKeys s.first? := by
    rw [hkeys]
    exact Set.sdiff_subset_sdiff_left hwithin
  constructor
  · intro hwrite
    refine subset_antisymm hsubset ?_
    rw [hkeys]
    exact Set.sdiff_subset_sdiff_left (hall hwrite)
  · exact hsubset
  · intro k hk hwritten hmem
    rw [hkeys] at hmem
    exact hmem.2 ⟨hk, hwritten⟩
  · exact fun k hk => mem_allFields_of_outputKeys (hsubset hk)

namespace Projector

/-- Without metadata attached, every event that is made by name has the output keys of the plan:
from a row, and from a group of rows, which may be empty. -/
theorem project_keys {p : Projector} (hmeta : p.policy.attachMetadata = false) :
    (∀ row window e, p.projectRow row window = .ok (.event e) →
      p.plan.HasKeys p.policy (some row) e) ∧
    ∀ rows window e, p.projectGroup rows window = .ok e →
      p.plan.HasKeys p.policy rows.head? e := by
  constructor
  · intro row window e h
    unfold projectRow at h
    split at h
    · obtain ⟨t, _, ht⟩ := Outcome.map_eq_ok.mp h
      cases ht
    · obtain ⟨e', he, hsame⟩ := Outcome.map_eq_ok.mp h
      cases hsame
      exact Plan.assemble_hasKeys hmeta he
  · exact fun rows window e h => Plan.assemble_hasKeys hmeta h

/-- All fields but `c`, with `d` replaced by null, the column `a` and a hidden alias `b`. -/
def starAndHidden : Plan where
  fields := [⟨.column { name := "a" }, false⟩, ⟨.alias "b" (.column { name := "a" }), true⟩]
  star := some { except := ["c"], replace := [⟨"d", .literal .null⟩] }
  sourceStars := []
  aggregate := false
  layout := none

theorem project_keys_starAndHidden :
    let row := Row.event { fields := .ofList [("b", .integer 1), ("c", .integer 2)] }
    ∃ e, projectRow ⟨starAndHidden, ⟨false, true⟩⟩ row none = .ok (.event e) ∧
      e.fields.keys = ["a", "d"] ∧ starAndHidden.HasKeys ⟨false, true⟩ (some row) e :=
  ⟨_, rfl, rfl, (project_keys (p := ⟨starAndHidden, ⟨false, true⟩⟩) rfl).1 _ none _ rfl⟩

end Projector
end StreamSelect
