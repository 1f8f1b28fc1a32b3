import StreamSelect.Proofs.Plan.Layout
import StreamSelect.Proofs.Project.Slots

/-!
Projection by position and projection by name run in step. By position every written field has its
slot from the start; by name all columns are copied before the first expression is evaluated. What
keeps the two together is that the values placed so far, followed by the columns still to be placed,
are what the output shows.
-/
namespace StreamSelect.Layout
open PlannedField (written)

/-- The slots filled so far hold the values of the names `done`, and the output by name shows
these and the columns of the fields that are left. Both sides have stored the same aliases. -/
structure Mirrors (policy : OutputPolicy) (row : Row) (done : List String)
    (rest : List PlannedField) (f : Filling) (a : Plan.Assembly) : Prop where
  aliases : f.aliases = a.aliases
  values : ∃ placed : List Value, placed.length = done.length ∧
    f.values = placed ++ List.replicate (written rest).length .null ∧
    ∀ k, a.output.get? k =
      (KeyedMap.lookupEntry k (done.zip placed ++ Plan.copies (some row) rest)).bind policy.shown

section Step
variable {t : Tuple} {policy : OutputPolicy} {window : Option Window} {done : List String}
  {rest : List PlannedField} {f : Filling} {a : Plan.Assembly}

theorem lookup_placed {names : List String} {values : List Value} {k : String}
    (h : k ∉ names) : KeyedMap.lookupEntry k (names.zip values) = none :=
  KeyedMap.lookupEntry_eq_none fun hmem => h ((KeyedMap.keys_zip_sublist _ _).subset hmem)

private theorem lookup_next {names : List String} {values : List Value} {name : String} {v : Value}
    {tail : List (String × Value)} (h : name ∉ names) (k : String) :
    KeyedMap.lookupEntry k (names.zip values ++ (name, v) :: tail) =
      if k = name then some v else KeyedMap.lookupEntry k (names.zip values ++ tail) := by
  rw [KeyedMap.lookupEntry_append, KeyedMap.lookupEntry_append, KeyedMap.lookupEntry]
  by_cases hk : k = name
  · rw [if_pos hk, if_pos hk, hk, lookup_placed h, Option.none_or]
  · rw [if_neg hk, if_neg hk]

variable {row : Row} {field : PlannedField}

/-- A hidden field changes no value, whatever it stores as an alias. -/
private theorem Mirrors.hidden (h : Mirrors policy row done (field :: rest) f a)
    (hhidden : field.hidden = true) (aliases : FieldMap) :
    Mirrors policy row (done ++ written [field]) rest ⟨f.values, aliases⟩ ⟨a.output, aliases⟩ := by
  obtain ⟨placed, hlength, hvalues, houtput⟩ := h.values
  have hcopies : Plan.copies (some row) (field :: rest) = Plan.copies (some row) rest := by
    obtain ⟨form, hidden⟩ := field
    subst hhidden
    cases form <;> rfl
  rw [PlannedField.written_cons, hhidden] at hvalues ⊢
  refine ⟨rfl, placed, ?_, hvalues, ?_⟩
  · simpa [written] using hlength
  · simpa [written, hcopies] using houtput

/-- The slot of the next written field is blank. -/
private theorem Mirrors.set_null (h : Mirrors policy row done (field :: rest) f a)
    (hhidden : field.hidden = false) : f.values.set done.length .null = f.values := by
  obtain ⟨placed, hlength, hvalues, _⟩ := h.values
  rw [hvalues, PlannedField.written_cons, hhidden]
  simp [← hlength, List.replicate_succ]

/-- A written field places its value. -/
private theorem Mirrors.place (h : Mirrors policy row done (field :: rest) f a)
    (hhidden : field.hidden = false) {v : Value} {output : FieldMap} (aliases : FieldMap)
    (houtput : ∀ placed, (∀ k, a.output.get? k = (KeyedMap.lookupEntry k
        (done.zip placed ++ Plan.copies (some row) (field :: rest))).bind policy.shown) →
      ∀ k, output.get? k = (KeyedMap.lookupEntry k (done.zip placed ++
        (field.outputName, v) :: Plan.copies (some row) rest)).bind policy.shown) :
    Mirrors policy row (done ++ written [field]) rest ⟨f.values.set done.length v, aliases⟩
      ⟨output, aliases⟩ := by
  obtain ⟨placed, hlength, hvalues, hshown⟩ := h.values
  rw [PlannedField.written_cons, hhidden] at hvalues ⊢
  refine ⟨rfl, placed ++ [v], ?_, ?_, fun k => ?_⟩
  · simp [written, hlength]
  · simp [hvalues, ← hlength, List.replicate_succ]
  · rw [houtput placed hshown k]
    simp [written, List.zip_append hlength.symm]

private theorem fresh_of_nodup {name : String} {e : Expr}
    (h : (done ++ written (⟨.alias name e, false⟩ :: rest)).Nodup) :
    name ∉ done ∧ name ∉ written rest := by
  rw [PlannedField.written_cons] at h
  obtain ⟨_, hrest, hdisjoint⟩ := List.nodup_append.mp h
  exact ⟨fun hmem => hdisjoint name hmem name List.mem_cons_self rfl, (List.nodup_cons.mp hrest).1⟩

/-- Nothing is shown yet under the name of an expression that is still to be evaluated. -/
private theorem Mirrors.absent {name : String} {e : Expr}
    (h : Mirrors policy row done (⟨.alias name e, false⟩ :: rest) f a)
    (hnames : (done ++ written (⟨.alias name e, false⟩ :: rest)).Nodup) :
    a.output.get? name = none := by
  obtain ⟨hdone, hrest⟩ := fresh_of_nodup hnames
  obtain ⟨placed, _, _, hshown⟩ := h.values
  rw [hshown, KeyedMap.lookupEntry_append, lookup_placed hdone, Option.none_or]
  have hcopies : KeyedMap.lookupEntry name (Plan.copies (some row) rest) = none :=
    Plan.lookup_copies hrest
  exact congrArg (Option.bind · policy.shown) hcopies

/-- A written expression places its value. -/
private theorem Mirrors.evaluated {name : String} {e : Expr}
    (h : Mirrors policy row done (⟨.alias name e, false⟩ :: rest) f a)
    (hnames : (done ++ written (⟨.alias name e, false⟩ :: rest)).Nodup) {v : Value}
    {output : FieldMap} (aliases : FieldMap)
    (houtput : ∀ k, output.get? k = if k = name then policy.shown v else a.output.get? k) :
    Mirrors policy row (done ++ written [⟨.alias name e, false⟩]) rest
      ⟨f.values.set done.length v, aliases⟩ ⟨output, aliases⟩ := by
  refine h.place rfl aliases fun placed hshown k => ?_
  have hnext : KeyedMap.lookupEntry k
        (done.zip placed ++ (name, v) :: Plan.copies (some row) rest) =
      if k = name then some v
      else KeyedMap.lookupEntry k (done.zip placed ++ Plan.copies (some row) rest) :=
    lookup_next (fresh_of_nodup hnames).1 k
  rw [houtput, hshown]
  refine Eq.trans ?_ (congrArg (Option.bind · policy.shown) hnext.symm)
  split <;> rfl

section Field
variable {values : List Value} {aliases output : FieldMap} {hidden : Bool} {slot : Slot}
  {source : SlotSource}

/-- By name a column has been copied before, so only the slot changes. -/
private theorem Mirrors.step_column {c : Column}
    (h : Mirrors policy (.event t.toEvent) done (⟨.column c, hidden⟩ :: rest) ⟨values, aliases⟩
      ⟨output, aliases⟩)
    (hdistinct : Text.DistinctIgnoringCase t.schema) (hc : Resolved t.schema c)
    (hslot : slot = ⟨c.name, none, if hidden then none else some done.length,
      c.slotSource t.schema⟩) :
    Outcome.Agree (Mirrors policy (.event t.toEvent) (done ++ written [⟨.column c, hidden⟩]) rest)
      (fill policy t window ⟨values, aliases⟩ slot)
      (Plan.writeExpression policy (.row (.event t.toEvent)) window ⟨output, aliases⟩
        ⟨.column c, hidden⟩) := by
  have hvalue : slotValue policy t window aliases slot = .ok (t.field? c.name) :=
    slotValue_column hdistinct hc (by rw [hslot])
  rw [Plan.writeExpression, fill, hvalue, hslot]
  cases hidden with
  | true => cases t.field? c.name <;> exact .ok (h.hidden rfl aliases)
  | false =>
    have hnext : Mirrors policy (.event t.toEvent) (done ++ written [⟨.column c, false⟩]) rest
        ⟨values.set done.length ((t.field? c.name).getD .null), aliases⟩ ⟨output, aliases⟩ :=
      h.place rfl aliases fun placed hshown k => by
        rw [hshown, Plan.copies_column, Tuple.valueIn_toEvent hdistinct]
        rfl
    cases hfield : t.field? c.name with
    | none =>
      rw [hfield, Option.getD_none, h.set_null rfl] at hnext
      exact .ok hnext
    | some v =>
      rw [hfield] at hnext
      exact .ok hnext

/-- An expression that is left out has no value under its name, as the slot that stays null. -/
private theorem Mirrors.step_alias {name : String} {e : Expr}
    (h : Mirrors policy (.event t.toEvent) done (⟨.alias name e, hidden⟩ :: rest) ⟨values, aliases⟩
      ⟨output, aliases⟩)
    (hdistinct : Text.DistinctIgnoringCase t.schema) (hwidth : t.values.length = t.schema.length)
    (hnames : (done ++ written (⟨.alias name e, hidden⟩ :: rest)).Nodup)
    (hsource : e.slotSource? t.schema = some source)
    (hslot : slot = ⟨name, some name, if hidden then none else some done.length, source⟩) :
    Outcome.Agree
      (Mirrors policy (.event t.toEvent) (done ++ written [⟨.alias name e, hidden⟩]) rest)
      (fill policy t window ⟨values, aliases⟩ slot)
      (Plan.writeExpression policy (.row (.event t.toEvent)) window ⟨output, aliases⟩
        ⟨.alias name e, hidden⟩) := by
  have hvalue : slotValue policy t window aliases slot = policy.settle (some name) e
      (e.evaluate (.row (.event t.toEvent)) ⟨aliases, window⟩) := by
    rw [slotValue_alias hdistinct hwidth hsource (by rw [hslot]), hslot]
  rw [fill, hvalue, Plan.writeExpression_alias, hslot]
  cases hsettled : policy.settle (some name) e
    (e.evaluate (.row (.event t.toEvent)) ⟨aliases, window⟩) with
  | error fault => exact .error fault
  | ok value? =>
    cases hidden with
    | true =>
      cases value? with
      | none => exact .ok (h.hidden rfl aliases)
      | some v => exact .ok (h.hidden rfl (aliases.insert name v))
    | false =>
      cases value? with
      | none =>
        have hnull := OutputPolicy.shown_null (OutputPolicy.settle_eq_none hsettled).1
        have hshown : ∀ k, output.get? k =
            if k = name then policy.shown .null else output.get? k := by
          intro k
          split
          · rename_i hk
            rw [hk, hnull, h.absent hnames]
          · rfl
        have hnext := h.evaluated hnames aliases hshown
        rw [h.set_null rfl] at hnext
        exact .ok hnext
      | some v =>
        exact .ok (h.evaluated hnames (aliases.insert name v) (OutputPolicy.get?_write _ _ _))

end Field

/-- One slot and one field. -/
theorem Mirrors.step {source : SlotSource}
    (h : Mirrors policy (.event t.toEvent) done (field :: rest) f a)
    (hdistinct : Text.DistinctIgnoringCase t.schema) (hwidth : t.values.length = t.schema.length)
    (hcolumn : ∀ c, field.form = .column c → Resolved t.schema c)
    (hnames : (done ++ written (field :: rest)).Nodup)
    (hsource : field.slotSource? t.schema = some source) :
    Outcome.Agree (Mirrors policy (.event t.toEvent) (done ++ written [field]) rest)
      (fill policy t window f ⟨field.outputName, field.alias?,
        if field.hidden then none else some done.length, source⟩)
      (Plan.writeExpression policy (.row (.event t.toEvent)) window a field) := by
  obtain ⟨values, aliases⟩ := f
  obtain ⟨output, _⟩ := a
  obtain rfl := h.aliases
  obtain ⟨form, hidden⟩ := field
  cases form with
  | column c =>
    obtain rfl := Option.some.inj hsource
    exact h.step_column hdistinct (hcolumn c rfl) rfl
  | «alias» name e => exact h.step_alias hdistinct hwidth hnames hsource rfl
  | derived name e => cases hsource

/-- All slots and all fields, from a common state on. -/
theorem Mirrors.run {fields : List PlannedField} {slots : List Slot}
    (h : Mirrors policy (.event t.toEvent) done fields f a)
    (hdistinct : Text.DistinctIgnoringCase t.schema) (hwidth : t.values.length = t.schema.length)
    (hcolumn : ∀ field ∈ fields, ∀ c, field.form = .column c → Resolved t.schema c)
    (hnames : (done ++ written fields).Nodup)
    (hslots : slotsFrom? t.schema done.length fields = some slots) :
    Outcome.Agree (Mirrors policy (.event t.toEvent) (done ++ written fields) [])
      (slots.foldlM (fill policy t window) f)
      (fields.foldlM (Plan.writeExpression policy (.row (.event t.toEvent)) window) a) := by
  induction fields generalizing done slots f a with
  | nil =>
    obtain rfl := Option.some.inj hslots
    exact .ok (by simpa [written] using h)
  | cons field fields ih =>
    obtain ⟨source, rest, hsource, hrest, rfl⟩ := slotsFrom?_cons hslots
    obtain ⟨hfirst, hothers⟩ := List.forall_mem_cons.mp hcolumn
    have hsplit : done ++ written (field :: fields) =
        done ++ written [field] ++ written fields := by
      rw [List.append_assoc, ← PlannedField.written_append, List.singleton_append]
    have hlength : (done ++ written [field]).length =
        if field.hidden then done.length else done.length + 1 := by
      cases hhidden : field.hidden <;> simp [written, hhidden]
    rw [List.foldlM_cons, List.foldlM_cons]
    refine (h.step hdistinct hwidth hfirst hnames hsource).bind fun f' a' h' => ?_
    rw [hsplit] at hnames ⊢
    exact ih h' hothers hnames (by rw [hlength]; exact hrest)

end Step
end StreamSelect.Layout
