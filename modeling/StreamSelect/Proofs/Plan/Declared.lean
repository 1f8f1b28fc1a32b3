import StreamSelect.Plan.Compile
import StreamSelect.Proofs.Outcome

/-!
What a declaration adds to a plan under construction, part by part, and induction along the
declarations of a list that compiles.
-/
namespace StreamSelect

namespace Item

/-- The column that is copied, if the item is a bare column. -/
def copied? : Item → Option Column
  | .column c => some c
  | .computed (.column c) none => some c
  | _ => none

/-- The alias that the item declares. -/
def alias? : Item → Option String
  | .computed _ alias? => alias?
  | _ => none

/-- The item adds no field of its own. -/
def isStar : Item → Bool
  | .star _ _ => true
  | .sourceStar _ => true
  | _ => false

/-- The item is written under the next placeholder name. -/
def takesPlaceholder : Item → Bool
  | .computed (.column _) none => false
  | .computed (.call _ _) none => false
  | .computed _ none => true
  | _ => false

/-- The expressions that the item has evaluated. -/
def expressions : Item → List Expr
  | .computed e _ => [e]
  | .star _ replace => replace.map Prod.fst
  | _ => []

end Item

/-- The name under which the field is written, for copied columns and aliases. A hidden field is
not written, and the names of other expressions are not declared. -/
def Declaration.writtenName? (declaration : Declaration) : Option String :=
  if declaration.hidden then none
  else (declaration.item.copied?.map Column.name).or declaration.item.alias?

/-- The number of placeholder names that the declarations take. -/
def Declaration.placeholders (declarations : List Declaration) : Nat :=
  declarations.countP (·.item.takesPlaceholder)

/-- The names of the fields that are written, in order. -/
def PlannedField.written (fields : List PlannedField) : List String :=
  (fields.filter (!·.hidden)).map (·.outputName)

theorem PlannedField.written_cons (f : PlannedField) (fields : List PlannedField) :
    written (f :: fields) = (if f.hidden then [] else [f.outputName]) ++ written fields := by
  cases h : f.hidden <;> simp [written, h]

theorem PlannedField.written_append (fields others : List PlannedField) :
    written (fields ++ others) = written fields ++ written others := by
  simp [written]

theorem PlannedField.form_eq {f : PlannedField} {name : String} {e : Expr}
    (halias : f.alias? = some name) (he : f.expr? = some e) : f.form = .alias name e := by
  obtain ⟨form, hidden⟩ := f
  cases form with
  | column c => cases he
  | «alias» name' e' =>
    cases halias
    cases he
    rfl
  | derived name' e' => cases halias

theorem Plan.writes_iff (p : Plan) (name : String) :
    p.writes name = true ↔ name ∈ PlannedField.written p.fields := by
  simp [writes, PlannedField.written, and_assoc]

namespace Draft

/-- The field that a declaration adds, if it is not a star. -/
def planned? (d : Draft) (declaration : Declaration) : Option PlannedField :=
  match declaration.item with
  | .column c => some ⟨.column c, declaration.hidden⟩
  | .computed e (some name) => some ⟨.alias name (e.link d.aliases), declaration.hidden⟩
  | .computed (.column c) none => some ⟨.column c, declaration.hidden⟩
  | .computed (.call function args) none =>
    some ⟨.derived function ((Expr.call function args).link d.aliases), declaration.hidden⟩
  | .computed e none =>
    some ⟨.derived (placeholderName d.placeholders) (e.link d.aliases), declaration.hidden⟩
  | _ => none

/-- The alias that a declaration adds, with its linked expression. -/
def declared? (d : Draft) : Item → Option (String × Expr)
  | .computed e (some name) => some (name, e.link d.aliases)
  | _ => none

/-- The replacements that a declaration adds. -/
def replacing (d : Draft) : Item → List Replacement
  | .star _ replace => replace.map fun r => ⟨r.2, r.1.link d.aliases⟩
  | _ => []

variable {d d' : Draft} {declaration : Declaration}

theorem addStar_eq_ok {except : List String} {replace : List (Expr × String)}
    (h : d.addStar except replace = .ok d') :
    d' = { d with star := some ⟨(d.star.getD {}).except ++ except,
      (d.star.getD {}).replace ++ replace.map fun r => ⟨r.2, r.1.link d.aliases⟩⟩ } := by
  unfold addStar at h
  split at h
  · cases h
  · exact (Except.ok.inj h).symm

theorem addSourceStar_eq_ok {source : String} (h : d.addSourceStar source = .ok d') :
    ∃ sources, d' = { d with sourceStars := sources } := by
  unfold addSourceStar at h
  split at h
  · cases h
  · split at h
    · exact ⟨d.sourceStars, (Except.ok.inj h).symm⟩
    · exact ⟨_, (Except.ok.inj h).symm⟩

/-- What a declaration adds to a draft. Only stars change its stars. -/
structure Adds (d : Draft) (declaration : Declaration) (d' : Draft) : Prop where
  fields : d'.fields = d.fields ++ (d.planned? declaration).toList
  aliases : d'.aliases = (d.declared? declaration.item).toList ++ d.aliases
  replacements : (d'.star.map Star.replace).getD [] =
    (d.star.map Star.replace).getD [] ++ d.replacing declaration.item
  placeholders : d'.placeholders = d.placeholders + Declaration.placeholders [declaration]
  stars : declaration.item.isStar = false → d'.star = d.star ∧ d'.sourceStars = d.sourceStars

theorem Adds.of_add (h : d.add declaration = .ok d') : d.Adds declaration d' := by
  obtain ⟨item, hidden⟩ := declaration
  cases item with
  | column c =>
    cases h
    exact ⟨rfl, rfl, (List.append_nil _).symm, rfl, fun _ => ⟨rfl, rfl⟩⟩
  | computed e alias? =>
    cases alias? with
    | some name =>
      cases e <;> (cases h; exact ⟨rfl, rfl, (List.append_nil _).symm, rfl, fun _ => ⟨rfl, rfl⟩⟩)
    | none =>
      cases e <;> (cases h; exact ⟨rfl, rfl, (List.append_nil _).symm, rfl, fun _ => ⟨rfl, rfl⟩⟩)
  | star except replace =>
    rw [addStar_eq_ok h]
    refine ⟨(List.append_nil _).symm, rfl, ?_, rfl, fun hstar => by cases hstar⟩
    cases d.star <;> rfl
  | sourceStar source =>
    obtain ⟨sources, rfl⟩ := addSourceStar_eq_ok h
    exact ⟨(List.append_nil _).symm, rfl, (List.append_nil _).symm, rfl,
      fun hstar => by cases hstar⟩

/-- A copied column is a bare column of the list. -/
theorem copied?_of_planned? {f : PlannedField} {c : Column} (hf : d.planned? declaration = some f)
    (hc : f.form = .column c) : declaration.item.copied? = some c := by
  obtain ⟨item, hidden⟩ := declaration
  cases item with
  | column c' => cases hf; cases hc; rfl
  | computed e alias? =>
    cases alias? with
    | some name => cases hf; cases hc
    | none =>
      cases e with
      | column c' => cases hf; cases hc; rfl
      | _ => cases hf; cases hc
  | star except replace => cases hf
  | sourceStar source => cases hf

/-- What is computed is linked with the aliases declared so far, unless it is a bare column. -/
theorem planned?_computed {e : Expr} {alias? : Option String}
    (h : (Item.computed e alias?).copied? = none) (d : Draft) (hidden : Bool) :
    ∃ f, d.planned? ⟨.computed e alias?, hidden⟩ = some f ∧ f.hidden = hidden ∧
      f.alias? = alias? ∧ f.expr? = some (e.link d.aliases) := by
  cases alias? with
  | some name => exact ⟨⟨.alias name (e.link d.aliases), hidden⟩, by cases e <;> rfl, rfl, rfl, rfl⟩
  | none =>
    cases e with
    | column c => cases h
    | _ => exact ⟨_, rfl, rfl, rfl, rfl⟩

/-- A field whose name is not derived is written under the declared name. -/
theorem writtenName?_of_planned?
    (h : ∀ f, d.planned? declaration = some f → ∀ name e, f.form ≠ .derived name e) :
    PlannedField.written (d.planned? declaration).toList = declaration.writtenName?.toList := by
  obtain ⟨item, hidden⟩ := declaration
  cases item with
  | column c => cases hidden <;> rfl
  | computed e alias? =>
    cases alias? with
    | some name => cases hidden <;> cases e <;> rfl
    | none =>
      cases e with
      | column c => cases hidden <;> rfl
      | _ => exact absurd rfl (h _ rfl _ _)
  | star except replace => cases hidden <;> rfl
  | sourceStar source => cases hidden <;> rfl

/-- What a run of declarations has added to a draft: fields and aliases under the declared aliases,
one field for each declaration that is not a star, and replacements. -/
structure Extends (d : Draft) (declarations : List Declaration) (d' : Draft) : Prop where
  fields : ∃ added, d'.fields = d.fields ++ added ∧
    added.filterMap (·.alias?) = declarations.filterMap (·.item.alias?) ∧
    added.length = declarations.countP (!·.item.isStar)
  aliases : ∃ added, d'.aliases = added ++ d.aliases ∧
    added.map Prod.fst = (declarations.filterMap (·.item.alias?)).reverse
  replacements : ∃ added, (d'.star.map Star.replace).getD [] =
    (d.star.map Star.replace).getD [] ++ added

namespace Extends
variable {d'' : Draft} {declarations others : List Declaration}

theorem refl (d : Draft) : d.Extends [] d :=
  ⟨⟨[], by simp⟩, ⟨[], by simp⟩, ⟨[], by simp⟩⟩

theorem trans (h : d.Extends declarations d') (h' : d'.Extends others d'') :
    d.Extends (declarations ++ others) d'' := by
  obtain ⟨⟨fields, hfields, hnames, hlength⟩, ⟨aliases, haliases, hkeys⟩, ⟨replace, hreplace⟩⟩ := h
  obtain ⟨⟨fields', hfields', hnames', hlength'⟩, ⟨aliases', haliases', hkeys'⟩,
    ⟨replace', hreplace'⟩⟩ := h'
  refine ⟨⟨fields ++ fields', ?_, ?_, ?_⟩, ⟨aliases' ++ aliases, ?_, ?_⟩, ⟨replace ++ replace', ?_⟩⟩
  · rw [hfields', hfields, List.append_assoc]
  · rw [List.filterMap_append, List.filterMap_append, hnames, hnames']
  · rw [List.length_append, List.countP_append, hlength, hlength']
  · rw [haliases', haliases, List.append_assoc]
  · rw [List.map_append, List.filterMap_append, List.reverse_append, hkeys, hkeys']
  · rw [hreplace', hreplace, List.append_assoc]

/-- One declaration adds at most one field, with the alias that it declares. -/
theorem of_adds (h : d.Adds declaration d') : d.Extends [declaration] d' := by
  refine ⟨⟨_, h.fields, ?_⟩, ⟨_, h.aliases, ?_⟩, ⟨_, h.replacements⟩⟩
  · obtain ⟨item, hidden⟩ := declaration
    cases item with
    | column c => exact ⟨rfl, rfl⟩
    | computed e alias? =>
      cases alias? with
      | some name => cases e <;> exact ⟨rfl, rfl⟩
      | none => cases e <;> exact ⟨rfl, rfl⟩
    | star except replace => exact ⟨rfl, rfl⟩
    | sourceStar source => exact ⟨rfl, rfl⟩
  · obtain ⟨item, hidden⟩ := declaration
    cases item with
    | computed e alias? => cases alias? <;> rfl
    | _ => rfl

theorem of_run (h : declarations.foldlM add d = .ok d') : d.Extends declarations d' :=
  Outcome.foldlM_induction (motive := fun done b => d.Extends done b) (refl d)
    (fun _ _ _ _ _ _ ih hadd => ih.trans (of_adds (.of_add hadd))) h

end Extends

end Draft

namespace Plan
variable {declarations : List Declaration} {p : Plan}

theorem compile_eq_ok (h : compile declarations = .ok p) :
    ∃ d : Draft, declarations.foldlM Draft.add {} = .ok d ∧ p = d.finish := by
  unfold compile at h
  split at h
  · cases h
  · obtain ⟨d, hd, rfl⟩ := Outcome.map_eq_ok.mp h
    exact ⟨d, hd, rfl⟩

/-- A list is compiled up to a declaration, and then from there on. -/
theorem compile_split {before after : List Declaration} {declaration : Declaration}
    (h : compile (before ++ declaration :: after) = .ok p) :
    ∃ d d' last : Draft, before.foldlM Draft.add {} = .ok d ∧ d.add declaration = .ok d' ∧
      after.foldlM Draft.add d' = .ok last ∧ p = last.finish := by
  obtain ⟨last, hrun, rfl⟩ := compile_eq_ok h
  obtain ⟨d, d', hd, hd', hrest⟩ := Outcome.foldlM_eq_ok_split hrun
  exact ⟨d, d', last, hd, hd', hrest, rfl⟩

/-- A copied column of the plan is a bare column of the list. -/
theorem exists_copied_of_compile (h : compile declarations = .ok p) :
    ∀ f ∈ p.fields, ∀ c, f.form = .column c →
      ∃ declaration ∈ declarations, declaration.item.copied? = some c := by
  obtain ⟨d, hd, rfl⟩ := compile_eq_ok h
  refine Outcome.foldlM_induction
    (motive := fun done d => ∀ f ∈ d.fields, ∀ c, f.form = .column c →
      ∃ declaration ∈ done, declaration.item.copied? = some c) (by simp) ?_ hd
  intro done declaration _ d d' _ ih hadd f hf c hc
  rw [(Draft.Adds.of_add hadd).fields, List.mem_append, Option.mem_toList] at hf
  rcases hf with hf | hf
  · obtain ⟨earlier, hmem, hcopied⟩ := ih f hf c hc
    exact ⟨earlier, List.mem_append_left _ hmem, hcopied⟩
  · exact ⟨declaration, by simp, Draft.copied?_of_planned? hf hc⟩

/-- If no field has a derived name, the fields that are written have the declared names. -/
theorem written_names_of_compile (h : compile declarations = .ok p)
    (hderived : ∀ f ∈ p.fields, ∀ name e, f.form ≠ .derived name e) :
    PlannedField.written p.fields = declarations.filterMap Declaration.writtenName? := by
  obtain ⟨d, hd, rfl⟩ := compile_eq_ok h
  revert hderived
  refine Outcome.foldlM_induction
    (motive := fun done d => (∀ f ∈ d.fields, ∀ name e, f.form ≠ .derived name e) →
      PlannedField.written d.fields = done.filterMap Declaration.writtenName?)
    (fun _ => rfl) ?_ hd
  intro done declaration _ d d' _ ih hadd hderived
  rw [(Draft.Adds.of_add hadd).fields] at hderived ⊢
  have hold := ih fun f hf => hderived f (List.mem_append_left _ hf)
  have hnew := Draft.writtenName?_of_planned? fun f hf =>
    hderived f (List.mem_append_right _ (Option.mem_toList.mpr hf))
  rw [PlannedField.written_append, hold, hnew, List.filterMap_append]
  cases hname : declaration.writtenName? <;> simp [hname]

end Plan
end StreamSelect
