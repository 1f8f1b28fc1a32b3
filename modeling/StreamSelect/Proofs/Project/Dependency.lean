import StreamSelect.Proofs.Evaluation.Columns
import StreamSelect.Proofs.KeyedMap
import StreamSelect.Proofs.Plan.Declared
import StreamSelect.Proofs.Project.Phases
import StreamSelect.Proofs.Project.Shape

/-!
What a projection depends on. A list without stars, without removal of duplicates and without links
of its own reads the columns that it names and nothing else of the fields. Links are made by the
compilation; what they stand for was declared before, so its columns are named there.
-/
namespace StreamSelect

/-- The rows have one emitter, timestamp and metadata, and one value for each of the columns, where
a missing field is null. Their shapes may differ. -/
structure Row.AgreeOn (columns : List Column) (r r' : Row) : Prop where
  emitter : r.emitter = r'.emitter
  timestamp : r.timestamp = r'.timestamp
  metadata : r.metadata?.getD ∅ = r'.metadata?.getD ∅
  key : ∀ source key, r.meta? source key = r'.meta? source key
  value : ∀ c ∈ columns,
    (r.field? c.source c.name).getD .null = (r'.field? c.source c.name).getD .null

/-- All that the expression reads of a row it names: it has no star, removes no duplicates and is
written without links. -/
def Expr.readsByName (e : Expr) : Bool :=
  e.walk.all fun part =>
    match part with
    | .aliasRef _ _ => false
    | .star _ _ => false
    | .call function _ => !Text.sameIgnoringCase function "deduplicate"
    | _ => true

def Item.readsByName : Item → Bool
  | .column _ => true
  | .computed e _ => e.readsByName
  | .star _ _ => false
  | .sourceStar _ => false

theorem Item.not_isStar_of_readsByName {item : Item} (h : item.readsByName = true) :
    item.isStar = false := by
  cases item with
  | column c => rfl
  | computed e alias? => rfl
  | star except replace => cases h
  | sourceStar source => cases h

section Indifference
variable (r r' : Row)

/-- The expression does not tell the rows apart, whatever aliases are stored. -/
def Expr.Indifferent (e : Expr) : Prop :=
  ∀ scope, e.evaluate (.row r) scope = e.evaluate (.row r') scope

def PlannedField.Indifferent (f : PlannedField) : Prop :=
  match f.form with
  | .column c => c.valueIn (some r) = c.valueIn (some r')
  | .alias _ e => e.Indifferent r r'
  | .derived _ e => e.Indifferent r r'

/-- Nothing that the draft computes tells the rows apart. -/
structure Draft.Indifferent (d : Draft) : Prop where
  aliases : ∀ a ∈ d.aliases, a.2.Indifferent r r'
  fields : ∀ f ∈ d.fields, f.Indifferent r r'
  star : d.star = none
  sourceStars : d.sourceStars = []

end Indifference

variable {r r' : Row} {columns : List Column}

theorem Row.AgreeOn.valueIn (h : r.AgreeOn columns r') {c : Column} (hc : c ∈ columns) :
    c.valueIn (some r) = c.valueIn (some r') := h.value c hc

theorem Row.AgreeOn.metadataValue (h : r.AgreeOn columns r') (args : List Expr) :
    metadataValue args (some r) = metadataValue args (some r') := by
  simp only [StreamSelect.metadataValue, Option.bind_some, h.key, h.metadata]

namespace Expr

theorem indifferent_link_column (h : r.AgreeOn columns r') {aliases : Aliases}
    (haliases : ∀ a ∈ aliases, a.2.Indifferent r r') {c : Column} (hc : c ∈ columns) :
    (c.link aliases).Indifferent r r' := by
  intro scope
  unfold Column.link
  split
  · rename_i body _ hbody
    have hmem := KeyedMap.mem_of_lookupEntry hbody
    simp only [evaluate, haliases _ hmem scope]
  · simp only [evaluate, Subject.first?, h.valueIn hc]

/-- An expression that names what it reads does not tell rows apart that agree on its columns, once
its columns are linked to aliases that do not either. -/
theorem indifferent_link (h : r.AgreeOn columns r') {aliases : Aliases}
    (haliases : ∀ a ∈ aliases, a.2.Indifferent r r') {e : Expr} (hnames : e.readsByName = true)
    (hcolumns : ∀ c ∈ e.columns, c ∈ columns) : (e.link aliases).Indifferent r r' := by
  intro scope
  have hparts : e.Every
      (ReadsAlike (·.link aliases) (·.link aliases) scope scope (.row r) (.row r')) := by
    intro part hpart
    have hname := List.all_eq_true.mp hnames part hpart
    cases part with
    | column c =>
      have hc : c ∈ e.columns := List.mem_filterMap.mpr ⟨_, hpart, rfl⟩
      exact indifferent_link_column h haliases (hcolumns c hc) scope
    | aliasRef name body => cases hname
    | star except replace => cases hname
    | call function args =>
      refine ⟨fun _ => h.metadataValue _, fun hdeduplicate => ?_⟩
      simp [hdeduplicate] at hname
    | _ => trivial
  rw [link_eq_mapColumns]
  exact evaluate_of_readsAlike e rfl hparts (List.forall₂_cons.mpr ⟨hparts, .nil⟩)

end Expr

namespace Draft
variable {d d' : Draft} {declaration : Declaration}

theorem Indifferent.planned (hd : d.Indifferent r r') (h : r.AgreeOn columns r')
    (hnames : declaration.item.readsByName = true)
    (hcolumns : ∀ c ∈ declaration.item.columns, c ∈ columns) {f : PlannedField}
    (hf : d.planned? declaration = some f) : f.Indifferent r r' := by
  obtain ⟨item, hidden⟩ := declaration
  cases item with
  | column c =>
    cases hf
    exact h.valueIn (hcolumns c List.mem_cons_self)
  | computed e alias? =>
    have hlinked : (e.link d.aliases).Indifferent r r' :=
      Expr.indifferent_link h hd.aliases hnames hcolumns
    cases alias? with
    | some name =>
      cases hf
      exact hlinked
    | none =>
      cases e with
      | column c =>
        cases hf
        exact h.valueIn (hcolumns c List.mem_cons_self)
      | _ =>
        cases hf
        exact hlinked
  | star except replace => cases hnames
  | sourceStar source => cases hnames

theorem Indifferent.declared (hd : d.Indifferent r r') (h : r.AgreeOn columns r') {item : Item}
    (hnames : item.readsByName = true) (hcolumns : ∀ c ∈ item.columns, c ∈ columns)
    {a : String × Expr} (ha : d.declared? item = some a) : a.2.Indifferent r r' := by
  cases item with
  | computed e alias? =>
    cases alias? with
    | none => cases ha
    | some name =>
      cases ha
      exact Expr.indifferent_link h hd.aliases hnames hcolumns
  | column c => cases ha
  | star except replace => cases ha
  | sourceStar source => cases ha

theorem Indifferent.add (hd : d.Indifferent r r') (h : r.AgreeOn columns r')
    (hadd : d.add declaration = .ok d') (hnames : declaration.item.readsByName = true)
    (hcolumns : ∀ c ∈ declaration.item.columns, c ∈ columns) : d'.Indifferent r r' := by
  have hadds := Adds.of_add hadd
  obtain ⟨hstar, hsources⟩ := hadds.stars (Item.not_isStar_of_readsByName hnames)
  constructor
  · intro a ha
    rw [hadds.aliases, List.mem_append, Option.mem_toList] at ha
    rcases ha with hnew | hold
    · exact hd.declared h hnames hcolumns hnew
    · exact hd.aliases a hold
  · intro f hf
    rw [hadds.fields, List.mem_append, Option.mem_toList] at hf
    rcases hf with hold | hnew
    · exact hd.fields f hold
    · exact hd.planned h hnames hcolumns hnew
  · rw [hstar, hd.star]
  · rw [hsources, hd.sourceStars]

end Draft

namespace Plan
variable {p : Plan} {policy : OutputPolicy} {window : Option Window}

/-- A compiled list does not tell rows apart that agree on the columns it names. -/
theorem compile_indifferent {declarations : List Declaration} (hp : compile declarations = .ok p)
    (hnames : ∀ d ∈ declarations, d.item.readsByName = true)
    (h : r.AgreeOn (declarations.flatMap (·.item.columns)) r') :
    (∀ f ∈ p.fields, f.Indifferent r r') ∧ p.star = none ∧ p.sourceStars = [] := by
  obtain ⟨d, hd, rfl⟩ := compile_eq_ok hp
  have hdraft : d.Indifferent r r' := by
    refine Outcome.foldlM_induction (motive := fun _ (d : Draft) => d.Indifferent r r')
      ⟨by simp, by simp, rfl, rfl⟩ ?_ hd
    intro done declaration rest d d' hsplit ih hadd
    have hmem : declaration ∈ declarations := by rw [hsplit]; simp
    exact ih.add h hadd (hnames _ hmem) fun c hc => List.mem_flatMap.mpr ⟨_, hmem, hc⟩
  exact ⟨hdraft.fields, hdraft.star, hdraft.sourceStars⟩

theorem writeColumn_indifferent {f : PlannedField} (hf : f.Indifferent r r')
    (output : FieldMap) :
    writeColumn policy (some r) output f = writeColumn policy (some r') output f := by
  obtain ⟨form, hidden⟩ := f
  cases form with
  | column c =>
    have hvalue : c.valueIn (some r) = c.valueIn (some r') := hf
    simp only [writeColumn, hvalue]
  | «alias» name e => rfl
  | derived name e => rfl

theorem writeExpression_indifferent {f : PlannedField} (hf : f.Indifferent r r') (a : Assembly) :
    writeExpression policy (.row r) window a f = writeExpression policy (.row r') window a f := by
  obtain ⟨form, hidden⟩ := f
  cases form with
  | column c => rfl
  | «alias» name e =>
    have he : e.Indifferent r r' := hf
    rw [writeExpression_alias, writeExpression_alias, he]
  | derived name e =>
    have he : e.Indifferent r r' := hf
    rw [writeExpression_derived, writeExpression_derived, he]

theorem assemble_indifferent (hfields : ∀ f ∈ p.fields, f.Indifferent r r') (hstar : p.star = none)
    (hsources : p.sourceStars = []) (h : r.AgreeOn columns r') :
    p.assemble policy (.row r) window = p.assemble policy (.row r') window := by
  have hcolumns : p.fields.foldl (writeColumn policy (some r)) ∅ =
      p.fields.foldl (writeColumn policy (some r')) ∅ :=
    List.foldl_ext _ _ _ fun output f hf => writeColumn_indifferent (hfields f hf) output
  have hexpressions : ∀ a, p.fields.foldlM (writeExpression policy (.row r) window) a =
      p.fields.foldlM (writeExpression policy (.row r') window) a :=
    Outcome.foldlM_congr fun a f hf => writeExpression_indifferent (hfields f hf) a
  rw [assemble_of_no_star hstar hsources, assemble_of_no_star hstar hsources]
  simp only [Subject.first?, Option.map_some, Option.bind_some, hcolumns, hexpressions, h.emitter,
    h.timestamp, h.metadata]

end Plan

/-- Events that differ in their fields alone agree where look-ups find one value. -/
theorem Event.agreeOn {e : Event} {fields : FieldMap}
    (h : ∀ c ∈ columns, (e.fields.find? c.name).getD .null = (fields.find? c.name).getD .null) :
    (Row.event e).AgreeOn columns (.event { e with fields }) :=
  ⟨rfl, rfl, rfl, fun _ _ => rfl, h⟩

namespace Projector

/-- A projection depends on the columns that the list names. For a list without stars, without
removal of duplicates and without links of its own, rows of any shape that agree on them and on
metadata, emitter and timestamp have one outcome, aggregates or not. So a field that is null may as
well be missing if no other key matches its key up to case, and fields under keys to which no column
resolves may be anything. -/
theorem project_agreeOn {declarations : List Declaration} {p : Plan}
    (hp : Plan.compile declarations = .ok p)
    (hnames : ∀ d ∈ declarations, d.item.readsByName = true) (policy : OutputPolicy) :
    (∀ r r' : Row, r.AgreeOn (declarations.flatMap (·.item.columns)) r' →
      project ⟨p, policy⟩ (.row r) = project ⟨p, policy⟩ (.row r')) ∧
    (∀ (e : Event) (key : String),
      (∀ k ∈ e.fields.keys, Text.sameIgnoringCase k key = false) →
        project ⟨p, policy⟩ (.row (.event e)) =
          project ⟨p, policy⟩
            (.row (.event { e with fields := e.fields.insert key .null }))) ∧
    (∀ (e : Event) (fields : FieldMap) (keep : String → Bool),
      (∀ c ∈ declarations.flatMap (·.item.columns), ∀ k,
        e.fields.resolve? c.name = some k ∨ fields.resolve? c.name = some k → keep k = true) →
      e.fields.filterKeys keep = fields.filterKeys keep →
        project ⟨p, policy⟩ (.row (.event e)) =
          project ⟨p, policy⟩ (.row (.event { e with fields }))) := by
  have hagree : ∀ r r' : Row, r.AgreeOn (declarations.flatMap (·.item.columns)) r' →
      project ⟨p, policy⟩ (.row r) = project ⟨p, policy⟩ (.row r') := by
    intro r r' h
    obtain ⟨hfields, hstar, hsources⟩ := Plan.compile_indifferent hp hnames h
    have hlayout : p.layout = none := by
      obtain ⟨d, _, rfl⟩ := Plan.compile_eq_ok hp
      rfl
    have hrow : ∀ row : Row, projectRow ⟨p, policy⟩ row none =
        .event <$> p.assemble policy (.row row) none :=
      fun _ => projectRow_named (fun _ _ => hlayout) none
    simp only [project, projectGroup, Plan.assemble_singleton, hrow,
      Plan.assemble_indifferent hfields hstar hsources h]
  refine ⟨hagree, fun e key hkey => ?_, fun e fields keep hkeep hsame => ?_⟩
  · refine hagree _ _ (Event.agreeOn fun c _ => ?_)
    rcases KeyedMap.find?_insert_of_unmatched .null hkey c.name with h | ⟨h, hnone⟩
    · rw [h]
    · rw [h, hnone]
      rfl
  · refine hagree _ _ (Event.agreeOn fun c hc => ?_)
    have hleft := KeyedMap.find?_filterKeys fun k hk => hkeep c hc k (.inl hk)
    have hright := KeyedMap.find?_filterKeys fun k hk => hkeep c hc k (.inr hk)
    rw [← hleft, hsame, hright]

/-- A bare column, an alias, a sum that refers to it, and a metadata key. -/
def totalAndTopic : List Declaration := [
  { item := .column { name := "b" } },
  { item := .computed (.column { name := "a" }) (some "x") },
  { item := .computed (.binary (.arithmetic .add) (.column { name := "x" })
      (.column { name := "b" })) (some "total") },
  { item := .computed (.call "META" [.column { name := "topic" }]) none }]

/-- An event, and a tuple that lacks one of its fields, which is null, and another one, which is not
named. -/
theorem project_agreeOn_totalAndTopic :
    ∃ p, Plan.compile totalAndTopic = .ok p ∧ ∀ policy,
      project ⟨p, policy⟩ (.row (.event {
        emitter := "s"
        fields := .ofList [("a", .null), ("b", .integer 2), ("c", .integer 3)] })) =
      project ⟨p, policy⟩ (.row (.tuple {
        emitter := "s"
        schema := ["b"]
        values := [.integer 2] })) := by
  have hcolumns : totalAndTopic.flatMap (·.item.columns) =
      [{ name := "b" }, { name := "a" }, { name := "x" }, { name := "b" }, { name := "topic" }] :=
    rfl
  refine ⟨_, rfl, fun policy => ?_⟩
  refine (@project_agreeOn totalAndTopic _ rfl (by decide) policy).1 _ _ ?_
  refine ⟨rfl, rfl, rfl, fun _ _ => rfl, ?_⟩
  rw [hcolumns]
  simp only [List.forall_mem_cons]
  exact ⟨rfl, rfl, rfl, rfl, rfl, by simp⟩

end Projector
end StreamSelect
