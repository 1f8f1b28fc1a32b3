import StreamSelect.Proofs.Evaluation.Congruence
import StreamSelect.Proofs.Expr.Reach

/-!
Rows that answer alike what an expression asks of them. The expression has one value on all of them,
whatever their shapes are. It asks for the columns and metadata keys that it names, for all fields
and for all metadata; rows after the first are asked only by aggregates.
-/
namespace StreamSelect

/-- Both rows give the same answers to what an expression can ask. Their emitters, timestamps and
the fields of one source may differ. -/
structure Row.Alike (r r' : Row) : Prop where
  field : ∀ source name, r.field? source name = r'.field? source name
  key : ∀ source key, r.meta? source key = r'.meta? source key
  metadata : r.metadata?.getD ∅ = r'.metadata?.getD ∅
  fields : r.allFields = r'.allFields

theorem Row.Alike.refl (r : Row) : r.Alike r :=
  ⟨fun _ _ => rfl, fun _ _ => rfl, rfl, rfl⟩

/-- Two rows, of which either may be missing, give the same answers to an expression that names no
other columns and metadata keys than these. What a row lacks counts as null or as empty, and a
missing row lacks everything. -/
structure Row.AlikeOn (columns : List Column) (a b : Option Row) : Prop where
  value : ∀ c ∈ columns, c.valueIn a = c.valueIn b
  key : ∀ c ∈ columns, (a.bind (·.meta? c.source c.name)).getD .null =
    (b.bind (·.meta? c.source c.name)).getD .null
  metadata : (a.bind Row.metadata?).getD ∅ = (b.bind Row.metadata?).getD ∅
  fields : (a.map Row.allFields).getD ∅ = (b.map Row.allFields).getD ∅

namespace Row.AlikeOn
variable {columns : List Column} {a b : Option Row}

theorem refl (columns : List Column) (a : Option Row) : AlikeOn columns a a :=
  ⟨fun _ _ => rfl, fun _ _ => rfl, rfl, rfl⟩

/-- An event without data gives the answers of a row that is missing. -/
theorem missing (columns : List Column) : AlikeOn columns none (some (.event {})) :=
  ⟨fun _ _ => rfl, fun _ _ => rfl, rfl, rfl⟩

theorem of_alike (h : Option.Rel Row.Alike a b) (columns : List Column) : AlikeOn columns a b := by
  cases h with
  | none => exact refl columns none
  | some hr =>
    constructor
    · intro c _
      simp only [Column.valueIn, Option.bind_some, hr.field]
    · intro c _
      simp only [Option.bind_some, hr.key]
    · exact hr.metadata
    · exact hr.fields

theorem mono {columns' : List Column} (h : AlikeOn columns a b) (hsub : columns' ⊆ columns) :
    AlikeOn columns' a b :=
  ⟨fun c hc => h.value c (hsub hc), fun c hc => h.key c (hsub hc), h.metadata, h.fields⟩

/-- The arguments of a metadata call name the key among their columns. -/
theorem metadataValue {args : List Expr} (h : AlikeOn (args.flatMap Expr.reachedColumns) a b) :
    metadataValue args a = metadataValue args b := by
  match args with
  | [] => rfl
  | [e] =>
    cases e with
    | column c =>
      have hc : c ∈ [Expr.column c].flatMap Expr.reachedColumns := by
        simpa using Expr.mem_reachedColumns_column c
      simp only [StreamSelect.metadataValue, h.key c hc]
    | star except replace => simp only [StreamSelect.metadataValue, h.metadata]
    | _ => rfl
  | _ :: _ :: _ => simp only [StreamSelect.metadataValue]

end Row.AlikeOn

/-- The first rows are alike, and so are the rows that aggregates run over, one by one. -/
structure Subject.Alike (s t : Subject) : Prop where
  first : Option.Rel Row.Alike s.first? t.first?
  rows : List.Forall₂ Row.Alike s.rows t.rows

theorem Subject.Alike.row {r r' : Row} (h : r.Alike r') : Subject.Alike (.row r) (.row r') :=
  ⟨.some h, .cons h .nil⟩

/-- The first rows are alike to the expression. If it calls an aggregate function, so are the rows
one by one. -/
structure Subject.AlikeFor (e : Expr) (s t : Subject) : Prop where
  first : Row.AlikeOn e.reachedColumns s.first? t.first?
  rows : e.reachesAggregate = true →
    List.Forall₂ (fun r r' => Row.AlikeOn e.reachedColumns (some r) (some r')) s.rows t.rows

namespace Subject.AlikeFor
variable {e part : Expr} {s t : Subject}

theorem row {r r' : Row} (h : Row.AlikeOn e.reachedColumns (some r) (some r')) :
    AlikeFor e (.row r) (.row r') :=
  ⟨h, fun _ => .cons h .nil⟩

theorem descend (h : AlikeFor e s t) (hpart : part ∈ e.parts) : AlikeFor part s t where
  first := h.first.mono (Expr.reachedColumns_subset_of_mem_parts hpart)
  rows haggregate := (h.rows (Expr.reachesAggregate_of_mem_parts hpart haggregate)).imp
    fun _ _ hr => hr.mono (Expr.reachedColumns_subset_of_mem_parts hpart)

end Subject.AlikeFor

namespace Expr

/-- An expression has the same outcome on subjects that are alike to it. -/
theorem evaluate_of_alikeFor {s t : Subject} {e : Expr} (h : s.AlikeFor e t) (scope : Scope) :
    e.evaluate s scope = e.evaluate t scope := by
  -- Both subjects stay general: the argument of an aggregate is evaluated on single rows.
  induction e using induct generalizing s t with
  | column c => simp only [evaluate, h.first.value c (mem_reachedColumns_column c)]
  | aliasRef name body ih => simp only [evaluate, ih (h.descend (by simp [parts]))]
  | literal l => rfl
  | binary op left right ihl ihr =>
    simp only [evaluate, ihl (h.descend (by simp [parts])), ihr (h.descend (by simp [parts]))]
  | unary op operand ih => simp only [evaluate, ih (h.descend (by simp [parts]))]
  | call function args ih =>
    have hrows (haggregate : Function.namesAggregate function = true) :=
      h.rows (reachesAggregate_call args haggregate)
    have hargs : ∀ a ∈ args, a.evaluate s scope = a.evaluate t scope :=
      fun a ha => ih a ha (h.descend ha)
    have hargsRows : Function.namesAggregate function = true → ∀ a ∈ args,
        List.Forall₂ (fun r r' => a.evaluate (.row r) scope = a.evaluate (.row r') scope)
          s.rows t.rows :=
      fun haggregate a ha => (hrows haggregate).imp fun r r' hr =>
        ih a ha (.row (hr.mono (reachedColumns_subset_of_mem_parts ha)))
    have hnamed : args.flatMap reachedColumns ⊆ (call function args).reachedColumns := by
      intro c hc
      obtain ⟨a, ha, hca⟩ := List.mem_flatMap.mp hc
      exact reachedColumns_subset_of_mem_parts (e := .call function args) ha hca
    simpa using evaluate_call_congr (f := id) (g := id) hargs hargsRows
      (fun haggregate _ => (hrows haggregate).imp fun _ _ hr => hr.fields) rfl
      fun _ => by simpa using (h.first.mono hnamed).metadataValue
  | case operand branches otherwise iho ihb ihe =>
    have hoperand := evaluateOption_congr (f := id) (g := id) fun e he =>
      iho e he (h.descend (by simp [parts, Option.mem_def.mp he]))
    have hbranches := fun v => evaluateBranches_congr (f := id) (g := id) v fun b hb =>
      ⟨(ihb b hb).1 (h.descend (branch_mem_parts hb operand otherwise).1),
        (ihb b hb).2 (h.descend (branch_mem_parts hb operand otherwise).2)⟩
    have hotherwise := evaluateOption_congr (f := id) (g := id) fun e he =>
      ihe e he (h.descend (by simp [parts, Option.mem_def.mp he]))
    simp only [Option.map_id, Prod.map_id, List.map_id, id_eq] at hbranches hoperand hotherwise
    simp only [evaluate, hbranches, hoperand, hotherwise]
  | member base key ih => simp only [evaluate, ih (h.descend (by simp [parts]))]
  | element base position ih => simp only [evaluate, ih (h.descend (by simp [parts]))]
  | slice base start stop ih => simp only [evaluate, ih (h.descend (by simp [parts]))]
  | star except replace ih =>
    have hreplace := fun fields => evaluateReplacements_congr (f := id) (g := id) fields
      fun r hr => ih r hr (h.descend (List.mem_map_of_mem hr))
    simp only [Prod.map_id, List.map_id] at hreplace
    simp only [evaluate, h.first.fields, hreplace]

/-- Rows that are alike to every expression need not be told apart for one. -/
theorem evaluate_alike {s t : Subject} (h : s.Alike t) (e : Expr) (scope : Scope) :
    e.evaluate s scope = e.evaluate t scope :=
  evaluate_of_alikeFor
    ⟨.of_alike h.first _, fun _ => h.rows.imp fun _ _ hr => .of_alike (.some hr) _⟩ scope

end Expr
end StreamSelect
