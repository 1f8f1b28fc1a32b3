import StreamSelect.Proofs.Evaluation.Congruence
import StreamSelect.Proofs.Expr.Columns

/-!
Replacement of columns by expressions of one value keeps the value of an expression, whatever the
two scopes have stored under aliases. Only the metadata call reads columns as they are written.
-/
namespace StreamSelect.Expr

/-- Both expressions have one outcome, on the subject and on each of its rows. -/
def Same (s : Subject) (scope scope' : Scope) (e e' : Expr) : Prop :=
  e.evaluate s scope = e'.evaluate s scope' ∧
    ∀ r ∈ s.rows, e.evaluate (.row r) scope = e'.evaluate (.row r) scope'

/-- The columns that a metadata call of the expression names are in the set. -/
def KeysIn (keys : Column → Prop) (e : Expr) : Prop :=
  e.Every fun part => ∀ function c, part = .call function [.column c] →
    Function.ofName? function = some .metadata → keys c

variable {f g : Column → Expr} {s : Subject} {scope scope' : Scope} {e e' : Expr}

theorem Same.on_row (h : Same s scope scope' e e') {r : Row} (hr : r ∈ s.rows) :
    Same (.row r) scope scope' e e' :=
  ⟨h.2 r hr, fun r' hr' => by rw [List.mem_singleton.mp hr']; exact h.2 r hr⟩

private theorem metadataValue_mapColumns (args : List Expr) (row? : Option Row)
    (hkeys : ∀ c, args = [.column c] → f c = .column c ∧ g c = .column c) :
    metadataValue (args.map (mapColumns f)) row? =
      metadataValue (args.map (mapColumns g)) row? := by
  match args with
  | [] => rfl
  | [e] =>
    cases e with
    | column c =>
      obtain ⟨hf, hg⟩ := hkeys c rfl
      simp only [List.map_cons, mapColumns, hf, hg]
      rfl
    | _ => rfl
  | _ :: _ :: _ => simp [metadataValue]

/-- What a part of an expression reads itself is the same on two subjects: the value put in for a
column, a metadata key, or whole rows. A link has no such part. -/
def ReadsAlike (f g : Column → Expr) (scope scope' : Scope) (s t : Subject) : Expr → Prop
  | .column c => (f c).evaluate s scope = (g c).evaluate t scope'
  | .aliasRef _ _ => False
  | .call function args =>
    (Function.ofName? function = some .metadata → metadataValue (args.map (mapColumns f)) s.first? =
      metadataValue (args.map (mapColumns g)) t.first?) ∧
    (Text.sameIgnoringCase function "deduplicate" = true →
      List.Forall₂ (fun r r' : Row => r.allFields = r'.allFields) s.rows t.rows)
  | .star _ _ => (s.first?.map Row.allFields).getD ∅ = (t.first?.map Row.allFields).getD ∅
  | _ => True

/-- An expression depends on the subject, on each of its rows and on the scope through what its
parts read. -/
theorem evaluate_of_readsAlike {t : Subject} (e : Expr) (hwindow : scope.window = scope'.window)
    (h : e.Every (ReadsAlike f g scope scope' s t))
    (hrows : List.Forall₂ (fun r r' => e.Every (ReadsAlike f g scope scope' (.row r) (.row r')))
      s.rows t.rows) :
    (e.mapColumns f).evaluate s scope = (e.mapColumns g).evaluate t scope' := by
  induction e using induct generalizing s t with
  | column c => exact (every_column c).mp h
  | aliasRef name body ih => exact ((every_aliasRef name body).mp h).elim
  | literal l => rfl
  | binary op left right ihl ihr =>
    simp only [every_binary] at h hrows
    simp only [mapColumns, evaluate, ihl h.2.1 (hrows.imp fun _ _ hr => hr.2.1),
      ihr h.2.2 (hrows.imp fun _ _ hr => hr.2.2)]
  | unary op operand ih =>
    simp only [every_unary] at h hrows
    simp only [mapColumns, evaluate, ih h.2 (hrows.imp fun _ _ hr => hr.2)]
  | call function args ih =>
    simp only [every_call] at h hrows
    have hargs : ∀ a ∈ args,
        (a.mapColumns f).evaluate s scope = (a.mapColumns g).evaluate t scope' :=
      fun a ha => ih a ha (h.2 a ha) (hrows.imp fun _ _ hr => hr.2 a ha)
    have hargsRows : ∀ a ∈ args, List.Forall₂ (fun r r' =>
        (a.mapColumns f).evaluate (.row r) scope = (a.mapColumns g).evaluate (.row r') scope')
          s.rows t.rows := by
      intro a ha
      refine hrows.imp fun r r' hr => ih a ha (hr.2 a ha) ?_
      exact List.forall₂_cons.mpr ⟨hr.2 a ha, .nil⟩
    rw [mapColumns, mapColumns, mapColumnsAll_eq, mapColumnsAll_eq]
    exact evaluate_call_congr hargs (fun _ => hargsRows) (fun _ => h.1.2) hwindow h.1.1
  | case operand branches otherwise iho ihb ihe =>
    simp only [every_case] at h hrows
    have hoperand := evaluateOption_congr fun e he =>
      iho e he (h.2.1 e he) (hrows.imp fun _ _ hr => hr.2.1 e he)
    have hbranches := fun v => evaluateBranches_congr v fun b hb =>
      ⟨(ihb b hb).1 (h.2.2.1 b hb).1 (hrows.imp fun _ _ hr => (hr.2.2.1 b hb).1),
        (ihb b hb).2 (h.2.2.1 b hb).2 (hrows.imp fun _ _ hr => (hr.2.2.1 b hb).2)⟩
    have hotherwise := evaluateOption_congr fun e he =>
      ihe e he (h.2.2.2 e he) (hrows.imp fun _ _ hr => hr.2.2.2 e he)
    simp only [mapColumns, evaluate, mapColumnsOption_eq, mapColumnsBranches_eq, hoperand,
      hbranches, hotherwise]
  | member base key ih =>
    simp only [every_member] at h hrows
    simp only [mapColumns, evaluate, ih h.2 (hrows.imp fun _ _ hr => hr.2)]
  | element base position ih =>
    simp only [every_element] at h hrows
    simp only [mapColumns, evaluate, ih h.2 (hrows.imp fun _ _ hr => hr.2)]
  | slice base start stop ih =>
    simp only [every_slice] at h hrows
    simp only [mapColumns, evaluate, ih h.2 (hrows.imp fun _ _ hr => hr.2)]
  | star except replace ih =>
    simp only [every_star] at h hrows
    have hfields : (s.first?.map Row.allFields).getD ∅ = (t.first?.map Row.allFields).getD ∅ := h.1
    have hreplace := fun fields => evaluateReplacements_congr fields
      fun r hr => ih r hr (h.2 r hr) (hrows.imp fun _ _ hrow => hrow.2 r hr)
    simp only [mapColumns, evaluate, mapColumnsReplacements_eq, hfields, hreplace]

/-- Columns that are replaced by what has their value, other than metadata keys, read alike. -/
private theorem readsAlike_of_same (hfree : e.LinkFree)
    (hcolumns : e.Every fun part => ∀ c, part = .column c → Same s scope scope' (f c) (g c))
    (hkeys : e.KeysIn fun c => f c = .column c ∧ g c = .column c) :
    e.Every (ReadsAlike f g scope scope' s s) := by
  intro part hpart
  cases part with
  | column c => exact (hcolumns _ hpart c rfl).1
  | aliasRef name body => exact hfree _ hpart name body rfl
  | call function args =>
    refine ⟨fun hf => metadataValue_mapColumns args _ fun c hc => ?_, fun _ => ?_⟩
    · exact hkeys _ hpart function c (hc ▸ rfl) hf
    · exact List.forall₂_same.mpr fun _ _ => rfl
  | star except replace => rfl
  | _ => trivial

/-- Columns may be replaced by what has their value. -/
theorem evaluate_mapColumns (e : Expr) (hwindow : scope.window = scope'.window)
    (hfree : e.LinkFree)
    (hcolumns : e.Every fun part => ∀ c, part = .column c → Same s scope scope' (f c) (g c))
    (hkeys : e.KeysIn fun c => f c = .column c ∧ g c = .column c) :
    (e.mapColumns f).evaluate s scope = (e.mapColumns g).evaluate s scope' := by
  refine evaluate_of_readsAlike e hwindow (readsAlike_of_same hfree hcolumns hkeys) ?_
  refine List.forall₂_same.mpr fun r hr => readsAlike_of_same hfree ?_ hkeys
  exact fun part hpart c hc => (hcolumns part hpart c hc).on_row hr

/-- Without links an expression does not see the aliases stored so far. -/
theorem evaluate_of_linkFree (e : Expr) (hfree : e.LinkFree) (s : Subject)
    (hwindow : scope.window = scope'.window) : e.evaluate s scope = e.evaluate s scope' := by
  have h : (e.mapColumns column).evaluate s scope = (e.mapColumns column).evaluate s scope' := by
    refine evaluate_mapColumns e hwindow hfree ?_ fun _ _ _ _ _ _ => ⟨rfl, rfl⟩
    exact fun _ _ c _ => ⟨by simp only [evaluate], fun r _ => by simp only [evaluate]⟩
  rwa [mapColumns_column] at h

end StreamSelect.Expr
