import StreamSelect.Proofs.Evaluation.Call
import StreamSelect.Proofs.Outcome

/-!
Evaluation of a compound expression depends on its parts through their values alone. Every statement
compares two readings of one expression: `f` on one subject and scope, `g` on another.
-/
namespace StreamSelect.Expr
variable {f g : Expr → Expr} {s t : Subject} {scope scope' : Scope}

theorem evaluateAll_congr {es : List Expr}
    (h : ∀ e ∈ es, (f e).evaluate s scope = (g e).evaluate t scope') :
    evaluateAll (es.map f) s scope = evaluateAll (es.map g) t scope' := by
  induction es with
  | nil => rfl
  | cons e rest ih =>
    obtain ⟨he, hrest⟩ := List.forall_mem_cons.mp h
    simp only [List.map_cons, evaluateAll, he, ih hrest]

theorem evaluateOption_congr {e? : Option Expr}
    (h : ∀ e ∈ e?, (f e).evaluate s scope = (g e).evaluate t scope') :
    evaluateOption (e?.map f) s scope = evaluateOption (e?.map g) t scope' := by
  cases e? with
  | none => rfl
  | some e => simp only [Option.map_some, evaluateOption, h e rfl]

theorem evaluateBranches_congr {branches : List (Expr × Expr)} (operand : Option Value)
    (h : ∀ b ∈ branches, (f b.1).evaluate s scope = (g b.1).evaluate t scope' ∧
      (f b.2).evaluate s scope = (g b.2).evaluate t scope') :
    evaluateBranches operand (branches.map (Prod.map f f)) s scope =
      evaluateBranches operand (branches.map (Prod.map g g)) t scope' := by
  induction branches with
  | nil => rfl
  | cons b rest ih =>
    obtain ⟨hb, hrest⟩ := List.forall_mem_cons.mp h
    simp only [List.map_cons, Prod.map, evaluateBranches, hb.1, hb.2]
    rw [ih hrest]

theorem evaluateReplacements_congr {replace : List (Expr × String)} (fields : FieldMap)
    (h : ∀ r ∈ replace, (f r.1).evaluate s scope = (g r.1).evaluate t scope') :
    evaluateReplacements fields (replace.map (Prod.map f id)) s scope =
      evaluateReplacements fields (replace.map (Prod.map g id)) t scope' := by
  induction replace generalizing fields with
  | nil => rfl
  | cons r rest ih =>
    obtain ⟨hr, hrest⟩ := List.forall_mem_cons.mp h
    simp only [List.map_cons, Prod.map, id_eq, evaluateReplacements, hr]
    simp only [ih _ hrest]

/-- The value of a call depends on the arguments through their values on the subject, and for an
aggregate function on each of its rows. Only the metadata call reads its arguments as they are
written, and only the removal of duplicates reads whole rows. -/
theorem evaluate_call_congr {function : String} {args : List Expr}
    (hargs : ∀ a ∈ args, (f a).evaluate s scope = (g a).evaluate t scope')
    (hrows : Function.namesAggregate function = true → ∀ a ∈ args, List.Forall₂ (fun r r' =>
      (f a).evaluate (.row r) scope = (g a).evaluate (.row r') scope') s.rows t.rows)
    (hfields : Function.namesAggregate function = true →
      Text.sameIgnoringCase function "deduplicate" = true →
      List.Forall₂ (fun r r' : Row => r.allFields = r'.allFields) s.rows t.rows)
    (hwindow : scope.window = scope'.window)
    (hmeta : Function.ofName? function = some .metadata →
      metadataValue (args.map f) s.first? = metadataValue (args.map g) t.first?) :
    (call function (args.map f)).evaluate s scope =
      (call function (args.map g)).evaluate t scope' := by
  cases hf : Function.ofName? function with
  | none => rw [evaluate_unknown s scope hf, evaluate_unknown t scope' hf]
  | some kind =>
    cases kind with
    | scalar fn =>
      rw [evaluate_scalar s scope hf, evaluate_scalar t scope' hf, evaluateAll_congr hargs]
    | windowBoundary => rw [evaluate_window s scope hf, evaluate_window t scope' hf, hwindow]
    | metadata => rw [evaluate_metadata s scope hf, evaluate_metadata t scope' hf, hmeta hf]
    | aggregate fn =>
      have haggregate : Function.namesAggregate function = true := by
        rw [Function.namesAggregate, hf]
        rfl
      specialize hrows haggregate
      cases hname : Text.sameIgnoringCase function "deduplicate" with
      | false =>
        by_cases harity : args.length = 1
        · obtain ⟨arg, rfl⟩ := List.length_eq_one_iff.mp harity
          simp only [List.map_cons, List.map_nil, evaluate_aggregate _ _ hf hname,
            Outcome.mapM_congr (hrows arg (by simp))]
        · rw [evaluate_aggregate_arity _ _ hf hname (by simpa using harity),
            evaluate_aggregate_arity _ _ hf hname (by simpa using harity), List.length_map,
            List.length_map]
      | true =>
        by_cases harity : args.length = 2
        · obtain ⟨key, all, rfl⟩ := List.length_eq_two.mp harity
          have hkeyed : s.rows.mapM (fun row => do
                return (← (f key).evaluate (.row row) scope, row.allFields)) =
              t.rows.mapM fun row => do
                return (← (g key).evaluate (.row row) scope', row.allFields) := by
            refine Outcome.mapM_congr
              (List.Forall₂.mp ?_ (hrows key (by simp)) (hfields haggregate hname))
            intro r r' hkey hfield
            rw [hkey, hfield]
          simp only [List.map_cons, List.map_nil, evaluate_deduplicate _ _ hf hname,
            hargs all (by simp), hkeyed]
        · rw [evaluate_deduplicate_arity _ _ hf hname (by simpa using harity),
            evaluate_deduplicate_arity _ _ hf hname (by simpa using harity), List.length_map,
            List.length_map]

end StreamSelect.Expr
