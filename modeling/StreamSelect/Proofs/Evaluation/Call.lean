import StreamSelect.Evaluation

/-!
The value of a call, by the kind of function that the name calls.
-/
namespace StreamSelect.Expr
variable {function : String} {args : List Expr} (s : Subject) (scope : Scope)

theorem evaluate_unknown (h : Function.ofName? function = none) :
    (call function args).evaluate s scope = .error (.unknownFunction function) := by
  rw [evaluate.eq_def]
  simp only [h]

theorem evaluate_scalar {fn : ScalarFunction}
    (h : Function.ofName? function = some (.scalar fn)) :
    (call function args).evaluate s scope = evaluateAll args s scope >>= fn.apply := by
  rw [evaluate.eq_def]
  simp only [h]

theorem evaluate_window (h : Function.ofName? function = some .windowBoundary) :
    (call function args).evaluate s scope = .ok (windowValue function scope.window) := by
  rw [evaluate.eq_def]
  simp only [h]

theorem evaluate_metadata (h : Function.ofName? function = some .metadata) :
    (call function args).evaluate s scope = metadataValue args s.first? := by
  rw [evaluate.eq_def]
  simp only [h]

/-- An aggregate runs over the values of its argument on every row. -/
theorem evaluate_aggregate {fn : AggregateFunction} {arg : Expr}
    (h : Function.ofName? function = some (.aggregate fn))
    (hname : Text.sameIgnoringCase function "deduplicate" = false) :
    (call function [arg]).evaluate s scope =
      s.rows.mapM (fun row => arg.evaluate (.row row) scope) >>= fn.apply function := by
  rw [evaluate.eq_def]
  simp only [h, hname, Bool.false_eq_true, if_false]

theorem evaluate_aggregate_arity {fn : AggregateFunction}
    (h : Function.ofName? function = some (.aggregate fn))
    (hname : Text.sameIgnoringCase function "deduplicate" = false) (harity : args.length ≠ 1) :
    (call function args).evaluate s scope = .error (.aggregateMisuse function
      ("expects exactly one argument but found " ++ toString args.length)) := by
  rw [evaluate.eq_def]
  match args, harity with
  | [], _ => simp [h, hname]
  | [_], h' => exact absurd rfl h'
  | _ :: _ :: _, _ => simp [h, hname]

theorem evaluate_deduplicate {fn : AggregateFunction} {key all : Expr}
    (h : Function.ofName? function = some (.aggregate fn))
    (hname : Text.sameIgnoringCase function "deduplicate" = true) :
    (call function [key, all]).evaluate s scope = (do
      let flag ← everyKeyFlag (← all.evaluate s scope)
      let keyed ← s.rows.mapM fun row => do
        return (← key.evaluate (.row row) scope, row.allFields)
      return AggregateFunction.deduplicated keyed flag) := by
  rw [evaluate.eq_def]
  simp only [h, hname, if_true]

theorem evaluate_deduplicate_arity {fn : AggregateFunction}
    (h : Function.ofName? function = some (.aggregate fn))
    (hname : Text.sameIgnoringCase function "deduplicate" = true) (harity : args.length ≠ 2) :
    (call function args).evaluate s scope = .error (.aggregateMisuse "deduplicate"
      ("expects two arguments but found " ++ toString args.length)) := by
  rw [evaluate.eq_def]
  match args, harity with
  | [], _ => simp [h, hname]
  | [_], _ => simp [h, hname]
  | [_, _], h' => exact absurd rfl h'
  | _ :: _ :: _ :: _, _ => simp [h, hname]

end StreamSelect.Expr
