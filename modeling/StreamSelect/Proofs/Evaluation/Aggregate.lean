import StreamSelect.Proofs.Evaluation.Columns

/-!
Calls of aggregate functions as functions of the column of values that their argument takes on the
rows.
-/
namespace StreamSelect

/-- The aggregate over a column of values, one for each row. Removal of duplicates takes the values
as keys and keeps the first row of each. -/
def AggregateFunction.over (f : AggregateFunction) (name : String) (rows : List Row)
    (values : List Value) : Outcome Value :=
  if Text.sameIgnoringCase name "deduplicate" then
    .ok (deduplicated (values.zip (rows.map Row.allFields)) true)
  else f.apply name values

namespace Expr

/-- The call of an aggregate function on one argument, with the flag that keeps every key for the
removal of duplicates. -/
def aggregateOf (function : String) (arg : Expr) : Expr :=
  .call function (if Text.sameIgnoringCase function "deduplicate" then
    [arg, .literal (.boolean true)] else [arg])

private theorem mapM_pair {α β : Type} (F : Row → Outcome α) (G : Row → β) (rows : List Row) :
    rows.mapM (fun r => do return (← F r, G r)) =
      (do return (← rows.mapM F).zip (rows.map G)) := by
  induction rows with
  | nil => rfl
  | cons r rows ih =>
    simp only [List.mapM_cons, ih]
    cases F r with
    | error fault => rfl
    | ok v => cases rows.mapM F <;> rfl

theorem evaluate_aggregateOf {function : String} {f : AggregateFunction}
    (h : Function.ofName? function = some (.aggregate f)) (arg : Expr) (s : Subject)
    (scope : Scope) : (aggregateOf function arg).evaluate s scope =
      s.rows.mapM (fun r => arg.evaluate (.row r) scope) >>= f.over function s.rows := by
  unfold aggregateOf AggregateFunction.over
  cases hname : Text.sameIgnoringCase function "deduplicate" with
  | false =>
    simp only [Bool.false_eq_true, if_false]
    exact evaluate_aggregate s scope h hname
  | true =>
    simp only [if_true]
    rw [evaluate_deduplicate s scope h hname, mapM_pair]
    cases s.rows.mapM fun r => arg.evaluate (.row r) scope <;> simp [evaluate] <;> rfl

/-- A stored alias gives every row the same value. -/
theorem mapM_evaluate_stored {name : String} {body : Expr} {v : Value} {scope : Scope}
    (h : scope.aliases.get? name = some v) (rows : List Row) :
    rows.mapM (fun r => (aliasRef name body).evaluate (.row r) scope) =
      .ok (List.replicate rows.length v) := by
  induction rows with
  | nil => rfl
  | cons r rows ih =>
    simp only [List.mapM_cons, ih]
    simp only [evaluate, h]
    rfl

end Expr
end StreamSelect
