import StreamSelect.Proofs.Evaluation.Alike

/-!
Evaluation on a group and evaluation on a row. A group of one row is evaluated as the row, with all
aggregates. A group of any size is evaluated as its first row if the expression calls no aggregate
function; an empty group then counts as an event without data.
-/
namespace StreamSelect.Expr

/-- A group of one row is evaluated as the row. -/
theorem evaluate_singleton (e : Expr) (r : Row) (scope : Scope) :
    e.evaluate (.group [r]) scope = e.evaluate (.row r) scope :=
  evaluate_alike ⟨.some (.refl r), .cons (.refl r) .nil⟩ e scope

theorem alikeFor_first {e : Expr} (h : e.reachesAggregate = false) (rows : List Row) :
    Subject.AlikeFor e (.group rows) (.row (rows.head?.getD (.event {}))) where
  first := by
    cases rows with
    | nil => exact .missing e.reachedColumns
    | cons r rows => exact .refl e.reachedColumns (some r)
  rows haggregate := by
    rw [h] at haggregate
    cases haggregate

/-- Without aggregates, also within what its links stand for, an expression has on a group the
outcome that it has on the first row. Groups with one first row give one outcome, whatever follows
it. -/
theorem evaluate_group_eq_first {e : Expr} (h : e.reachesAggregate = false) (rows : List Row)
    (scope : Scope) :
    e.evaluate (.group rows) scope =
        e.evaluate (.row (rows.head?.getD (.event {}))) scope ∧
      ∀ rows' : List Row, rows'.head? = rows.head? →
        e.evaluate (.group rows') scope = e.evaluate (.group rows) scope := by
  have hfirst : ∀ rows : List Row, e.evaluate (.group rows) scope =
      e.evaluate (.row (rows.head?.getD (.event {}))) scope :=
    fun rows => evaluate_of_alikeFor (alikeFor_first h rows) scope
  refine ⟨hfirst rows, fun rows' hrows' => ?_⟩
  rw [hfirst rows', hfirst rows, hrows']

/-- What the link `x` stands for if the field `topic` equals the metadata key of that name, else all
metadata. -/
def topicCase : Expr :=
  .case (some (.call "META" [.column { name := "topic", source := some "s" }]))
    [(.column { name := "topic" }, .aliasRef "x" (.element (.column { name := "a" }) 0))]
    (some (.call "COALESCE" [.call "META" [.star [] []], .star ["a"] [(.literal .null, "b")]]))

theorem evaluate_group_eq_first_topicCase :
    let first := Row.event {
      fields := .ofList [("topic", .text "t"), ("a", .array [.integer 7])]
      metadata := .ofList [("topic", .text "t")] }
    let other := Row.event { fields := .ofList [("topic", .text "u")] }
    topicCase.reachesAggregate = false ∧
      topicCase.evaluate (.group [first, other]) {} = .ok (.integer 7) ∧
      topicCase.evaluate (.group [first, other]) {} = topicCase.evaluate (.row first) {} ∧
      topicCase.evaluate (.group []) {} = topicCase.evaluate (.row (.event {})) {} ∧
      topicCase.evaluate (.group [first]) {} = topicCase.evaluate (.group [first, other]) {} := by
  intro first other
  have h : topicCase.reachesAggregate = false := by decide
  exact ⟨h, rfl, (evaluate_group_eq_first h [first, other] {}).1,
    (evaluate_group_eq_first h [] {}).1, (evaluate_group_eq_first h [first, other] {}).2 _ rfl⟩

end StreamSelect.Expr
