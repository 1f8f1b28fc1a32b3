import StreamSelect.Plan.Compile
import StreamSelect.Proofs.Evaluation.Aggregate
import StreamSelect.Proofs.Evaluation.Group
import StreamSelect.Proofs.Expr.Linking
import StreamSelect.Proofs.Plan.Declared
import StreamSelect.Proofs.Project.Phases

/-!
An aggregate over an alias. The alias is stored once, with its value on the first row, so the
aggregate runs over copies of this value, while the same aggregate over the expression itself runs
over its values on all rows. Where the alias is left out both run over the values on all rows.
-/
namespace StreamSelect

/-- What is seen of a result: nothing at all if the projection fails, else the value under the name
of the field, if one is written. -/
def OutputPolicy.seen (policy : OutputPolicy) (result : Outcome Value) : Option (Option Value) :=
  match result with
  | .ok v => some (policy.shown v)
  | .error fault => if fault.isMissingData && !policy.writeNulls then some none else none

/-- What is seen under a name of a projection to one event. -/
def Packet.seenAt (name : String) : Outcome Packet → Option (Option Value)
  | .ok (.row (.event e)) => some (e.fields.get? name)
  | _ => none

/-- An expression under the alias `x`, and an aggregate of the argument under the alias `y`. -/
def aliasAndAggregate (function x y : String) (e arg : Expr) : List Declaration := [
  { item := .computed e (some x) },
  { item := .computed (.aggregateOf function arg) (some y) }]

theorem OutputPolicy.seen_eq_settle (policy : OutputPolicy) (label : Option String) (e : Expr)
    (result : Outcome Value) : policy.seen result =
      match policy.settle label e result with
      | .ok v? => some (v?.bind policy.shown)
      | .error _ => none := by
  cases result with
  | ok v => rfl
  | error fault =>
    simp only [seen, settle]
    split <;> rfl

section Compile
variable {function x y : String} {f : AggregateFunction} {e : Expr}

/-- The plan for an expression under `x` and a call of an aggregate under `y`. -/
def aggregatePlan (x y : String) (e call : Expr) : Plan where
  fields := [⟨.alias x e, false⟩, ⟨.alias y call, false⟩]
  star := none
  sourceStars := []
  aggregate := true
  layout := none

private theorem containsAggregate_aggregateOf
    (h : Function.ofName? function = some (.aggregate f)) (arg : Expr) :
    (Expr.aggregateOf function arg).containsAggregate = true := by
  have hnames : Function.namesAggregate function = true := by
    simp [Function.namesAggregate, h, Function.isAggregate]
  simp [Expr.containsAggregate, Expr.functions, Expr.aggregateOf, Expr.calledFunction?,
    hnames]

private theorem link_aggregateOf (aliases : Aliases) (arg : Expr) :
    (Expr.aggregateOf function arg).link aliases =
      Expr.aggregateOf function (arg.link aliases) := by
  unfold Expr.aggregateOf
  split <;> simp only [Expr.link, Expr.linkAll]

theorem compile_aliasAndAggregate (hf : Function.ofName? function = some (.aggregate f))
    (arg : Expr) : Plan.compile (aliasAndAggregate function x y e arg) =
      .ok (aggregatePlan x y e (.aggregateOf function (arg.link [(x, e)]))) := by
  have hcompiled : Plan.compile (aliasAndAggregate function x y e arg) =
      .ok (Draft.finish ((({} : Draft).addAlias x e false).addAlias y
        (.aggregateOf function arg) false)) := rfl
  rw [hcompiled]
  simp [Draft.addAlias, Draft.addField, Draft.finish, Draft.expressions, aggregatePlan, e.link_nil,
    link_aggregateOf, PlannedField.expr?, containsAggregate_aggregateOf hf]

end Compile

section Run
variable {x y : String} {e call : Expr} {policy : OutputPolicy} {rows : List Row}
  {window : Option Window}

private theorem seenAt_assemble (hy : y ≠ metadataName) :
    Packet.seenAt y (Projector.project ⟨aggregatePlan x y e call, policy⟩ (.batch ⟨rows, window⟩)) =
      match (aggregatePlan x y e call).fields.foldlM
        (Plan.writeExpression policy (.group rows) window) { output := ∅ } with
      | .ok a => some (a.output.get? y)
      | .error _ => none := by
  have hfields : ∀ a : Plan.Assembly, ∀ metadata : FieldMap,
      (Plan.attach policy metadata ((aggregatePlan x y e call).dropHidden a.output)).get? y =
        a.output.get? y := by
    intro a metadata
    rw [Plan.get?_attach_of_ne policy metadata _ hy, Plan.get?_dropHidden]
    exact if_neg fun h => List.not_mem_nil h.1
  have hproject : Projector.project ⟨aggregatePlan x y e call, policy⟩ (.batch ⟨rows, window⟩) =
      (fun e => Packet.row (.event e)) <$>
        (aggregatePlan x y e call).assemble policy (.group rows) window := rfl
  rw [hproject, Plan.assemble_of_no_star rfl rfl]
  have hcolumns : (aggregatePlan x y e call).fields.foldl
      (Plan.writeColumn policy (Subject.group rows).first?) ∅ = ∅ := rfl
  rw [hcolumns]
  cases (aggregatePlan x y e call).fields.foldlM
      (Plan.writeExpression policy (.group rows) window) { output := ∅ } with
  | error fault => rfl
  | ok a => exact congrArg some (hfields a _)

private theorem seen_second {a : Plan.Assembly} (ha : a.output.get? y = none) :
    (match Plan.writeExpression policy (.group rows) window a ⟨.alias y call, false⟩ with
      | .ok b => some (b.output.get? y)
      | .error _ => none) =
      policy.seen (call.evaluate (.group rows) { aliases := a.aliases, window }) := by
  rw [Plan.writeExpression_alias, policy.seen_eq_settle (some y) call]
  cases policy.settle (some y) call
      (call.evaluate (.group rows) { aliases := a.aliases, window }) with
  | error fault => rfl
  | ok value? =>
    cases value? with
    | none => exact congrArg some ha
    | some v =>
      refine congrArg some (OutputPolicy.get?_write a.output y v y |>.trans ?_)
      rw [if_pos rfl]
      rfl

/-- The aggregate is evaluated with what the first field stored: its value, or nothing if it was
left out. -/
theorem seenAt_project (hxy : y ≠ x) (hy : y ≠ metadataName) :
    Packet.seenAt y (Projector.project ⟨aggregatePlan x y e call, policy⟩ (.batch ⟨rows, window⟩)) =
      match policy.settle (some x) e (e.evaluate (.group rows) { window }) with
      | .error _ => none
      | .ok none => policy.seen (call.evaluate (.group rows) { window })
      | .ok (some v) => policy.seen
        (call.evaluate (.group rows) { aliases := (∅ : FieldMap).insert x v, window }) := by
  rw [seenAt_assemble hy]
  simp only [aggregatePlan, List.foldlM_cons, List.foldlM_nil, bind_pure]
  rw [Plan.writeExpression_alias]
  cases policy.settle (some x) e (e.evaluate (.group rows) { window }) with
  | error fault => rfl
  | ok value? =>
    cases value? with
    | none => exact seen_second rfl
    | some v =>
      have hfresh : (policy.write ∅ x v).get? y = none := by
        rw [OutputPolicy.get?_write, if_neg hxy]
        rfl
      exact seen_second hfresh

end Run

variable {function x y : String} {f : AggregateFunction} {e : Expr}

private theorem seenAt_over_alias_iff (hf : Function.ofName? function = some (.aggregate f))
    (hfree : e.LinkFree) (hxy : y ≠ x) (hy : y ≠ metadataName) (policy : OutputPolicy)
    (rows : List Row) (window : Option Window) :
    Packet.seenAt y (Projector.project
        ⟨aggregatePlan x y e (.aggregateOf function (.aliasRef x e)), policy⟩
        (.batch ⟨rows, window⟩)) =
      Packet.seenAt y (Projector.project ⟨aggregatePlan x y e (.aggregateOf function e), policy⟩
        (.batch ⟨rows, window⟩)) ↔
      ∀ v, e.evaluate (.group rows) { window } = .ok v →
        policy.seen (f.over function rows (List.replicate rows.length v)) =
          policy.seen (rows.mapM (fun r => e.evaluate (.row r) { window }) >>=
            f.over function rows) := by
  rw [seenAt_project hxy hy, seenAt_project hxy hy]
  simp only [Expr.evaluate_aggregateOf hf]
  cases hfirst : e.evaluate (.group rows) { window } with
  | error fault =>
    -- nothing is stored, so the link evaluates the expression on every row
    have hlink : ∀ r, (Expr.aliasRef x e).evaluate (.row r) { window } =
        e.evaluate (.row r) { window } := by
      intro r
      simp only [Expr.evaluate]
      rfl
    refine ⟨fun _ v hv => (by cases hv), fun _ => ?_⟩
    cases hsettled : policy.settle (some x) e (.error fault) with
    | error fault => rfl
    | ok value? =>
      cases value? with
      | none => simp only [hlink]
      | some v => cases OutputPolicy.settle_eq_some hsettled
  | ok v =>
    have hstored : ((∅ : FieldMap).insert x v).get? x = some v := by
      rw [KeyedMap.get?_insert, if_pos rfl]
    have hrows : ∀ r, e.evaluate (.row r) { aliases := (∅ : FieldMap).insert x v, window } =
        e.evaluate (.row r) { window } := fun r => e.evaluate_of_linkFree hfree (.row r) rfl
    have hcopies : (Subject.group rows).rows.mapM (fun r => (Expr.aliasRef x e).evaluate (.row r)
        { aliases := (∅ : FieldMap).insert x v, window }) =
          .ok (List.replicate rows.length v) := Expr.mapM_evaluate_stored hstored rows
    simp only [OutputPolicy.settle_ok, hcopies, hrows]
    exact ⟨fun h w hw => Except.ok.inj hw ▸ h, fun h => h v rfl⟩

private theorem link_column_self : (Expr.column { name := x }).link [(x, e)] = .aliasRef x e := by
  simp [Expr.link, Column.link, Aliases.find?, KeyedMap.lookupEntry]

private theorem link_self (hx : ∀ c ∈ e.columns, c.source = none → c.name ≠ x) :
    e.link [(x, e)] = e :=
  Expr.link_of_unnamed fun c hc hnamed =>
    hx c hc hnamed.1 (List.mem_singleton.mp hnamed.2)

namespace Projector

/-- The aggregate over an alias is seen as the aggregate over its expression exactly if this holds:
whenever the expression has a value on the group, which is its value on the first row, copies of
this value for all rows aggregate to what the values of all rows aggregate to. -/
theorem aggregate_over_alias_iff (hf : Function.ofName? function = some (.aggregate f))
    (hfree : e.LinkFree) (hx : ∀ c ∈ e.columns, c.source = none → c.name ≠ x) (hxy : y ≠ x)
    (hy : y ≠ metadataName) :
    ∃ p q, Plan.compile (aliasAndAggregate function x y e (.column { name := x })) = .ok p ∧
      Plan.compile (aliasAndAggregate function x y e e) = .ok q ∧
      ∀ (policy : OutputPolicy) (rows : List Row) (window : Option Window),
        Packet.seenAt y (project ⟨p, policy⟩ (.batch ⟨rows, window⟩)) =
            Packet.seenAt y (project ⟨q, policy⟩ (.batch ⟨rows, window⟩)) ↔
          ∀ v, e.evaluate (.group rows) { window } = .ok v →
            policy.seen (f.over function rows (List.replicate rows.length v)) =
              policy.seen (rows.mapM (fun r => e.evaluate (.row r) { window }) >>=
                f.over function rows) := by
  refine ⟨_, _, compile_aliasAndAggregate hf _, compile_aliasAndAggregate hf _, ?_⟩
  rw [link_column_self, link_self hx]
  exact seenAt_over_alias_iff hf hfree hxy hy

theorem aggregate_over_alias_iff_sum :
    ∃ p q, Plan.compile (aliasAndAggregate "sum" "x" "y" (.column { name := "a" })
        (.column { name := "x" })) = .ok p ∧
      Plan.compile (aliasAndAggregate "sum" "x" "y" (.column { name := "a" })
        (.column { name := "a" })) = .ok q ∧
      ∀ (policy : OutputPolicy) (rows : List Row) (window : Option Window),
        Packet.seenAt "y" (project ⟨p, policy⟩ (.batch ⟨rows, window⟩)) =
            Packet.seenAt "y" (project ⟨q, policy⟩ (.batch ⟨rows, window⟩)) ↔
          ∀ v, (Expr.column { name := "a" }).evaluate (.group rows) { window } = .ok v →
            policy.seen (AggregateFunction.sum.over "sum" rows (List.replicate rows.length v)) =
              policy.seen (rows.mapM
                  (fun r => (Expr.column { name := "a" }).evaluate (.row r) { window }) >>=
                AggregateFunction.sum.over "sum" rows) :=
  aggregate_over_alias_iff rfl (by simp [Expr.LinkFree])
    (by simp [Expr.columns, Expr.column?]) (by decide) (by decide)

/-- Rows whose only field is a number under the name `a`. -/
def numberRows (numbers : List Int64) : List Row :=
  numbers.map fun n => .event { fields := .ofList [("a", .integer n)] }

/-- Over the rows 1 and 2 the sum of the alias is 2, and the sum of its expression is 3. -/
theorem sum_over_alias_differs :
    ∃ p q, Plan.compile (aliasAndAggregate "sum" "x" "y" (.column { name := "a" })
        (.column { name := "x" })) = .ok p ∧
      Plan.compile (aliasAndAggregate "sum" "x" "y" (.column { name := "a" })
        (.column { name := "a" })) = .ok q ∧
      Packet.seenAt "y" (project ⟨p, {}⟩ (.batch ⟨numberRows [1, 2], none⟩)) =
        some (some (.integer 2)) ∧
      Packet.seenAt "y" (project ⟨q, {}⟩ (.batch ⟨numberRows [1, 2], none⟩)) =
        some (some (.integer 3)) :=
  ⟨_, _, rfl, rfl, rfl, rfl⟩

/-- A group of at most one row shows no difference. -/
theorem aggregate_over_alias_of_single (hf : Function.ofName? function = some (.aggregate f))
    (hfree : e.LinkFree) (hx : ∀ c ∈ e.columns, c.source = none → c.name ≠ x) (hxy : y ≠ x)
    (hy : y ≠ metadataName) (policy : OutputPolicy) {rows : List Row} (hrows : rows.length ≤ 1)
    (window : Option Window) :
    ∃ p q, Plan.compile (aliasAndAggregate function x y e (.column { name := x })) = .ok p ∧
      Plan.compile (aliasAndAggregate function x y e e) = .ok q ∧
      Packet.seenAt y (project ⟨p, policy⟩ (.batch ⟨rows, window⟩)) =
        Packet.seenAt y (project ⟨q, policy⟩ (.batch ⟨rows, window⟩)) := by
  refine ⟨_, _, compile_aliasAndAggregate hf _, compile_aliasAndAggregate hf _, ?_⟩
  rw [link_column_self, link_self hx, seenAt_over_alias_iff hf hfree hxy hy]
  intro v hv
  match rows, hrows with
  | [], _ => rfl
  | [r], _ =>
    have hrow : e.evaluate (.row r) { window } = .ok v := by
      rw [← hv, e.evaluate_singleton]
    simp only [List.mapM_cons, List.mapM_nil, hrow]
    rfl

end Projector
end StreamSelect
