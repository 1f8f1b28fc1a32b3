import StreamSelect.Proofs.Evaluation.Call
import StreamSelect.Proofs.Expr.Induction
import StreamSelect.Proofs.Outcome

/-!
The faults that evaluation can end in. Each is about a value, a step, a function or a literal. None
names an output field, and none is about the shape of the input, an earlier stage or the
configuration, so a projection that reports a field puts the name around the fault exactly once.
Only a call under a name that is refused ends in the fault of an unknown function of that name.
-/
namespace StreamSelect

/-- A fault that says what went wrong, and not where. -/
def Fault.isElementary : Fault → Bool
  | .field _ _ _ | .unsupportedInput _ _ | .earlierStage _ | .configuration _ => false
  | _ => true

/-- The computation succeeds or ends in an elementary fault. -/
abbrev Outcome.Elementary {α : Type} (x : Outcome α) : Prop :=
  x.OnFault fun fault => fault.isElementary = true

/-- A fault of an operation, or of a function that is given what it cannot work on. -/
def Fault.isOperational : Fault → Bool
  | .execution _ _ | .wrongKind _ _ _ | .notNavigable _ _ | .indexOutOfRange _ _
  | .aggregate _ _ => true
  | _ => false

/-- The computation succeeds or ends in an operational fault. -/
abbrev Outcome.Operational {α : Type} (x : Outcome α) : Prop :=
  x.OnFault fun fault => fault.isOperational = true

/-- Calls under this name are refused: it names no function, or it spells `deduplicate` with a
letter beyond ASCII. -/
def Function.Refused (name : String) : Prop :=
  ofName? name = none ∨ ofName? name = some (.aggregate .deduplicate) ∧
    Text.sameIgnoringCase name "deduplicate" = false

/-- The fault of an operation, or that of a call under a name that is refused. -/
def Fault.OfEvaluation (fault : Fault) : Prop :=
  fault.isOperational = true ∨ ∃ name, fault = .unknownFunction name ∧ Function.Refused name

/-- The computation succeeds or ends in a fault of an evaluation. -/
abbrev Outcome.OfEvaluation {α : Type} (x : Outcome α) : Prop := x.OnFault Fault.OfEvaluation

theorem Outcome.Operational.ofEvaluation {α : Type} {x : Outcome α} (h : Operational x) :
    OfEvaluation x := fun fault hfault => .inl (h fault hfault)

open Outcome (Operational OfEvaluation)

namespace Value

theorem arithmetic_operational (op : Arithmetic) (a b : Value) :
    Operational (a.arithmetic op b) := by
  have hinteger : ∀ x y, Operational (integerArithmetic op x y) := by
    intro x y
    unfold integerArithmetic
    split
    · exact .error rfl
    · split <;> simp [Fault.isOperational, Fault.failure]
  have hdecimal : ∀ x y, Operational (decimalArithmetic op x y) := by
    intro x y
    unfold decimalArithmetic
    split
    · exact .error rfl
    · split <;> simp [Fault.isOperational, Fault.failure]
  have hfloat : ∀ x y, Operational (floatArithmetic op x y) := by
    intro x y
    unfold floatArithmetic
    split
    · exact .error rfl
    · exact .ok _
  unfold arithmetic
  split
  · exact .ok _
  · exact .ok _
  · exact hinteger _ _
  · exact hdecimal _ _
  · exact hdecimal _ _
  · exact hdecimal _ _
  · split
    · exact hfloat _ _
    · exact .error rfl

theorem negate_operational (v : Value) : Operational v.negate := by
  unfold negate
  split
  · split <;> simp [Fault.isOperational, Fault.failure]
  all_goals simp [Fault.isOperational]

theorem truth_operational (v : Value) : Operational v.truth := by
  unfold truth
  split <;> simp [Fault.isOperational]

theorem atKey_operational (v : Value) (key : String) : Operational (v.atKey key) := by
  unfold atKey
  split <;> simp [Fault.isOperational]

theorem atIndex_operational (v : Value) (index : Int64) : Operational (v.atIndex index) := by
  unfold atIndex
  split
  · dsimp only
    split <;> simp [Fault.isOperational]
  all_goals simp [Fault.isOperational]

theorem slice_operational (v : Value) (start stop : Option Int64) :
    Operational (v.slice start stop) := by
  unfold slice
  split <;> simp [Fault.isOperational]

end Value

theorem Literal.value_operational (l : Literal) : Operational l.value := by
  unfold value
  split
  case h_6 => split <;> simp [Fault.isOperational, Fault.failure]
  all_goals exact .ok _

theorem Relation.compare_operational (op : Relation) (a b : Value) :
    Operational (op.compare a b) := by
  unfold Relation.compare
  split
  · exact .ok _
  · exact .ok _
  · split <;> simp [Fault.isOperational, Fault.failure, Value.invalidOperation]

theorem BinaryOp.apply_operational (op : BinaryOp) (a b : Value) : Operational (op.apply a b) := by
  unfold BinaryOp.apply
  split
  · exact a.arithmetic_operational _ b
  · split
    · exact .ok _
    · exact Relation.compare_operational _ a b
  · split <;> exact .ok _
  · exact b.truth_operational.map

theorem BinaryOp.decided?_operational (op : BinaryOp) (a : Value) :
    Operational (op.decided? a) := by
  unfold BinaryOp.decided?
  split
  · exact a.truth_operational.bind fun _ => .ok _
  · exact .ok _

theorem UnaryOp.applyTo_operational (op : UnaryOp) (v : Value) : Operational (op.applyTo v) := by
  unfold UnaryOp.applyTo
  split
  · exact .ok _
  · exact .ok _
  · split
    · exact .ok _
    · exact v.truth_operational.map
  · exact v.negate_operational

theorem conditionHolds_operational (operand : Option Value) (condition : Value) :
    Operational (conditionHolds operand condition) := by
  unfold conditionHolds
  split
  · exact .ok _
  · exact condition.truth_operational

theorem metadataValue_operational (args : List Expr) (row? : Option Row) :
    Operational (metadataValue args row?) := by
  unfold metadataValue
  split <;> simp [Fault.isOperational, Fault.failure]

theorem everyKeyFlag_operational (v : Value) : Operational (everyKeyFlag v) := by
  unfold everyKeyFlag
  split <;> simp [Fault.isOperational, Fault.aggregateMisuse]

namespace ScalarFunction

private theorem single_operational (name : String) (args : List Value) :
    Operational (single name args) := by
  unfold single
  split <;> simp [Fault.isOperational, Fault.failure]

private theorem rounding_operational (args : List Value) : Operational (rounding args) := by
  have hround : ∀ places v, Operational (roundTo places v) := by
    intro places v
    unfold roundTo
    split <;> simp [Fault.isOperational, numberExpected]
  unfold rounding
  split
  · exact hround 0 _
  · exact hround _ _
  all_goals simp [Fault.isOperational, Fault.failure]

theorem apply_operational (f : ScalarFunction) (args : List Value) :
    Operational (f.apply args) := by
  have hsingle : ∀ name (g : Value → Outcome Value), (∀ v, Operational (g v)) →
      Operational (single name args >>= g) :=
    fun name g hg => (single_operational name args).bind hg
  cases f with
  | round => exact rounding_operational args
  | concat => exact .ok _
  | abs =>
    refine hsingle _ _ fun v => ?_
    cases v <;> simp [absolute, Fault.isOperational, numberExpected]
  | ceil =>
    refine hsingle _ _ fun v => ?_
    cases v <;> simp [ceiling, Fault.isOperational, numberExpected]
  | floor =>
    refine hsingle _ _ fun v => ?_
    cases v <;> simp [flooring, Fault.isOperational, numberExpected]
  | upper =>
    refine hsingle _ _ fun v => ?_
    cases v <;> simp [onText, Fault.isOperational, textExpected]
  | lower =>
    refine hsingle _ _ fun v => ?_
    cases v <;> simp [onText, Fault.isOperational, textExpected]
  | length =>
    refine hsingle _ _ fun v => ?_
    cases v <;> simp [size, Fault.isOperational, textExpected]
  | coalesce =>
    simp only [apply, firstNonNull]
    split <;> simp [Fault.isOperational]

end ScalarFunction

namespace AggregateFunction

/-- Faults of arithmetic are taken into the text of a fault of the function. -/
private theorem addTo_operational (name : String) (total : Option Value) (v : Value) :
    Operational (addTo name total v) := by
  unfold addTo
  split
  · exact .error rfl
  · split
    · exact .ok _
    · split <;> simp [Fault.isOperational, Fault.aggregateMisuse]

private theorem sumOf_operational (name : String) (values : List Value) :
    Operational (sumOf name values) :=
  (Outcome.OnFault.foldlM fun total v => addTo_operational name total v).bind fun _ => .ok _

private theorem average_operational (name : String) (values : List Value) :
    Operational (average name values) := by
  unfold average
  dsimp only
  split
  · exact .ok _
  · refine (sumOf_operational name values).bind fun total => ?_
    split <;> simp [Fault.isOperational, Fault.aggregateMisuse]

private theorem extreme_operational (name : String) (keep : Ordering) (values : List Value) :
    Operational (extreme name keep values) := by
  refine (Outcome.OnFault.foldlM fun best v => ?_).bind fun _ => .ok _
  unfold better
  split
  · exact .ok _
  · split <;> simp [Fault.isOperational, Fault.aggregateMisuse]

theorem apply_operational {f : AggregateFunction} (h : f ≠ .deduplicate) (name : String)
    (values : List Value) : Operational (f.apply name values) := by
  cases f with
  | count => exact .ok _
  | sum => exact sumOf_operational name values
  | avg => exact average_operational name values
  | min => exact extreme_operational name .lt values
  | max => exact extreme_operational name .gt values
  | collect => exact .ok _
  | deduplicate => exact absurd rfl h

end AggregateFunction

namespace Expr
variable {s : Subject} {scope : Scope}

private theorem evaluateAll_ofEvaluation {es : List Expr}
    (h : ∀ e ∈ es, OfEvaluation (e.evaluate s scope)) : OfEvaluation (evaluateAll es s scope) := by
  induction es with
  | nil => exact .ok _
  | cons e rest ih =>
    obtain ⟨he, hrest⟩ := List.forall_mem_cons.mp h
    rw [evaluateAll]
    exact he.bind fun _ => (ih hrest).bind fun _ => .ok _

private theorem evaluateOption_ofEvaluation {e? : Option Expr}
    (h : ∀ e ∈ e?, OfEvaluation (e.evaluate s scope)) :
    OfEvaluation (evaluateOption e? s scope) := by
  cases e? with
  | none => exact .ok _
  | some e => exact (h e rfl).map

private theorem evaluateBranches_ofEvaluation {branches : List (Expr × Expr)}
    (operand : Option Value)
    (h : ∀ b ∈ branches,
      OfEvaluation (b.1.evaluate s scope) ∧ OfEvaluation (b.2.evaluate s scope)) :
    OfEvaluation (evaluateBranches operand branches s scope) := by
  induction branches with
  | nil => exact .ok _
  | cons b rest ih =>
    obtain ⟨hb, hrest⟩ := List.forall_mem_cons.mp h
    rw [evaluateBranches]
    refine hb.1.bind fun v =>
      (conditionHolds_operational operand v).ofEvaluation.bind fun holds => ?_
    split
    · exact hb.2.map
    · exact ih hrest

private theorem evaluateReplacements_ofEvaluation {replace : List (Expr × String)}
    (fields : FieldMap) (h : ∀ r ∈ replace, OfEvaluation (r.1.evaluate s scope)) :
    OfEvaluation (evaluateReplacements fields replace s scope) := by
  induction replace generalizing fields with
  | nil => exact .ok _
  | cons r rest ih =>
    obtain ⟨hr, hrest⟩ := List.forall_mem_cons.mp h
    rw [evaluateReplacements]
    exact hr.bind fun _ => ih _ hrest

private theorem evaluate_call_ofEvaluation {function : String} {args : List Expr}
    (hargs : ∀ a ∈ args, ∀ s : Subject, OfEvaluation (a.evaluate s scope)) :
    OfEvaluation ((call function args).evaluate s scope) := by
  cases hf : Function.ofName? function with
  | none =>
    rw [evaluate_unknown s scope hf]
    exact .error (.inr ⟨function, rfl, .inl hf⟩)
  | some kind =>
    cases kind with
    | scalar fn =>
      rw [evaluate_scalar s scope hf]
      exact (evaluateAll_ofEvaluation fun a ha => hargs a ha s).bind fun values =>
        (fn.apply_operational values).ofEvaluation
    | windowBoundary =>
      rw [evaluate_window s scope hf]
      exact .ok _
    | metadata =>
      rw [evaluate_metadata s scope hf]
      exact (metadataValue_operational args s.first?).ofEvaluation
    | aggregate fn =>
      cases hname : Text.sameIgnoringCase function "deduplicate" with
      | false =>
        by_cases harity : args.length = 1
        · obtain ⟨arg, rfl⟩ := List.length_eq_one_iff.mp harity
          rw [evaluate_aggregate s scope hf hname]
          refine (Outcome.OnFault.mapM fun r _ => hargs arg (by simp) (.row r)).bind
            fun values => ?_
          by_cases hfn : fn = .deduplicate
          · subst hfn
            exact .error (.inr ⟨function, rfl, .inr ⟨hf, hname⟩⟩)
          · exact (AggregateFunction.apply_operational hfn function values).ofEvaluation
        · rw [evaluate_aggregate_arity s scope hf hname harity]
          exact .error (.inl rfl)
      | true =>
        by_cases harity : args.length = 2
        · obtain ⟨key, all, rfl⟩ := List.length_eq_two.mp harity
          rw [evaluate_deduplicate s scope hf hname]
          refine (hargs all (by simp) s).bind fun v =>
            (everyKeyFlag_operational v).ofEvaluation.bind fun flag => ?_
          refine (Outcome.OnFault.mapM fun r _ => ?_).bind fun _ => .ok _
          exact (hargs key (by simp) (.row r)).bind fun _ => .ok _
        · rw [evaluate_deduplicate_arity s scope hf hname harity]
          exact .error (.inl rfl)

/-- Evaluation of any expression succeeds or ends in the fault of an operation or of a call under a
name that is refused. -/
theorem evaluate_ofEvaluation (e : Expr) (s : Subject) (scope : Scope) :
    OfEvaluation (e.evaluate s scope) := by
  induction e using induct generalizing s with
  | column c => simp only [evaluate, Outcome.OnFault.ok]
  | aliasRef name body ih =>
    rw [evaluate]
    split
    · exact .ok _
    · exact ih s
  | literal l =>
    rw [evaluate]
    exact l.value_operational.ofEvaluation
  | binary op left right ihl ihr =>
    rw [evaluate]
    refine (ihl s).bind fun a => (op.decided?_operational a).ofEvaluation.bind fun decided? => ?_
    split
    · exact .ok _
    · exact (ihr s).bind fun b => (op.apply_operational a b).ofEvaluation
  | unary op operand ih =>
    rw [evaluate]
    exact (ih s).bind fun v => (op.applyTo_operational v).ofEvaluation
  | call function args ih => exact evaluate_call_ofEvaluation ih
  | case operand branches otherwise iho ihb ihe =>
    rw [evaluate]
    refine (evaluateOption_ofEvaluation fun e he => iho e he s).bind fun operand => ?_
    refine (evaluateBranches_ofEvaluation operand fun b hb =>
      ⟨(ihb b hb).1 s, (ihb b hb).2 s⟩).bind fun result? => ?_
    split
    · exact .ok _
    · exact (evaluateOption_ofEvaluation fun e he => ihe e he s).bind fun _ => .ok _
  | member base key ih =>
    rw [evaluate]
    exact (ih s).bind fun v => (v.atKey_operational key).ofEvaluation
  | element base position ih =>
    rw [evaluate]
    exact (ih s).bind fun v => (v.atIndex_operational position).ofEvaluation
  | slice base start stop ih =>
    rw [evaluate]
    exact (ih s).bind fun v => (v.slice_operational start stop).ofEvaluation
  | star except replace ih =>
    rw [evaluate]
    exact (evaluateReplacements_ofEvaluation _ fun r hr => ih r hr s).bind fun _ => .ok _

/-- Evaluation of any expression succeeds or ends in an elementary fault. -/
theorem evaluate_elementary (e : Expr) (s : Subject) (scope : Scope) :
    Outcome.Elementary (e.evaluate s scope) := by
  intro fault hfault
  rcases e.evaluate_ofEvaluation s scope fault hfault with hoperational | ⟨name, rfl, _⟩
  · cases fault <;> first | rfl | cases hoperational
  · rfl

end Expr
end StreamSelect
