import StreamSelect.Proofs.Outcome
import StreamSelect.Evaluation

/-!
Case distinctions with an operand, and those on the equations of operand and conditions. With an
operand a condition is met if it equals the operand, and null equals null; the equation of null with
anything is null, and null is no truth. The two forms agree on every operand but null. There they
part at the first condition that is null too: one takes its branch, the other passes over it.
-/
namespace StreamSelect

theorem Value.null_equals (v : Value) : equals .null v = v.isNull := by
  cases v <;> rfl

theorem Value.equals_null (v : Value) : equals v .null = v.isNull := by
  cases v <;> rfl

namespace Expr

def equation (left right : Expr) : Expr := .binary (.relation .equal) left right

/-- The branches on the equation of the operand with each condition. -/
def equations (operand : Expr) (branches : List (Expr × Expr)) : List (Expr × Expr) :=
  branches.map fun b => (equation operand b.1, b.2)

/-- What a case distinction comes to once its operand, if it has one, has come to a value. -/
def distinguish (operand : Option Value) (branches : List (Expr × Expr)) (otherwise : Option Expr)
    (s : Subject) (scope : Scope) : Outcome Value := do
  match ← evaluateBranches operand branches s scope with
  | some v => return v
  | none => return (← evaluateOption otherwise s scope).getD .null

/-- The first branch whose condition comes to null is `b`, with the branches `later` behind it. All
conditions before it come to other values. -/
inductive FirstNull (s : Subject) (scope : Scope) (b : Expr × Expr) (later : List (Expr × Expr)) :
    List (Expr × Expr) → Prop
  | here (h : b.1.evaluate s scope = .ok .null) : FirstNull s scope b later (b :: later)
  | there {first : Expr × Expr} {rest : List (Expr × Expr)} {w : Value}
      (hvalue : first.1.evaluate s scope = .ok w) (hw : w.isNull = false)
      (h : FirstNull s scope b later rest) : FirstNull s scope b later (first :: rest)

variable {operand : Expr} {s : Subject} {scope : Scope}

theorem evaluate_case_some (operand : Expr) (branches : List (Expr × Expr))
    (otherwise : Option Expr) (s : Subject) (scope : Scope) :
    (case (some operand) branches otherwise).evaluate s scope = (do
      distinguish (some (← operand.evaluate s scope)) branches otherwise s scope) := by
  rw [evaluate, evaluateOption]
  cases operand.evaluate s scope <;> rfl

theorem evaluate_case_none (branches : List (Expr × Expr)) (otherwise : Option Expr)
    (s : Subject) (scope : Scope) : (case none branches otherwise).evaluate s scope =
      distinguish none branches otherwise s scope := by
  rw [evaluate, evaluateOption]
  rfl

/-- A branch is taken if its condition holds, else it is passed over. -/
theorem distinguish_cons (v? : Option Value) (b : Expr × Expr) (rest : List (Expr × Expr))
    (otherwise : Option Expr) (s : Subject) (scope : Scope) :
    distinguish v? (b :: rest) otherwise s scope = (do
      if ← b.1.evaluate s scope >>= conditionHolds v? then b.2.evaluate s scope
      else distinguish v? rest otherwise s scope) := by
  rw [distinguish, evaluateBranches]
  cases b.1.evaluate s scope with
  | error fault => rfl
  | ok w =>
    change (conditionHolds v? w >>= _) >>= _ = conditionHolds v? w >>= _
    cases conditionHolds v? w with
    | error fault => rfl
    | ok holds =>
      cases holds with
      | true => cases b.2.evaluate s scope <;> rfl
      | false => rfl

/-- A condition holds against an operand where the two are equal. -/
theorem conditionHolds_some (v : Value) (condition : Expr) (s : Subject) (scope : Scope) :
    condition.evaluate s scope >>= conditionHolds (some v) =
      v.equals <$> condition.evaluate s scope := by
  cases condition.evaluate s scope <;> rfl

/-- An equation is true where the two sides are equal and not null. -/
theorem truth_equation (v w : Value) :
    (BinaryOp.relation .equal).apply v w >>= Value.truth = .ok (!v.isNull && v.equals w) := by
  rw [BinaryOp.apply]
  cases hv : v.isNull with
  | true => rfl
  | false =>
    cases hw : w.isNull with
    | true =>
      rw [Value.isNull_iff] at hw
      rw [hw, Value.equals_null, hv]
      rfl
    | false => rfl

theorem conditionHolds_equation {v : Value} (h : operand.evaluate s scope = .ok v)
    (condition : Expr) : (equation operand condition).evaluate s scope >>= conditionHolds none =
      (fun w => !v.isNull && v.equals w) <$> condition.evaluate s scope := by
  rw [equation, evaluate, h]
  cases condition.evaluate s scope with
  | error fault => rfl
  | ok w => exact truth_equation v w

/-- On an operand that is not null both forms agree. -/
theorem distinguish_equations {v : Value} (h : operand.evaluate s scope = .ok v)
    (hv : v.isNull = false) (branches : List (Expr × Expr)) (otherwise : Option Expr) :
    distinguish (some v) branches otherwise s scope =
      distinguish none (equations operand branches) otherwise s scope := by
  induction branches with
  | nil => rfl
  | cons b rest ih =>
    rw [equations, List.map_cons, distinguish_cons, distinguish_cons, conditionHolds_some,
      conditionHolds_equation h, hv, ih]
    rfl

/-- On null the equations of the branches only show their faults. -/
theorem distinguish_equations_null (h : operand.evaluate s scope = .ok .null) (b : Expr × Expr)
    (rest : List (Expr × Expr)) (otherwise : Option Expr) :
    distinguish none (equations operand (b :: rest)) otherwise s scope =
      b.1.evaluate s scope >>= fun _ =>
        distinguish none (equations operand rest) otherwise s scope := by
  rw [equations, List.map_cons, distinguish_cons, conditionHolds_equation h]
  cases b.1.evaluate s scope <;> rfl

/-- On null both forms agree exactly if the first branch on null has the outcome of the equations
behind it. -/
theorem distinguish_null_iff (h : operand.evaluate s scope = .ok .null)
    (branches : List (Expr × Expr)) (otherwise : Option Expr) :
    distinguish (some .null) branches otherwise s scope =
        distinguish none (equations operand branches) otherwise s scope ↔
      ∀ b later, FirstNull s scope b later branches → b.2.evaluate s scope =
        distinguish none (equations operand later) otherwise s scope := by
  induction branches with
  | nil => exact iff_of_true rfl fun b later hfirst => by cases hfirst
  | cons first rest ih =>
    rw [distinguish_equations_null h, distinguish_cons, conditionHolds_some]
    cases hvalue : first.1.evaluate s scope with
    | error fault =>
      refine iff_of_true rfl fun b later hfirst => ?_
      cases hfirst with
      | here hnull => rw [hvalue] at hnull; cases hnull
      | there hother _ _ => rw [hvalue] at hother; cases hother
    | ok w =>
      change (if Value.null.equals w then first.2.evaluate s scope
        else distinguish (some .null) rest otherwise s scope) =
          distinguish none (equations operand rest) otherwise s scope ↔ _
      rw [Value.null_equals]
      cases hw : w.isNull with
      | true =>
        -- only the operand's form stops here, so this branch is the first on null
        rw [Value.isNull_iff.mp hw] at hvalue
        constructor
        · intro hagree b later hfirst
          cases hfirst with
          | here _ => exact hagree
          | there hother hne _ =>
            rw [hvalue] at hother
            cases hother
            cases hne
        · exact fun hall => hall first rest (.here hvalue)
      | false =>
        rw [if_neg Bool.false_ne_true, ih]
        constructor
        · intro hall b later hfirst
          cases hfirst with
          | here hnull =>
            rw [hvalue] at hnull
            cases hnull
            cases hw
          | there _ _ hrest => exact hall b later hrest
        · exact fun hall b later hrest => hall b later (.there hvalue hw hrest)

/-- A case distinction with an operand and the one on the equations with that operand have the same
outcome, unless the operand is null and some condition is null too. Then the first form gives what
the first such branch has, and the second what the distinction behind it gives; they agree exactly
if these are the same. -/
theorem evaluate_case_eq_equations_iff (operand : Expr) (first : Expr × Expr)
    (rest : List (Expr × Expr)) (otherwise : Option Expr) (s : Subject) (scope : Scope) :
    (case (some operand) (first :: rest) otherwise).evaluate s scope =
        (case none (equations operand (first :: rest)) otherwise).evaluate s scope ↔
      (operand.evaluate s scope = .ok .null →
        ∀ b later, FirstNull s scope b later (first :: rest) → b.2.evaluate s scope =
          (case none (equations operand later) otherwise).evaluate s scope) := by
  simp only [evaluate_case_none]
  rw [evaluate_case_some]
  cases hoperand : operand.evaluate s scope with
  | error fault =>
    -- the first equation already evaluates the operand
    refine iff_of_true ?_ fun hnull => by cases hnull
    rw [equations, List.map_cons, distinguish_cons, equation, evaluate, hoperand]
    rfl
  | ok v =>
    cases hv : v.isNull with
    | true =>
      obtain rfl := Value.isNull_iff.mp hv
      exact (distinguish_null_iff hoperand _ otherwise).trans ⟨fun h _ => h, fun h => h rfl⟩
    | false =>
      refine iff_of_true (distinguish_equations hoperand hv _ otherwise) fun hnull => ?_
      cases hnull
      cases hv

/-- A null operand takes the branch on null, and its equation with null does not. -/
theorem null_meets_null :
    let row := Row.event { fields := .ofList [("a", .null)] }
    let operand := Expr.column { name := "a" }
    let branches := [(Expr.literal .null, Expr.literal (.integer 1))]
    let otherwise := some (Expr.literal (.integer 2))
    (case (some operand) branches otherwise).evaluate (.row row) {} = .ok (.integer 1) ∧
      (case none (equations operand branches) otherwise).evaluate (.row row) {} =
        .ok (.integer 2) :=
  ⟨rfl, rfl⟩

end Expr
end StreamSelect
