import StreamSelect.Proofs.Evaluation.Call
import StreamSelect.Proofs.Expr.Reach

/-!
Evaluation with the aggregate functions left open. Every call of one is answered from outside, and
nothing else changes. With the answers that the calls have this is evaluation; an expression that
comes to no such call has its outcome under all answers.
-/
namespace StreamSelect.Expr

mutual

/-- The outcome if calls of aggregate functions are not computed: `answer` is asked instead, with
the name and the arguments of the call. -/
def evaluateAnswered (answer : String → List Expr → Outcome Value) (e : Expr) (subject : Subject)
    (scope : Scope) : Outcome Value :=
  match e with
  | .column c => .ok (c.valueIn subject.first?)
  | .aliasRef name body =>
    match scope.aliases.get? name with
    | some v => .ok v
    | none => evaluateAnswered answer body subject scope
  | .literal l => l.value
  | .binary op left right => do
    let a ← evaluateAnswered answer left subject scope
    match ← op.decided? a with
    | some v => return v
    | none => op.apply a (← evaluateAnswered answer right subject scope)
  | .unary op operand => do op.applyTo (← evaluateAnswered answer operand subject scope)
  | .call function args =>
    match Function.ofName? function with
    | none => .error (.unknownFunction function)
    | some (.aggregate _) => answer function args
    | some .windowBoundary => .ok (windowValue function scope.window)
    | some .metadata => metadataValue args subject.first?
    | some (.scalar f) => do f.apply (← answeredAll answer args subject scope)
  | .case operand branches otherwise => do
    let operand ← answeredOption answer operand subject scope
    match ← answeredBranches answer operand branches subject scope with
    | some v => return v
    | none => return (← answeredOption answer otherwise subject scope).getD .null
  | .member base key => do (← evaluateAnswered answer base subject scope).atKey key
  | .element base position => do (← evaluateAnswered answer base subject scope).atIndex position
  | .slice base start stop => do (← evaluateAnswered answer base subject scope).slice start stop
  | .star except replace => do
    let fields := ((subject.first?.map Row.allFields).getD ∅).filterKeys (!except.contains ·)
    return .ofFields (← answeredReplacements answer fields replace subject scope)

def answeredAll (answer : String → List Expr → Outcome Value) (es : List Expr) (subject : Subject)
    (scope : Scope) : Outcome (List Value) :=
  match es with
  | [] => .ok []
  | e :: rest => do
    return (← evaluateAnswered answer e subject scope) :: (← answeredAll answer rest subject scope)

def answeredOption (answer : String → List Expr → Outcome Value) (e? : Option Expr)
    (subject : Subject) (scope : Scope) : Outcome (Option Value) :=
  match e? with
  | none => .ok none
  | some e => some <$> evaluateAnswered answer e subject scope

def answeredBranches (answer : String → List Expr → Outcome Value) (operand : Option Value)
    (branches : List (Expr × Expr)) (subject : Subject) (scope : Scope) :
    Outcome (Option Value) :=
  match branches with
  | [] => .ok none
  | (condition, result) :: rest => do
    if ← conditionHolds operand (← evaluateAnswered answer condition subject scope) then
      some <$> evaluateAnswered answer result subject scope
    else answeredBranches answer operand rest subject scope

def answeredReplacements (answer : String → List Expr → Outcome Value) (fields : FieldMap)
    (replace : List (Expr × String)) (subject : Subject) (scope : Scope) : Outcome FieldMap :=
  match replace with
  | [] => .ok fields
  | (e, name) :: rest => do
    answeredReplacements answer
      (fields.insert name (← evaluateAnswered answer e subject scope)) rest subject scope

end

section
variable {answer : String → List Expr → Outcome Value} {s : Subject} {scope : Scope}

private theorem answeredAll_eq {es : List Expr}
    (h : ∀ e ∈ es, e.evaluateAnswered answer s scope = e.evaluate s scope) :
    answeredAll answer es s scope = evaluateAll es s scope := by
  induction es with
  | nil => rfl
  | cons e rest ih =>
    obtain ⟨he, hrest⟩ := List.forall_mem_cons.mp h
    rw [answeredAll, evaluateAll, he, ih hrest]

private theorem answeredOption_eq {e? : Option Expr}
    (h : ∀ e ∈ e?, e.evaluateAnswered answer s scope = e.evaluate s scope) :
    answeredOption answer e? s scope = evaluateOption e? s scope := by
  cases e? with
  | none => rfl
  | some e => rw [answeredOption, evaluateOption, h e rfl]

private theorem answeredBranches_eq {branches : List (Expr × Expr)} (operand : Option Value)
    (h : ∀ b ∈ branches, b.1.evaluateAnswered answer s scope = b.1.evaluate s scope ∧
      b.2.evaluateAnswered answer s scope = b.2.evaluate s scope) :
    answeredBranches answer operand branches s scope =
      evaluateBranches operand branches s scope := by
  induction branches with
  | nil => rfl
  | cons b rest ih =>
    obtain ⟨⟨hcondition, hresult⟩, hrest⟩ := List.forall_mem_cons.mp h
    rw [answeredBranches, evaluateBranches, hcondition, hresult, ih hrest]

private theorem answeredReplacements_eq {replace : List (Expr × String)} (fields : FieldMap)
    (h : ∀ r ∈ replace, r.1.evaluateAnswered answer s scope = r.1.evaluate s scope) :
    answeredReplacements answer fields replace s scope =
      evaluateReplacements fields replace s scope := by
  induction replace generalizing fields with
  | nil => rfl
  | cons r rest ih =>
    obtain ⟨hr, hrest⟩ := List.forall_mem_cons.mp h
    simp only [answeredReplacements, evaluateReplacements, hr, ih _ hrest]

/-- Every aggregate call that the expression comes to is answered with its own outcome. -/
def AnsweredRightly (answer : String → List Expr → Outcome Value) (s : Subject) (scope : Scope)
    (e : Expr) : Prop :=
  ∀ function args, call function args ∈ e.reach → Function.namesAggregate function = true →
    answer function args = (call function args).evaluate s scope

private theorem AnsweredRightly.part {part e : Expr} (h : e.AnsweredRightly answer s scope)
    (hpart : part ∈ e.parts) : part.AnsweredRightly answer s scope :=
  fun function args hcall => h function args (reach_subset_of_mem_parts hpart hcall)

/-- With the right answers this is evaluation. -/
theorem evaluateAnswered_eq (e : Expr) (h : e.AnsweredRightly answer s scope) :
    e.evaluateAnswered answer s scope = e.evaluate s scope := by
  induction e using induct with
  | column c => rfl
  | aliasRef name body ih =>
    rw [evaluateAnswered, ih (h.part (by simp [parts]))]
    rfl
  | literal l => rfl
  | binary op left right ihl ihr =>
    rw [evaluateAnswered, ihl (h.part (by simp [parts])), ihr (h.part (by simp [parts]))]
    rfl
  | unary op operand ih =>
    rw [evaluateAnswered, evaluate, ih (h.part (by simp [parts]))]
  | call function args ih =>
    rw [evaluateAnswered]
    cases hkind : Function.ofName? function with
    | none => rw [evaluate_unknown s scope hkind]
    | some kind =>
      cases kind with
      | aggregate f =>
        exact h function args (self_mem_reach _) (by rw [Function.namesAggregate, hkind]; rfl)
      | windowBoundary => rw [evaluate_window s scope hkind]
      | metadata => rw [evaluate_metadata s scope hkind]
      | scalar f =>
        rw [evaluate_scalar s scope hkind]
        simp only [answeredAll_eq fun a ha => ih a ha (h.part ha)]
  | case operand branches otherwise iho ihb ihe =>
    have hoperand : ∀ e ∈ operand, e.evaluateAnswered answer s scope = e.evaluate s scope :=
      fun e he => iho e he (h.part (by simp [parts, Option.mem_def.mp he]))
    have hotherwise : ∀ e ∈ otherwise, e.evaluateAnswered answer s scope = e.evaluate s scope :=
      fun e he => ihe e he (h.part (by simp [parts, Option.mem_def.mp he]))
    have hbranches : ∀ b ∈ branches, b.1.evaluateAnswered answer s scope = b.1.evaluate s scope ∧
        b.2.evaluateAnswered answer s scope = b.2.evaluate s scope := by
      intro b hb
      obtain ⟨hcondition, hresult⟩ := branch_mem_parts hb operand otherwise
      exact ⟨(ihb b hb).1 (h.part hcondition), (ihb b hb).2 (h.part hresult)⟩
    rw [evaluateAnswered, answeredOption_eq hoperand, answeredOption_eq hotherwise]
    simp only [answeredBranches_eq _ hbranches]
    rfl
  | member base key ih =>
    rw [evaluateAnswered, evaluate, ih (h.part (by simp [parts]))]
  | element base position ih =>
    rw [evaluateAnswered, evaluate, ih (h.part (by simp [parts]))]
  | slice base start stop ih =>
    rw [evaluateAnswered, evaluate, ih (h.part (by simp [parts]))]
  | star except replace ih =>
    have hreplace : ∀ r ∈ replace, r.1.evaluateAnswered answer s scope = r.1.evaluate s scope :=
      fun r hr => ih r hr (h.part (List.mem_map_of_mem hr))
    rw [evaluateAnswered, evaluate, answeredReplacements_eq _ hreplace]

/-- With the answers of evaluation itself nothing changes. -/
theorem evaluateAnswered_self (e : Expr) (s : Subject) (scope : Scope) :
    e.evaluateAnswered (fun function args => (call function args).evaluate s scope) s scope =
      e.evaluate s scope :=
  evaluateAnswered_eq e fun _ _ _ _ => rfl

/-- No aggregate function is computed for an expression that comes to no call of one: whatever is
answered, a fault included, its outcome is the same. -/
theorem evaluateAnswered_of_not_reachesAggregate {e : Expr} (h : e.reachesAggregate = false) :
    e.evaluateAnswered answer s scope = e.evaluate s scope := by
  apply evaluateAnswered_eq
  intro function args hcall haggregate
  have hreaches : e.reachesAggregate = true :=
    reachesAggregate_iff.mpr ⟨function, args, hcall, haggregate⟩
  rw [h] at hreaches
  cases hreaches

end

end StreamSelect.Expr
