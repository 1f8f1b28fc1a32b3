import StreamSelect.Plan.Alias

/-!
Induction over expressions, with the expressions in argument lists, branches and replacements as
members of their lists, and the lists that the recursive functions keep as maps.
-/
namespace StreamSelect.Expr

/-- Every property that passes from the direct parts of an expression to the expression holds of
all expressions. What an alias stands for counts as a part here. -/
theorem induct {motive : Expr → Prop}
    (column : ∀ c, motive (.column c))
    (aliasRef : ∀ name body, motive body → motive (.aliasRef name body))
    (literal : ∀ l, motive (.literal l))
    (binary : ∀ op left right, motive left → motive right → motive (.binary op left right))
    (unary : ∀ op operand, motive operand → motive (.unary op operand))
    (call : ∀ function args, (∀ a ∈ args, motive a) → motive (.call function args))
    (case : ∀ operand branches otherwise, (∀ e ∈ operand, motive e) →
      (∀ b ∈ branches, motive b.1 ∧ motive b.2) → (∀ e ∈ otherwise, motive e) →
      motive (.case operand branches otherwise))
    (member : ∀ base key, motive base → motive (.member base key))
    (element : ∀ base position, motive base → motive (.element base position))
    (slice : ∀ base start stop, motive base → motive (.slice base start stop))
    (star : ∀ except replace, (∀ r ∈ replace, motive r.1) → motive (.star except replace))
    (e : Expr) : motive e :=
  @Expr.rec motive (fun es => ∀ a ∈ es, motive a) (fun e? => ∀ e ∈ e?, motive e)
    (fun branches => ∀ b ∈ branches, motive b.1 ∧ motive b.2)
    (fun replace => ∀ r ∈ replace, motive r.1)
    (fun b => motive b.1 ∧ motive b.2) (fun r => motive r.1)
    column aliasRef literal binary unary call case member element slice star
    (by simp) (fun _ _ h hs => by simpa using ⟨h, hs⟩)
    (by simp) (fun _ h => by simpa using h)
    (by simp) (fun _ _ h hs => List.forall_mem_cons.mpr ⟨h, hs⟩)
    (by simp) (fun _ _ h hs => List.forall_mem_cons.mpr ⟨h, hs⟩)
    (fun _ _ h h' => ⟨h, h'⟩) (fun _ _ h => h) e

end StreamSelect.Expr
