import StreamSelect.Function.Basic
import StreamSelect.Proofs.Expr.Columns

/-!
What the evaluation of an expression can come to. Other than the walk, this enters the links: what
an alias stands for is evaluated where no value is stored. The walk is compared with it part by part.
-/
namespace StreamSelect.Expr

/-- The direct parts of an expression, what an alias stands for included. -/
def parts : Expr → List Expr
  | .column _ => []
  | .aliasRef _ body => [body]
  | .literal _ => []
  | .binary _ left right => [left, right]
  | .unary _ operand => [operand]
  | .call _ args => args
  | .case operand branches otherwise =>
    operand.toList ++ branches.flatMap (fun b => [b.1, b.2]) ++ otherwise.toList
  | .member base _ => [base]
  | .element base _ => [base]
  | .slice base _ _ => [base]
  | .star _ replace => replace.map Prod.fst

mutual

/-- The expression with all its parts and the parts of these, through links as well. -/
def reach : Expr → List Expr
  | .column c => [.column c]
  | .aliasRef name body => .aliasRef name body :: reach body
  | .literal l => [.literal l]
  | .binary op left right => .binary op left right :: (reach left ++ reach right)
  | .unary op operand => .unary op operand :: reach operand
  | .call function args => .call function args :: reachAll args
  | .case operand branches otherwise =>
    .case operand branches otherwise ::
      (reachOption operand ++ reachBranches branches ++ reachOption otherwise)
  | .member base key => .member base key :: reach base
  | .element base position => .element base position :: reach base
  | .slice base start stop => .slice base start stop :: reach base
  | .star except replace => .star except replace :: reachReplacements replace

def reachAll : List Expr → List Expr
  | [] => []
  | e :: rest => reach e ++ reachAll rest

def reachOption : Option Expr → List Expr
  | none => []
  | some e => reach e

def reachBranches : List (Expr × Expr) → List Expr
  | [] => []
  | (condition, result) :: rest => reach condition ++ reach result ++ reachBranches rest

def reachReplacements : List (Expr × String) → List Expr
  | [] => []
  | (e, _) :: rest => reach e ++ reachReplacements rest

end

/-- The columns that the expression names, within what its links stand for as well. -/
def reachedColumns (e : Expr) : List Column := e.reach.filterMap column?

/-- Whether an aggregate function is called anywhere, also within what a link stands for. -/
def reachesAggregate (e : Expr) : Bool :=
  (e.reach.filterMap calledFunction?).any Function.namesAggregate

private theorem reachAll_eq (es : List Expr) : reachAll es = es.flatMap reach := by
  induction es with
  | nil => rfl
  | cons e es ih => rw [reachAll, ih, List.flatMap_cons]

private theorem reachOption_eq (e? : Option Expr) : reachOption e? = e?.toList.flatMap reach := by
  cases e? <;> simp [reachOption]

private theorem reachBranches_eq (branches : List (Expr × Expr)) :
    reachBranches branches = branches.flatMap fun b => reach b.1 ++ reach b.2 := by
  induction branches with
  | nil => rfl
  | cons b branches ih => rw [reachBranches, ih, List.flatMap_cons]

private theorem reachReplacements_eq (replace : List (Expr × String)) :
    reachReplacements replace = replace.flatMap fun r => reach r.1 := by
  induction replace with
  | nil => rfl
  | cons r replace ih => rw [reachReplacements, ih, List.flatMap_cons]

/-- An expression comes to itself and to what its direct parts come to. -/
theorem reach_eq (e : Expr) : e.reach = e :: e.parts.flatMap reach := by
  cases e with
  | call function args => rw [reach, reachAll_eq, parts]
  | case operand branches otherwise =>
    simp only [reach, reachOption_eq, reachBranches_eq, parts, List.flatMap_append,
      List.flatMap_assoc, List.flatMap_cons, List.flatMap_nil, List.append_nil]
  | star except replace => rw [reach, reachReplacements_eq, parts, List.flatMap_map]
  | _ => simp [reach, parts]

/-- The condition and the result of a branch are parts of the case distinction. -/
theorem branch_mem_parts {branches : List (Expr × Expr)} {b : Expr × Expr} (h : b ∈ branches)
    (operand otherwise : Option Expr) : b.1 ∈ (case operand branches otherwise).parts ∧
      b.2 ∈ (case operand branches otherwise).parts := by
  have hpair : ∀ e ∈ [b.1, b.2], e ∈ (case operand branches otherwise).parts := fun e he =>
    List.mem_append_left _ (List.mem_append_right _ (List.mem_flatMap.mpr ⟨b, h, he⟩))
  exact ⟨hpair b.1 (by simp), hpair b.2 (by simp)⟩

variable {e part : Expr}

theorem self_mem_reach (e : Expr) : e ∈ e.reach := by
  rw [reach_eq]
  exact List.mem_cons_self

theorem reach_subset_of_mem_parts (h : part ∈ e.parts) : part.reach ⊆ e.reach := by
  intro inner hinner
  rw [reach_eq e]
  exact List.mem_cons_of_mem _ (List.mem_flatMap.mpr ⟨part, h, hinner⟩)

theorem reachedColumns_subset_of_mem_parts (h : part ∈ e.parts) :
    part.reachedColumns ⊆ e.reachedColumns :=
  List.filterMap_subset _ (reach_subset_of_mem_parts h)

theorem mem_reachedColumns_column (c : Column) : c ∈ (column c).reachedColumns :=
  List.mem_filterMap.mpr ⟨_, self_mem_reach _, rfl⟩

theorem reachesAggregate_of_mem_parts (h : part ∈ e.parts) (hpart : part.reachesAggregate = true) :
    e.reachesAggregate = true := by
  obtain ⟨function, hcalled, haggregate⟩ := List.any_eq_true.mp hpart
  exact List.any_eq_true.mpr
    ⟨function, List.filterMap_subset _ (reach_subset_of_mem_parts h) hcalled, haggregate⟩

theorem reachesAggregate_call {function : String} (args : List Expr)
    (h : Function.namesAggregate function = true) : (call function args).reachesAggregate = true :=
  List.any_eq_true.mpr
    ⟨function, List.mem_filterMap.mpr ⟨_, self_mem_reach _, rfl⟩, h⟩

/-- Every property that passes from the direct parts of an expression to the expression holds of all
expressions. -/
theorem induct_parts {motive : Expr → Prop}
    (step : ∀ e : Expr, (∀ part ∈ e.parts, motive part) → motive e) (e : Expr) : motive e := by
  induction e using induct with
  | column c => exact step _ (by simp [parts])
  | aliasRef name body ih => exact step _ (by simpa [parts] using ih)
  | literal l => exact step _ (by simp [parts])
  | binary op left right ihl ihr => exact step _ (by simpa [parts] using ⟨ihl, ihr⟩)
  | unary op operand ih => exact step _ (by simpa [parts] using ih)
  | call function args ih => exact step _ ih
  | case operand branches otherwise iho ihb ihe =>
    refine step _ fun part hpart => ?_
    simp only [parts, List.mem_append, Option.mem_toList, List.mem_flatMap, List.mem_cons,
      List.not_mem_nil, or_false] at hpart
    rcases hpart with (hpart | ⟨b, hb, rfl | rfl⟩) | hpart
    · exact iho _ hpart
    · exact (ihb b hb).1
    · exact (ihb b hb).2
    · exact ihe _ hpart
  | member base key ih => exact step _ (by simpa [parts] using ih)
  | element base position ih => exact step _ (by simpa [parts] using ih)
  | slice base start stop ih => exact step _ (by simpa [parts] using ih)
  | star except replace ih => exact step _ (by simpa [parts] using ih)

/-- The walk goes where the expression comes to, but not through links. -/
theorem walk_eq (h : ∀ name body, e ≠ .aliasRef name body) :
    e.walk = e :: e.parts.flatMap walk := by
  cases e with
  | aliasRef name body => exact absurd rfl (h name body)
  | call function args => rw [walk, walkAll_eq, parts]
  | case operand branches otherwise =>
    simp only [walk, walkOption_eq, walkBranches_eq, parts, List.flatMap_append,
      List.flatMap_assoc, List.flatMap_cons, List.flatMap_nil, List.append_nil]
  | star except replace => rw [walk, walkReplacements_eq, parts, List.flatMap_map]
  | _ => simp [parts]

/-- What an expression comes to stands in it, or a link of it carries what comes to that. -/
theorem mem_walk_or_of_mem_reach (h : part ∈ e.reach) :
    part ∈ e.walk ∨ ∃ name body, aliasRef name body ∈ e.walk ∧ part ∈ body.reach := by
  induction e using induct_parts with
  | step e ih =>
    by_cases hlink : ∃ name body, e = .aliasRef name body
    · obtain ⟨name, body, rfl⟩ := hlink
      rcases List.mem_cons.mp h with rfl | hbody
      · exact .inl (self_mem_walk _)
      · exact .inr ⟨name, body, self_mem_walk _, hbody⟩
    · rw [walk_eq fun name body he => hlink ⟨name, body, he⟩]
      rw [reach_eq] at h
      rcases List.mem_cons.mp h with rfl | hpart
      · exact .inl List.mem_cons_self
      · obtain ⟨inner, hinner, hpart⟩ := List.mem_flatMap.mp hpart
        have hwalk : ∀ {x}, x ∈ inner.walk → x ∈ e :: e.parts.flatMap walk := fun hx =>
          List.mem_cons_of_mem _ (List.mem_flatMap.mpr ⟨inner, hinner, hx⟩)
        rcases ih inner hinner hpart with hpart | ⟨name, body, hbody, hpart⟩
        · exact .inl (hwalk hpart)
        · exact .inr ⟨name, body, hwalk hbody, hpart⟩

/-- What a link carries is one of the expressions. -/
def ClosedUnderLinks (es : List Expr) : Prop :=
  ∀ e ∈ es, ∀ name body, aliasRef name body ∈ e.walk → body ∈ es

/-- What an expression of a closed list comes to stands in an expression of the list. -/
theorem ClosedUnderLinks.exists_mem_walk {es : List Expr} (hes : ClosedUnderLinks es) (he : e ∈ es)
    (h : part ∈ e.reach) : ∃ inner ∈ es, part ∈ inner.walk := by
  suffices main : (∀ name body, aliasRef name body ∈ e.walk → body ∈ es) →
      part ∈ e.reach → part ∈ e.walk ∨ ∃ inner ∈ es, part ∈ inner.walk from
    (main (hes e he) h).elim (fun hwalk => ⟨e, he, hwalk⟩) id
  clear he h
  induction e using induct_parts with
  | step e ih =>
    intro hlinks hreach
    by_cases hlink : ∃ name body, e = .aliasRef name body
    · obtain ⟨name, body, rfl⟩ := hlink
      have hbody : body ∈ es := hlinks name body (self_mem_walk _)
      rcases List.mem_cons.mp hreach with rfl | hreach
      · exact .inl (self_mem_walk _)
      · rcases ih body (by simp [parts]) (hes body hbody) hreach with hwalk | hfound
        · exact .inr ⟨body, hbody, hwalk⟩
        · exact .inr hfound
    · rw [walk_eq fun name body he => hlink ⟨name, body, he⟩] at hlinks ⊢
      rw [reach_eq] at hreach
      rcases List.mem_cons.mp hreach with rfl | hreach
      · exact .inl List.mem_cons_self
      · obtain ⟨inner, hinner, hreach⟩ := List.mem_flatMap.mp hreach
        have hwalk : ∀ {x}, x ∈ inner.walk → x ∈ e :: e.parts.flatMap walk := fun hx =>
          List.mem_cons_of_mem _ (List.mem_flatMap.mpr ⟨inner, hinner, hx⟩)
        rcases ih inner hinner (fun name body hx => hlinks name body (hwalk hx)) hreach with h | h
        · exact .inl (hwalk h)
        · exact .inr h

private theorem any_called_iff (es : List Expr) :
    (es.filterMap calledFunction?).any Function.namesAggregate = true ↔
      ∃ function args, call function args ∈ es ∧ Function.namesAggregate function = true := by
  rw [List.any_eq_true]
  constructor
  · rintro ⟨function, hcalled, haggregate⟩
    obtain ⟨part, hpart, hfunction⟩ := List.mem_filterMap.mp hcalled
    cases part with
    | call name args =>
      obtain rfl := Option.some.inj hfunction
      exact ⟨name, args, hpart, haggregate⟩
    | _ => cases hfunction
  · rintro ⟨function, args, hpart, haggregate⟩
    exact ⟨function, List.mem_filterMap.mpr ⟨_, hpart, rfl⟩, haggregate⟩

theorem containsAggregate_iff : e.containsAggregate = true ↔
    ∃ function args, call function args ∈ e.walk ∧ Function.namesAggregate function = true :=
  any_called_iff e.walk

theorem reachesAggregate_iff : e.reachesAggregate = true ↔
    ∃ function args, call function args ∈ e.reach ∧ Function.namesAggregate function = true :=
  any_called_iff e.reach

end StreamSelect.Expr
