import StreamSelect.Proofs.Expr.Induction

/-!
The parts of an expression as its shape gives them, and replacement of its columns. Linking to
aliases is the replacement of columns by links.
-/
namespace StreamSelect.Expr

attribute [simp] walk

theorem walkAll_eq (es : List Expr) : walkAll es = es.flatMap walk := by
  induction es with
  | nil => rfl
  | cons e es ih => rw [walkAll, ih, List.flatMap_cons]

theorem walkOption_eq (e? : Option Expr) : walkOption e? = e?.toList.flatMap walk := by
  cases e? <;> simp [walkOption]

theorem walkBranches_eq (branches : List (Expr × Expr)) :
    walkBranches branches = branches.flatMap fun b => walk b.1 ++ walk b.2 := by
  induction branches with
  | nil => rfl
  | cons b branches ih => rw [walkBranches, ih, List.flatMap_cons]

theorem walkReplacements_eq (replace : List (Expr × String)) :
    walkReplacements replace = replace.flatMap fun r => walk r.1 := by
  induction replace with
  | nil => rfl
  | cons r replace ih => rw [walkReplacements, ih, List.flatMap_cons]

/-- Every part of the expression has the property, the expression included. -/
def Every (P : Expr → Prop) (e : Expr) : Prop := ∀ part ∈ e.walk, P part

/-- No part links to an alias. -/
def LinkFree (e : Expr) : Prop := e.Every fun part => ∀ name body, part ≠ .aliasRef name body

section Every
variable {P : Expr → Prop}

@[simp] theorem every_column (c : Column) : (column c).Every P ↔ P (.column c) := by
  simp [Every]

@[simp] theorem every_aliasRef (name : String) (body : Expr) :
    (aliasRef name body).Every P ↔ P (.aliasRef name body) := by
  simp [Every]

@[simp] theorem every_literal (l : Literal) : (literal l).Every P ↔ P (.literal l) := by
  simp [Every]

@[simp] theorem every_binary (op : BinaryOp) (left right : Expr) :
    (binary op left right).Every P ↔ P (.binary op left right) ∧ left.Every P ∧ right.Every P := by
  simp [Every, or_imp, forall_and]

@[simp] theorem every_unary (op : UnaryOp) (operand : Expr) :
    (unary op operand).Every P ↔ P (.unary op operand) ∧ operand.Every P := by
  simp [Every]

@[simp] theorem every_call (function : String) (args : List Expr) :
    (call function args).Every P ↔ P (.call function args) ∧ ∀ a ∈ args, a.Every P := by
  simp only [Every, walk, walkAll_eq, List.forall_mem_cons, List.forall_mem_flatMap]

@[simp] theorem every_case (operand : Option Expr) (branches : List (Expr × Expr))
    (otherwise : Option Expr) : (case operand branches otherwise).Every P ↔
      P (.case operand branches otherwise) ∧ (∀ e ∈ operand, e.Every P) ∧
        (∀ b ∈ branches, b.1.Every P ∧ b.2.Every P) ∧ ∀ e ∈ otherwise, e.Every P := by
  simp only [Every, walk, walkOption_eq, walkBranches_eq, List.forall_mem_cons,
    List.forall_mem_append, List.forall_mem_flatMap, Option.mem_toList, Option.mem_def,
    and_assoc]

@[simp] theorem every_member (base : Expr) (key : String) :
    (member base key).Every P ↔ P (.member base key) ∧ base.Every P := by
  simp [Every]

@[simp] theorem every_element (base : Expr) (position : Int64) :
    (element base position).Every P ↔ P (.element base position) ∧ base.Every P := by
  simp [Every]

@[simp] theorem every_slice (base : Expr) (start stop : Option Int64) :
    (slice base start stop).Every P ↔ P (.slice base start stop) ∧ base.Every P := by
  simp [Every]

@[simp] theorem every_star (except : List String) (replace : List (Expr × String)) :
    (star except replace).Every P ↔
      P (.star except replace) ∧ ∀ r ∈ replace, r.1.Every P := by
  simp only [Every, walk, walkReplacements_eq, List.forall_mem_cons, List.forall_mem_flatMap]

end Every

mutual

/-- Replaces every column. What an alias stands for is not entered. -/
def mapColumns (f : Column → Expr) : Expr → Expr
  | .column c => f c
  | .aliasRef name body => .aliasRef name body
  | .literal l => .literal l
  | .binary op left right => .binary op (mapColumns f left) (mapColumns f right)
  | .unary op operand => .unary op (mapColumns f operand)
  | .call function args => .call function (mapColumnsAll f args)
  | .case operand branches otherwise =>
    .case (mapColumnsOption f operand) (mapColumnsBranches f branches)
      (mapColumnsOption f otherwise)
  | .member base key => .member (mapColumns f base) key
  | .element base position => .element (mapColumns f base) position
  | .slice base start stop => .slice (mapColumns f base) start stop
  | .star except replace => .star except (mapColumnsReplacements f replace)

def mapColumnsAll (f : Column → Expr) : List Expr → List Expr
  | [] => []
  | e :: rest => mapColumns f e :: mapColumnsAll f rest

def mapColumnsOption (f : Column → Expr) : Option Expr → Option Expr
  | none => none
  | some e => some (mapColumns f e)

def mapColumnsBranches (f : Column → Expr) : List (Expr × Expr) → List (Expr × Expr)
  | [] => []
  | (condition, result) :: rest =>
    (mapColumns f condition, mapColumns f result) :: mapColumnsBranches f rest

def mapColumnsReplacements (f : Column → Expr) : List (Expr × String) → List (Expr × String)
  | [] => []
  | (e, name) :: rest => (mapColumns f e, name) :: mapColumnsReplacements f rest

end

section MapColumns
variable {f g : Column → Expr}

theorem mapColumnsAll_eq (es : List Expr) : mapColumnsAll f es = es.map (mapColumns f) := by
  induction es with
  | nil => rfl
  | cons e es ih => rw [mapColumnsAll, ih, List.map_cons]

theorem mapColumnsOption_eq (e? : Option Expr) :
    mapColumnsOption f e? = e?.map (mapColumns f) := by
  cases e? <;> rfl

theorem mapColumnsBranches_eq (branches : List (Expr × Expr)) :
    mapColumnsBranches f branches = branches.map (Prod.map (mapColumns f) (mapColumns f)) := by
  induction branches with
  | nil => rfl
  | cons b branches ih => rw [mapColumnsBranches, ih, List.map_cons, Prod.map]

theorem mapColumnsReplacements_eq (replace : List (Expr × String)) :
    mapColumnsReplacements f replace = replace.map (Prod.map (mapColumns f) id) := by
  induction replace with
  | nil => rfl
  | cons r replace ih => rw [mapColumnsReplacements, ih, List.map_cons, Prod.map, id]

/-- Replacements that do the same to the columns of an expression do the same to it. -/
theorem mapColumns_congr (e : Expr) (h : e.Every fun part => ∀ c, part = .column c → f c = g c) :
    e.mapColumns f = e.mapColumns g := by
  induction e using induct with
  | column c => exact h _ (by simp) c rfl
  | aliasRef name body ih => rfl
  | literal l => rfl
  | binary op left right ihl ihr =>
    rw [every_binary] at h
    rw [mapColumns, mapColumns, ihl h.2.1, ihr h.2.2]
  | unary op operand ih =>
    rw [every_unary] at h
    rw [mapColumns, mapColumns, ih h.2]
  | call function args ih =>
    rw [every_call] at h
    rw [mapColumns, mapColumns, mapColumnsAll_eq, mapColumnsAll_eq]
    rw [List.map_congr_left fun a ha => ih a ha (h.2 a ha)]
  | case operand branches otherwise iho ihb ihe =>
    rw [every_case] at h
    obtain ⟨_, hoperand, hbranches, hotherwise⟩ := h
    have hmapped : branches.map (Prod.map (mapColumns f) (mapColumns f)) =
        branches.map (Prod.map (mapColumns g) (mapColumns g)) :=
      List.map_congr_left fun b hb => by
        rw [Prod.map, Prod.map, (ihb b hb).1 (hbranches b hb).1, (ihb b hb).2 (hbranches b hb).2]
    rw [mapColumns, mapColumns]
    simp only [mapColumnsOption_eq, mapColumnsBranches_eq]
    rw [Option.map_congr fun e he => iho e he (hoperand e he), hmapped,
      Option.map_congr fun e he => ihe e he (hotherwise e he)]
  | member base key ih =>
    rw [every_member] at h
    rw [mapColumns, mapColumns, ih h.2]
  | element base position ih =>
    rw [every_element] at h
    rw [mapColumns, mapColumns, ih h.2]
  | slice base start stop ih =>
    rw [every_slice] at h
    rw [mapColumns, mapColumns, ih h.2]
  | star except replace ih =>
    rw [every_star] at h
    have hmapped : replace.map (Prod.map (mapColumns f) id) =
        replace.map (Prod.map (mapColumns g) id) :=
      List.map_congr_left fun r hr => by rw [Prod.map, Prod.map, ih r hr (h.2 r hr)]
    rw [mapColumns, mapColumns, mapColumnsReplacements_eq, mapColumnsReplacements_eq, hmapped]

theorem self_mem_walk (e : Expr) : e ∈ e.walk := by
  cases e <;> simp

end MapColumns

mutual

/-- Columns that are put in for themselves leave an expression as it is. -/
theorem mapColumns_column : ∀ e : Expr, e.mapColumns column = e
  | .column _ => rfl
  | .aliasRef _ _ => rfl
  | .literal _ => rfl
  | .binary _ left right => by rw [mapColumns, mapColumns_column left, mapColumns_column right]
  | .unary _ operand => by rw [mapColumns, mapColumns_column operand]
  | .call _ args => by rw [mapColumns, mapColumnsAll_column args]
  | .case operand branches otherwise => by
    rw [mapColumns, mapColumnsOption_column operand, mapColumnsBranches_column branches,
      mapColumnsOption_column otherwise]
  | .member base _ => by rw [mapColumns, mapColumns_column base]
  | .element base _ => by rw [mapColumns, mapColumns_column base]
  | .slice base _ _ => by rw [mapColumns, mapColumns_column base]
  | .star _ replace => by rw [mapColumns, mapColumnsReplacements_column replace]

private theorem mapColumnsAll_column : ∀ es : List Expr, mapColumnsAll column es = es
  | [] => rfl
  | e :: rest => by rw [mapColumnsAll, mapColumns_column e, mapColumnsAll_column rest]

private theorem mapColumnsOption_column : ∀ e? : Option Expr, mapColumnsOption column e? = e?
  | none => rfl
  | some e => by rw [mapColumnsOption, mapColumns_column e]

private theorem mapColumnsBranches_column :
    ∀ branches : List (Expr × Expr), mapColumnsBranches column branches = branches
  | [] => rfl
  | (condition, result) :: rest => by
    rw [mapColumnsBranches, mapColumns_column condition, mapColumns_column result,
      mapColumnsBranches_column rest]

private theorem mapColumnsReplacements_column :
    ∀ replace : List (Expr × String), mapColumnsReplacements column replace = replace
  | [] => rfl
  | (e, _) :: rest => by
    rw [mapColumnsReplacements, mapColumns_column e, mapColumnsReplacements_column rest]

end

mutual

theorem link_eq_mapColumns (aliases : Aliases) :
    ∀ e : Expr, e.link aliases = e.mapColumns (·.link aliases)
  | .column _ => rfl
  | .aliasRef _ _ => rfl
  | .literal _ => rfl
  | .binary _ left right => by
    rw [link, mapColumns, link_eq_mapColumns aliases left, link_eq_mapColumns aliases right]
  | .unary _ operand => by rw [link, mapColumns, link_eq_mapColumns aliases operand]
  | .call _ args => by rw [link, mapColumns, linkAll_eq_mapColumnsAll aliases args]
  | .case operand branches otherwise => by
    rw [link, mapColumns, linkOption_eq_mapColumnsOption aliases operand,
      linkBranches_eq_mapColumnsBranches aliases branches,
      linkOption_eq_mapColumnsOption aliases otherwise]
  | .member base _ => by rw [link, mapColumns, link_eq_mapColumns aliases base]
  | .element base _ => by rw [link, mapColumns, link_eq_mapColumns aliases base]
  | .slice base _ _ => by rw [link, mapColumns, link_eq_mapColumns aliases base]
  | .star _ replace => by
    rw [link, mapColumns, linkReplacements_eq_mapColumnsReplacements aliases replace]

private theorem linkAll_eq_mapColumnsAll (aliases : Aliases) :
    ∀ es : List Expr, linkAll aliases es = mapColumnsAll (·.link aliases) es
  | [] => rfl
  | e :: rest => by
    rw [linkAll, mapColumnsAll, link_eq_mapColumns aliases e, linkAll_eq_mapColumnsAll aliases rest]

private theorem linkOption_eq_mapColumnsOption (aliases : Aliases) :
    ∀ e? : Option Expr, linkOption aliases e? = mapColumnsOption (·.link aliases) e?
  | none => rfl
  | some e => by rw [linkOption, mapColumnsOption, link_eq_mapColumns aliases e]

private theorem linkBranches_eq_mapColumnsBranches (aliases : Aliases) :
    ∀ branches : List (Expr × Expr),
      linkBranches aliases branches = mapColumnsBranches (·.link aliases) branches
  | [] => rfl
  | (condition, result) :: rest => by
    rw [linkBranches, mapColumnsBranches, link_eq_mapColumns aliases condition,
      link_eq_mapColumns aliases result, linkBranches_eq_mapColumnsBranches aliases rest]

private theorem linkReplacements_eq_mapColumnsReplacements (aliases : Aliases) :
    ∀ replace : List (Expr × String),
      linkReplacements aliases replace = mapColumnsReplacements (·.link aliases) replace
  | [] => rfl
  | (e, _) :: rest => by
    rw [linkReplacements, mapColumnsReplacements, link_eq_mapColumns aliases e,
      linkReplacements_eq_mapColumnsReplacements aliases rest]

end

end StreamSelect.Expr
