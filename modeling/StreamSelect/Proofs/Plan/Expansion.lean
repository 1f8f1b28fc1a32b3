import StreamSelect.Proofs.Evaluation.Columns
import StreamSelect.Proofs.KeyedMap
import StreamSelect.Proofs.Plan.Declared

/-!
Expansion of a SELECT list: every reference to an earlier alias is replaced by what the alias stands
for, all the way down, so no links are left. The compiled expressions mean what the expanded ones
do, as long as the stored values of aliases are the values of their expansions.
-/
namespace StreamSelect

/-- A column, or the expression under the alias that it names. -/
def Column.expand (c : Column) (aliases : Aliases) : Expr :=
  match c.source, aliases.find? c.name with
  | none, some body => body
  | _, _ => .column c

def Expr.expand (aliases : Aliases) (e : Expr) : Expr := e.mapColumns (·.expand aliases)

/-- The expanded expressions of a list: of the aliases, the latest first; of the fields in order,
where a copied column has none; and of the replacements of stars. -/
structure Expansion where
  aliases : Aliases := []
  fields : List (Option Expr) := []
  replacements : List Expr := []

namespace Expansion

def declared? (x : Expansion) : Item → Option (String × Expr)
  | .computed e (some name) => some (name, e.expand x.aliases)
  | _ => none

def planned? (x : Expansion) : Item → Option (Option Expr)
  | .column _ => some none
  | .computed (.column _) none => some none
  | .computed e _ => some (some (e.expand x.aliases))
  | _ => none

def replacing (x : Expansion) : Item → List Expr
  | .star _ replace => replace.map fun r => r.1.expand x.aliases
  | _ => []

/-- Adds a declaration, expanded with the aliases declared before it. -/
def add (x : Expansion) (declaration : Declaration) : Expansion where
  aliases := (x.declared? declaration.item).toList ++ x.aliases
  fields := x.fields ++ (x.planned? declaration.item).toList
  replacements := x.replacements ++ x.replacing declaration.item

def ofList (declarations : List Declaration) : Expansion := declarations.foldl add {}

theorem mem_aliases_foldl {a : String × Expr} {x : Expansion} (h : a ∈ x.aliases)
    (declarations : List Declaration) : a ∈ (declarations.foldl add x).aliases := by
  induction declarations generalizing x with
  | nil => exact h
  | cons d rest ih => exact ih (List.mem_append_right _ h)

private theorem names_declared? (x : Expansion) (item : Item) :
    (x.declared? item).map Prod.fst = item.alias? := by
  cases item with
  | computed e alias? => cases alias? <;> rfl
  | _ => rfl

theorem names_foldl (declarations : List Declaration) (x : Expansion) :
    (declarations.foldl add x).aliases.map Prod.fst =
      (declarations.filterMap (·.item.alias?)).reverse ++ x.aliases.map Prod.fst := by
  induction declarations generalizing x with
  | nil => rfl
  | cons d rest ih =>
    have hadd : (x.add d).aliases.map Prod.fst =
        d.item.alias?.toList ++ x.aliases.map Prod.fst := by
      rw [add, List.map_append, ← Option.toList_map, names_declared?]
    rw [List.foldl_cons, ih, hadd]
    cases halias : d.item.alias? <;> simp [halias]

theorem names_ofList (declarations : List Declaration) :
    (ofList declarations).aliases.map Prod.fst =
      (declarations.filterMap (·.item.alias?)).reverse :=
  (names_foldl declarations {}).trans (List.append_nil _)

theorem ofList_concat (declarations : List Declaration) (d : Declaration) :
    ofList (declarations ++ [d]) = (ofList declarations).add d := by
  rw [ofList, List.foldl_append]
  rfl

end Expansion

/-- Aliases are declared once, no expression is written with a link, and no metadata call names an
alias declared before it. -/
structure Expandable (declarations : List Declaration) : Prop where
  aliases : (declarations.filterMap (·.item.alias?)).Nodup
  linkFree : ∀ d ∈ declarations, ∀ e ∈ d.item.expressions, e.LinkFree
  keys : ∀ before d after, declarations = before ++ d :: after → ∀ e ∈ d.item.expressions,
    e.KeysIn fun c => c.source = none → c.name ∉ before.filterMap (·.item.alias?)

section Meaning
variable (known : Aliases) (row : Row) (window : Option Window)

/-- What is stored under a known alias is the value of its expansion. -/
def Faithful (stored : FieldMap) : Prop :=
  ∀ name v, stored.get? name = some v → ∀ e, (name, e) ∈ known →
    e.evaluate (.row row) { window } = .ok v

/-- With any faithful values of aliases the first expression has the outcome that the second has
without any. -/
def Means (e e' : Expr) : Prop :=
  ∀ stored, Faithful known row window stored →
    e.evaluate (.row row) { aliases := stored, window } = e'.evaluate (.row row) { window }

/-- A compiled field and its expansion. -/
inductive FieldMeans : PlannedField → Option Expr → Prop
  | copied (c : Column) (hidden : Bool) : FieldMeans ⟨.column c, hidden⟩ none
  | named {name : String} {e e' : Expr} (hidden : Bool) (h : Means known row window e e')
    (mem : (name, e') ∈ known) : FieldMeans ⟨.alias name e, hidden⟩ (some e')
  | unnamed (name : String) {e e' : Expr} (hidden : Bool) (h : Means known row window e e') :
    FieldMeans ⟨.derived name e, hidden⟩ (some e')

/-- A draft and the expansion of the declarations that it was made from. -/
structure Draft.Expands (d : Draft) (x : Expansion) : Prop where
  aliases : List.Forall₂ (fun a b => a.1 = b.1 ∧ Means known row window a.2 b.2) d.aliases x.aliases
  fields : List.Forall₂ (FieldMeans known row window) d.fields x.fields
  replacements : List.Forall₂ (fun (r : Replacement) e => Means known row window r.expr e)
    ((d.star.map Star.replace).getD []) x.replacements

variable {known row window}

private theorem Means.column {aliases expanded : Aliases}
    (h : List.Forall₂ (fun a b => a.1 = b.1 ∧ Means known row window a.2 b.2) aliases expanded)
    (hknown : ∀ a ∈ expanded, a ∈ known) (c : Column) :
    Means known row window (c.link aliases) (c.expand expanded) := by
  intro stored hstored
  obtain ⟨name, source⟩ := c
  have hlookup : Option.Rel (Means known row window) (aliases.find? name)
    (expanded.find? name) := KeyedMap.lookupEntry_forall₂ h name
  have hmem : ∀ e, expanded.find? name = some e → (name, e) ∈ known :=
    fun e he => hknown _ (KeyedMap.mem_of_lookupEntry he)
  cases source with
  | some source => simp only [Column.link, Column.expand, Expr.evaluate]
  | none =>
    simp only [Column.link, Column.expand]
    generalize aliases.find? name = body?, expanded.find? name = e? at hlookup hmem
    cases hlookup with
    | none => simp only [Expr.evaluate]
    | some hbody =>
      -- a stored value is that of the expansion; without one the link is entered
      simp only [Expr.evaluate]
      cases hvalue : stored.get? name with
      | some v => exact (hstored name v hvalue _ (hmem _ rfl)).symm
      | none => exact hbody stored hstored

theorem Means.link {aliases expanded : Aliases}
    (h : List.Forall₂ (fun a b => a.1 = b.1 ∧ Means known row window a.2 b.2) aliases expanded)
    (hknown : ∀ a ∈ expanded, a ∈ known) {e : Expr} (hfree : e.LinkFree)
    (hkeys : e.KeysIn fun c => c.source = none → c.name ∉ expanded.map Prod.fst) :
    Means known row window (e.link aliases) (e.expand expanded) := by
  intro stored hstored
  have hcolumn := fun c => Means.column h hknown c stored hstored
  rw [Expr.link_eq_mapColumns, Expr.expand]
  refine Expr.evaluate_mapColumns e rfl hfree ?_ ?_
  · exact fun _ _ c _ => ⟨hcolumn c, fun r hr => by rw [List.mem_singleton.mp hr]; exact hcolumn c⟩
  · intro part hpart function c hcall hf
    have hfresh := hkeys part hpart function c hcall hf
    obtain ⟨name, source⟩ := c
    cases source with
    | some source => exact ⟨rfl, rfl⟩
    | none =>
      have hexpanded : expanded.find? name = none := KeyedMap.lookupEntry_eq_none (hfresh rfl)
      have hlookup : Option.Rel (Means known row window) (aliases.find? name)
        (expanded.find? name) := KeyedMap.lookupEntry_forall₂ h name
      simp only [Column.link, Column.expand]
      generalize aliases.find? name = body?, expanded.find? name = e? at hlookup hexpanded
      subst hexpanded
      cases hlookup
      exact ⟨rfl, rfl⟩

/-- A declaration adds to a draft what it adds to the expansion. -/
theorem Draft.Expands.add {d d' : Draft} {x : Expansion} {declaration : Declaration}
    (h : d.Expands known row window x) (hadd : d.add declaration = .ok d')
    (hknown : ∀ a ∈ (x.add declaration).aliases, a ∈ known)
    (hfree : ∀ e ∈ declaration.item.expressions, e.LinkFree)
    (hkeys : ∀ e ∈ declaration.item.expressions,
      e.KeysIn fun c => c.source = none → c.name ∉ x.aliases.map Prod.fst) :
    d'.Expands known row window (x.add declaration) := by
  have hlink : ∀ e ∈ declaration.item.expressions,
      Means known row window (e.link d.aliases) (e.expand x.aliases) := fun e he =>
    .link h.aliases (fun a ha => hknown a (List.mem_append_right _ ha)) (hfree e he) (hkeys e he)
  obtain ⟨item, hidden⟩ := declaration
  constructor
  · rw [(Draft.Adds.of_add hadd).aliases]
    refine List.rel_append ?_ h.aliases
    cases item with
    | computed e alias? =>
      cases alias? with
      | none => exact .nil
      | some name => exact .cons ⟨rfl, hlink e List.mem_cons_self⟩ .nil
    | _ => exact .nil
  · rw [(Draft.Adds.of_add hadd).fields]
    refine List.rel_append h.fields ?_
    cases item with
    | column c => exact .cons (.copied c hidden) .nil
    | computed e alias? =>
      have he := hlink e List.mem_cons_self
      cases alias? with
      | some name =>
        have hplanned : (x.planned? (.computed e (some name))).toList =
            [some (e.expand x.aliases)] := by cases e <;> rfl
        rw [hplanned]
        exact .cons (.named hidden he (hknown _ List.mem_cons_self)) .nil
      | none =>
        cases e with
        | column c => exact .cons (.copied c hidden) .nil
        | _ => exact .cons (.unnamed _ hidden he) .nil
    | star except replace => exact .nil
    | sourceStar source => exact .nil
  · rw [(Draft.Adds.of_add hadd).replacements]
    refine List.rel_append h.replacements ?_
    cases item with
    | star except replace =>
      simp only [Draft.replacing, Expansion.replacing]
      rw [List.forall₂_map_left_iff, List.forall₂_map_right_iff, List.forall₂_same]
      exact fun r hr => hlink r.1 (List.mem_map_of_mem hr)
    | computed e alias? => exact .nil
    | column c => exact .nil
    | sourceStar source => exact .nil

end Meaning

/-- The compiled fields and replacements of a list mean what its expansion says. -/
theorem Plan.compile_means {declarations : List Declaration} {p : Plan}
    (h : Plan.compile declarations = .ok p) (hlist : Expandable declarations) (row : Row)
    (window : Option Window) :
    List.Forall₂ (FieldMeans (Expansion.ofList declarations).aliases row window) p.fields
      (Expansion.ofList declarations).fields ∧
    List.Forall₂ (fun (r : Replacement) e =>
        Means (Expansion.ofList declarations).aliases row window r.expr e)
      ((p.star.map Star.replace).getD []) (Expansion.ofList declarations).replacements := by
  obtain ⟨d, hd, rfl⟩ := compile_eq_ok h
  have hexpands : d.Expands (Expansion.ofList declarations).aliases row window
      (Expansion.ofList declarations) := by
    refine Outcome.foldlM_induction
      (motive := fun done d => d.Expands (Expansion.ofList declarations).aliases row window
        (Expansion.ofList done)) ⟨.nil, .nil, .nil⟩ ?_ hd
    intro done declaration rest d d' hsplit ih hadd
    rw [Expansion.ofList_concat]
    have hmem : declaration ∈ declarations := by rw [hsplit]; simp
    refine ih.add hadd ?_ (hlist.linkFree declaration hmem) ?_
    · intro a ha
      have hwhole : Expansion.ofList declarations =
          rest.foldl Expansion.add ((Expansion.ofList done).add declaration) := by
        rw [hsplit, Expansion.ofList, List.foldl_append]
        rfl
      rw [hwhole]
      exact Expansion.mem_aliases_foldl ha rest
    · simp only [Expansion.names_ofList, List.mem_reverse]
      exact hlist.keys done declaration rest hsplit
  exact ⟨hexpands.fields, hexpands.replacements⟩

end StreamSelect
