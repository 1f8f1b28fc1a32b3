import StreamSelect.Proofs.Expr.Reach
import StreamSelect.Proofs.KeyedMap

/-!
The walk of an expression after its columns are replaced. A column gives way to the walk of what
replaces it, and every other part keeps its place. A link is one part, since the walk does not enter
it, so linking changes the walk part by part: no call is lost, the columns that are left are those
that name no alias, and linking once more finds nothing to link.
-/
namespace StreamSelect

namespace Expr
variable {f : Column → Expr} {e part : Expr}

theorem parts_mapColumns (hcolumn : ∀ c, e ≠ .column c)
    (hlink : ∀ name body, e ≠ .aliasRef name body) :
    (e.mapColumns f).parts = e.parts.map (mapColumns f) := by
  cases e with
  | column c => exact absurd rfl (hcolumn c)
  | aliasRef name body => exact absurd rfl (hlink name body)
  | call function args => rw [mapColumns, mapColumnsAll_eq, parts, parts]
  | case operand branches otherwise =>
    simp only [mapColumns, mapColumnsOption_eq, mapColumnsBranches_eq, parts, List.map_append,
      Option.toList_map, List.map_flatMap, List.flatMap_map, Prod.map, List.map_cons, List.map_nil]
  | star except replace =>
    simp only [mapColumns, mapColumnsReplacements_eq, parts, List.map_map]
    rfl
  | _ => rfl

theorem mapColumns_ne_aliasRef (hcolumn : ∀ c, e ≠ .column c)
    (hlink : ∀ name body, e ≠ .aliasRef name body) (name : String) (body : Expr) :
    e.mapColumns f ≠ .aliasRef name body := by
  cases e with
  | column c => exact absurd rfl (hcolumn c)
  | aliasRef name body => exact absurd rfl (hlink name body)
  | _ => simp [mapColumns]

/-- What a part of a walk becomes when columns are replaced. -/
def walkReplaced (f : Column → Expr) : Expr → List Expr
  | .column c => (f c).walk
  | part => [part.mapColumns f]

theorem walkReplaced_of_ne_column (h : ∀ c, e ≠ .column c) :
    walkReplaced f e = [e.mapColumns f] := by
  cases e with
  | column c => exact absurd rfl (h c)
  | _ => rfl

theorem mapColumns_mem_walkReplaced (part : Expr) : part.mapColumns f ∈ walkReplaced f part := by
  cases part with
  | column c => exact self_mem_walk (f c)
  | _ => exact List.mem_singleton_self _

/-- Replacement of columns acts on a walk part by part. -/
theorem walk_mapColumns (f : Column → Expr) (e : Expr) :
    (e.mapColumns f).walk = e.walk.flatMap (walkReplaced f) := by
  induction e using induct_parts with
  | step e ih =>
    -- a column gives way and a link is not entered; all else keeps its shape and its parts change
    by_cases hcolumn : ∃ c, e = .column c
    · obtain ⟨c, rfl⟩ := hcolumn
      exact (List.flatMap_singleton (walkReplaced f) (column c)).symm
    by_cases hlink : ∃ name body, e = .aliasRef name body
    · obtain ⟨name, body, rfl⟩ := hlink
      rfl
    have hcolumn' : ∀ c, e ≠ .column c := fun c he => hcolumn ⟨c, he⟩
    have hlink' : ∀ name body, e ≠ .aliasRef name body := fun name body he => hlink ⟨name, body, he⟩
    calc (e.mapColumns f).walk
        = e.mapColumns f :: (e.parts.map (mapColumns f)).flatMap walk := by
          rw [walk_eq (mapColumns_ne_aliasRef hcolumn' hlink'), parts_mapColumns hcolumn' hlink']
      _ = e.mapColumns f :: e.parts.flatMap fun part => part.walk.flatMap (walkReplaced f) := by
          rw [List.flatMap_map, List.flatMap_congr ih]
      _ = (e :: e.parts.flatMap walk).flatMap (walkReplaced f) := by
          rw [List.flatMap_cons, walkReplaced_of_ne_column hcolumn', List.flatMap_assoc,
            List.singleton_append]
      _ = e.walk.flatMap (walkReplaced f) := by rw [walk_eq hlink']

/-- Replacement of columns reaches every part. -/
theorem mapColumns_mem_walk (e : Expr) (h : part ∈ e.walk) :
    part.mapColumns f ∈ (e.mapColumns f).walk := by
  rw [walk_mapColumns]
  exact List.mem_flatMap.mpr ⟨part, h, mapColumns_mem_walkReplaced part⟩

end Expr

/-- The column has no source and the name of an alias. -/
def Column.NamesAlias (c : Column) (aliases : Aliases) : Prop :=
  c.source = none ∧ c.name ∈ aliases.map Prod.fst

instance (c : Column) (aliases : Aliases) : Decidable (c.NamesAlias aliases) :=
  inferInstanceAs (Decidable (c.source = none ∧ c.name ∈ aliases.map Prod.fst))

namespace Column
variable {c : Column} {aliases : Aliases}

theorem link_of_namesAlias (h : c.NamesAlias aliases) :
    ∃ body, aliases.find? c.name = some body ∧ c.link aliases = .aliasRef c.name body := by
  obtain ⟨body, hbody⟩ := KeyedMap.exists_lookupEntry h.2
  exact ⟨body, hbody, by simp only [link, h.1, Aliases.find?, hbody]⟩

theorem link_of_not_namesAlias (h : ¬c.NamesAlias aliases) : c.link aliases = .column c := by
  obtain ⟨name, source⟩ := c
  cases source with
  | some source => rfl
  | none =>
    have hname : name ∉ aliases.map Prod.fst := fun hname => h ⟨rfl, hname⟩
    simp only [link, Aliases.find?, KeyedMap.lookupEntry_eq_none hname]

end Column

namespace Expr
variable {aliases : Aliases} {e : Expr}

/-- Whatever replaces a column is one part of the walk, so that linking loses and adds none. -/
theorem walk_link (aliases : Aliases) (e : Expr) :
    (e.link aliases).walk = e.walk.map (link aliases) := by
  have hpart : ∀ part, walkReplaced (·.link aliases) part = [part.link aliases] := by
    intro part
    cases part with
    | column c =>
      change (c.link aliases).walk = [c.link aliases]
      by_cases hc : c.NamesAlias aliases
      · obtain ⟨body, _, hlinked⟩ := Column.link_of_namesAlias hc
        rw [hlinked, walk]
      · rw [Column.link_of_not_namesAlias hc, walk]
    | _ => rw [link_eq_mapColumns]; rfl
  rw [link_eq_mapColumns, walk_mapColumns, funext hpart, ← List.map_eq_flatMap]

theorem column?_link (aliases : Aliases) (part : Expr) :
    (part.link aliases).column? = part.column?.filter fun c => ¬c.NamesAlias aliases := by
  cases part with
  | column c =>
    rw [link, column?, Option.filter_some]
    by_cases hc : c.NamesAlias aliases
    · obtain ⟨body, _, hlinked⟩ := Column.link_of_namesAlias hc
      rw [hlinked, if_neg (by simpa using hc)]
      rfl
    · rw [Column.link_of_not_namesAlias hc, if_pos (by simpa using hc)]
      rfl
  | _ => rfl

theorem calledFunction?_link (aliases : Aliases) (part : Expr) :
    (part.link aliases).calledFunction? = part.calledFunction? := by
  cases part with
  | column c =>
    rw [link, Column.link]
    split <;> rfl
  | _ => rfl

/-- Linking takes the columns away that name an alias. -/
theorem columns_link (aliases : Aliases) (e : Expr) :
    (e.link aliases).columns = e.columns.filter fun c => ¬c.NamesAlias aliases := by
  rw [columns, walk_link, List.filterMap_map, columns, List.filter_filterMap]
  exact List.filterMap_congr fun part _ => column?_link aliases part

theorem functions_link (aliases : Aliases) (e : Expr) :
    (e.link aliases).functions = e.functions := by
  rw [functions, walk_link, List.filterMap_map, functions]
  exact List.filterMap_congr fun part _ => calledFunction?_link aliases part

theorem not_namesAlias_of_mem_columns_link {c : Column} (h : c ∈ (e.link aliases).columns) :
    ¬c.NamesAlias aliases := by
  rw [columns_link, List.mem_filter, decide_eq_true_eq] at h
  exact h.2

/-- The links of an expression that is written without any come from the aliases. -/
theorem find?_of_mem_walk_link (hfree : e.LinkFree) {name : String} {body : Expr}
    (h : .aliasRef name body ∈ (e.link aliases).walk) : aliases.find? name = some body := by
  rw [walk_link] at h
  obtain ⟨part, hpart, hlinked⟩ := List.mem_map.mp h
  cases part with
  | column c =>
    rw [link] at hlinked
    by_cases hc : c.NamesAlias aliases
    · obtain ⟨body', hfind, hlink⟩ := Column.link_of_namesAlias hc
      cases hlink.symm.trans hlinked
      exact hfind
    · cases (Column.link_of_not_namesAlias hc).symm.trans hlinked
  | aliasRef name' body' => exact absurd rfl (hfree _ hpart name' body')
  | _ => cases hlinked

/-- An expression without columns that name an alias is not linked. -/
theorem link_of_unnamed (h : ∀ c ∈ e.columns, ¬c.NamesAlias aliases) : e.link aliases = e := by
  rw [link_eq_mapColumns]
  refine (mapColumns_congr e fun part hpart c hc => ?_).trans (mapColumns_column e)
  have hmem : c ∈ e.columns := List.mem_filterMap.mpr ⟨part, hpart, by rw [hc]; rfl⟩
  exact Column.link_of_not_namesAlias (h c hmem)

/-- Without aliases nothing is linked. -/
theorem link_nil (e : Expr) : e.link [] = e :=
  link_of_unnamed fun _ _ h => List.not_mem_nil h.2

/-- After linking no column is left to link. -/
theorem link_link (aliases : Aliases) (e : Expr) :
    (e.link aliases).link aliases = e.link aliases :=
  link_of_unnamed fun _ => not_namesAlias_of_mem_columns_link

/-- Linking filters what is found on the walk of an expression. Of the columns it takes away exactly
those without a source that have the name of an alias, and keeps the others in order and as often as
they occur. It keeps all calls. A second time it changes nothing. -/
theorem link_filters_columns (aliases : Aliases) (e : Expr) :
    (e.link aliases).columns = e.columns.filter (fun c => ¬c.NamesAlias aliases) ∧
    (e.link aliases).functions = e.functions ∧
    (e.link aliases).link aliases = e.link aliases :=
  ⟨columns_link aliases e, functions_link aliases e, link_link aliases e⟩

/-- A case distinction on an alias that is met four times, once as a field of a source. -/
example :
    let s : Expr := .column { name := "s" }
    let e : Expr := .case (some s)
      [(.column { name := "s", source := "t" }, .call "abs" [.column { name := "a" }, s])]
      (some (.star [] [(.binary .concat s (.column { name := "a" }), "s")]))
    let linked := e.link [("s", .call "sum" [.column { name := "b" }])]
    linked.columns = [{ name := "s", source := "t" }, { name := "a" }, { name := "a" }] ∧
      linked.functions = ["abs"] := by
  decide

end Expr
end StreamSelect
