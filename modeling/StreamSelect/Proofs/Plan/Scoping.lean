import StreamSelect.Project.Named
import StreamSelect.Proofs.Expr.Linking
import StreamSelect.Proofs.KeyedMap
import StreamSelect.Proofs.Plan.Names

/-!
Scoping of aliases. In a compiled list an unqualified column that names an alias declared before has
become a link to it, and no other link is made. Each link carries the compiled expression of the
latest declaration of its name, whose own links were made before it. So links lead to earlier
declarations only, however many of them are followed.
-/
namespace StreamSelect

namespace Item

/-- What a star replaces. -/
def replaced : Item → List (Expr × String)
  | .star _ replace => replace
  | _ => []

/-- The expressions of the item that are compiled. A bare column is copied without one. -/
def compiled (item : Item) : List Expr :=
  if item.copied?.isSome then [] else item.expressions

theorem compiled_subset (item : Item) : item.compiled ⊆ item.expressions := by
  intro e he
  unfold compiled at he
  split at he
  · cases he
  · exact he

end Item

/-- The field is the one that the declaration adds to a plan. -/
structure PlannedField.StandsFor (declaration : Declaration) (f : PlannedField) : Prop where
  hidden : f.hidden = declaration.hidden
  aliased : f.alias? = declaration.item.alias?
  copied : ∀ c, f.form = .column c ↔ declaration.item.copied? = some c

/-- The declaration declares the alias, and the body is what the field compiled for it after the
`earlier` ones evaluates. -/
structure PlannedField.Carried (fields : List PlannedField) (name : String) (body : Expr)
    (earlier : List Declaration) (declaration : Declaration) : Prop where
  declared : declaration.item.alias? = some name
  field : fields[earlier.countP (!·.item.isStar)]? = some ⟨.alias name body, declaration.hidden⟩

/-- The body is the compiled expression of the latest declaration of the alias. -/
def PlannedField.Latest (fields : List PlannedField) (declarations : List Declaration)
    (name : String) (body : Expr) : Prop :=
  ∃ earlier declaration later, declarations = earlier ++ declaration :: later ∧
    Carried fields name body earlier declaration ∧ name ∉ later.filterMap (·.item.alias?)

/-- The expression is the declared one as it is compiled after the declarations `before`. -/
structure PlannedField.Scoped (fields : List PlannedField) (before : List Declaration)
    (declared e : Expr) : Prop where
  /-- Nothing changes but columns without a source, and these become links under their name. -/
  shape : ∃ f : Column → Expr, e = declared.mapColumns f ∧
    ∀ c, f c = .column c ∨ c.source = none ∧ ∃ body, f c = .aliasRef c.name body
  links : ∀ name body, .aliasRef name body ∈ e.walk → Latest fields before name body
  columns : ∀ name, .column { name } ∈ e.walk → name ∉ before.filterMap (·.item.alias?)

namespace PlannedField
variable {fields : List PlannedField} {name : String} {body : Expr}
  {before declarations : List Declaration} {declaration : Declaration}

theorem Carried.append (h : Carried fields name body before declaration)
    (more : List PlannedField) : Carried (fields ++ more) name body before declaration where
  declared := h.declared
  field := by
    rw [List.getElem?_append_left (List.getElem?_eq_some_iff.mp h.field).1]
    exact h.field

theorem Latest.append (h : Latest fields declarations name body) (more : List PlannedField) :
    Latest (fields ++ more) declarations name body := by
  obtain ⟨earlier, declaration, later, hsplit, hcarried, hlatest⟩ := h
  exact ⟨earlier, declaration, later, hsplit, hcarried.append more, hlatest⟩

/-- A declaration of another alias, or of none, does not change which is the latest. -/
theorem Latest.concat (h : Latest fields declarations name body)
    (hother : declaration.item.alias? ≠ some name) :
    Latest fields (declarations ++ [declaration]) name body := by
  obtain ⟨earlier, latest, later, rfl, hcarried, hlatest⟩ := h
  refine ⟨earlier, latest, later ++ [declaration], by simp, hcarried, ?_⟩
  rw [List.filterMap_append, List.mem_append]
  rintro (hmem | hmem)
  · exact hlatest hmem
  · exact hother (by simpa using hmem)

theorem Scoped.append {declared e : Expr} (h : Scoped fields before declared e)
    (more : List PlannedField) : Scoped (fields ++ more) before declared e :=
  ⟨h.shape, fun name body hpart => (h.links name body hpart).append more, h.columns⟩

end PlannedField

namespace Draft
variable {d d' : Draft} {declaration : Declaration} {declarations : List Declaration}

theorem standsFor_planned? (d : Draft) (declaration : Declaration) :
    List.Forall₂ PlannedField.StandsFor ([declaration].filter (!·.item.isStar))
      (d.planned? declaration).toList := by
  obtain ⟨item, hidden⟩ := declaration
  cases item with
  | column c => exact .cons ⟨rfl, rfl, by simp [Item.copied?]⟩ .nil
  | computed e alias? =>
    cases alias? with
    | some name =>
      refine .cons ⟨?_, ?_, ?_⟩ .nil <;>
        cases e <;> simp [Item.copied?, Item.alias?, PlannedField.alias?]
    | none => cases e <;> exact .cons ⟨rfl, rfl, by simp [Item.copied?]⟩ .nil
  | star except replace => exact .nil
  | sourceStar source => exact .nil

theorem standsFor_of_run (h : declarations.foldlM add {} = .ok d) :
    List.Forall₂ PlannedField.StandsFor (declarations.filter (!·.item.isStar)) d.fields := by
  refine Outcome.foldlM_induction
    (motive := fun done (b : Draft) =>
      List.Forall₂ PlannedField.StandsFor (done.filter (!·.item.isStar)) b.fields) .nil ?_ h
  intro done declaration _ b c _ ih hadd
  rw [(Adds.of_add hadd).fields, List.filter_append]
  exact List.rel_append ih (b.standsFor_planned? declaration)

theorem replacing_eq (d : Draft) (item : Item) :
    d.replacing item = item.replaced.map fun r => ⟨r.2, r.1.link d.aliases⟩ := by
  cases item <;> rfl

/-- A draft has the replacements of its stars in order. -/
theorem replacement_names_of_run (h : declarations.foldlM add {} = .ok d) :
    ((d.star.map Star.replace).getD []).map Replacement.name =
      (declarations.flatMap (·.item.replaced)).map Prod.snd := by
  refine Outcome.foldlM_induction
    (motive := fun done (b : Draft) => ((b.star.map Star.replace).getD []).map Replacement.name =
      (done.flatMap (·.item.replaced)).map Prod.snd) rfl ?_ h
  intro done declaration _ b c _ ih hadd
  rw [(Adds.of_add hadd).replacements, List.map_append, ih, replacing_eq]
  simp

/-- Every item but a star has a field, which evaluates what the item has compiled. -/
theorem planned?_compiled (hstar : declaration.item.isStar = false) (d : Draft) :
    ∃ f, d.planned? declaration = some f ∧
      f.expr?.toList = declaration.item.compiled.map (·.link d.aliases) := by
  obtain ⟨item, hidden⟩ := declaration
  cases item with
  | column c => exact ⟨_, rfl, rfl⟩
  | computed e alias? =>
    cases alias? with
    | some name => cases e <;> exact ⟨_, rfl, rfl⟩
    | none => cases e <;> exact ⟨_, rfl, rfl⟩
  | star except replace => cases hstar
  | sourceStar source => cases hstar

theorem planned?_of_takesPlaceholder (h : declaration.item.takesPlaceholder = true) (d : Draft) :
    ∃ e, declaration.item.isStar = false ∧ d.planned? declaration =
      some ⟨.derived (placeholderName d.placeholders) e, declaration.hidden⟩ := by
  obtain ⟨item, hidden⟩ := declaration
  cases item with
  | computed e alias? =>
    cases alias? with
    | some name => cases e <;> cases h
    | none =>
      cases e with
      | column c => cases h
      | call function args => cases h
      | _ => exact ⟨_, rfl, rfl⟩
  | _ => cases h

theorem declared?_fst (d : Draft) (item : Item) :
    (d.declared? item).map Prod.fst = item.alias? := by
  cases item with
  | computed e alias? => cases alias? <;> rfl
  | _ => rfl

theorem planned?_of_declared? {name : String} {body : Expr}
    (h : d.declared? declaration.item = some (name, body)) :
    d.planned? declaration = some ⟨.alias name body, declaration.hidden⟩ := by
  obtain ⟨item, hidden⟩ := declaration
  cases item with
  | computed e alias? =>
    cases alias? with
    | some name =>
      cases h
      cases e <;> rfl
    | none => cases h
  | _ => cases h

/-- A draft knows exactly the aliases of its declarations, each with the latest expression. -/
structure Knows (d : Draft) (declarations : List Declaration) : Prop where
  known : ∀ name body, d.aliases.find? name = some body →
    PlannedField.Latest d.fields declarations name body
  unknown : ∀ name, d.aliases.find? name = none → name ∉ declarations.filterMap (·.item.alias?)

theorem Knows.add (h : d.Knows declarations)
    (hlength : d.fields.length = declarations.countP (!·.item.isStar))
    (hadd : d.add declaration = .ok d') : d'.Knows (declarations ++ [declaration]) := by
  have hadds := Adds.of_add hadd
  have hname := d.declared?_fst declaration.item
  cases hdeclared : d.declared? declaration.item with
  | none =>
    have haliases : d'.aliases = d.aliases := by rw [hadds.aliases, hdeclared]; rfl
    have hnone : declaration.item.alias? = none := by rw [← hname, hdeclared]; rfl
    constructor
    · intro name body hfind
      rw [hadds.fields]
      exact ((h.known name body (haliases ▸ hfind)).concat (by simp [hnone])).append _
    · intro name hfind
      simpa [hnone] using h.unknown name (haliases ▸ hfind)
  | some entry =>
    obtain ⟨name, body⟩ := entry
    have haliases : d'.aliases = (name, body) :: d.aliases := by
      rw [hadds.aliases, hdeclared]
      rfl
    have halias : declaration.item.alias? = some name := by rw [← hname, hdeclared]; rfl
    have hfields : d'.fields = d.fields ++ [⟨.alias name body, declaration.hidden⟩] := by
      rw [hadds.fields, planned?_of_declared? hdeclared]
      rfl
    have hfind : ∀ other, d'.aliases.find? other =
        if other = name then some body else d.aliases.find? other := by
      intro other
      rw [haliases]
      rfl
    constructor
    · intro other otherBody hother
      rw [hfind] at hother
      split at hother
      · rename_i heq
        obtain rfl := Option.some.inj hother
        subst heq
        refine ⟨declarations, declaration, [], rfl, ⟨halias, ?_⟩, by simp⟩
        rw [hfields, ← hlength]
        simp
      · rename_i hne
        rw [hfields]
        refine ((h.known other otherBody hother).concat ?_).append _
        rw [halias]
        exact fun heq => hne (Option.some.inj heq).symm
    · intro other hother
      rw [hfind] at hother
      split at hother
      · cases hother
      · rename_i hne
        rw [List.filterMap_append, List.mem_append]
        rintro (hmem | hmem)
        · exact h.unknown other hother hmem
        · exact hne (by simpa [halias] using hmem)

theorem knows_of_run (h : declarations.foldlM add {} = .ok d) : d.Knows declarations := by
  refine (Outcome.foldlM_induction
    (motive := fun done (b : Draft) =>
      b.fields.length = done.countP (!·.item.isStar) ∧ b.Knows done) ⟨rfl, ?_⟩ ?_ h).2
  · exact ⟨fun _ _ hfind => (by cases hfind), by simp⟩
  · intro done declaration _ b c _ ih hadd
    refine ⟨?_, ih.2.add ih.1 hadd⟩
    obtain ⟨added, hfields, _, hlength⟩ := (Extends.of_adds (Adds.of_add hadd)).fields
    rw [hfields, List.length_append, List.countP_append, ih.1, hlength]

/-- What is linked with the aliases of a draft is scoped by its declarations. -/
theorem Knows.scoped (h : d.Knows declarations) {e : Expr} (hfree : e.LinkFree) :
    PlannedField.Scoped d.fields declarations e (e.link d.aliases) := by
  refine ⟨⟨_, Expr.link_eq_mapColumns d.aliases e, fun c => ?_⟩, fun name body hpart => ?_,
    fun name hpart => ?_⟩
  · by_cases hc : c.NamesAlias d.aliases
    · obtain ⟨body, _, hlinked⟩ := Column.link_of_namesAlias hc
      exact .inr ⟨hc.1, body, hlinked⟩
    · exact .inl (Column.link_of_not_namesAlias hc)
  · exact h.known name body (Expr.find?_of_mem_walk_link hfree hpart)
  · have hcolumn : { name } ∈ (e.link d.aliases).columns :=
      List.mem_filterMap.mpr ⟨_, hpart, rfl⟩
    refine h.unknown name (KeyedMap.lookupEntry_eq_none fun hname => ?_)
    exact Expr.not_namesAlias_of_mem_columns_link hcolumn ⟨rfl, hname⟩

end Draft

namespace Plan
variable {declarations before after : List Declaration} {declaration : Declaration} {p : Plan}

/-- The expressions that the plan has for the declaration after these: that of its field, or those
of its replacements if it is a star. -/
def compiledFor (p : Plan) (before : List Declaration) (declaration : Declaration) : List Expr :=
  if declaration.item.isStar then
    ((p.replacements.drop (before.flatMap (·.item.replaced)).length).take
      declaration.item.replaced.length).map (·.expr)
  else (p.fields[before.countP (!·.item.isStar)]?.bind (·.expr?)).toList

/-- What a link carries is compiled for the declaration of its alias. -/
theorem mem_compiledFor_of_carried {name : String} {body : Expr}
    (h : PlannedField.Carried p.fields name body before declaration) :
    body ∈ p.compiledFor before declaration := by
  have hstar : declaration.item.isStar = false := by
    cases hitem : declaration.item with
    | computed e alias? => rfl
    | _ => simpa [hitem, Item.alias?] using h.declared
  simp [compiledFor, hstar, h.field, PlannedField.expr?]

/-- The draft is the one that the declaration is added to, and the plan has in its place what the
declaration becomes there. -/
structure CompiledAt (p : Plan) (before : List Declaration) (declaration : Declaration)
    (d : Draft) : Prop where
  run : before.foldlM Draft.add {} = .ok d
  fields : ∃ more, p.fields = d.fields ++ more
  field : declaration.item.isStar = false →
    p.fields[before.countP (!·.item.isStar)]? = d.planned? declaration
  compiled : p.compiledFor before declaration = declaration.item.compiled.map (·.link d.aliases)

theorem compiledAt_of_compile (h : compile (before ++ declaration :: after) = .ok p) :
    ∃ d, p.CompiledAt before declaration d := by
  obtain ⟨d, d', last, hd, hd', hlast, rfl⟩ := compile_split h
  have hadds := Draft.Adds.of_add hd'
  obtain ⟨⟨fields, hfields, _, hlength⟩, _, _⟩ := Draft.Extends.of_run hd
  obtain ⟨⟨later, hlater, _⟩, _, ⟨replaced, hreplaced⟩⟩ := Draft.Extends.of_run hlast
  rw [List.nil_append] at hfields
  subst hfields
  rw [hadds.fields, List.append_assoc] at hlater
  have hfield (hstar : declaration.item.isStar = false) :
      last.finish.fields[before.countP (!·.item.isStar)]? = d.planned? declaration := by
    obtain ⟨f, hf, _⟩ := d.planned?_compiled hstar
    rw [Draft.finish, hlater, ← hlength, List.getElem?_append_right (Nat.le_refl _), Nat.sub_self,
      hf]
    rfl
  refine ⟨d, hd, ⟨_, hlater⟩, hfield, ?_⟩
  unfold compiledFor
  split
  · rename_i hstar
    have hreplacements : last.finish.replacements =
        (d.star.map Star.replace).getD [] ++ d.replacing declaration.item ++ replaced := by
      rw [← hadds.replacements, ← hreplaced]
      rfl
    have hbefore := congrArg List.length (Draft.replacement_names_of_run hd)
    rw [List.length_map, List.length_map] at hbefore
    rw [hreplacements, List.append_assoc, List.drop_left' hbefore, d.replacing_eq,
      List.take_left' (by simp), List.map_map]
    obtain ⟨item, hidden⟩ := declaration
    cases item with
    | star except replace => simp [Item.replaced, Item.compiled, Item.copied?, Item.expressions]
    | sourceStar source => rfl
    | _ => cases hstar
  · rename_i hstar
    rw [Bool.not_eq_true] at hstar
    obtain ⟨f, hf, hexpr⟩ := d.planned?_compiled hstar
    rw [hfield hstar, hf, Option.bind_some, hexpr]

/-- What is compiled for a declaration is linked, and scoped by the declarations before it. -/
theorem linked_of_compile (h : compile (before ++ declaration :: after) = .ok p)
    (hfree : ∀ e ∈ declaration.item.expressions, e.LinkFree) :
    ∃ A : Aliases, p.compiledFor before declaration = declaration.item.compiled.map (·.link A) ∧
      ∀ e ∈ declaration.item.compiled, PlannedField.Scoped p.fields before e (e.link A) := by
  obtain ⟨d, hat⟩ := compiledAt_of_compile h
  obtain ⟨more, hfields⟩ := hat.fields
  refine ⟨d.aliases, hat.compiled, fun e he => ?_⟩
  rw [hfields]
  exact ((Draft.knows_of_run hat.run).scoped (hfree e (Item.compiled_subset _ he))).append _

/-- Links lead to earlier declarations, also those that links carry. -/
theorem carried_of_mem_reach (hfree : ∀ d ∈ before ++ declaration :: after,
    ∀ e ∈ d.item.expressions, e.LinkFree) (h : compile (before ++ declaration :: after) = .ok p)
    {e : Expr} (he : e ∈ p.compiledFor before declaration) {name : String} {body : Expr}
    (hreach : .aliasRef name body ∈ e.reach) :
    ∃ earlier d later, before = earlier ++ d :: later ∧
      PlannedField.Carried p.fields name body earlier d := by
  induction hlength : before.length using Nat.strong_induction_on
    generalizing before declaration after e with
  | _ n ih =>
    obtain ⟨A, hcompiled, hscoped⟩ := linked_of_compile h (hfree declaration (by simp))
    rw [hcompiled] at he
    obtain ⟨source, hsource, rfl⟩ := List.mem_map.mp he
    rcases Expr.mem_walk_or_of_mem_reach hreach with hwalk | ⟨link, linked, hwalk, hreach⟩
    · obtain ⟨earlier, d, later, hsplit, hcarried, _⟩ :=
        (hscoped source hsource).links name body hwalk
      exact ⟨earlier, d, later, hsplit, hcarried⟩
    · -- what the link carries is compiled for a declaration that stands before this one
      obtain ⟨earlier, d, later, rfl, hcarried, _⟩ :=
        (hscoped source hsource).links link linked hwalk
      rw [List.append_assoc, List.cons_append] at h hfree
      obtain ⟨first, d', rest, rfl, hcarried'⟩ := ih earlier.length
        (by rw [← hlength, List.length_append, List.length_cons]; omega) hfree h
        (mem_compiledFor_of_carried hcarried) hreach rfl
      exact ⟨first, d', rest ++ d :: later, by simp, hcarried'⟩

/-- Scoping of the aliases of a list. The fields of its plan stand for its declarations in order,
stars apart, and its replacements are those of its stars. Each expression is compiled from the
declared one by turning columns without a source into links, and only those that name an alias
declared before; each link carries what the latest such declaration has compiled. Followed any
number of times, links lead to earlier declarations only. Expressions without a name are numbered
in order. -/
theorem alias_scoping (h : compile declarations = .ok p)
    (hfree : ∀ d ∈ declarations, ∀ e ∈ d.item.expressions, e.LinkFree) :
    List.Forall₂ PlannedField.StandsFor (declarations.filter (!·.item.isStar)) p.fields ∧
    p.replacements.map Replacement.name =
      (declarations.flatMap (·.item.replaced)).map Prod.snd ∧
    ∀ before declaration after, declarations = before ++ declaration :: after →
      List.Forall₂ (PlannedField.Scoped p.fields before) declaration.item.compiled
        (p.compiledFor before declaration) ∧
      (∀ e ∈ p.compiledFor before declaration, ∀ name body, .aliasRef name body ∈ e.reach →
        ∃ earlier d later, before = earlier ++ d :: later ∧
          PlannedField.Carried p.fields name body earlier d) ∧
      (declaration.item.takesPlaceholder = true → ∃ e,
        p.fields[before.countP (!·.item.isStar)]? = some
          ⟨.derived (placeholderName (Declaration.placeholders before)) e,
            declaration.hidden⟩) := by
  obtain ⟨last, hlast, hp⟩ := compile_eq_ok h
  refine ⟨?_, ?_, ?_⟩
  · rw [hp]
    exact Draft.standsFor_of_run hlast
  · rw [hp]
    exact Draft.replacement_names_of_run hlast
  · rintro before declaration after rfl
    refine ⟨?_, fun e he name body => carried_of_mem_reach hfree h he, fun hunnamed => ?_⟩
    · obtain ⟨A, hcompiled, hscoped⟩ := linked_of_compile h (hfree declaration (by simp))
      rw [hcompiled, List.forall₂_map_right_iff, List.forall₂_same]
      exact hscoped
    · obtain ⟨d, hat⟩ := compiledAt_of_compile h
      obtain ⟨e, hstar, hplanned⟩ := d.planned?_of_takesPlaceholder hunnamed
      refine ⟨e, ?_⟩
      rw [hat.field hstar, hplanned, Draft.placeholders_of_run hat.run, Nat.zero_add]

/-- An alias that is declared twice, the second time through itself, and refers to it after that. -/
def redeclared : List Declaration :=
  [⟨.computed (.column { name := "a" }) (some "x"), false⟩,
    ⟨.computed (.unary .negate (.column { name := "x" })) (some "x"), true⟩,
    ⟨.star [] [(.column { name := "x" }, "b")], false⟩,
    ⟨.computed (.binary .concat (.column { name := "x" }) (.column { name := "x", source := "s" }))
      none, false⟩]

/-- The replacement carries the second declaration of the alias, which carries the first. -/
theorem alias_scoping_redeclared : ∃ p e, compile redeclared = .ok p ∧
    p.compiledFor (redeclared.take 2) redeclared[2] =
      [.aliasRef "x" (.unary .negate (.aliasRef "x" (.column { name := "a" })))] ∧
    PlannedField.Latest p.fields (redeclared.take 2) "x"
      (.unary .negate (.aliasRef "x" (.column { name := "a" }))) ∧
    p.fields[2]? = some ⟨.derived (placeholderName 0) e, false⟩ := by
  obtain ⟨_, _, hat⟩ := @alias_scoping redeclared _ rfl (by
    simp [redeclared, Item.expressions, Expr.LinkFree])
  obtain ⟨hreplaced, _, _⟩ := hat (redeclared.take 2) redeclared[2] (redeclared.drop 3) rfl
  obtain ⟨_, _, hunnamed⟩ := hat (redeclared.take 3) redeclared[3] [] rfl
  obtain ⟨e, he⟩ := hunnamed rfl
  obtain ⟨hscoped, _⟩ := List.forall₂_cons.mp hreplaced
  exact ⟨_, e, rfl, rfl, hscoped.links _ _ List.mem_cons_self, he⟩

end Plan
end StreamSelect
