import StreamSelect.Project.Basic
import StreamSelect.Proofs.Expr.Linking
import StreamSelect.Proofs.Project.Phases
import StreamSelect.Proofs.Project.Resolution

/-!
Aliases as the two loops store them. A value is stored under the name of its alias, and an alias
that is left out stores nothing. So a link to the latest of several declarations of a name sees the
value of that declaration if it has one, and otherwise what an older declaration has stored.
-/
namespace StreamSelect

/-- A loop that stores aliases. Each step comes to a value or is left out, which depends on the
state only through the aliases stored so far. -/
structure AliasLoop (σ ι : Type) where
  step : σ → ι → Outcome σ
  aliases : σ → FieldMap
  alias? : ι → Option String
  outcome : FieldMap → ι → Outcome (Option Value)
  stores : ∀ a x b, step a x = .ok b →
    ∃ v?, outcome (aliases a) x = .ok v? ∧ aliases b = storeAlias (aliases a) (alias? x) v?

namespace AliasLoop
variable {σ ι : Type} {L : AliasLoop σ ι} {start a c : σ} {xs done others : List ι} {latest : ι}
  {name : String}

/-- An item under the alias has stored the value in the course of the loop. -/
def Stored (L : AliasLoop σ ι) (start : σ) (xs : List ι) (name : String) (v : Value) : Prop :=
  ∃ done x rest a, xs = done ++ x :: rest ∧ L.alias? x = some name ∧
    done.foldlM L.step start = .ok a ∧ L.outcome (L.aliases a) x = .ok (some v)

theorem Stored.concat {v : Value} (h : L.Stored start xs name v) (x : ι) :
    L.Stored start (xs ++ [x]) name v := by
  obtain ⟨done, y, rest, a, rfl, halias, ha, hv⟩ := h
  exact ⟨done, y, rest ++ [x], a, by simp, halias, ha, hv⟩

/-- Items under other aliases leave an alias as it is. -/
theorem get?_of_fresh (h : xs.foldlM L.step start = .ok a)
    (hfresh : ∀ x ∈ xs, L.alias? x ≠ some name) :
    (L.aliases a).get? name = (L.aliases start).get? name := by
  refine Outcome.foldlM_induction
    (motive := fun _ b => (L.aliases b).get? name = (L.aliases start).get? name) rfl ?_ h
  intro done x rest b c hsplit ih hstep
  obtain ⟨v?, _, hstored⟩ := L.stores b x c hstep
  rw [hstored, get?_storeAlias, if_neg (hfresh x (by simp [hsplit])), ih]

/-- Under an alias is the value of its latest item, and if that was left out what was there
before. -/
theorem get?_of_latest (h : (done ++ latest :: others).foldlM L.step start = .ok c)
    (hlatest : L.alias? latest = some name) (hothers : ∀ x ∈ others, L.alias? x ≠ some name) :
    ∃ a v?, done.foldlM L.step start = .ok a ∧ L.outcome (L.aliases a) latest = .ok v? ∧
      (L.aliases c).get? name = v?.or ((L.aliases a).get? name) := by
  obtain ⟨a, b, ha, hstep, hrest⟩ := Outcome.foldlM_eq_ok_split h
  obtain ⟨v?, hv, hstored⟩ := L.stores a latest b hstep
  refine ⟨a, v?, ha, hv, ?_⟩
  rw [get?_of_fresh hrest hothers, hstored, get?_storeAlias, if_pos hlatest]

/-- What is stored has been stored by an item under the alias. -/
theorem stored_of_get? {v : Value} (h : xs.foldlM L.step start = .ok a)
    (hstart : (L.aliases start).get? name = none) (hv : (L.aliases a).get? name = some v) :
    L.Stored start xs name v := by
  -- the run up to a step is kept in the motive, since it is part of what is to be shown
  suffices hall : xs.foldlM L.step start = .ok a ∧
      ∀ v, (L.aliases a).get? name = some v → L.Stored start xs name v from hall.2 v hv
  refine Outcome.foldlM_induction
    (motive := fun done b => done.foldlM L.step start = .ok b ∧
      ∀ v, (L.aliases b).get? name = some v → L.Stored start done name v) ⟨rfl, ?_⟩ ?_ h
  · intro v hv
    rw [hstart] at hv
    cases hv
  · intro done x rest b c hsplit ih hstep
    obtain ⟨hrun, hbefore⟩ := ih
    obtain ⟨v?, houtcome, hstored⟩ := L.stores b x c hstep
    constructor
    · rw [List.foldlM_append, hrun]
      exact (bind_pure _).trans hstep
    · intro v hv
      rw [hstored, get?_storeAlias] at hv
      split at hv
      · rename_i halias
        cases v? with
        | none => exact (hbefore v hv).concat x
        | some w =>
          cases hv
          exact ⟨done, x, [], b, rfl, halias, hrun, houtcome⟩
      · exact (hbefore v hv).concat x

end AliasLoop

/-- The loop over the fields of a plan. -/
def Plan.aliasLoop (policy : OutputPolicy) (s : Subject) (window : Option Window) :
    AliasLoop Assembly PlannedField where
  step := writeExpression policy s window
  aliases := Assembly.aliases
  alias? := PlannedField.alias?
  outcome := outcome policy s window
  stores a f b h := by
    rw [writeExpression_eq_settled] at h
    obtain ⟨v?, hv, rfl⟩ := Outcome.map_eq_ok.mp h
    exact ⟨v?, hv, rfl⟩

/-- The loop over the slots of a layout. -/
def Layout.aliasLoop (policy : OutputPolicy) (t : Tuple) (window : Option Window) :
    AliasLoop Filling Slot where
  step := fill policy t window
  aliases := Filling.aliases
  alias? := Slot.alias?
  outcome := slotValue policy t window
  stores f slot g h := by
    obtain ⟨v?, hv, hg⟩ := Outcome.bind_eq_ok.mp h
    refine ⟨v?, hv, ?_⟩
    cases v? with
    | none =>
      cases hg
      cases slot.alias? <;> rfl
    | some v =>
      cases hg
      cases slot.alias? <;> rfl

/-- What a link to the latest declaration of an alias gives: the value of that declaration, else the
value of an older one, else that of the expression evaluated anew. -/
structure LinkSees (name : String) (body : Expr) (s : Subject) (scope : Scope)
    (latest? older? : Option Value) : Prop where
  value : (Expr.aliasRef name body).evaluate s scope =
    (latest?.or older?).elim (body.evaluate s scope) .ok
  /-- When the value of an older declaration is not seen. -/
  latest_iff : (Expr.aliasRef name body).evaluate s scope =
      latest?.elim (body.evaluate s scope) .ok ↔
    (latest? = none → ∀ old, older? = some old → body.evaluate s scope = .ok old)

theorem LinkSees.of_get? {name : String} {scope : Scope} {latest? older? : Option Value}
    (h : scope.aliases.get? name = latest?.or older?) (body : Expr) (s : Subject) :
    LinkSees name body s scope latest? older? := by
  have hvalue : (Expr.aliasRef name body).evaluate s scope =
      (latest?.or older?).elim (body.evaluate s scope) .ok := by
    simp only [Expr.evaluate, h]
    cases latest?.or older? <;> rfl
  refine ⟨hvalue, ?_⟩
  rw [hvalue]
  cases latest? with
  | some v => exact ⟨fun _ hnone => (by cases hnone), fun _ => rfl⟩
  | none =>
    cases older? with
    | none => exact ⟨fun _ _ _ hold => (by cases hold), fun _ => rfl⟩
    | some old =>
      constructor
      · rintro hseen _ old' hold
        cases hold
        exact hseen.symm
      · exact fun hsame => (hsame rfl old rfl).symm

/-- Where items `done`, the latest item under an alias and `others` have run, a link to the latest
item gives its value. If it was left out, for missing data, the link gives what one of the items
`done` has stored, and if none has, the body is evaluated anew. -/
def AliasLoop.SeesLatest {σ ι : Type} (L : AliasLoop σ ι) (policy : OutputPolicy) (s : Subject)
    (window : Option Window) (name : String) (body : Expr) (start : σ) (done : List ι) (latest : ι)
    (others : List ι) : Prop :=
  ∀ c, (done ++ latest :: others).foldlM L.step start = .ok c →
    ∃ a latest?, done.foldlM L.step start = .ok a ∧
      L.outcome (L.aliases a) latest = .ok latest? ∧
      (latest? = none → policy.writeNulls = false ∧ ∃ fault,
        body.evaluate s { aliases := L.aliases a, window } = .error fault ∧
          fault.isMissingData = true) ∧
      LinkSees name body s { aliases := L.aliases c, window } latest? ((L.aliases a).get? name) ∧
      ∀ old, (L.aliases a).get? name = some old → L.Stored start done name old

theorem AliasLoop.seesLatest {σ ι : Type} {L : AliasLoop σ ι} {policy : OutputPolicy} {s : Subject}
    {window : Option Window} {name : String} {body : Expr} {start : σ} {done others : List ι}
    {latest : ι} (hlatest : L.alias? latest = some name)
    (hothers : ∀ x ∈ others, L.alias? x ≠ some name)
    (hstart : (L.aliases start).get? name = none)
    (homits : ∀ aliases, L.outcome aliases latest = .ok none → policy.writeNulls = false ∧
      ∃ fault, body.evaluate s { aliases, window } = .error fault ∧ fault.isMissingData = true) :
    L.SeesLatest policy s window name body start done latest others := by
  intro c hrun
  obtain ⟨a, latest?, ha, hvalue, hget⟩ := get?_of_latest hrun hlatest hothers
  refine ⟨a, latest?, ha, hvalue, ?_, .of_get? hget body s, fun old hold => ?_⟩
  · rintro rfl
    exact homits _ hvalue
  · exact stored_of_get? ha hstart hold

namespace Plan
variable {before between after : List Declaration} {e e' : Expr} {name : String}
  {alias? : Option String} {hidden hidden' : Bool} {p : Plan}

/-- After two declarations of an alias an expression is linked to the later one, as far as no other
declaration of the alias stands in between. -/
theorem fields_of_redeclared
    (h : compile (before ++ ⟨.computed e (some name), hidden⟩ ::
      (between ++ ⟨.computed e' alias?, hidden'⟩ :: after)) = .ok p)
    (hbetween : name ∉ between.filterMap (·.item.alias?))
    (hcomputed : (Item.computed e' alias?).copied? = none) :
    ∃ body A done others f rest,
      p.fields = done ++ ⟨.alias name body, hidden⟩ :: (others ++ f :: rest) ∧
      done.filterMap (·.alias?) = before.filterMap (·.item.alias?) ∧
      (∀ g ∈ others, g.alias? ≠ some name) ∧
      f.hidden = hidden' ∧ f.alias? = alias? ∧ f.expr? = some (e'.link A) ∧
      Column.link { name } A = .aliasRef name body := by
  obtain ⟨d, d₁, last, hd, hd₁, hrest, rfl⟩ := compile_split h
  obtain ⟨d₂, d₃, hd₂, hd₃, hlast⟩ := Outcome.foldlM_eq_ok_split hrest
  obtain ⟨done, hdone, hnames, _⟩ := (Draft.Extends.of_run hd).fields
  have hadds₁ := Draft.Adds.of_add hd₁
  have hextends := Draft.Extends.of_run hd₂
  obtain ⟨others, hothers, hothersNames, _⟩ := hextends.fields
  obtain ⟨known, hknown, hknownNames⟩ := hextends.aliases
  obtain ⟨rest, hrest, _⟩ := (Draft.Extends.of_run hlast).fields
  obtain ⟨f, hf, hfhidden, hfalias, hfexpr⟩ := Draft.planned?_computed hcomputed d₂ hidden'
  have hplanned : d.planned? ⟨.computed e (some name), hidden⟩ =
      some ⟨.alias name (e.link d.aliases), hidden⟩ := by cases e <;> rfl
  refine ⟨e.link d.aliases, d₂.aliases, done, others, f, rest, ?_, hnames, ?_, hfhidden, hfalias,
    hfexpr, ?_⟩
  · change last.fields = _
    rw [hrest, (Draft.Adds.of_add hd₃).fields, hf, hothers, hadds₁.fields, hplanned, hdone]
    simp
  · intro g hg halias
    exact hbetween (hothersNames ▸ List.mem_filterMap.mpr ⟨g, hg, halias⟩)
  · have hfind : Aliases.find? d₂.aliases name = some (e.link d.aliases) := by
      have hfresh : KeyedMap.lookupEntry name known = none :=
        KeyedMap.lookupEntry_eq_none (by rwa [hknownNames, List.mem_reverse])
      rw [Aliases.find?, hknown, KeyedMap.lookupEntry_append, hfresh, hadds₁.aliases]
      exact if_pos rfl
    simp only [Column.link, hfind]

private theorem forall₂_split {α β : Type} {R : α → β → Prop} {done rest : List α} {x : α}
    {ys : List β} (h : List.Forall₂ R (done ++ x :: rest) ys) :
    ∃ done' y rest', ys = done' ++ y :: rest' ∧ List.Forall₂ R done done' ∧ R x y ∧
      List.Forall₂ R rest rest' := by
  induction done generalizing ys with
  | nil =>
    obtain ⟨y, rest', hxy, hrest, rfl⟩ := List.forall₂_cons_left_iff.mp h
    exact ⟨[], y, rest', rfl, .nil, hxy, hrest⟩
  | cons a done ih =>
    obtain ⟨b, ys', hab, htail, rfl⟩ := List.forall₂_cons_left_iff.mp h
    obtain ⟨done', y, rest', rfl, hdone, hxy, hrest⟩ := ih htail
    exact ⟨b :: done', y, rest', rfl, .cons hab hdone, hxy, hrest⟩

/-- A slot is left out for missing data only, since the input is as wide as the schema. -/
private theorem slotValue_eq_none {schema : List String} {body : Expr} {slot : Slot} {t : Tuple}
    {policy : OutputPolicy} {window : Option Window} {aliases : FieldMap}
    (hslot : Layout.OfField schema ⟨.alias name body, hidden⟩ slot)
    (hwidth : t.width = schema.length)
    (h : Layout.slotValue policy t window aliases slot = .ok none) :
    policy.writeNulls = false ∧ ∃ fault,
      body.evaluate (.row (.tuple t)) { aliases, window } = .error fault ∧
        fault.isMissingData = true := by
  unfold Layout.slotValue at h
  rcases Expr.slotSource?_cases hslot.source with hsource | ⟨c, position, _, hposition, hsource⟩
  · rw [hsource] at h
    exact OutputPolicy.settle_eq_none h
  · rw [hsource] at h
    have hlt := (List.getElem?_eq_some_iff.mp (lastAt_of_schemaPosition? hposition).here).1
    have hnone : t.values.length ≤ position := List.getElem?_eq_none_iff.mp (Except.ok.inj h)
    unfold Tuple.width at hwidth
    omega

/-- A link to the latest declaration of an alias, on both ways of projection. It sees the value of
the latest declaration; where that was left out it sees the value of an older one, and only where no
older one has a value the expression is evaluated anew. -/
theorem redeclared_alias
    (h : compile (before ++ ⟨.computed e (some name), hidden⟩ ::
      (between ++ ⟨.computed e' alias?, hidden'⟩ :: after)) = .ok p)
    (hbetween : name ∉ between.filterMap (·.item.alias?))
    (hcomputed : (Item.computed e' alias?).copied? = none) :
    ∃ body A done others f rest,
      p.fields = done ++ ⟨.alias name body, hidden⟩ :: (others ++ f :: rest) ∧
      done.filterMap (·.alias?) = before.filterMap (·.item.alias?) ∧
      f.hidden = hidden' ∧ f.alias? = alias? ∧ f.expr? = some (e'.link A) ∧
      ({ name } ∈ e'.columns → .aliasRef name body ∈ (e'.link A).walk) ∧
      (∀ policy s window output, (aliasLoop policy s window).SeesLatest policy s window name body
        { output } done ⟨.alias name body, hidden⟩ others) ∧
      ∀ schema layout, Layout.ofPlan? p schema = some layout →
        ∃ slots latest more slot tail,
          layout.slots = slots ++ latest :: (more ++ slot :: tail) ∧
          Layout.OfField schema ⟨.alias name body, hidden⟩ latest ∧
          Layout.OfField schema f slot ∧
          ∀ policy t window values, t.width = layout.inputWidth →
            (Layout.aliasLoop policy t window).SeesLatest policy (.row (.tuple t)) window name body
              { values } slots latest more := by
  obtain ⟨body, A, done, others, f, rest, hfields, hnames, hfresh, hfhidden, halias, hexpr,
    hlink⟩ := fields_of_redeclared h hbetween hcomputed
  refine ⟨body, A, done, others, f, rest, hfields, hnames, hfhidden, halias, hexpr,
    fun hcolumn => ?_, fun policy s window output => ?_, fun schema layout hlayout => ?_⟩
  · obtain ⟨part, hpart, hc⟩ := List.mem_filterMap.mp hcolumn
    cases part with
    | column c =>
      cases hc
      have hmem := Expr.mapColumns_mem_walk (f := (·.link A)) e' hpart
      rwa [← Expr.link_eq_mapColumns, Expr.mapColumns, hlink] at hmem
    | _ => cases hc
  · refine AliasLoop.seesLatest rfl hfresh rfl fun aliases hnone => ?_
    have hsettled : policy.settle (some name) body (body.evaluate s { aliases, window }) =
        .ok none := by cases hidden <;> exact hnone
    exact OutputPolicy.settle_eq_none hsettled
  · obtain ⟨_, _, _, slots, hslots, rfl⟩ := Layout.ofPlan?_eq_some hlayout
    have hrelated := Layout.slotsFrom?_ofField hslots
    rw [hfields] at hrelated
    obtain ⟨before', latest, later, rfl, _, hlatest, hlater⟩ := forall₂_split hrelated
    obtain ⟨more, slot, tail, rfl, hmore, hslot, _⟩ := forall₂_split hlater
    -- slots have the aliases of their fields, so none in between stores the name
    have hfreshSlots : ∀ x ∈ more, x.alias? ≠ some name := by
      intro x hx
      obtain ⟨i, hi, rfl⟩ := List.getElem_of_mem hx
      have hi' : i < others.length := hmore.length_eq ▸ hi
      have haliased : more[i].alias? = others[i].alias? := (hmore.get hi' hi).aliased
      rw [haliased]
      exact hfresh _ (List.getElem_mem hi')
    refine ⟨before', latest, more, slot, tail, rfl, hlatest, hslot,
      fun policy t window values ht => ?_⟩
    exact AliasLoop.seesLatest hlatest.aliased hfreshSlots rfl fun aliases hnone =>
      slotValue_eq_none hlatest ht hnone

/-- A column under an alias, the alias plus 1 under the same name, and a link to it. -/
def countedTwice : List Declaration := [
  { item := .computed (.column { name := "a" }) (some "x"), hidden := true },
  { item := .computed (.binary (.arithmetic .add) (.column { name := "x" })
      (.literal (.integer 1))) (some "x"), hidden := true },
  { item := .computed (.column { name := "x" }) (some "y") }]

theorem redeclared_alias_countedTwice :
    let row := Row.event { fields := .ofList [("a", .integer 5)] }
    ∃ p e body done others f rest, Plan.compile countedTwice = .ok p ∧
      Projector.projectRow ⟨p, {}⟩ row none = .ok (.event e) ∧
      e.fields.get? "y" = some (.integer 6) ∧
      p.fields = done ++ ⟨.alias "x" body, true⟩ :: (others ++ f :: rest) ∧
      done.filterMap (·.alias?) = ["x"] ∧ f.alias? = some "y" ∧
      ∀ policy s window output, (aliasLoop policy s window).SeesLatest policy s window "x" body
        { output } done ⟨.alias "x" body, true⟩ others := by
  obtain ⟨body, _, done, others, f, rest, hfields, hnames, _, halias, _, _, hnamed, _⟩ :=
    @redeclared_alias [⟨.computed (.column { name := "a" }) (some "x"), true⟩] [] []
      (.binary (.arithmetic .add) (.column { name := "x" }) (.literal (.integer 1)))
      (.column { name := "x" }) "x" (some "y") true false _ rfl (by simp) rfl
  exact ⟨_, _, body, done, others, f, rest, rfl, rfl, rfl, hfields, hnames, halias, hnamed⟩

/-- A link to a declaration that is left out for missing data gives the value of an older one, by
name and by position. -/
theorem stale_alias :
    let body := Expr.member (.column { name := "a" }) "k"
    let declarations : List Declaration :=
      [⟨.computed (.literal (.integer 1)) (some "x"), true⟩, ⟨.computed body (some "x"), true⟩,
        ⟨.computed (.column { name := "x" }) (some "y"), false⟩]
    let row := Row.event { fields := .ofList [("a", .integer 5)] }
    let t : Tuple := { schema := ["a"], values := [.integer 5] }
    ∃ p laidOut fault e out, Plan.compile declarations = .ok p ∧
      Plan.compileOver t.schema declarations = .ok laidOut ∧
      (∀ scope, body.evaluate (.row row) scope = .error fault) ∧ fault.isMissingData = true ∧
      Projector.projectRow ⟨p, {}⟩ row none = .ok (.event e) ∧
      e.fields.get? "y" = some (.integer 1) ∧
      Projector.projectRow ⟨laidOut, {}⟩ (.tuple t) none = .ok (.tuple out) ∧
      out.values = [.integer 1] :=
  ⟨_, _, _, _, _, rfl, rfl, fun _ => rfl, rfl, rfl, rfl, rfl, rfl⟩

end Plan

end StreamSelect
