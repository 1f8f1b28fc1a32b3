import StreamSelect.Proofs.Plan.Expansion
import StreamSelect.Proofs.Project.Phases

/-!
While a row is projected, the stored values of aliases stay the values of their expansions, so every
compiled expression has the outcome of its expansion. An alias that was left out is not stored; its
links are then evaluated anew.
-/
namespace StreamSelect
variable {known : Aliases} {row : Row} {window : Option Window} {policy : OutputPolicy}

/-- An alias is stored with the value of its expansion. -/
theorem Faithful.insert {stored : FieldMap} (h : Faithful known row window stored)
    (hunique : (known.map Prod.fst).Nodup) {name : String} {v : Value} {e : Expr}
    (hmem : (name, e) ∈ known) (hv : e.evaluate (.row row) { window } = .ok v) :
    Faithful known row window (stored.insert name v) := by
  intro k w hw e' he'
  rw [KeyedMap.get?_insert] at hw
  split at hw
  · rename_i hk
    subst hk
    have hsame : e' = e := by
      have hlookup := (KeyedMap.lookupEntry_eq_some_iff hunique).mpr hmem
      rw [(KeyedMap.lookupEntry_eq_some_iff hunique).mpr he'] at hlookup
      exact Option.some.inj hlookup
    rw [hsame, hv, Option.some.inj hw]
  · exact h k w hw e' he'

/-- A field keeps the stored values faithful, whether it is stored, left out or not an alias. -/
theorem Faithful.step {f : PlannedField} {e? : Option Expr} {a b : Plan.Assembly}
    (h : Faithful known row window a.aliases) (hunique : (known.map Prod.fst).Nodup)
    (hf : FieldMeans known row window f e?)
    (hstep : Plan.writeExpression policy (.row row) window a f = .ok b) :
    Faithful known row window b.aliases := by
  cases hf with
  | copied c hidden => cases hstep; exact h
  | unnamed name hidden he =>
    rw [Plan.writeExpression_derived] at hstep
    cases hidden with
    | true => cases hstep; exact h
    | false =>
      obtain ⟨value?, _, hb⟩ := Outcome.bind_eq_ok.mp hstep
      cases value? <;> (cases hb; exact h)
  | named hidden he hmem =>
    rw [Plan.writeExpression_alias, Outcome.bind_eq_ok] at hstep
    obtain ⟨value?, hsettled, hb⟩ := hstep
    cases value? with
    | none => cases hb; exact h
    | some v =>
      cases hb
      have hv := OutputPolicy.settle_eq_some hsettled
      rw [he _ h] at hv
      exact h.insert hunique hmem hv

/-- All fields up to any point keep the stored values faithful. -/
theorem Faithful.run {done : List PlannedField} {a b : Plan.Assembly}
    (h : Faithful known row window a.aliases) (hunique : (known.map Prod.fst).Nodup)
    (hfields : ∀ f ∈ done, ∃ e?, FieldMeans known row window f e?)
    (hrun : done.foldlM (Plan.writeExpression policy (.row row) window) a = .ok b) :
    Faithful known row window b.aliases := by
  refine Outcome.foldlM_induction
    (motive := fun _ a => Faithful known row window a.aliases) h ?_ hrun
  intro before f rest a b hsplit ih hstep
  obtain ⟨e?, hf⟩ := hfields f (by rw [hsplit]; simp)
  exact ih.step hunique hf hstep

private theorem getElem?_of_forall₂ {α β : Type} {R : α → β → Prop} {xs done rest : List α} {x : α}
    {ys : List β} (h : List.Forall₂ R xs ys) (hsplit : xs = done ++ x :: rest) :
    ∃ y, ys[done.length]? = some y ∧ R x y := by
  have hlt : done.length < xs.length := by rw [hsplit]; simp
  have hlt' : done.length < ys.length := h.length_eq ▸ hlt
  have hxy := h.get hlt hlt'
  refine ⟨ys[done.length], List.getElem?_eq_getElem hlt', ?_⟩
  simpa [hsplit] using hxy

private theorem exists_of_forall₂ {α β : Type} {R : α → β → Prop} {xs : List α} {ys : List β}
    (h : List.Forall₂ R xs ys) : ∀ x ∈ xs, ∃ y, R x y := by
  induction h with
  | nil => simp
  | cons hx _ ih => exact List.forall_mem_cons.mpr ⟨⟨_, hx⟩, ih⟩

/-- Linking keeps the meaning of a list. Replacements of stars are evaluated before any alias is
stored, and fields with the aliases that the fields before them have stored: each expression has the
outcome, value or fault, that its expansion has without any aliases. -/
theorem Plan.evaluates_expansion {declarations : List Declaration} {p : Plan}
    (h : Plan.compile declarations = .ok p) (hlist : Expandable declarations)
    (policy : OutputPolicy) (row : Row) (window : Option Window) :
    List.Forall₂ (fun (r : Replacement) e =>
        r.expr.evaluate (.row row) { window } = e.evaluate (.row row) { window })
      p.replacements (Expansion.ofList declarations).replacements ∧
    p.fields.length = (Expansion.ofList declarations).fields.length ∧
    ∀ done f rest e, p.fields = done ++ f :: rest → f.expr? = some e →
      ∃ e', (Expansion.ofList declarations).fields[done.length]? = some (some e') ∧
        ∀ output a, done.foldlM (writeExpression policy (.row row) window) { output } = .ok a →
          e.evaluate (.row row) { aliases := a.aliases, window } =
            e'.evaluate (.row row) { window } := by
  obtain ⟨hfields, hreplacements⟩ := Plan.compile_means h hlist row window
  have hempty : Faithful (Expansion.ofList declarations).aliases row window ∅ := by
    intro name v hv
    cases hv
  have hunique : ((Expansion.ofList declarations).aliases.map Prod.fst).Nodup := by
    rw [Expansion.names_ofList]
    exact List.nodup_reverse.mpr hlist.aliases
  refine ⟨hreplacements.imp fun r e hr => hr ∅ hempty, hfields.length_eq, ?_⟩
  intro done f rest e hsplit he
  obtain ⟨e?, hat, hf⟩ := getElem?_of_forall₂ hfields hsplit
  have hdone : ∀ f ∈ done, ∃ e?,
      FieldMeans (Expansion.ofList declarations).aliases row window f e? :=
    fun f hf => exists_of_forall₂ hfields f (by rw [hsplit]; simp [hf])
  have hmeans : ∃ e', e? = some e' ∧
      Means (Expansion.ofList declarations).aliases row window e e' := by
    cases hf with
    | copied c hidden => cases he
    | named hidden hmeans _ => cases he; exact ⟨_, rfl, hmeans⟩
    | unnamed name hidden hmeans => cases he; exact ⟨_, rfl, hmeans⟩
  obtain ⟨e', rfl, hmeans⟩ := hmeans
  exact ⟨e', hat, fun output a hrun => hmeans _ (hempty.run hunique hdone hrun)⟩

/-- A step into a column, the sum of its alias and 1, a replacement by the alias of the sum, and a
metadata key that is no alias. -/
def chainList : List Declaration := [
  { item := .computed (.member (.column { name := "a" }) "k") (some "part") },
  { item := .computed (.binary (.arithmetic .add) (.column { name := "part" })
      (.literal (.integer 1))) (some "sum") },
  { item := .star [] [(.column { name := "sum" }, "b")] },
  { item := .computed (.call "META" [.column { name := "topic" }]) (some "topic name") }]

theorem expandable_chainList : Expandable chainList where
  aliases := by decide
  linkFree := by simp [chainList, Item.expressions, Expr.LinkFree]
  keys := by
    have hkeys : ∀ d ∈ chainList, ∀ e ∈ d.item.expressions, e.KeysIn fun c => c.name = "topic" := by
      simp [chainList, Item.expressions, Expr.KeysIn]
    intro before d after hsplit e he part hpart function c hcall hf _ hmem
    have hd : d ∈ chainList := by rw [hsplit]; simp
    rw [hkeys d hd e he part hpart function c hcall hf] at hmem
    have hall : "topic" ∈ chainList.filterMap (·.item.alias?) := by
      rw [hsplit, List.filterMap_append]
      exact List.mem_append_left _ hmem
    exact absurd hall (by decide)

/-- On the first row the step has a value, which is stored and read by the sum. On the second it
fails and is left out, so the sum steps anew and fails like its expansion. -/
theorem Plan.evaluates_expansion_chainList :
    let step : Expr := .member (.column { name := "a" }) "k"
    let part : PlannedField := ⟨.alias "part" step, false⟩
    let sum : Expr := .binary (.arithmetic .add) (.aliasRef "part" step) (.literal (.integer 1))
    let expanded : Expr := .binary (.arithmetic .add) step (.literal (.integer 1))
    let nested : Row := .event { fields := .ofList [("a", .map [("k", .integer 4)])] }
    let flat : Row := .event { fields := .ofList [("a", .integer 4)] }
    ∃ p rest a b, Plan.compile chainList = .ok p ∧
      p.fields = part :: ⟨.alias "sum" sum, false⟩ :: rest ∧
      (∀ (row : Row) (window : Option Window),
        List.Forall₂ (fun (r : Replacement) (e : Expr) =>
            r.expr.evaluate (.row row) { window } = e.evaluate (.row row) { window })
          p.replacements [expanded]) ∧
      [part].foldlM (writeExpression {} (.row nested) none) ⟨∅, ∅⟩ = .ok a ∧
      a.aliases.get? "part" = some (.integer 4) ∧
      sum.evaluate (.row nested) { aliases := a.aliases } = expanded.evaluate (.row nested) {} ∧
      expanded.evaluate (.row nested) {} = .ok (.integer 5) ∧
      [part].foldlM (writeExpression {} (.row flat) none) ⟨∅, ∅⟩ = .ok b ∧
      b.aliases.get? "part" = none ∧
      sum.evaluate (.row flat) { aliases := b.aliases } = expanded.evaluate (.row flat) {} ∧
      expanded.evaluate (.row flat) {} = .error (.notNavigable "k" "INTEGER") := by
  intro step part sum expanded nested flat
  have hlist := fun row window => Plan.evaluates_expansion rfl expandable_chainList {} row window
  have hsum : ∀ row a, [part].foldlM (writeExpression {} (.row row) none) ⟨∅, ∅⟩ = .ok a →
      sum.evaluate (.row row) { aliases := a.aliases } = expanded.evaluate (.row row) {} := by
    intro row a ha
    obtain ⟨_, _, hfields⟩ := hlist row none
    obtain ⟨e, he, hmeans⟩ := hfields [part] ⟨.alias "sum" sum, false⟩ _ sum rfl rfl
    cases he
    exact hmeans ∅ a ha
  exact ⟨_, _, _, _, rfl, rfl, fun row window => (hlist row window).1, rfl, rfl,
    hsum nested _ rfl, rfl, rfl, rfl, hsum flat _ rfl, rfl⟩

end StreamSelect
