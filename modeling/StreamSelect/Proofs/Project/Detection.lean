import StreamSelect.Proofs.Evaluation.Answered
import StreamSelect.Proofs.Plan.Scoping
import StreamSelect.Proofs.Project.Attribution

/-!
Detection of aggregates. A plan is looked through without following links. Nothing is missed that
way, because every expression that a link carries belongs to a field of the plan as well, and
linking keeps all calls.
-/
namespace StreamSelect

namespace Draft
variable {d d' : Draft} {declaration : Declaration} {declarations : List Declaration} {e : Expr}

theorem mem_expressions : e ∈ d.expressions ↔
    (∃ f ∈ d.fields, f.expr? = some e) ∨
      ∃ r ∈ (d.star.map Star.replace).getD [], r.expr = e := by
  unfold expressions
  cases d.star <;> simp

/-- A declaration adds the expressions that it has compiled, linked, and no others. -/
theorem Adds.mem_expressions (h : d.Adds declaration d') : e ∈ d'.expressions ↔
    e ∈ d.expressions ∨ ∃ source ∈ declaration.item.compiled, source.link d.aliases = e := by
  have hnew : ((∃ f ∈ (d.planned? declaration).toList, f.expr? = some e) ∨
      ∃ r ∈ d.replacing declaration.item, r.expr = e) ↔
        ∃ source ∈ declaration.item.compiled, source.link d.aliases = e := by
    rw [d.replacing_eq]
    cases hstar : declaration.item.isStar with
    | false =>
      obtain ⟨f, hf, hcompiled⟩ := d.planned?_compiled hstar
      have hreplaced : declaration.item.replaced = [] := by
        cases hitem : declaration.item with
        | star except replace => simp [hitem, Item.isStar] at hstar
        | _ => rfl
      calc ((∃ f ∈ (d.planned? declaration).toList, f.expr? = some e) ∨ _)
          ↔ e ∈ f.expr?.toList := by rw [hf, hreplaced]; simp
        _ ↔ _ := by rw [hcompiled, List.mem_map]
    | true =>
      obtain ⟨item, hidden⟩ := declaration
      cases item with
      | star except replace =>
        simp [planned?, Item.replaced, Item.compiled, Item.copied?, Item.expressions]
      | sourceStar source =>
        simp [planned?, Item.replaced, Item.compiled, Item.copied?, Item.expressions]
      | column c => cases hstar
      | computed e alias? => cases hstar
  simp only [Draft.mem_expressions, h.fields, h.replacements, List.mem_append, or_and_right,
    exists_or]
  rw [or_or_or_comm, hnew]

theorem mem_expressions_of_run (h : declarations.foldlM add {} = .ok d) {P : Expr → Prop}
    (hlink : ∀ e aliases, P (e.link aliases) ↔ P e) : (∃ e ∈ d.expressions, P e) ↔
      ∃ declaration ∈ declarations, ∃ e ∈ declaration.item.compiled, P e := by
  refine Outcome.foldlM_induction
    (motive := fun done (b : Draft) => (∃ e ∈ b.expressions, P e) ↔
      ∃ declaration ∈ done, ∃ e ∈ declaration.item.compiled, P e) (by simp [expressions]) ?_ h
  intro done declaration _ b c _ ih hadd
  have hadds := Adds.of_add hadd
  simp only [hadds.mem_expressions, or_and_right, exists_or, ih, List.mem_append,
    List.mem_singleton, exists_eq_left]
  simp only [exists_exists_and_eq_and, hlink]

/-- What an alias stands for is an expression of the draft, and so is what its links carry. -/
structure Carries (d : Draft) : Prop where
  aliases : ∀ a ∈ d.aliases, a.2 ∈ d.expressions
  links : Expr.ClosedUnderLinks d.expressions

theorem Carries.add (h : d.Carries) (hadds : d.Adds declaration d')
    (hfree : ∀ e ∈ declaration.item.expressions, e.LinkFree) : d'.Carries := by
  have hkept : ∀ e ∈ d.expressions, e ∈ d'.expressions := fun e he =>
    hadds.mem_expressions.mpr (.inl he)
  constructor
  · intro a ha
    rw [hadds.aliases, List.mem_append, Option.mem_toList] at ha
    rcases ha with hnew | hold
    · obtain ⟨name, body⟩ := a
      refine mem_expressions.mpr (.inl ⟨⟨.alias name body, declaration.hidden⟩, ?_, rfl⟩)
      rw [hadds.fields, planned?_of_declared? hnew]
      simp
    · exact hkept _ (h.aliases a hold)
  · intro e he name body hpart
    rcases hadds.mem_expressions.mp he with hold | ⟨source, hsource, rfl⟩
    · exact hkept _ (h.links e hold name body hpart)
    · -- the declared expression has no links, so this one has replaced a column
      have hsourceFree := hfree source (declaration.item.compiled_subset hsource)
      have hfind := Expr.find?_of_mem_walk_link hsourceFree hpart
      exact hkept _ (h.aliases _ (KeyedMap.mem_of_lookupEntry hfind))

theorem carries_of_run (h : declarations.foldlM add {} = .ok d)
    (hfree : ∀ declaration ∈ declarations, ∀ e ∈ declaration.item.expressions, e.LinkFree) :
    d.Carries := by
  refine Outcome.foldlM_induction (motive := fun _ (b : Draft) => b.Carries)
    ⟨by simp, by simp [expressions, Expr.ClosedUnderLinks]⟩ ?_ h
  intro done declaration rest b c hsplit ih hadd
  apply ih.add (.of_add hadd)
  apply hfree declaration
  rw [hsplit]
  simp

end Draft

/-- A bare column calls nothing, so all calls of an item are compiled. -/
theorem Item.exists_compiled_iff (item : Item) :
    (∃ e ∈ item.compiled, e.containsAggregate = true) ↔
      ∃ e ∈ item.expressions, e.containsAggregate = true := by
  unfold Item.compiled
  split
  · rename_i hcopied
    refine iff_of_false (by simp) ?_
    rintro ⟨e, he, haggregate⟩
    cases item with
    | computed source alias? =>
      obtain rfl := List.mem_singleton.mp he
      cases alias? with
      | some name => cases e <;> cases hcopied
      | none =>
        cases e with
        | column c => cases haggregate
        | _ => cases hcopied
    | star except replace => cases hcopied
    | column c => cases he
    | sourceStar source => cases he
  · rfl

namespace Plan
variable {declarations : List Declaration} {p : Plan}

/-- The plan is compiled from the list, without a layout or with one over a schema. -/
inductive CompiledFrom (declarations : List Declaration) : Plan → Prop
  | named {p : Plan} (h : compile declarations = .ok p) : CompiledFrom declarations p
  | laidOut {p : Plan} {schema : List String} (h : compileOver schema declarations = .ok p) :
    CompiledFrom declarations p

theorem CompiledFrom.exists_draft (h : CompiledFrom declarations p) :
    ∃ d : Draft, declarations.foldlM Draft.add {} = .ok d ∧
      p = { d.finish with layout := p.layout } ∧ p.LaidOut := by
  cases h with
  | named h =>
    obtain ⟨d, hd, rfl⟩ := compile_eq_ok h
    exact ⟨d, hd, rfl, fun _ hlayout => by cases hlayout⟩
  | laidOut h =>
    have hlaidOut := laidOut_of_compileOver h
    obtain ⟨named, hnamed, rfl⟩ := Outcome.map_eq_ok.mp h
    obtain ⟨d, hd, rfl⟩ := compile_eq_ok hnamed
    exact ⟨d, hd, rfl, hlaidOut⟩

theorem mem_expressions_of_labelled {d : Draft} {layout : Option Layout}
    {entry : Option String × Expr} (h : entry ∈ labelled { d.finish with layout }) :
    entry.2 ∈ d.expressions := by
  rcases List.mem_append.mp h with h | h
  · obtain ⟨r, hr, rfl⟩ := List.mem_map.mp h
    exact Draft.mem_expressions.mpr (.inr ⟨r, hr, rfl⟩)
  · obtain ⟨f, hf, hentry⟩ := List.mem_filterMap.mp h
    obtain ⟨e, he, rfl⟩ := Option.map_eq_some_iff.mp hentry
    exact Draft.mem_expressions.mpr (.inl ⟨f, hf, he⟩)

/-- Detection of aggregates misses nothing, for a list without links of its own. A plan aggregates
exactly if an aggregate function is called somewhere in the list, at any depth, be the field hidden
or a replacement of a star. If it does not aggregate, no expression of the plan comes to such a
call, also through what links carry; and whatever a projection evaluates has one outcome under all
answers to such calls, because none is made. -/
theorem aggregates_detected (h : CompiledFrom declarations p)
    (hfree : ∀ d ∈ declarations, ∀ e ∈ d.item.expressions, e.LinkFree) :
    (p.aggregate = true ↔ ∃ d ∈ declarations, ∃ e ∈ d.item.expressions, ∃ function args,
      .call function args ∈ e.walk ∧ Function.namesAggregate function = true) ∧
    (p.aggregate = false →
      (∀ entry ∈ p.labelled, ∀ function args, .call function args ∈ entry.2.reach →
        Function.namesAggregate function = false) ∧
      ∀ policy s window label e aliases, p.Evaluates policy s window label e aliases →
        ∀ answer, e.evaluateAnswered answer s { aliases, window } =
          e.evaluate s { aliases, window }) := by
  obtain ⟨d, hd, hp, hlaidOut⟩ := h.exists_draft
  have haggregate : p.aggregate = d.expressions.any Expr.containsAggregate := by
    rw [hp]
    rfl
  constructor
  · rw [haggregate, List.any_eq_true, d.mem_expressions_of_run hd fun e aliases => by
      rw [Expr.containsAggregate, Expr.functions_link]; rfl]
    simp only [Item.exists_compiled_iff]
    simp only [Expr.containsAggregate_iff]
  · intro hnone
    have hreach : ∀ entry ∈ p.labelled, entry.2.reachesAggregate = false := by
      intro entry hentry
      rw [hp] at hentry
      rw [← Bool.not_eq_true, Expr.reachesAggregate_iff]
      rintro ⟨function, args, hcall, hfunction⟩
      obtain ⟨inner, hinner, hwalk⟩ := (Draft.carries_of_run hd hfree).links.exists_mem_walk
        (mem_expressions_of_labelled hentry) hcall
      have hinnerNone := List.any_eq_false.mp (haggregate ▸ hnone) inner hinner
      exact hinnerNone (Expr.containsAggregate_iff.mpr ⟨function, args, hwalk, hfunction⟩)
    constructor
    · intro entry hentry function args hcall
      rw [← Bool.not_eq_true]
      intro hfunction
      have hreaches := Expr.reachesAggregate_iff.mpr ⟨function, args, hcall, hfunction⟩
      rw [hreach entry hentry] at hreaches
      cases hreaches
    · intro policy s window label e aliases hevaluates answer
      apply Expr.evaluateAnswered_of_not_reachesAggregate
      exact hreach _ (hevaluates.mem_labelled hlaidOut)

/-- The hidden rounded column `x`, and under another name what that comes to through a link. -/
def roundedTwice : List Declaration := [
  { item := .computed (.call "ROUND" [.column { name := "x" }]) (some "r"), hidden := true },
  { item := .computed (.call "coalesce" [.column { name := "r" }, .literal (.integer 0)])
      (some "s") }]

/-- The same with a star that replaces a field by a sum inside a case distinction. -/
def summedInCase : List Declaration := roundedTwice ++ [
  { item := .star [] [(.case none [(.column { name := "b" },
      .binary (.arithmetic .add) (.literal (.integer 1)) (.call "sum" [.column { name := "r" }]))]
      none, "y")] }]

theorem linkFree_summedInCase :
    ∀ d ∈ summedInCase, ∀ e ∈ d.item.expressions, e.LinkFree := by
  simp [summedInCase, roundedTwice, Item.expressions, Expr.LinkFree]

/-- The sum inside the case distinction is found; without it nothing is computed for a call, here on
a group of two rows before any alias is stored. -/
theorem aggregates_detected_summedInCase :
    (∃ p, compile summedInCase = .ok p ∧ p.aggregate = true) ∧
    ∃ p, compileOver ["x"] roundedTwice = .ok p ∧ p.aggregate = false ∧ p.layout.isSome = true ∧
      ∀ (r r' : Row) (answer : String → List Expr → Outcome Value),
        (Expr.call "ROUND" [.column { name := "x" }]).evaluateAnswered answer (.group [r, r']) {} =
          (Expr.call "ROUND" [.column { name := "x" }]).evaluate (.group [r, r']) {} := by
  constructor
  · refine ⟨_, rfl, (aggregates_detected (.named rfl) linkFree_summedInCase).1.mpr ?_⟩
    refine ⟨summedInCase[2], by simp [summedInCase, roundedTwice], _, List.mem_singleton.mpr rfl,
      "sum", [.column { name := "r" }], ?_, by decide⟩
    simp [Expr.walkOption, Expr.walkBranches, Expr.walkAll]
  · refine ⟨_, rfl, rfl, rfl, fun r r' answer => ?_⟩
    have hfree : ∀ d ∈ roundedTwice, ∀ e ∈ d.item.expressions, e.LinkFree := fun d hd =>
      linkFree_summedInCase d (List.mem_append_left _ hd)
    have hdetected := aggregates_detected (@CompiledFrom.laidOut roundedTwice _ ["x"] rfl) hfree
    exact (hdetected.2 rfl).2 {} (.group [r, r']) none _ _ _
      (@Evaluates.field _ {} _ none [] _ _ _ ∅ { output := ∅ } rfl rfl rfl) answer

end Plan
end StreamSelect
