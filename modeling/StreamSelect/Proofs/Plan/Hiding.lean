import StreamSelect.Proofs.Plan.Layout
import StreamSelect.Proofs.Plan.Names

/-!
Two lists that differ in the visibility of one declaration. Their plans differ in one field only: no
later declaration sees whether an earlier one is hidden, and neither do placeholder names and the
search for aggregates. In a layout the positions after the field shift by one.
-/
namespace StreamSelect

/-- The item is a bare column or has an alias, so that its name is not derived. -/
def Item.isNamed (item : Item) : Bool := item.copied?.isSome || item.alias?.isSome

namespace PlannedField

def hide (f : PlannedField) : PlannedField := { f with hidden := true }

@[simp] theorem hide_hidden (f : PlannedField) : f.hide.hidden = true := rfl
@[simp] theorem hide_outputName (f : PlannedField) : f.hide.outputName = f.outputName := rfl
@[simp] theorem hide_alias? (f : PlannedField) : f.hide.alias? = f.alias? := rfl
@[simp] theorem hide_slotSource? (f : PlannedField) (schema : List String) :
    f.hide.slotSource? schema = f.slotSource? schema := rfl

end PlannedField

/-- The second plan hides a field that the first writes, and writes no other field of that name. -/
structure Plan.Hides (f : PlannedField) (p q : Plan) : Prop where
  visible : f.hidden = false
  fresh : f.outputName ∉ PlannedField.written q.fields
  fields : ∃ earlier later,
    p.fields = earlier ++ f :: later ∧ q.fields = earlier ++ f.hide :: later
  star : q.star = p.star
  sourceStars : q.sourceStars = p.sourceStars
  aggregate : q.aggregate = p.aggregate

namespace Draft
variable {d d' : Draft} {f : PlannedField} {declaration : Declaration}

/-- The second draft is the first with one field hidden. -/
def Hides (f : PlannedField) (d d' : Draft) : Prop :=
  ∃ earlier later, d.fields = earlier ++ f :: later ∧
    d' = { d with fields := earlier ++ f.hide :: later }

/-- What a declaration adds does not depend on the fields before it. -/
theorem add_withFields (d : Draft) (fields : List PlannedField) (declaration : Declaration) :
    add { d with fields } declaration =
      (fun d' => { d' with fields := fields ++ (d.planned? declaration).toList }) <$>
        d.add declaration := by
  obtain ⟨item, hidden⟩ := declaration
  cases item with
  | column c => rfl
  | computed e alias? =>
    cases alias? with
    | some name => rfl
    | none => cases e <;> rfl
  | star except replace =>
    simp only [add, addStar, planned?, Option.toList_none, List.append_nil]
    split <;> rfl
  | sourceStar source =>
    simp only [add, addSourceStar, planned?, Option.toList_none, List.append_nil]
    split
    · rfl
    · split <;> rfl

/-- A declaration adds the same after a field that is hidden as after one that is not. -/
theorem Hides.add (h : d.Hides f d') (declaration : Declaration) :
    Outcome.Agree (Hides f) (d.add declaration) (d'.add declaration) := by
  obtain ⟨earlier, later, hfields, rfl⟩ := h
  rw [add_withFields d (earlier ++ f.hide :: later)]
  cases hadd : d.add declaration with
  | error fault => exact .error fault
  | ok b =>
    refine .ok ⟨earlier, later ++ (d.planned? declaration).toList, ?_, ?_⟩
    · rw [(Adds.of_add hadd).fields, hfields]
      simp
    · simp

theorem Hides.run (h : d.Hides f d') (declarations : List Declaration) :
    Outcome.Agree (Hides f) (declarations.foldlM Draft.add d)
      (declarations.foldlM Draft.add d') := by
  refine Outcome.Agree.foldlM (P := Eq) (List.forall₂_same.mpr fun _ _ => rfl) ?_ h
  rintro a b declaration _ hab rfl
  exact hab.add declaration

/-- A declaration that is not a star adds its field whether it is hidden or not. -/
theorem add_hidden {item : Item} (hf : d.planned? ⟨item, false⟩ = some f) :
    ∃ b, d.add ⟨item, false⟩ = .ok b ∧
      d.add ⟨item, true⟩ = .ok { b with fields := d.fields ++ [f.hide] } := by
  cases item with
  | column c => cases hf; exact ⟨_, rfl, rfl⟩
  | computed e alias? =>
    cases alias? with
    | some name => cases hf; exact ⟨_, rfl, rfl⟩
    | none => cases e <;> (cases hf; exact ⟨_, rfl, rfl⟩)
  | star except replace => cases hf
  | sourceStar source => cases hf

/-- A bare column or an alias does not become a field with a derived name. -/
theorem not_derived_of_isNamed (hf : d.planned? declaration = some f)
    (hnamed : declaration.item.isNamed = true) (name : String) (e : Expr) :
    f.form ≠ .derived name e := by
  intro hform
  obtain ⟨item, hidden⟩ := declaration
  cases item with
  | column c => cases hf; cases hform
  | computed e alias? =>
    cases alias? with
    | some name => cases hf; cases hform
    | none =>
      cases e with
      | column c => cases hf; cases hform
      | _ => cases hnamed
  | star except replace => cases hf
  | sourceStar source => cases hf

theorem Hides.expressions (h : d.Hides f d') : d'.expressions = d.expressions := by
  obtain ⟨earlier, later, hfields, rfl⟩ := h
  simp only [Draft.expressions, hfields, List.filterMap_append, List.filterMap_cons]
  rfl

end Draft

namespace Plan
variable {before after : List Declaration} {item : Item} {name : String}

/-- What two drafts have in common if the one hides a field of the other, their plans have too. -/
theorem finish_hides {f : PlannedField} {d d' : Draft} (h : d.Hides f d')
    (hvisible : f.hidden = false) (hfresh : f.outputName ∉ PlannedField.written d'.fields) :
    d.finish.Hides f d'.finish where
  visible := hvisible
  fresh := hfresh
  fields := by
    obtain ⟨earlier, later, hfields, rfl⟩ := h
    exact ⟨earlier, later, hfields, rfl⟩
  star := by
    obtain ⟨_, _, _, rfl⟩ := h
    rfl
  sourceStars := by
    obtain ⟨_, _, _, rfl⟩ := h
    rfl
  aggregate := by
    rw [Draft.finish, Draft.finish, h.expressions]

/-- The plans of two lists that differ in the visibility of one declaration, if no other visible
declaration has its name. Neither list compiles without the other. -/
theorem compile_hiding
    (hname : item.outputName? (Declaration.placeholders before) = some name)
    (hfresh : name ∉ Declaration.visibleNames 0 (before ++ ⟨item, true⟩ :: after)) :
    Outcome.Agree
      (fun p q => ∃ f : PlannedField, f.outputName = name ∧
        (item.isNamed = true → ∀ n e, f.form ≠ .derived n e) ∧ p.Hides f q ∧
        p.layout = none ∧ q.layout = none)
      (compile (before ++ ⟨item, false⟩ :: after)) (compile (before ++ ⟨item, true⟩ :: after)) := by
  have hdrafts : Outcome.Agree
      (fun d d' : Draft => ∃ f : PlannedField, f.outputName = name ∧
        (item.isNamed = true → ∀ n e, f.form ≠ .derived n e) ∧ f.hidden = false ∧ d.Hides f d')
      ((before ++ ⟨item, false⟩ :: after).foldlM Draft.add {})
      ((before ++ ⟨item, true⟩ :: after).foldlM Draft.add {}) := by
    simp only [List.foldlM_append, List.foldlM_cons]
    cases hbefore : before.foldlM Draft.add {} with
    | error fault => exact .error fault
    | ok d =>
      have hgiven := Draft.placeholders_of_run hbefore
      have houtput := d.planned?_outputName ⟨item, false⟩
      rw [hgiven, Nat.zero_add, hname] at houtput
      obtain ⟨f, hf, hfname⟩ := Option.map_eq_some_iff.mp houtput
      obtain ⟨b, hvisible, hhidden⟩ := Draft.add_hidden hf
      have hb : b.Hides f { b with fields := d.fields ++ [f.hide] } := by
        refine ⟨d.fields, [], ?_, rfl⟩
        rw [(Draft.Adds.of_add hvisible).fields, hf, Option.toList_some]
      change Outcome.Agree _ (d.add _ >>= _) (d.add _ >>= _)
      rw [hvisible, hhidden]
      exact (hb.run after).imp fun _ _ _ _ h =>
        ⟨f, hfname, Draft.not_derived_of_isNamed hf, Draft.planned?_hidden hf, h⟩
  have hlists : ∀ hidden, (before ++ ⟨item, hidden⟩ :: after).isEmpty = false := by simp
  simp only [compile, hlists, Bool.false_eq_true, if_false]
  refine (hdrafts.imp fun d d' _ hd' h => ?_).map fun _ _ h => h
  obtain ⟨f, hfname, hform, hvisible, h⟩ := h
  have hwritten := Draft.written_of_run hd'
  refine ⟨f, hfname, hform, finish_hides h hvisible ?_, rfl, rfl⟩
  rw [hwritten, hfname]
  exact hfresh

end Plan

/-- The slot when the output position `gone` is taken away. -/
def Slot.shift (gone : Nat) (s : Slot) : Slot :=
  { s with write := s.write.bind fun i =>
      if i < gone then some i else if i = gone then none else some (i - 1) }

/-- The layout when the output position `gone` is taken away. -/
def Layout.shift (gone : Nat) (layout : Layout) : Layout :=
  { layout with
    slots := layout.slots.map (Slot.shift gone)
    outputSchema := layout.outputSchema.eraseIdx gone }

namespace Layout
variable {f : PlannedField}

/-- Fields after the one that is hidden move up by one position. -/
theorem slotsFrom?_later (schema : List String) {gone next : Nat} (hnext : gone ≤ next)
    (later : List PlannedField) :
    slotsFrom? schema next later =
      (slotsFrom? schema (next + 1) later).map (List.map (Slot.shift gone)) := by
  induction later generalizing next with
  | nil => rfl
  | cons g later ih =>
    cases hsource : g.slotSource? schema with
    | none => simp [slotsFrom?, hsource]
    | some source =>
      cases hhidden : g.hidden with
      | true =>
        simp only [slotsFrom?, hsource, hhidden, if_true, ih hnext]
        cases slotsFrom? schema (next + 1) later <;> rfl
      | false =>
        have hshift : Slot.shift gone ⟨g.outputName, g.alias?, some (next + 1), source⟩ =
            ⟨g.outputName, g.alias?, some next, source⟩ := by
          have hlt : ¬next + 1 < gone := by omega
          have hne : next + 1 ≠ gone := by omega
          simp [Slot.shift, hlt, hne]
        simp only [slotsFrom?, hsource, hhidden, Bool.false_eq_true, if_false,
          ih (Nat.le_succ_of_le hnext)]
        cases slotsFrom? schema (next + 1 + 1) later with
        | none => rfl
        | some slots => simp [hshift]

/-- Fields before the one that is hidden keep their positions. -/
theorem slotsFrom?_hide (schema : List String) (hvisible : f.hidden = false)
    (earlier later : List PlannedField) (next : Nat) :
    slotsFrom? schema next (earlier ++ f.hide :: later) =
      (slotsFrom? schema next (earlier ++ f :: later)).map
        (List.map (Slot.shift (next + (PlannedField.written earlier).length))) := by
  induction earlier generalizing next with
  | nil =>
    have hlater := slotsFrom?_later schema (Nat.le_refl next) later
    cases hsource : f.slotSource? schema with
    | none => simp [slotsFrom?, hsource]
    | some source =>
      simp only [List.nil_append, slotsFrom?, PlannedField.hide_slotSource?, hsource, hvisible,
        PlannedField.hide_hidden, if_true, Bool.false_eq_true, if_false, hlater]
      cases slotsFrom? schema (next + 1) later with
      | none => rfl
      | some slots => simp [Slot.shift, PlannedField.written]
  | cons g earlier ih =>
    cases hsource : g.slotSource? schema with
    | none => simp [slotsFrom?, hsource]
    | some source =>
      cases hhidden : g.hidden with
      | true =>
        simp only [List.cons_append, slotsFrom?, hsource, hhidden, if_true, ih,
          PlannedField.written_cons, List.nil_append]
        cases slotsFrom? schema next (earlier ++ f :: later) <;> rfl
      | false =>
        have hposition : next + 1 + (PlannedField.written earlier).length =
            next + (PlannedField.written (g :: earlier)).length := by
          simp [PlannedField.written_cons, hhidden]
          omega
        have hlt : next < next + (PlannedField.written (g :: earlier)).length := by omega
        have hshift : Slot.shift (next + (PlannedField.written (g :: earlier)).length)
            ⟨g.outputName, g.alias?, some next, source⟩ =
              ⟨g.outputName, g.alias?, some next, source⟩ := by
          simp [Slot.shift, hlt]
        simp only [List.cons_append, slotsFrom?, hsource, hhidden, Bool.false_eq_true, if_false, ih,
          hposition]
        cases slotsFrom? schema (next + 1) (earlier ++ f :: later) with
        | none => rfl
        | some slots => simp [hshift]

/-- If one plan hides a field of the other, its layout leaves out the position of the field. -/
theorem ofPlan?_hides {p q : Plan} (h : p.Hides f q) (schema : List String) :
    ofPlan? q schema = (ofPlan? p schema).map fun layout =>
      layout.shift (layout.outputSchema.idxOf f.outputName) := by
  obtain ⟨earlier, later, hp, hq⟩ := h.fields
  have hfresh : f.outputName ∉ PlannedField.written earlier := by
    intro hmem
    refine h.fresh ?_
    rw [hq, PlannedField.written_append]
    exact List.mem_append_left _ hmem
  have hwritten : PlannedField.written p.fields =
      PlannedField.written earlier ++ f.outputName :: PlannedField.written later := by
    simp [hp, PlannedField.written_append, PlannedField.written_cons, h.visible]
  have hposition : (PlannedField.written p.fields).idxOf f.outputName =
      (PlannedField.written earlier).length := by
    rw [hwritten, List.idxOf_append_of_notMem hfresh, List.idxOf_cons_self, Nat.add_zero]
  have hschema : PlannedField.written q.fields =
      (PlannedField.written p.fields).eraseIdx (PlannedField.written earlier).length := by
    rw [hwritten, List.eraseIdx_append_of_length_le (Nat.le_refl _), Nat.sub_self, hq]
    simp [PlannedField.written_append, PlannedField.written_cons]
  have hslots := slotsFrom?_hide schema h.visible earlier later 0
  rw [← hq, ← hp, Nat.zero_add] at hslots
  unfold ofPlan?
  rw [h.star, h.sourceStars, h.aggregate, hslots]
  split
  · rfl
  · cases slotsFrom? schema 0 p.fields with
    | none => rfl
    | some slots =>
      change some (Layout.mk _ _ (PlannedField.written q.fields)) =
        some (Layout.shift ((PlannedField.written p.fields).idxOf f.outputName) _)
      rw [hposition, hschema]
      rfl

end Layout

namespace Plan
variable {p q : Plan} {f : PlannedField}

/-- Neither plan has a layout, or the second plan has that of the first without the position of the
field. -/
def SharesLayout (f : PlannedField) (p q : Plan) : Prop :=
  (p.layout = none ∧ q.layout = none) ∨
    ∃ layout : Layout, f.outputName ∈ layout.outputSchema ∧ p.layout = some layout ∧
      q.layout = some (layout.shift (layout.outputSchema.idxOf f.outputName))

theorem Hides.withLayouts (h : p.Hides f q) (layout layout' : Option Layout) :
    { p with layout }.Hides f { q with layout := layout' } :=
  ⟨h.visible, h.fresh, h.fields, h.star, h.sourceStars, h.aggregate⟩

theorem Hides.mem_written (h : p.Hides f q) : f.outputName ∈ PlannedField.written p.fields := by
  obtain ⟨earlier, later, hp, _⟩ := h.fields
  simp [hp, PlannedField.written_append, PlannedField.written_cons, h.visible]

theorem Hides.sharesLayout (h : p.Hides f q) (schema : List String) :
    { p with layout := Layout.ofPlan? p schema }.SharesLayout f
      { q with layout := Layout.ofPlan? q schema } := by
  have hshift := Layout.ofPlan?_hides h schema
  cases hlayout : Layout.ofPlan? p schema with
  | none =>
    rw [hlayout] at hshift
    exact .inl ⟨rfl, hshift⟩
  | some layout =>
    rw [hlayout] at hshift
    obtain ⟨_, _, _, slots, _, rfl⟩ := Layout.ofPlan?_eq_some hlayout
    exact .inr ⟨_, h.mem_written, rfl, hshift⟩

end Plan
end StreamSelect
