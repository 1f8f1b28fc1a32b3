import StreamSelect.Proofs.Plan.Declared

/-!
The names under which a list writes its fields, read off the declarations. Only placeholder names
depend on the declarations before, and hidden declarations are counted there too.
-/
namespace StreamSelect

/-- The name under which the item is written when `given` placeholder names have been given. A star
has none. -/
def Item.outputName? (given : Nat) : Item → Option String
  | .column c => some c.name
  | .computed _ (some name) => some name
  | .computed (.column c) none => some c.name
  | .computed (.call function _) none => some function
  | .computed _ none => some (placeholderName given)
  | _ => none

namespace Declaration

theorem placeholders_append (declarations others : List Declaration) :
    placeholders (declarations ++ others) = placeholders declarations + placeholders others :=
  List.countP_append

/-- The names of the visible declarations in order, stars apart, when `given` placeholder names have
been given. -/
def visibleNames (given : Nat) : List Declaration → List String
  | [] => []
  | declaration :: rest =>
    (if declaration.hidden then [] else (declaration.item.outputName? given).toList) ++
      visibleNames (given + placeholders [declaration]) rest

end Declaration

namespace Draft
variable {d d' : Draft} {declaration : Declaration} {declarations : List Declaration}

theorem placeholders_of_run (h : declarations.foldlM add d = .ok d') :
    d'.placeholders = d.placeholders + Declaration.placeholders declarations := by
  refine Outcome.foldlM_induction
    (motive := fun done (b : Draft) =>
      b.placeholders = d.placeholders + Declaration.placeholders done) rfl ?_ h
  intro done declaration _ b c _ ih hadd
  rw [(Adds.of_add hadd).placeholders, ih, Declaration.placeholders_append, Nat.add_assoc]

/-- The field that a declaration adds is written under the declared name. -/
theorem planned?_outputName (d : Draft) (declaration : Declaration) :
    (d.planned? declaration).map PlannedField.outputName =
      declaration.item.outputName? d.placeholders := by
  obtain ⟨item, hidden⟩ := declaration
  cases item with
  | column c => rfl
  | computed e alias? =>
    cases alias? with
    | some name => cases e <;> rfl
    | none => cases e <;> rfl
  | star except replace => rfl
  | sourceStar source => rfl

theorem planned?_hidden {f : PlannedField} (h : d.planned? declaration = some f) :
    f.hidden = declaration.hidden := by
  obtain ⟨item, hidden⟩ := declaration
  cases item with
  | column c => cases h; rfl
  | computed e alias? =>
    cases alias? with
    | some name => cases h; rfl
    | none => cases e <;> (cases h; rfl)
  | star except replace => cases h
  | sourceStar source => cases h

theorem written_planned? (d : Draft) (declaration : Declaration) :
    PlannedField.written (d.planned? declaration).toList =
      Declaration.visibleNames d.placeholders [declaration] := by
  have hname := d.planned?_outputName declaration
  cases hf : d.planned? declaration with
  | none =>
    rw [hf] at hname
    simp [Declaration.visibleNames, ← hname, PlannedField.written]
  | some f =>
    rw [hf] at hname
    rw [Option.toList_some, PlannedField.written_cons, planned?_hidden hf]
    simp [Declaration.visibleNames, ← hname, PlannedField.written]

/-- The names that a run of declarations adds to those that are written. -/
theorem written_of_run (h : declarations.foldlM add d = .ok d') :
    PlannedField.written d'.fields =
      PlannedField.written d.fields ++ Declaration.visibleNames d.placeholders declarations := by
  induction declarations generalizing d with
  | nil =>
    cases h
    simp [Declaration.visibleNames]
  | cons declaration rest ih =>
    obtain ⟨b, hb, hrest⟩ := Outcome.bind_eq_ok.mp ((List.foldlM_cons ..).symm.trans h)
    have hadds := Adds.of_add hb
    rw [ih hrest, hadds.fields, hadds.placeholders, PlannedField.written_append, written_planned?,
      List.append_assoc]
    simp [Declaration.visibleNames]

end Draft

/-- The fields of a compiled plan are written under the names of the visible declarations. -/
theorem Plan.written_of_compile {declarations : List Declaration} {p : Plan}
    (h : compile declarations = .ok p) :
    PlannedField.written p.fields = Declaration.visibleNames 0 declarations := by
  obtain ⟨d, hd, rfl⟩ := compile_eq_ok h
  exact Draft.written_of_run hd

end StreamSelect
