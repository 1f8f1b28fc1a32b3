import StreamSelect.Proofs.Evaluation.Alike
import StreamSelect.Proofs.KeyedMap

/-!
A tuple and the event of its named values are alike if no two columns have one name up to case. The
schema may be longer or shorter than the values.
-/
namespace StreamSelect.Tuple

private theorem find?_zip (p : String → Bool) (schema : List String) (values : List Value) :
    ((schema.zip values).find? fun e => p e.1).map Prod.snd =
      (schema.findIdx? p).bind (values[·]?) := by
  induction schema generalizing values with
  | nil => simp
  | cons name schema ih =>
    cases values with
    | nil => simp
    | cons v values =>
      by_cases hp : p name = true
      · simp [List.findIdx?_cons, hp]
      · rw [List.zip_cons_cons, List.find?_cons_of_neg (by exact hp), ih, List.findIdx?_cons,
          if_neg hp, Option.bind_map]
        rfl

/-- Without two names equal up to case, the position of a name is that of its only match. -/
theorem position?_eq {t : Tuple} (h : Text.DistinctIgnoringCase t.schema) (name : String) :
    t.position? name = t.schema.findIdx? (Text.sameIgnoringCase · name) := by
  unfold position?
  obtain ⟨_, schema, _⟩ := t
  dsimp only at h ⊢
  induction schema with
  | nil => rfl
  | cons column schema ih =>
    obtain ⟨hcolumn, hrest⟩ := List.pairwise_cons.mp h
    by_cases hsame : Text.sameIgnoringCase column name = true
    · have hexact : schema.findIdx? (· == name) = none := by
        rw [List.findIdx?_eq_none_iff]
        intro other hother
        have hne : other ≠ name := by
          rintro rfl
          simp [hcolumn _ hother] at hsame
        simpa using hne
      cases heq : column == name <;> simp [List.findIdx?_cons, hsame, hexact, heq]
    · have hne : column ≠ name := by
        rintro rfl
        exact hsame (Text.sameIgnoringCase_refl _)
      have hshift := congrArg (Option.map (· + 1)) (ih hrest)
      rw [Option.map_or] at hshift
      simpa [List.findIdx?_cons, hsame, hne] using hshift

theorem keys_zip_distinct {t : Tuple} (h : Text.DistinctIgnoringCase t.schema) :
    Text.DistinctIgnoringCase ((t.schema.zip t.values).map Prod.fst) :=
  List.Pairwise.sublist (KeyedMap.keys_zip_sublist _ _) h

theorem toEvent_field? {t : Tuple} (h : Text.DistinctIgnoringCase t.schema) (name : String) :
    t.toEvent.field? name = t.field? name := by
  rw [toEvent, Event.field?, KeyedMap.find?_ofList (keys_zip_distinct h), find?_zip
    (Text.sameIgnoringCase · name), field?, position?_eq h]

theorem toEvent_alike {t : Tuple} (h : Text.DistinctIgnoringCase t.schema) :
    Row.Alike (.tuple t) (.event t.toEvent) where
  field _ name := (toEvent_field? h name).symm
  key _ _ := rfl
  metadata := rfl
  fields := rfl

/-- An expression does not see whether the named values come as a tuple or as an event. -/
theorem evaluate_toEvent {t : Tuple} (h : Text.DistinctIgnoringCase t.schema) (e : Expr)
    (scope : Scope) :
    e.evaluate (.row (.event t.toEvent)) scope = e.evaluate (.row (.tuple t)) scope :=
  (e.evaluate_alike (.row (toEvent_alike h)) scope).symm

end StreamSelect.Tuple
