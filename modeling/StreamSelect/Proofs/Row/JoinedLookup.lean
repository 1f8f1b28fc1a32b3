import StreamSelect.Proofs.Project.Keys

/-!
The two ways to read a joined row by an unqualified key. The star merges the constituents by keys as
they are spelt, and the earliest constituent that has the key wins. A bare name asks the
constituents one after the other, and each of them also answers for a key that differs only in ASCII
case. So the two agree unless an earlier constituent has another spelling of the key, with another
value.
-/
namespace StreamSelect

/-- An event answers for a key as it is spelt before it looks at other spellings. -/
theorem Event.field?_of_get? {e : Event} {k : String} {v : Value} (h : e.fields.get? k = some v) :
    e.field? k = some v := by
  rw [field?, KeyedMap.find?, h, Option.some_or]

namespace Joined

/-- The merged fields have under a key what the first constituent with that key has. -/
theorem get?_mergedFields (j : Joined) (k : String) :
    j.mergedFields.get? k = j.constituents.findSome? (·.fields.get? k) := by
  unfold mergedFields
  induction j.constituents with
  | nil => rfl
  | cons e rest ih =>
    rw [List.foldr_cons, KeyedMap.get?_override, ih, List.findSome?_cons]
    cases e.fields.get? k <;> rfl

/-- The star alone shows the merged fields. Metadata that are attached take no name of a field. -/
theorem get?_star (j : Joined) {k : String} {v : Value} (h : j.mergedFields.get? k = some v)
    (policy : OutputPolicy) (window : Option Window) :
    ∃ out, Projector.projectRow ⟨Plan.starOnly [], policy⟩ (.joined j) window =
        .ok (.event out) ∧ out.fields.get? k = some v := by
  refine ⟨_, congrArg (Row.event <$> ·) (Plan.assemble_starOnly [] (.row (.joined j)) window), ?_⟩
  have hstar : ((Plan.starOnly []).starFields (some (.joined j))).get? k = some v := by
    change (j.mergedFields.filterKeys fun name => !([] : List String).contains name).get? k = some v
    rw [KeyedMap.get?_filterKeys, h]
    rfl
  rw [Plan.get?_attach]
  exact (congrArg (Option.or · _) hstar).trans Option.some_or

/-- Under a key that some constituent has as it is spelt, the merged fields and so the star show the
value in the earliest such constituent. A bare name shows it too unless a constituent before that
one answers for another spelling of the key, with another value. -/
theorem field?_eq_merged_iff {j : Joined} {k : String}
    (h : ∃ e ∈ j.constituents, k ∈ e.fields.keySet) :
    ∃ before e after v p, j.constituents = before ++ e :: after ∧
      (∀ b ∈ before, b.fields.get? k = none) ∧ e.fields.get? k = some v ∧
      j.mergedFields.get? k = some v ∧
      Plan.compile [{ item := .star [] [] }] = .ok p ∧
      (∀ policy window, ∃ out, Projector.projectRow ⟨p, policy⟩ (.joined j) window =
        .ok (.event out) ∧ out.fields.get? k = some v) ∧
      (j.field? none k = some v ↔ ∀ w, before.findSome? (·.field? k) = some w → w = v) ∧
      ((∀ b ∈ before, ∀ key ∈ b.fields.keys, Text.sameIgnoringCase key k = false) →
        j.field? none k = some v) := by
  obtain ⟨v, hv⟩ := Option.isSome_iff_exists.mp
    (KeyedMap.mem_keySet.mp (mem_keySet_mergedFields.mpr h))
  obtain ⟨before, e, after, hsplit, he, hbefore⟩ :=
    List.findSome?_eq_some_iff.mp ((j.get?_mergedFields k).symm.trans hv)
  have hfield : j.field? none k = (before.findSome? (·.field? k)).or (some v) := by
    simp only [field?, candidates, hsplit, List.findSome?_append, List.findSome?_cons,
      Event.field?_of_get? he]
  refine ⟨before, e, after, v, Plan.starOnly [], hsplit, hbefore, he, hv, rfl, j.get?_star hv,
    ?_, fun hunmatched => ?_⟩
  · rw [hfield]
    cases before.findSome? (·.field? k) with
    | none => simp
    | some w => simp
  · have hnone : before.findSome? (·.field? k) = none :=
      List.findSome?_eq_none_iff.mpr fun b hb => KeyedMap.find?_eq_none (hunmatched b hb)
    rw [hfield, hnone, Option.none_or]

/-- Of two constituents that have the key, one in another spelling behind them. -/
def orderAndCustomer : Joined where
  constituents := [
    { fields := .ofList [("total", .integer 3)] },
    { fields := .ofList [("Id", .integer 1), ("id", .integer 2)] },
    { fields := .ofList [("ID", .integer 4)] }]

theorem field?_eq_merged_iff_orderAndCustomer :
    orderAndCustomer.field? none "id" = some (.integer 2) ∧
      orderAndCustomer.mergedFields.get? "id" = some (.integer 2) ∧
      ∃ before e after v, orderAndCustomer.constituents = before ++ e :: after ∧
        e.fields.get? "id" = some v ∧
        (orderAndCustomer.field? none "id" = some v ↔
          ∀ w, before.findSome? (·.field? "id") = some w → w = v) := by
  obtain ⟨before, e, after, v, _, hsplit, _, he, _, _, _, hiff, _⟩ :=
    field?_eq_merged_iff (j := orderAndCustomer) (k := "id")
      ⟨_, List.mem_cons_of_mem _ List.mem_cons_self, KeyedMap.mem_keySet.mpr rfl⟩
  exact ⟨rfl, rfl, before, e, after, v, hsplit, he, hiff⟩

/-- A key in another case hides the field of a later constituent from its bare name, and the star
shows both. -/
theorem cased_key_hides :
    let j : Joined := { constituents := [
      { fields := .ofList [("A", .integer 1)] }, { fields := .ofList [("a", .integer 2)] }] }
    j.field? none "a" = some (.integer 1) ∧ j.mergedFields.get? "a" = some (.integer 2) ∧
      j.mergedFields.keys = ["A", "a"] := ⟨rfl, rfl, rfl⟩

end Joined
end StreamSelect
