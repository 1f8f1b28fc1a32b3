import Mathlib.Data.List.MinMax
import StreamSelect.Function.Aggregate
import StreamSelect.Proofs.Outcome
import StreamSelect.Proofs.Value.Ordered

/-!
The least and the greatest of values. Over values of one ordered kind the best value so far is the
first of the best ones. A value that cannot be compared with the others never gets lost on the way:
of two or more values all have been compared with a value of their own class.
-/
namespace StreamSelect

/-- Whether the comparison comes out true. -/
def Relation.relates (op : Relation) (v w : Value) : Bool :=
  match op.compare v w with
  | .ok (.boolean truth) => truth
  | _ => false

namespace AggregateFunction
variable {f : AggregateFunction} {keep : Ordering} {op : Relation} {name : String}
  {xs ys values : List Value} {v w : Value} {best best' : Option Value}

/-- The function keeps a value that is less (greater) than the best so far, so that it returns one
that is less (greater) than or equal to every value. -/
inductive Extremal : AggregateFunction → Ordering → Relation → Prop
  | min : Extremal .min .lt .lessOrEqual
  | max : Extremal .max .gt .greaterOrEqual

theorem Extremal.apply_eq (h : Extremal f keep op) (name : String) (values : List Value) :
    f.apply name values = extreme name keep values := by
  cases h <;> rfl

section Ordered
variable {L : Type} [LinearOrder L] {key : Value → L}

/-- The key puts the two values in order, the better one first. -/
def Ranks (keep : Ordering) (op : Relation) (key : Value → L) (v w : Value) : Prop :=
  ∃ o, v.compare? w = some o ∧ (o = keep ↔ key v < key w) ∧
    (op.holds o = true ↔ key v ≤ key w) ∧ (o = .eq ↔ key v = key w)

theorem Ranks.relates_iff (h : Ranks keep op key v w) :
    op.relates v w = true ↔ key v ≤ key w := by
  obtain ⟨o, ho, _, hholds, _⟩ := h
  rw [Relation.relates, Value.relation_compare ho]
  exact hholds

theorem Ranks.better_eq (h : Ranks keep op key v w) : better name keep (some w) v =
    .ok (if key v < key w then some v else some w) := by
  obtain ⟨o, ho, hkeep, _⟩ := h
  rw [better, ho]
  by_cases hlt : key v < key w
  · simp [hkeep.mpr hlt, hlt]
  · simp [mt hkeep.mp hlt, hlt]

theorem Ranks.equals (h : Ranks keep op key v w) (heq : key v = key w) : v.equals w = true := by
  obtain ⟨o, ho, _, _, hequal⟩ := h
  rw [Value.equals, ho, hequal.mpr heq]
  rfl

/-- The loop finds the first of the values with the least key. -/
theorem foldlM_better (h : ∀ v ∈ xs, ∀ w ∈ xs, Ranks keep op key v w) :
    xs.foldlM (better name keep) none = .ok (xs.argmin key) := by
  induction xs using List.reverseRecOn with
  | nil => rfl
  | append_singleton xs v ih =>
    have hrun := ih fun u hu w hw => h u (List.mem_append_left _ hu) w (List.mem_append_left _ hw)
    rw [List.foldlM_append, hrun, List.argmin_concat]
    cases hbest : xs.argmin key with
    | none => rfl
    | some w =>
      have hw := List.mem_append_left [v] (List.argmin_mem hbest)
      exact (bind_pure _).trans (h v (by simp) w hw).better_eq

/-- In another order the values have the same least number. -/
theorem equals_argmin_of_perm (h : ∀ v ∈ xs, ∀ w ∈ xs, Ranks keep op key v w)
    (hperm : ys.Perm xs) :
    ((xs.argmin key).getD .null).equals ((ys.argmin key).getD .null) = true := by
  cases hv : xs.argmin key with
  | none =>
    obtain rfl := List.argmin_eq_none.mp hv
    obtain rfl := hperm.eq_nil
    rfl
  | some v =>
    have hvmem := List.argmin_mem hv
    cases hw : ys.argmin key with
    | none =>
      obtain rfl := List.argmin_eq_none.mp hw
      rw [← hperm.nil_eq] at hvmem
      cases hvmem
    | some w =>
      have hwmem := List.argmin_mem hw
      have hle := List.le_of_mem_argmin (hperm.mem_iff.mp hwmem) hv
      have hge := List.le_of_mem_argmin (hperm.mem_iff.mpr hvmem) hw
      exact (h v hvmem w (hperm.mem_iff.mp hwmem)).equals (le_antisymm hle hge)

theorem extreme_eq_argmin
    (h : ∀ v ∈ present values, ∀ w ∈ present values, Ranks keep op key v w) :
    extreme name keep values = .ok (((present values).argmin key).getD .null) := by
  rw [extreme, foldlM_better h]
  rfl

open Classical in
/-- It is the first that is as good as all values. -/
theorem find?_relates (h : ∀ v ∈ xs, ∀ w ∈ xs, Ranks keep op key v w) :
    xs.find? (fun v => xs.all (op.relates v)) = xs.argmin key := by
  cases hbest : xs.argmin key with
  | none =>
    obtain rfl := List.argmin_eq_none.mp hbest
    rfl
  | some v =>
    obtain ⟨hmem, hleast, hfirst⟩ := List.argmin_eq_some_iff.mp hbest
    obtain ⟨before, after, hsplit, hnew⟩ := List.eq_append_cons_of_mem hmem
    rw [List.find?_eq_some_iff_append]
    refine ⟨?_, before, after, hsplit, fun u hu => ?_⟩
    · rw [List.all_eq_true]
      exact fun w hw => (h v hmem w hw).relates_iff.mpr (hleast w hw)
    · -- one before it that were as good would have been found instead
      have hmemu : u ∈ xs := by rw [hsplit]; exact List.mem_append_left _ hu
      rw [Bool.not_eq_true', ← Bool.not_eq_true, List.all_eq_true]
      intro hall
      have hindex := hfirst u hmemu ((h u hmemu v hmem).relates_iff.mp (hall v hmem))
      have hu' := List.idxOf_lt_length_of_mem hu
      rw [hsplit, List.idxOf_append_of_notMem hnew, List.idxOf_append_of_mem hu] at hindex
      omega

end Ordered

theorem Extremal.exists_ranks (h : Extremal f keep op) (kind : Value.OrderedKind) :
    ∃ (L : Type) (_ : LinearOrder L) (key : Value → L), ∀ v w : Value,
      v.orderedKind? = some kind → w.orderedKind? = some kind → Ranks keep op key v w := by
  obtain ⟨L, _, key, hkeyed⟩ := Value.exists_keyed kind
  cases h with
  | min =>
    refine ⟨L, inferInstance, key, fun v w hv hw => ⟨_, hkeyed v w hv hw, ?_, ?_, ?_⟩⟩
    · exact compare_lt_iff_lt
    · rw [Relation.holds, bne_iff_ne]
      exact compare_le_iff_le
    · exact compare_eq_iff_eq
  | max =>
    refine ⟨Lᵒᵈ, inferInstance, fun v => OrderDual.toDual (key v), fun v w hv hw =>
      ⟨_, hkeyed v w hv hw, ?_, ?_, ?_⟩⟩
    · exact compare_gt_iff_gt
    · rw [Relation.holds, bne_iff_ne]
      exact compare_ge_iff_ge
    · exact compare_eq_iff_eq

theorem mem_present : v ∈ present values ↔ v ∈ values ∧ v.isNull = false := by
  simp [present]

theorem find?_present {p : Value → Bool} (hnull : p .null = false) :
    (present values).find? p = values.find? p := by
  rw [present, List.find?_filter]
  congr 1
  funext v
  cases v <;> simp [hnull, Value.isNull]

/-- Null is neither less nor greater than anything, nor equal to it. -/
theorem Extremal.relates_null (h : Extremal f keep op) (w : Value) :
    op.relates .null w = false := by
  cases h <;> cases w <;> rfl

/-- The first value that is in the relation to all values that are not null. -/
def firstRelated? (op : Relation) (values : List Value) : Option Value :=
  values.find? fun v => (present values).all (op.relates v)

/-- What a function returns on values of one kind. -/
structure Chooses (f : AggregateFunction) (name : String) (op : Relation) (values : List Value) :
    Prop where
  empty : present values = [] → f.apply name values = .ok .null
  first : present values ≠ [] → ∃ v, firstRelated? op values = some v ∧ v.isNull = false ∧
    f.apply name values = .ok v
  permuted : ∀ others, others.Perm values → ∃ v w, f.apply name values = .ok v ∧
    f.apply name others = .ok w ∧ v.equals w = true

theorem Extremal.chooses (h : Extremal f keep op) {kind : Value.OrderedKind}
    (hkind : ∀ v ∈ present values, v.orderedKind? = some kind) (name : String) :
    Chooses f name op values := by
  obtain ⟨L, _, key, hkey⟩ := h.exists_ranks kind
  have hranks : ∀ v ∈ present values, ∀ w ∈ present values, Ranks keep op key v w :=
    fun v hv w hw => hkey v w (hkind v hv) (hkind w hw)
  have happly : ∀ others, (present others).Perm (present values) →
      f.apply name others = .ok (((present others).argmin key).getD .null) := by
    intro others hperm
    rw [h.apply_eq]
    exact extreme_eq_argmin fun v hv w hw =>
      hranks v (hperm.mem_iff.mp hv) w (hperm.mem_iff.mp hw)
  refine ⟨?_, ?_, ?_⟩
  · intro hempty
    rw [happly values (.refl _), hempty]
    rfl
  · intro hne
    obtain ⟨v, hv⟩ := Option.ne_none_iff_exists'.mp (mt (@List.argmin_eq_none _ _ _ _ key _).mp hne)
    have hfirst : firstRelated? op values = some v := by
      obtain ⟨w, hw⟩ := List.exists_mem_of_ne_nil _ hne
      have hnull : (present values).all (op.relates .null) = false := by
        rw [List.all_eq_false]
        exact ⟨w, hw, by simp [h.relates_null]⟩
      rw [firstRelated?, ← find?_present hnull, find?_relates hranks, hv]
    refine ⟨v, hfirst, (mem_present.mp (List.argmin_mem hv)).2, ?_⟩
    rw [happly values (.refl _), hv]
    rfl
  · intro others hperm
    have hpresent : (present others).Perm (present values) := hperm.filter _
    exact ⟨_, _, happly values (.refl _), happly others hpresent,
      equals_argmin_of_perm hranks hpresent⟩

/-- A step that succeeds has compared the value with the best so far and keeps one of them. -/
theorem better_eq_ok (h : better name keep (some w) v = .ok best) :
    (∃ o, v.compare? w = some o) ∧ (best = some v ∨ best = some w) := by
  cases ho : v.compare? w with
  | none =>
    rw [better, ho] at h
    cases h
  | some o =>
    rw [better, ho] at h
    cases h
    refine ⟨⟨o, rfl⟩, ?_⟩
    split
    · exact .inl rfl
    · exact .inr rfl

theorem better_eq_error {fault : Fault} (h : better name keep best v = .error fault) :
    ∃ w, best = some w ∧ v.compare? w = none ∧ fault = .aggregateMisuse name
      ("cannot compare " ++ kindInFault w ++ " and " ++ kindInFault v) := by
  unfold better at h
  split at h
  · cases h
  · rename_i w
    split at h
    · cases h
    · rename_i hnone
      cases h
      exact ⟨w, rfl, hnone, rfl⟩

/-- What a value has been compared with on the way to the best one: nothing if it is the only one,
and otherwise all values are of one class, and one of them is the best. -/
inductive Compared : List Value → Option Value → Prop
  | none : Compared [] none
  | single (v : Value) : Compared [v] (some v)
  | many {c : Value.OrderClass} {xs : List Value} {best : Value} (hbest : best ∈ xs)
    (h : ∀ v ∈ xs, v.orderClass? = some c) : Compared xs (some best)

theorem Compared.step (h : Compared xs best) (hstep : better name keep best v = .ok best') :
    Compared (xs ++ [v]) best' := by
  cases h with
  | none =>
    cases hstep
    exact .single v
  | single w =>
    obtain ⟨⟨o, ho⟩, hbest⟩ := better_eq_ok hstep
    obtain ⟨c, hv, hw⟩ := Value.orderClass_of_compare? ho
    have hall : ∀ u ∈ [w] ++ [v], u.orderClass? = some c := by simp [hv, hw]
    rcases hbest with rfl | rfl
    · exact .many (by simp) hall
    · exact .many (by simp) hall
  | @many c xs w hw h =>
    obtain ⟨⟨o, ho⟩, hbest⟩ := better_eq_ok hstep
    obtain ⟨d, hv, hw'⟩ := Value.orderClass_of_compare? ho
    obtain rfl : c = d := Option.some.inj ((h w hw).symm.trans hw')
    have hall : ∀ u ∈ xs ++ [v], u.orderClass? = some c := by
      intro u hu
      rcases List.mem_append.mp hu with hold | hnew
      · exact h u hold
      · exact List.mem_singleton.mp hnew ▸ hv
    rcases hbest with rfl | rfl
    · exact .many (by simp) hall
    · exact .many (List.mem_append_left _ hw) hall

theorem compared_of_run (h : xs.foldlM (better name keep) none = .ok best) : Compared xs best := by
  refine Outcome.foldlM_induction (motive := Compared) .none ?_ h
  intro done v rest b c _ ih hstep
  exact ih.step hstep

theorem Compared.mem (h : Compared xs (some v)) : v ∈ xs := by
  cases h with
  | single v => exact List.mem_singleton_self v
  | many hbest h => exact hbest

/-- There are values of two classes, or there is a sequence or mapping that does not stand alone.
Nulls do not count. -/
def Mixed (values : List Value) : Prop :=
  (∃ v ∈ present values, ∃ w ∈ present values, ∃ c d, v.orderClass? = some c ∧
    w.orderClass? = some d ∧ c ≠ d) ∨
  2 ≤ (present values).length ∧ ∃ v ∈ present values, v.orderClass? = none

theorem Mixed.not_compared (h : Mixed values) : ¬Compared (present values) best := by
  intro hcompared
  unfold Mixed at h
  generalize present values = xs at h hcompared
  cases hcompared with
  | none => simp at h
  | single v =>
    rcases h with ⟨u, hu, w, hw, c, d, hc, hd, hne⟩ | ⟨hlength, _⟩
    · obtain rfl := List.mem_singleton.mp hu
      obtain rfl := List.mem_singleton.mp hw
      exact hne (Option.some.inj (hc.symm.trans hd))
    · simp at hlength
  | many hbest hall =>
    rcases h with ⟨u, hu, w, hw, c, d, hc, hd, hne⟩ | ⟨_, v, hv, hnone⟩
    · rw [hall u hu] at hc
      rw [hall w hw] at hd
      exact hne (Option.some.inj (hc.symm.trans hd))
    · rw [hall v hv] at hnone
      cases hnone

/-- Two present values that cannot be compared are reported, wherever they stand. -/
theorem Extremal.refuses (h : Extremal f keep op) (hmixed : Mixed values) (name : String) :
    ∃ v ∈ present values, ∃ w ∈ present values, w.compare? v = none ∧
      f.apply name values = .error (.aggregateMisuse name
        ("cannot compare " ++ kindInFault v ++ " and " ++ kindInFault w)) := by
  rw [h.apply_eq, extreme]
  cases hrun : (present values).foldlM (better name keep) none with
  | ok best => exact absurd (compared_of_run hrun) hmixed.not_compared
  | error fault =>
    obtain ⟨done, w, rest, best, hsplit, hdone, hstep⟩ := Outcome.foldlM_eq_error hrun
    obtain ⟨v, rfl, hnone, rfl⟩ := better_eq_error hstep
    have hv := (compared_of_run hdone).mem
    refine ⟨v, ?_, w, ?_, hnone, rfl⟩
    · rw [hsplit]
      exact List.mem_append_left _ hv
    · simp [hsplit]

/-- MIN and MAX. On values of one ordered kind, nulls anywhere between them, the result is the first
that is less (greater) than or equal to all, null only if there is none, and it is the same number
in every order of the values. Among values of different classes, or among others that have no order,
two that cannot be compared are reported. -/
theorem extreme_first_or_refused (h : Extremal f keep op) (name : String) (values : List Value) :
    (∀ kind, (∀ v ∈ present values, v.orderedKind? = some kind) → Chooses f name op values) ∧
    (Mixed values → ∃ v ∈ present values, ∃ w ∈ present values, w.compare? v = none ∧
      f.apply name values = .error (.aggregateMisuse name
        ("cannot compare " ++ kindInFault v ++ " and " ++ kindInFault w))) :=
  ⟨fun _ hkind => h.chooses hkind name, fun hmixed => h.refuses hmixed name⟩

/-- A null and the decimals 1.50, 1.5 and 2. -/
def equalDecimals : List Value := [
  .null,
  .decimal ((Decimal.ofParts? false 150 2).getD .zero),
  .decimal ((Decimal.ofParts? false 15 1).getD .zero),
  .decimal (.ofInt64 2)]

/-- Of equal numbers the first is returned, and a text among numbers is reported. -/
theorem extreme_first_or_refused_equalDecimals :
    AggregateFunction.min.apply "Min" equalDecimals = .ok equalDecimals[1] ∧
    (∀ others, others.Perm equalDecimals → ∃ v w,
      AggregateFunction.min.apply "Min" equalDecimals = .ok v ∧
      AggregateFunction.min.apply "Min" others = .ok w ∧ v.equals w = true) ∧
    ∃ v w : Value, w.compare? v = none ∧
      AggregateFunction.max.apply "Max" [.integer 1, .null, .text "a", .integer 2] =
        .error (.aggregateMisuse "Max"
          ("cannot compare " ++ kindInFault v ++ " and " ++ kindInFault w)) := by
  have hchooses := (extreme_first_or_refused .min "Min" equalDecimals).1 .decimal (by
    simp [equalDecimals, present, Value.isNull, Value.orderedKind?])
  refine ⟨?_, hchooses.permuted, ?_⟩
  · obtain ⟨v, hfirst, _, happly⟩ := hchooses.first (by decide)
    have hv : firstRelated? .lessOrEqual equalDecimals = some equalDecimals[1] := rfl
    obtain rfl := Option.some.inj (hv.symm.trans hfirst)
    exact happly
  · have hmixed : Mixed [.integer 1, .null, .text "a", .integer 2] :=
      .inl ⟨.integer 1, by simp [present, Value.isNull], .text "a",
        by simp [present, Value.isNull], .number, .text, rfl, rfl, by decide⟩
    obtain ⟨v, _, w, _, hnone, herror⟩ := (extreme_first_or_refused .max "Max" _).2 hmixed
    exact ⟨v, w, hnone, herror⟩

end AggregateFunction
end StreamSelect
