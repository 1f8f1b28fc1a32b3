import StreamSelect.Function.Aggregate
import StreamSelect.Proofs.Value.Same

/-!
Removal of duplicates. The mode that collects all rows looks at the keys that it has kept, and the
mode for the latest row at all earlier keys. Both come to the same: a key that matches a repeated
key matches the first one as well, and what is not null matches no null.
-/
namespace StreamSelect.AggregateFunction
variable {seen : List Value} {earlier rest rows : List (Value × FieldMap)} {key : Value}
  {fields : FieldMap}

/-- The key is not null and differs from the keys of all earlier rows. -/
def NewAfter (earlier : List (Value × FieldMap)) (key : Value) : Prop :=
  key.isNull = false ∧ ∀ row ∈ earlier, row.1.same key = false

instance : Decidable (NewAfter earlier key) := inferInstanceAs (Decidable (_ ∧ _))

theorem newAfter_iff_any :
    NewAfter earlier key ↔ (key.isNull || earlier.any (·.1.same key)) = false := by
  simp [NewAfter]

/-- The rows whose keys are new, in order. -/
def newRows (rows : List (Value × FieldMap)) : List (Value × FieldMap) :=
  (rows.zipIdx.filter fun row => NewAfter (rows.take row.2) row.1.1).map Prod.fst

/-- A further row changes nothing about the rows in front of it. -/
theorem newRows_concat (earlier : List (Value × FieldMap)) (row : Value × FieldMap) :
    newRows (earlier ++ [row]) =
      newRows earlier ++ if NewAfter earlier row.1 then [row] else [] := by
  have hearlier : (earlier.zipIdx.filter fun other =>
      NewAfter ((earlier ++ [row]).take other.2) other.1.1) =
        earlier.zipIdx.filter fun other => NewAfter (earlier.take other.2) other.1.1 := by
    refine List.filter_congr fun other hother => ?_
    have hlt : other.2 < earlier.length := by
      have hat := List.mem_zipIdx_iff_getElem?.mp hother
      exact (List.getElem?_eq_some_iff.mp hat).1
    rw [List.take_append_of_le_length hlt.le]
  rw [newRows, List.zipIdx_append, List.filter_append, List.map_append, hearlier]
  congr 1
  by_cases hnew : NewAfter earlier row.1 <;> simp [hnew]

/-- The keys seen match what the keys of the earlier rows match, nulls apart. -/
def Seen (seen : List Value) (earlier : List (Value × FieldMap)) : Prop :=
  ∀ key : Value, key.isNull = false →
    ((∃ old ∈ seen, old.same key = true) ↔ ∃ row ∈ earlier, row.1.same key = true)

namespace Seen

theorem empty : Seen [] [] := by
  intro key _
  simp

theorem newAfter_iff (h : Seen seen earlier) (key : Value) :
    NewAfter earlier key ↔ (key.isNull || seen.any (·.same key)) = false := by
  rw [NewAfter, Bool.or_eq_false_iff, List.any_eq_false]
  refine and_congr_right fun hkey => ?_
  have hmatch := not_congr (h key hkey)
  push Not at hmatch
  simpa only [Bool.not_eq_true] using hmatch.symm

/-- A key that is stored matches what its row matches. -/
theorem store (h : Seen seen earlier) (key : Value) (fields : FieldMap) :
    Seen (seen ++ [key]) (earlier ++ [(key, fields)]) := by
  intro other hother
  simp only [List.mem_append, List.mem_singleton, or_and_right, exists_or, exists_eq_left,
    h other hother]

/-- A row whose key is not new matches nothing but what is matched already. -/
theorem skip (h : Seen seen earlier) (hkey : ¬NewAfter earlier key) (fields : FieldMap) :
    Seen seen (earlier ++ [(key, fields)]) := by
  intro other hother
  rw [h other hother]
  simp only [List.mem_append, List.mem_singleton, or_and_right, exists_or, exists_eq_left]
  refine (or_iff_left_of_imp fun hsame => ?_).symm
  have hpresent : key.isNull = false := by
    cases key with
    | null =>
      cases other with
      | null => cases hother
      | _ => cases hsame
    | _ => rfl
  obtain ⟨row, hrow, hold⟩ : ∃ row ∈ earlier, row.1.same key = true := by
    simpa [NewAfter, hpresent] using hkey
  exact ⟨row, hrow, Value.same_trans hold hsame⟩

end Seen

theorem firstPerKey_of_new (h : Seen seen earlier) (hkey : NewAfter earlier key) :
    firstPerKey seen ((key, fields) :: rest) = fields :: firstPerKey (seen ++ [key]) rest := by
  rw [firstPerKey, (h.newAfter_iff key).mp hkey]
  rfl

theorem firstPerKey_of_not_new (h : Seen seen earlier) (hkey : ¬NewAfter earlier key) :
    firstPerKey seen ((key, fields) :: rest) = firstPerKey seen rest := by
  rw [h.newAfter_iff, Bool.not_eq_false] at hkey
  rw [firstPerKey, if_pos hkey]

/-- The last row is collected exactly if its key is new. -/
theorem firstPerKey_concat (h : Seen seen earlier) (rest : List (Value × FieldMap))
    (row : Value × FieldMap) : firstPerKey seen (rest ++ [row]) =
      firstPerKey seen rest ++ if NewAfter (earlier ++ rest) row.1 then [row.2] else [] := by
  induction rest generalizing seen earlier with
  | nil =>
    rw [List.append_nil, List.nil_append]
    by_cases hkey : NewAfter earlier row.1
    · rw [if_pos hkey]
      exact firstPerKey_of_new h hkey
    · rw [if_neg hkey]
      exact firstPerKey_of_not_new h hkey
  | cons first rest ih =>
    obtain ⟨key, fields⟩ := first
    have hrows : earlier ++ (key, fields) :: rest = earlier ++ [(key, fields)] ++ rest := by simp
    rw [hrows, List.cons_append]
    by_cases hkey : NewAfter earlier key
    · rw [firstPerKey_of_new h hkey, firstPerKey_of_new h hkey, ih (h.store key fields),
        List.cons_append]
    · rw [firstPerKey_of_not_new h hkey, firstPerKey_of_not_new h hkey,
        ih (h.skip hkey fields)]

theorem latestIfNew_concat (earlier : List (Value × FieldMap)) (row : Value × FieldMap) :
    latestIfNew (earlier ++ [row]) = if NewAfter earlier row.1 then some row.2 else none := by
  simp only [latestIfNew, List.getLast?_concat, List.dropLast_concat]
  by_cases hkey : NewAfter earlier row.1
  · rw [if_pos hkey, newAfter_iff_any.mp hkey]
    rfl
  · rw [if_neg hkey]
    rw [newAfter_iff_any, Bool.not_eq_false] at hkey
    rw [if_pos hkey]

/-- The rows that are collected are those whose keys are new. -/
theorem firstPerKey_eq (rows : List (Value × FieldMap)) :
    firstPerKey [] rows = (newRows rows).map Prod.snd := by
  induction rows using List.reverseRecOn with
  | nil => rfl
  | append_singleton earlier row ih =>
    rw [firstPerKey_concat .empty, newRows_concat, List.map_append, ih, List.nil_append]
    split <;> rfl

/-- The latest new rows of the prefixes, one after the other, are the rows that are collected. -/
theorem filterMap_latestIfNew (rows : List (Value × FieldMap)) :
    rows.inits.tail.filterMap latestIfNew = firstPerKey [] rows := by
  induction rows using List.reverseRecOn with
  | nil => rfl
  | append_singleton earlier row ih =>
    have hinits : (earlier ++ [row]).inits.tail = earlier.inits.tail ++ [earlier ++ [row]] := by
      have hempty : [] ∈ earlier.inits := (List.mem_inits _ _).mpr List.nil_prefix
      rw [List.inits_append, List.tail_append_of_ne_nil (List.ne_nil_of_mem hempty)]
      rfl
    rw [hinits, List.filterMap_append, ih, firstPerKey_concat .empty, List.nil_append]
    congr 1
    rw [List.filterMap_cons, latestIfNew_concat]
    split_ifs <;> rfl

theorem deduplicated_all (rows : List (Value × FieldMap)) :
    deduplicated rows true = .array ((firstPerKey [] rows).map Value.ofFields) := rfl

theorem deduplicated_latest (rows : List (Value × FieldMap)) :
    deduplicated rows false = ((latestIfNew rows).map Value.ofFields).getD .null := rfl

/-- Among the results for some lists only those for latest rows that are new are not null. -/
theorem filter_latest (lists : List (List (Value × FieldMap))) :
    (lists.map (deduplicated · false)).filter (!·.isNull) =
      (lists.filterMap latestIfNew).map Value.ofFields := by
  induction lists with
  | nil => rfl
  | cons rows lists ih =>
    rw [List.map_cons, List.filterMap_cons, deduplicated_latest]
    cases latestIfNew rows with
    | none => exact ih
    | some fields => exact congrArg (Value.ofFields fields :: ·) ih

/-- Removal of duplicates keeps the first row for each key. Of all rows those come out, in order,
whose key is not null and differs from all keys before it, be they nested values or decimals of
other scales. The latest row comes out if it is one of these, and else null. So the rows that come
out of the prefixes one after the other, nulls left away, are those that come out of all rows. -/
theorem deduplicated_modes_agree (rows : List (Value × FieldMap)) :
    deduplicated rows true = .array ((newRows rows).map fun row => .ofFields row.2) ∧
    deduplicated [] false = .null ∧
    (∀ earlier row, deduplicated (earlier ++ [row]) false =
      if NewAfter earlier row.1 then .ofFields row.2 else .null) ∧
    .array ((rows.inits.tail.map (deduplicated · false)).filter (!·.isNull)) =
      deduplicated rows true := by
  refine ⟨?_, rfl, ?_, ?_⟩
  · rw [deduplicated_all, firstPerKey_eq, List.map_map]
    rfl
  · intro earlier row
    rw [deduplicated_latest, latestIfNew_concat]
    split_ifs <;> rfl
  · rw [filter_latest, filterMap_latestIfNew, deduplicated_all]

/-- An array repeats another one if its decimals have other scales only, and a null is no key. -/
example : (newRows [(.array [.decimal ⟨false, 15, 1, by decide, by decide⟩], ∅), (.null, ∅),
    (.array [.decimal ⟨false, 150, 2, by decide, by decide⟩], ∅), (.text "1.5", ∅)]).map Prod.fst =
      [.array [.decimal ⟨false, 15, 1, by decide, by decide⟩], .text "1.5"] := rfl

end StreamSelect.AggregateFunction
