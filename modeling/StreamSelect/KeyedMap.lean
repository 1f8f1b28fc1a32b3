import StreamSelect.Text.Case

/-!
Finite maps from texts, kept as entries in strictly increasing key order. Two maps with the same
lookups are equal (`KeyedMap.ext_get?`), and every operation is described by what it does to a
lookup.
-/
namespace StreamSelect

/-- Entries with strictly increasing keys. -/
structure KeyedMap (α : Type) where
  entries : List (String × α)
  sorted : (entries.map Prod.fst).Pairwise (· < ·) := by simp

namespace KeyedMap

variable {α : Type}

private theorem lt_of_not_lt_of_ne {a b : String} (h : ¬a < b) (hne : a ≠ b) : b < a := by
  rcases Decidable.em (b < a) with hlt | hlt
  · exact hlt
  · exact absurd (String.le_antisymm (String.not_lt.1 hlt) (String.not_lt.1 h)) hne

/-- The value of the first entry with this key. -/
def lookupEntry (key : String) : List (String × α) → Option α
  | [] => none
  | e :: rest => if key = e.1 then some e.2 else lookupEntry key rest

/-- Puts an entry at its place in key order, over an entry of the same key. -/
def insertEntry (key : String) (value : α) : List (String × α) → List (String × α)
  | [] => [(key, value)]
  | e :: rest =>
    if key < e.1 then (key, value) :: e :: rest
    else if key = e.1 then (key, value) :: rest
    else e :: insertEntry key value rest

theorem mem_keys_insertEntry {key : String} {value : α} {es : List (String × α)} {k : String}
    (h : k ∈ (insertEntry key value es).map Prod.fst) : k = key ∨ k ∈ es.map Prod.fst := by
  induction es with
  | nil => simpa [insertEntry] using h
  | cons e rest ih =>
    simp only [insertEntry] at h
    split at h
    · simpa using h
    · split at h
      · rename_i heq
        simp only [List.map_cons, List.mem_cons] at h ⊢
        rcases h with h | h
        · exact .inl h
        · exact .inr (.inr h)
      · simp only [List.map_cons, List.mem_cons] at h ⊢
        rcases h with h | h
        · exact .inr (.inl h)
        · rcases ih h with h | h
          · exact .inl h
          · exact .inr (.inr h)

theorem insertEntry_sorted {key : String} {value : α} {es : List (String × α)}
    (h : (es.map Prod.fst).Pairwise (· < ·)) :
    ((insertEntry key value es).map Prod.fst).Pairwise (· < ·) := by
  induction es with
  | nil => simp [insertEntry]
  | cons e rest ih =>
    simp only [List.map_cons, List.pairwise_cons] at h
    simp only [insertEntry]
    split
    · rename_i hlt
      simp only [List.map_cons, List.pairwise_cons, List.mem_cons]
      refine ⟨?_, h.1, h.2⟩
      rintro k (rfl | hk)
      · exact hlt
      · exact String.lt_trans hlt (h.1 k hk)
    · split
      · rename_i heq
        subst heq
        simp only [List.map_cons, List.pairwise_cons]
        exact h
      · rename_i hlt hne
        simp only [List.map_cons, List.pairwise_cons]
        refine ⟨fun k hk => ?_, ih h.2⟩
        rcases mem_keys_insertEntry hk with rfl | hk
        · exact lt_of_not_lt_of_ne hlt hne
        · exact h.1 k hk

def empty : KeyedMap α := { entries := [] }

instance : EmptyCollection (KeyedMap α) := ⟨empty⟩
instance : Inhabited (KeyedMap α) := ⟨empty⟩

def get? (m : KeyedMap α) (key : String) : Option α := lookupEntry key m.entries

def contains (m : KeyedMap α) (key : String) : Bool := (m.get? key).isSome

def isEmpty (m : KeyedMap α) : Bool := m.entries.isEmpty

def size (m : KeyedMap α) : Nat := m.entries.length

def keys (m : KeyedMap α) : List String := m.entries.map Prod.fst

/-- The map with `key` at `value`. -/
def insert (m : KeyedMap α) (key : String) (value : α) : KeyedMap α :=
  ⟨insertEntry key value m.entries, insertEntry_sorted m.sorted⟩

/-- The part of the map whose keys pass the test. -/
def filterKeys (m : KeyedMap α) (keep : String → Bool) : KeyedMap α :=
  ⟨m.entries.filter (fun e => keep e.1),
    List.Pairwise.sublist (List.Sublist.map Prod.fst List.filter_sublist) m.sorted⟩

def erase (m : KeyedMap α) (key : String) : KeyedMap α := m.filterKeys (· ≠ key)

/-- The entries put in one after the other; of two with the same key the later one stays. -/
def ofList (entries : List (String × α)) : KeyedMap α :=
  entries.foldl (fun m e => m.insert e.1 e.2) ∅

/-- The map `m` overwritten by the entries of `n`. -/
def override (m n : KeyedMap α) : KeyedMap α :=
  n.entries.foldl (fun m e => m.insert e.1 e.2) m

/-- Looks a key up as it is spelt, else the first key that differs only in ASCII case. -/
def find? (m : KeyedMap α) (key : String) : Option α :=
  (m.get? key).or ((m.entries.find? fun e => Text.sameIgnoringCase e.1 key).map Prod.snd)

@[ext] theorem ext_entries {m n : KeyedMap α} (h : m.entries = n.entries) : m = n := by
  cases m; cases n; simp_all

@[simp] theorem get?_empty (key : String) : (∅ : KeyedMap α).get? key = none := rfl

theorem lookup_insertEntry {key k : String} {value : α} {es : List (String × α)} :
    lookupEntry k (insertEntry key value es) =
      if k = key then some value else lookupEntry k es := by
  induction es with
  | nil => rfl
  | cons e rest ih =>
    simp only [insertEntry]
    split
    · rfl
    · split
      · rename_i heq
        by_cases h : k = key <;> simp [lookupEntry, ← heq, h]
      · rename_i hne
        by_cases h : k = e.1
        · have : k ≠ key := fun hk => hne (hk.symm.trans h)
          simp [lookupEntry, h, Ne.symm hne]
        · simp [lookupEntry, h, ih]

@[simp] theorem get?_insert (m : KeyedMap α) (key : String) (value : α) (k : String) :
    (m.insert key value).get? k = if k = key then some value else m.get? k :=
  lookup_insertEntry

private theorem lookup_filter {keep : String → Bool} {k : String} {es : List (String × α)} :
    lookupEntry k (es.filter fun e => keep e.1) =
      if keep k then lookupEntry k es else none := by
  induction es with
  | nil => simp [lookupEntry]
  | cons e rest ih =>
    by_cases hk : k = e.1
    · subst hk
      by_cases hkeep : keep e.1 = true <;> simp [lookupEntry, hkeep, ih]
    · by_cases hkeep : keep e.1 = true <;> simp [lookupEntry, hkeep, hk, ih]

@[simp] theorem get?_filterKeys (m : KeyedMap α) (keep : String → Bool) (k : String) :
    (m.filterKeys keep).get? k = if keep k then m.get? k else none :=
  lookup_filter

@[simp] theorem get?_erase (m : KeyedMap α) (key k : String) :
    (m.erase key).get? k = if k = key then none else m.get? k := by
  simp only [erase, get?_filterKeys, ne_eq, decide_not, Bool.not_eq_true', decide_eq_false_iff_not]
  by_cases h : k = key <;> simp [h]

private theorem lookup_eq_none_of_lt {k : String} {es : List (String × α)}
    (h : ∀ x ∈ es.map Prod.fst, k < x) : lookupEntry k es = none := by
  induction es with
  | nil => rfl
  | cons e rest ih =>
    simp only [List.map_cons, List.mem_cons, forall_eq_or_imp] at h
    have hne : k ≠ e.1 := fun he => String.lt_irrefl e.1 (he ▸ h.1)
    rw [lookupEntry, if_neg hne, ih h.2]

private theorem entries_eq_of_lookup {es fs : List (String × α)}
    (he : (es.map Prod.fst).Pairwise (· < ·)) (hf : (fs.map Prod.fst).Pairwise (· < ·))
    (h : ∀ k, lookupEntry k es = lookupEntry k fs) : es = fs := by
  induction es generalizing fs with
  | nil =>
    cases fs with
    | nil => rfl
    | cons f fs => simpa [lookupEntry] using h f.1
  | cons e es ih =>
    cases fs with
    | nil => simpa [lookupEntry] using h e.1
    | cons f fs =>
      simp only [List.map_cons, List.pairwise_cons] at he hf
      have hkey : e.1 = f.1 := by
        rcases Decidable.em (e.1 = f.1) with heq | hne
        · exact heq
        · exfalso
          rcases Decidable.em (e.1 < f.1) with hlt | hlt
          · have hnone : lookupEntry e.1 fs = none :=
              lookup_eq_none_of_lt fun x hx => String.lt_trans hlt (hf.1 x hx)
            simpa [lookupEntry, hne, hnone] using h e.1
          · have hnone : lookupEntry f.1 es = none :=
              lookup_eq_none_of_lt fun x hx =>
                String.lt_trans (lt_of_not_lt_of_ne hlt hne) (he.1 x hx)
            simpa [lookupEntry, Ne.symm hne, hnone] using h f.1
      have hval : e.2 = f.2 := by simpa [lookupEntry, hkey] using h e.1
      have htail : es = fs := by
        refine ih he.2 hf.2 fun k => ?_
        rcases Decidable.em (k = e.1) with heq | hne
        · rw [heq, lookup_eq_none_of_lt he.1, hkey, lookup_eq_none_of_lt hf.1]
        · have hne' : k ≠ f.1 := fun hk => hne (hk.trans hkey.symm)
          simpa [lookupEntry, hne, hne'] using h k
      rw [htail, Prod.ext hkey hval]

/-- A map is determined by its lookups. -/
theorem ext_get? {m n : KeyedMap α} (h : ∀ k, m.get? k = n.get? k) : m = n :=
  ext_entries (entries_eq_of_lookup m.sorted n.sorted h)

theorem lookupEntry_append (es fs : List (String × α)) (k : String) :
    lookupEntry k (es ++ fs) = (lookupEntry k es).or (lookupEntry k fs) := by
  induction es with
  | nil => rfl
  | cons e rest ih => by_cases h : k = e.1 <;> simp [lookupEntry, h, ih]

private theorem get?_foldl_insert (es : List (String × α)) (m : KeyedMap α) (k : String) :
    (es.foldl (fun m e => m.insert e.1 e.2) m).get? k =
      (lookupEntry k es.reverse).or (m.get? k) := by
  induction es generalizing m with
  | nil => rfl
  | cons e rest ih =>
    simp only [List.foldl_cons, ih, get?_insert, List.reverse_cons, lookupEntry_append]
    cases hl : lookupEntry k rest.reverse with
    | some v => rfl
    | none => by_cases h : k = e.1 <;> simp [lookupEntry, h]

/-- Of the entries with one key the last is kept. -/
theorem get?_ofList (es : List (String × α)) (k : String) :
    (ofList es).get? k = lookupEntry k es.reverse := by
  simp [ofList, get?_foldl_insert]

private theorem lookup_reverse {es : List (String × α)} (k : String)
    (h : (es.map Prod.fst).Pairwise (· < ·)) :
    lookupEntry k es.reverse = lookupEntry k es := by
  induction es with
  | nil => rfl
  | cons e rest ih =>
    simp only [List.map_cons, List.pairwise_cons] at h
    rw [List.reverse_cons, lookupEntry_append, ih h.2]
    by_cases hk : k = e.1
    · simp [hk, lookup_eq_none_of_lt h.1, lookupEntry]
    · simp [lookupEntry, hk]

/-- Overwriting keeps an old value only where there is no new one. -/
@[simp] theorem get?_override (m n : KeyedMap α) (k : String) :
    (m.override n).get? k = (n.get? k).or (m.get? k) := by
  rw [override, get?_foldl_insert, lookup_reverse k n.sorted]
  rfl

end KeyedMap
end StreamSelect
