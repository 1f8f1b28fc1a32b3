import Mathlib.Data.List.Nodup
import Mathlib.Data.List.Pairwise
import Mathlib.Data.Set.Insert
import StreamSelect.KeyedMap

/-!
Keyed maps as sets of entries, their key sets, and look-ups that ignore the case of ASCII letters in
maps whose keys stay distinct without it.
-/
namespace StreamSelect

namespace Text

theorem sameIgnoringCase_trans {a b c : String} (hab : sameIgnoringCase a b = true)
    (hbc : sameIgnoringCase b c = true) : sameIgnoringCase a c = true := by
  simp only [sameIgnoringCase, beq_iff_eq] at *
  exact hab.trans hbc

theorem sameIgnoringCase_congr {a b : String} (h : sameIgnoringCase a b = true) (c : String) :
    sameIgnoringCase c a = sameIgnoringCase c b := by
  simp only [sameIgnoringCase, beq_iff_eq] at h
  rw [sameIgnoringCase, sameIgnoringCase, h]

/-- No two of the names are equal up to the case of ASCII letters. -/
def DistinctIgnoringCase (names : List String) : Prop :=
  names.Pairwise fun a b => sameIgnoringCase a b = false

instance (names : List String) : Decidable (DistinctIgnoringCase names) :=
  inferInstanceAs (Decidable (names.Pairwise fun a b => sameIgnoringCase a b = false))

theorem DistinctIgnoringCase.nodup {names : List String} (h : DistinctIgnoringCase names) :
    names.Nodup := by
  refine h.imp ?_
  rintro a b hab rfl
  simp [sameIgnoringCase_refl] at hab

theorem DistinctIgnoringCase.eq {names : List String} (h : DistinctIgnoringCase names)
    {a b : String} (ha : a ∈ names) (hb : b ∈ names) (hab : sameIgnoringCase a b = true) :
    a = b := by
  have hsymm : Std.Symm fun a b : String => sameIgnoringCase a b = false :=
    ⟨fun a b hab => by rwa [sameIgnoringCase_comm]⟩
  by_contra hne
  have hdiff := h.forall ha hb hne
  simp [hab] at hdiff

end Text

namespace KeyedMap
variable {α : Type}

theorem lookupEntry_eq_some_iff {es : List (String × α)} (h : (es.map Prod.fst).Nodup)
    {key : String} {value : α} : lookupEntry key es = some value ↔ (key, value) ∈ es := by
  induction es with
  | nil => simp [lookupEntry]
  | cons e rest ih =>
    obtain ⟨hfresh, hrest⟩ := List.nodup_cons.mp h
    by_cases hkey : key = e.1
    · have hnot : (key, value) ∉ rest := fun hmem =>
        hfresh (hkey ▸ List.mem_map_of_mem (f := Prod.fst) hmem)
      subst hkey
      simp only [lookupEntry, if_true, Option.some.injEq, List.mem_cons, hnot, or_false]
      exact ⟨fun hv => by rw [← hv], fun he => by rw [← he]⟩
    · have hne : (key, value) ≠ e := fun he => hkey (by rw [← he])
      simp only [lookupEntry, if_neg hkey, ih hrest, List.mem_cons, hne, false_or]

theorem mem_of_lookupEntry {es : List (String × α)} {key : String} {value : α}
    (h : lookupEntry key es = some value) : (key, value) ∈ es := by
  induction es with
  | nil => cases h
  | cons e rest ih =>
    by_cases hkey : key = e.1
    · rw [lookupEntry, if_pos hkey] at h
      exact List.mem_cons.mpr (.inl (Prod.ext hkey (Option.some.inj h).symm))
    · rw [lookupEntry, if_neg hkey] at h
      exact List.mem_cons_of_mem _ (ih h)

theorem lookupEntry_eq_none {es : List (String × α)} {key : String}
    (h : key ∉ es.map Prod.fst) : lookupEntry key es = none := by
  cases hlookup : lookupEntry key es with
  | none => rfl
  | some value => exact absurd (List.mem_map_of_mem (mem_of_lookupEntry hlookup)) h

theorem exists_lookupEntry {es : List (String × α)} {key : String} (h : key ∈ es.map Prod.fst) :
    ∃ value, lookupEntry key es = some value := by
  induction es with
  | nil => cases h
  | cons e rest ih =>
    by_cases hkey : key = e.1
    · exact ⟨e.2, if_pos hkey⟩
    · obtain ⟨value, hvalue⟩ := ih ((List.mem_cons.mp h).resolve_left hkey)
      exact ⟨value, (if_neg hkey).trans hvalue⟩

theorem keys_zip_sublist (names : List String) (values : List α) :
    ((names.zip values).map Prod.fst).Sublist names := by
  induction names generalizing values with
  | nil => simp
  | cons name names ih =>
    cases values with
    | nil => simp
    | cons v values => simpa using ih values

/-- Entries with the same keys and related values give related look-ups. -/
theorem lookupEntry_forall₂ {β : Type} {R : α → β → Prop} {es : List (String × α)}
    {fs : List (String × β)} (h : List.Forall₂ (fun e f => e.1 = f.1 ∧ R e.2 f.2) es fs)
    (key : String) : Option.Rel R (lookupEntry key es) (lookupEntry key fs) := by
  induction h with
  | nil => exact .none
  | cons he _ ih =>
    simp only [lookupEntry, ← he.1]
    split
    · exact .some he.2
    · exact ih

/-- Where keys are distinct, dropping entries by their value drops them from look-ups. -/
theorem lookupEntry_filter {es : List (String × α)} (h : (es.map Prod.fst).Nodup)
    (keep : α → Bool) (key : String) :
    lookupEntry key (es.filter fun e => keep e.2) = (lookupEntry key es).filter keep := by
  have hkept : ((es.filter fun e => keep e.2).map Prod.fst).Nodup :=
    h.sublist (List.filter_sublist.map _)
  ext value
  rw [lookupEntry_eq_some_iff hkept, List.mem_filter, Option.filter_eq_some_iff,
    lookupEntry_eq_some_iff h]

theorem nodup_keys (m : KeyedMap α) : (m.entries.map Prod.fst).Nodup :=
  m.sorted.imp String.ne_of_lt

theorem mem_entries_iff {m : KeyedMap α} {key : String} {value : α} :
    (key, value) ∈ m.entries ↔ m.get? key = some value :=
  (lookupEntry_eq_some_iff m.nodup_keys).symm

/-- The keys that the map has. -/
def keySet (m : KeyedMap α) : Set String := {k | k ∈ m.keys}

theorem mem_keySet {m : KeyedMap α} {key : String} :
    key ∈ m.keySet ↔ (m.get? key).isSome = true := by
  constructor
  · intro h
    obtain ⟨⟨_, value⟩, hmem, rfl⟩ := List.mem_map.mp h
    rw [mem_entries_iff.mp hmem]
    rfl
  · intro h
    obtain ⟨value, hvalue⟩ := Option.isSome_iff_exists.mp h
    exact List.mem_map_of_mem (f := Prod.fst) (mem_of_lookupEntry hvalue)

@[simp] theorem keySet_empty : (∅ : KeyedMap α).keySet = ∅ := by
  ext k
  simp [mem_keySet]

@[simp] theorem keySet_insert (m : KeyedMap α) (key : String) (value : α) :
    (m.insert key value).keySet = Insert.insert key m.keySet := by
  ext k
  rw [Set.mem_insert_iff, mem_keySet, mem_keySet, get?_insert]
  by_cases hk : k = key <;> simp [hk]

@[simp] theorem keySet_erase (m : KeyedMap α) (key : String) :
    (m.erase key).keySet = m.keySet \ {key} := by
  ext k
  rw [Set.mem_sdiff, Set.mem_singleton_iff, mem_keySet, mem_keySet, get?_erase]
  by_cases hk : k = key <;> simp [hk]

@[simp] theorem keySet_filterKeys (m : KeyedMap α) (keep : String → Bool) :
    (m.filterKeys keep).keySet = {k ∈ m.keySet | keep k = true} := by
  ext k
  rw [Set.mem_ofPred_eq, mem_keySet, mem_keySet, get?_filterKeys]
  by_cases hk : keep k = true <;> simp [hk]

@[simp] theorem keySet_override (m n : KeyedMap α) :
    (m.override n).keySet = m.keySet ∪ n.keySet := by
  ext k
  rw [Set.mem_union, mem_keySet, mem_keySet, mem_keySet, get?_override, Option.isSome_or,
    Bool.or_eq_true, or_comm]

/-- The key that a look-up reads: the name if it is a key, else the first key that differs from it
only in ASCII case. -/
def resolve? (m : KeyedMap α) (name : String) : Option String :=
  if m.contains name then some name
  else (m.entries.find? fun e => Text.sameIgnoringCase e.1 name).map Prod.fst

theorem sameIgnoringCase_of_resolve? {m : KeyedMap α} {name key : String}
    (h : m.resolve? name = some key) : Text.sameIgnoringCase key name = true := by
  unfold resolve? at h
  split at h
  · rw [← Option.some.inj h]
    exact Text.sameIgnoringCase_refl name
  · obtain ⟨e, hfind, rfl⟩ := Option.map_eq_some_iff.mp h
    simpa using List.find?_some hfind

theorem find?_eq_get? {m : KeyedMap α} {name key : String} (h : m.resolve? name = some key) :
    m.find? name = m.get? key := by
  unfold resolve? at h
  split at h
  · rename_i hcontains
    obtain rfl := Option.some.inj h
    obtain ⟨v, hv⟩ := Option.isSome_iff_exists.mp hcontains
    rw [find?, hv, Option.some_or]
  · rename_i hcontains
    obtain ⟨e, hfind, rfl⟩ := Option.map_eq_some_iff.mp h
    have hname : m.get? name = none := by simpa [contains] using hcontains
    have hvalue : m.get? e.1 = some e.2 := mem_entries_iff.mp (List.mem_of_find?_eq_some hfind)
    rw [find?, hname, hfind, hvalue]
    rfl

theorem get?_eq_none_of_unmatched {m : KeyedMap α} {name : String}
    (h : ∀ key ∈ m.keys, Text.sameIgnoringCase key name = false) : m.get? name = none := by
  cases hget : m.get? name with
  | none => rfl
  | some v =>
    have hsame := h name (List.mem_map_of_mem (mem_entries_iff.mpr hget))
    rw [Text.sameIgnoringCase_refl] at hsame
    cases hsame

/-- A look-up without a key up to case finds nothing. -/
theorem find?_eq_none {m : KeyedMap α} {name : String}
    (h : ∀ key ∈ m.keys, Text.sameIgnoringCase key name = false) : m.find? name = none := by
  have hentries : m.entries.find? (fun e => Text.sameIgnoringCase e.1 name) = none := by
    refine List.find?_eq_none.mpr fun e he => ?_
    simp [h e.1 (List.mem_map_of_mem he)]
  rw [find?, get?_eq_none_of_unmatched h, hentries]
  rfl

/-- Keys to which the name does not resolve may go. -/
theorem find?_filterKeys {m : KeyedMap α} {keep : String → Bool} {name : String}
    (h : ∀ key, m.resolve? name = some key → keep key = true) :
    (m.filterKeys keep).find? name = m.find? name := by
  unfold resolve? at h
  cases hget : m.get? name with
  | some v =>
    have hkeep : keep name = true := h name (by simp [contains, hget])
    rw [find?, find?, get?_filterKeys, hget, if_pos hkeep, Option.some_or, Option.some_or]
  | none =>
    have hfirst : (m.filterKeys keep).entries.find? (fun e => Text.sameIgnoringCase e.1 name) =
        m.entries.find? fun e => Text.sameIgnoringCase e.1 name := by
      rw [filterKeys, List.find?_filter]
      cases hfind : m.entries.find? (fun e => Text.sameIgnoringCase e.1 name) with
      | none =>
        refine List.find?_eq_none.mpr fun e he => ?_
        simp [List.find?_eq_none.mp hfind e he]
      | some e =>
        have hkeep : keep e.1 = true := h e.1 (by simp [contains, hget, hfind])
        obtain ⟨hsame, before, after, hsplit, hbefore⟩ := List.find?_eq_some_iff_append.mp hfind
        refine List.find?_eq_some_iff_append.mpr ⟨?_, before, after, hsplit, fun x hx => ?_⟩
        · simp [hkeep, hsame]
        · have hdiffers : Text.sameIgnoringCase x.1 name = false := by simpa using hbefore x hx
          simp [hdiffers]
    rw [find?, find?, get?_filterKeys, hget, hfirst, ite_self]

/-- Where a key has no match up to case, an entry under it is seen by the names that match it, and
by no others. -/
theorem find?_insert_of_unmatched {m : KeyedMap α} {key : String} (value : α)
    (h : ∀ k ∈ m.keys, Text.sameIgnoringCase k key = false) (name : String) :
    (m.insert key value).find? name = m.find? name ∨
      (m.insert key value).find? name = some value ∧ m.find? name = none := by
  have herase : (m.insert key value).filterKeys (· ≠ key) = m := by
    refine ext_get? fun k => ?_
    by_cases hk : k = key
    · simp [hk, get?_eq_none_of_unmatched h]
    · simp [hk]
  by_cases hresolve : (m.insert key value).resolve? name = some key
  · have hname := sameIgnoringCase_of_resolve? hresolve
    refine .inr ⟨?_, find?_eq_none fun k hk => ?_⟩
    · rw [find?_eq_get? hresolve, get?_insert, if_pos rfl]
    · rw [← Text.sameIgnoringCase_congr hname, h k hk]
  · have hkept : ∀ k, (m.insert key value).resolve? name = some k → decide (k ≠ key) = true := by
      rintro k hk
      refine decide_eq_true ?_
      rintro rfl
      exact hresolve hk
    refine .inl ?_
    rw [← find?_filterKeys hkept, herase]

theorem get?_ofList_eq_some_iff {es : List (String × α)} (h : (es.map Prod.fst).Nodup)
    {key : String} {value : α} : (ofList es).get? key = some value ↔ (key, value) ∈ es := by
  have hreverse : (es.reverse.map Prod.fst).Nodup := by
    rw [List.map_reverse]
    exact List.nodup_reverse.mpr h
  rw [get?_ofList, lookupEntry_eq_some_iff hreverse, List.mem_reverse]

/-- Of entries with distinct keys any order gives the same map. -/
theorem get?_ofList_of_nodup {es : List (String × α)} (h : (es.map Prod.fst).Nodup)
    (key : String) : (ofList es).get? key = lookupEntry key es := by
  ext value
  rw [get?_ofList_eq_some_iff h, lookupEntry_eq_some_iff h]

private theorem find?_of_unique {β : Type} {l : List β} {p : β → Bool} {b : β} (hb : b ∈ l)
    (hp : p b = true) (hunique : ∀ x ∈ l, p x = true → x = b) : l.find? p = some b := by
  cases hfind : l.find? p with
  | none => simp [List.find?_eq_none.mp hfind b hb] at hp
  | some x => rw [hunique x (List.mem_of_find?_eq_some hfind) (List.find?_some hfind)]

/-- Where keys are distinct without their case, a look-up finds the one entry whose key is the
name up to case. -/
theorem find?_ofList {es : List (String × α)}
    (h : Text.DistinctIgnoringCase (es.map Prod.fst)) (name : String) :
    (ofList es).find? name =
      (es.find? fun e => Text.sameIgnoringCase e.1 name).map Prod.snd := by
  have hmem : ∀ e : String × α, e ∈ (ofList es).entries ↔ e ∈ es := by
    rintro ⟨key, value⟩
    rw [mem_entries_iff, get?_ofList_eq_some_iff h.nodup]
  have hunique : ∀ e ∈ es, ∀ e' ∈ es, Text.sameIgnoringCase e.1 name = true →
      Text.sameIgnoringCase e'.1 name = true → e' = e := by
    intro e he e' he' hs hs'
    have hkey : e'.1 = e.1 := h.eq (List.mem_map_of_mem he') (List.mem_map_of_mem he)
      (Text.sameIgnoringCase_trans hs' ((Text.sameIgnoringCase_comm _ _).trans hs))
    have hvalue := (lookupEntry_eq_some_iff h.nodup).mpr (show (e.1, e.2) ∈ es from he)
    have hvalue' := (lookupEntry_eq_some_iff h.nodup).mpr (show (e'.1, e'.2) ∈ es from he')
    rw [hkey, hvalue] at hvalue'
    exact Prod.ext hkey (Option.some.inj hvalue').symm
  cases hfind : es.find? (fun e => Text.sameIgnoringCase e.1 name) with
  | none =>
    have hnone := List.find?_eq_none.mp hfind
    have hget : (ofList es).get? name = none := by
      cases hg : (ofList es).get? name with
      | none => rfl
      | some value =>
        have hin := (get?_ofList_eq_some_iff h.nodup).mp hg
        exact absurd (Text.sameIgnoringCase_refl name) (hnone _ hin)
    have hentries : (ofList es).entries.find? (fun e => Text.sameIgnoringCase e.1 name) = none :=
      List.find?_eq_none.mpr fun e he => hnone e ((hmem e).mp he)
    rw [find?, hget, hentries]
    rfl
  | some e =>
    have he := List.mem_of_find?_eq_some hfind
    have hs : Text.sameIgnoringCase e.1 name = true := by simpa using List.find?_some hfind
    have hentries := find?_of_unique (p := fun e => Text.sameIgnoringCase e.1 name)
      ((hmem e).mpr he) hs fun e' he' hs' => hunique e he e' ((hmem e').mp he') hs hs'
    rw [find?, hentries]
    cases hg : (ofList es).get? name with
    | none => rfl
    | some value =>
      have hin := (get?_ofList_eq_some_iff h.nodup).mp hg
      rw [hunique _ hin e he (Text.sameIgnoringCase_refl name) hs]
      rfl

end KeyedMap
end StreamSelect
