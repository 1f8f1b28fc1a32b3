import Mathlib.Data.List.Induction
import StreamSelect.Proofs.Plan.Layout
import StreamSelect.Proofs.Project.Positional

/-!
One name in a tuple, found in three ways: by the layout of a plan over the schema, by a look-up in
the tuple, and by a look-up in the event of the named values. A layout compares names as they are
spelt and takes the last column of a name. The tuple takes the first column and both look-ups fall
back to names up to case, so the three agree only where that makes no difference.
-/
namespace StreamSelect

/-- The first position of a name. -/
structure FirstAt (names : List String) (name : String) (p : Nat) : Prop where
  here : names[p]? = some name
  least : ∀ q, names[q]? = some name → p ≤ q

/-- The last position of a name. -/
structure LastAt (names : List String) (name : String) (p : Nat) : Prop where
  here : names[p]? = some name
  greatest : ∀ q, names[q]? = some name → q ≤ p

/-- At most one of the names is the given one up to the case of ASCII letters. -/
def MatchedOnce (names : List String) (name : String) : Prop :=
  names.countP (Text.sameIgnoringCase · name) ≤ 1

instance (names : List String) (name : String) : Decidable (MatchedOnce names name) :=
  inferInstanceAs (Decidable (_ ≤ _))

theorem MatchedOnce.eq {names : List String} {name a b : String} (h : MatchedOnce names name)
    {p q : Nat} (ha : names[p]? = some a) (hb : names[q]? = some b)
    (hsa : Text.sameIgnoringCase a name = true) (hsb : Text.sameIgnoringCase b name = true) :
    p = q := by
  unfold MatchedOnce at h
  induction names generalizing p q with
  | nil => simp at ha
  | cons column names ih =>
    have hlater : ∀ {r : Nat} {c : String}, names[r]? = some c →
        Text.sameIgnoringCase c name = true → 0 < names.countP (Text.sameIgnoringCase · name) :=
      fun hr hc => List.countP_pos_iff.mpr ⟨_, List.mem_of_getElem? hr, hc⟩
    rw [List.countP_cons] at h
    cases p with
    | zero =>
      cases q with
      | zero => rfl
      | succ q =>
        have hcolumn : column = a := by simpa using ha
        have hpos := hlater (r := q) (by simpa using hb) hsb
        rw [hcolumn, if_pos hsa] at h
        omega
    | succ p =>
      cases q with
      | zero =>
        have hcolumn : column = b := by simpa using hb
        have hpos := hlater (r := p) (by simpa using ha) hsa
        rw [hcolumn, if_pos hsb] at h
        omega
      | succ q => exact congrArg (· + 1) (ih (by omega) (by simpa using ha) (by simpa using hb))

theorem schemaPosition?_concat (schema : List String) (column name : String) :
    schemaPosition? (schema ++ [column]) name =
      if name = column then some schema.length else schemaPosition? schema name := by
  rw [schemaPosition?, List.zipIdx_append, List.reverse_append]
  simp [schemaPosition?, KeyedMap.lookupEntry]

theorem schemaPosition?_eq_none_iff {schema : List String} {name : String} :
    schemaPosition? schema name = none ↔ name ∉ schema := by
  induction schema using List.reverseRecOn with
  | nil => simp [schemaPosition?, KeyedMap.lookupEntry]
  | append_singleton schema column ih =>
    rw [schemaPosition?_concat]
    by_cases hname : name = column <;> simp [hname, ih]

theorem lastAt_of_schemaPosition? {schema : List String} {name : String} {p : Nat}
    (h : schemaPosition? schema name = some p) : LastAt schema name p := by
  -- from the end of the schema: the column put last wins over all before it
  induction schema using List.reverseRecOn with
  | nil => cases h
  | append_singleton schema column ih =>
    rw [schemaPosition?_concat] at h
    split at h
    · rename_i hname
      subst hname
      obtain rfl := Option.some.inj h
      refine ⟨by simp, fun q hq => ?_⟩
      have hlt := (List.getElem?_eq_some_iff.mp hq).1
      simp only [List.length_append, List.length_cons, List.length_nil] at hlt
      omega
    · rename_i hname
      obtain ⟨hhere, hgreatest⟩ := ih h
      have hlt := (List.getElem?_eq_some_iff.mp hhere).1
      refine ⟨by rw [List.getElem?_append_left hlt, hhere], fun q hq => ?_⟩
      by_cases hq' : q < schema.length
      · exact hgreatest q (by rwa [List.getElem?_append_left hq'] at hq)
      · rw [List.getElem?_append_right (by omega), List.getElem?_singleton] at hq
        split at hq
        · exact absurd (Option.some.inj hq).symm hname
        · cases hq

namespace Tuple
variable {t : Tuple} {name : String}

/-- Of columns with one name the last stays in the event. -/
theorem get?_toEvent (hwidth : t.values.length = t.schema.length) (name : String) :
    t.toEvent.fields.get? name = (schemaPosition? t.schema name).bind (t.values[·]?) := by
  obtain ⟨_, schema, values⟩ := t
  dsimp only [toEvent] at hwidth ⊢
  rw [KeyedMap.get?_ofList]
  induction schema using List.reverseRecOn generalizing values with
  | nil => rfl
  | append_singleton schema column ih =>
    obtain rfl | ⟨before, v, rfl⟩ := List.eq_nil_or_concat values
    · simp at hwidth
    · have hbefore : before.length = schema.length := by simpa using hwidth
      rw [List.concat_eq_append, List.zip_append hbefore.symm, List.reverse_append,
        schemaPosition?_concat]
      by_cases hname : name = column
      · simp [KeyedMap.lookupEntry, hname, ← hbefore]
      · have hlookup : KeyedMap.lookupEntry name (([column].zip [v]).reverse ++
            (schema.zip before).reverse) = KeyedMap.lookupEntry name (schema.zip before).reverse :=
          if_neg hname
        rw [hlookup, if_neg hname, ih before hbefore]
        cases hposition : schemaPosition? schema name with
        | none => rfl
        | some p =>
          have hlt := (List.getElem?_eq_some_iff.mp (lastAt_of_schemaPosition? hposition).here).1
          exact (List.getElem?_append_left (hbefore ▸ hlt)).symm

theorem mem_schema_of_mem_keys (hwidth : t.values.length = t.schema.length)
    (h : name ∈ t.toEvent.fields.keys) : name ∈ t.schema := by
  by_contra hname
  have hsome := KeyedMap.mem_keySet.mp h
  rw [get?_toEvent hwidth, schemaPosition?_eq_none_iff.mpr hname] at hsome
  cases hsome

/-- What the three ways find under a name: the layout, a look-up in the tuple, and a look-up in the
event. -/
inductive Resolves (t : Tuple) (name : String) : Option Value → Option Value → Option Value → Prop
  /-- The first and the last column of the name may differ. -/
  | spelt {first last : Nat} (hfirst : FirstAt t.schema name first)
      (hlast : LastAt t.schema name last) :
    Resolves t name t.values[last]? t.values[first]? t.values[last]?
  /-- A layout does not see a column whose name differs in case. -/
  | cased {column : String} {p : Nat} (hname : name ∉ t.schema) (hp : t.schema[p]? = some column)
      (hsame : Text.sameIgnoringCase column name = true) :
    Resolves t name none t.values[p]? t.values[p]?
  | unmatched (h : ∀ column ∈ t.schema, Text.sameIgnoringCase column name = false) :
    Resolves t name none none none

/-- A name that is in the schema as it is spelt. -/
theorem resolves_of_mem (hwidth : t.values.length = t.schema.length) (hname : name ∈ t.schema) :
    t.Resolves name ((schemaPosition? t.schema name).bind (t.values[·]?)) (t.field? name)
      (t.toEvent.field? name) := by
  obtain ⟨last, hposition⟩ := Option.ne_none_iff_exists'.mp
    (mt schemaPosition?_eq_none_iff.mp (not_not.mpr hname))
  have hlast := lastAt_of_schemaPosition? hposition
  have hlt : last < t.values.length := hwidth ▸ (List.getElem?_eq_some_iff.mp hlast.here).1
  have hvalue : t.values[last]? = some t.values[last] := List.getElem?_eq_getElem hlt
  have hnamed : t.toEvent.field? name = t.values[last]? := by
    rw [Event.field?, KeyedMap.find?, get?_toEvent hwidth, hposition, Option.bind_some, hvalue,
      Option.some_or]
  obtain ⟨first, hfind⟩ : ∃ first, t.schema.findIdx? (· == name) = some first := by
    refine Option.ne_none_iff_exists'.mp fun hnone => ?_
    simpa using List.findIdx?_eq_none_iff.mp hnone name hname
  obtain ⟨hfirst, hequal, hleast⟩ := List.findIdx?_eq_some_iff_getElem.mp hfind
  have hfirstAt : FirstAt t.schema name first := by
    refine ⟨List.getElem?_eq_some_iff.mpr ⟨hfirst, by simpa using hequal⟩, fun q hq => ?_⟩
    obtain ⟨hqlt, hqname⟩ := List.getElem?_eq_some_iff.mp hq
    by_contra hlt
    exact hleast q (by omega) (by simpa using hqname)
  have hfield : t.field? name = t.values[first]? := by
    rw [field?, position?, hfind, Option.some_or, Option.bind_some]
  rw [hnamed, hfield, hposition, Option.bind_some]
  exact .spelt hfirstAt hlast

/-- The only column that matches the name up to case is read where it stands. -/
theorem get?_toEvent_of_matched (hwidth : t.values.length = t.schema.length)
    (hone : MatchedOnce t.schema name) {column : String} {p : Nat}
    (hp : t.schema[p]? = some column) (hsame : Text.sameIgnoringCase column name = true) :
    t.toEvent.fields.get? column = t.values[p]? := by
  obtain ⟨last, hlast⟩ := Option.ne_none_iff_exists'.mp
    (mt schemaPosition?_eq_none_iff.mp (not_not.mpr (List.mem_of_getElem? hp)))
  have hpl := hone.eq hp (lastAt_of_schemaPosition? hlast).here hsame hsame
  rw [get?_toEvent hwidth, hlast, Option.bind_some, hpl]

/-- In the event, a name that is no column resolves to the only column that matches it. -/
theorem resolve?_toEvent (hwidth : t.values.length = t.schema.length)
    (hone : MatchedOnce t.schema name) (hname : name ∉ t.schema) {column : String} {p : Nat}
    (hp : t.schema[p]? = some column) (hsame : Text.sameIgnoringCase column name = true) :
    t.toEvent.fields.resolve? name = some column := by
  have habsent : t.toEvent.fields.contains name = false := by
    rw [KeyedMap.contains, get?_toEvent hwidth, schemaPosition?_eq_none_iff.mpr hname]
    rfl
  rw [KeyedMap.resolve?, if_neg (by simp [habsent])]
  cases hfind : t.toEvent.fields.entries.find? (fun e => Text.sameIgnoringCase e.1 name) with
  | none =>
    have hlt : p < t.values.length := hwidth ▸ (List.getElem?_eq_some_iff.mp hp).1
    have hvalue : t.values[p]? = some t.values[p] := List.getElem?_eq_getElem hlt
    have hentry := KeyedMap.mem_entries_iff.mpr
      ((get?_toEvent_of_matched hwidth hone hp hsame).trans hvalue)
    exact absurd hsame (List.find?_eq_none.mp hfind _ hentry)
  | some e =>
    -- the key that is found is a column too, and only one column matches
    have hkey : e.1 ∈ t.toEvent.fields.keys :=
      List.mem_map_of_mem (List.mem_of_find?_eq_some hfind)
    obtain ⟨q, hq⟩ := List.getElem?_of_mem (mem_schema_of_mem_keys hwidth hkey)
    have hesame : Text.sameIgnoringCase e.1 name = true := by simpa using List.find?_some hfind
    rw [hone.eq hp hq hsame hesame] at hp
    exact hq.symm.trans hp

/-- A name that only one column has, and in another case. -/
theorem resolves_of_cased (hwidth : t.values.length = t.schema.length)
    (hone : MatchedOnce t.schema name) (hname : name ∉ t.schema) {column : String} {p : Nat}
    (hp : t.schema[p]? = some column) (hsame : Text.sameIgnoringCase column name = true) :
    t.Resolves name none (t.field? name) (t.toEvent.field? name) := by
  have hexact : t.schema.findIdx? (· == name) = none := by
    refine List.findIdx?_eq_none_iff.mpr fun other hother => ?_
    simpa using ne_of_mem_of_not_mem hother hname
  have hposition : t.schema.findIdx? (Text.sameIgnoringCase · name) = some p := by
    obtain ⟨hlt, hcolumn⟩ := List.getElem?_eq_some_iff.mp hp
    refine List.findIdx?_eq_some_iff_getElem.mpr ⟨hlt, by rwa [hcolumn], fun q hq hqsame => ?_⟩
    have hqp := hone.eq (List.getElem?_eq_getElem (by omega)) hp hqsame hsame
    omega
  have hfield : t.field? name = t.values[p]? := by
    rw [field?, position?, hexact, hposition, Option.none_or, Option.bind_some]
  have hnamed : t.toEvent.field? name = t.values[p]? :=
    (KeyedMap.find?_eq_get? (resolve?_toEvent hwidth hone hname hp hsame)).trans
      (get?_toEvent_of_matched hwidth hone hp hsame)
  rw [hnamed, hfield]
  exact .cased hname hp hsame

/-- A name that no column has, in any case. -/
theorem resolves_of_unmatched (hwidth : t.values.length = t.schema.length)
    (h : ∀ column ∈ t.schema, Text.sameIgnoringCase column name = false) :
    t.Resolves name none (t.field? name) (t.toEvent.field? name) := by
  have hexact : t.schema.findIdx? (· == name) = none := by
    refine List.findIdx?_eq_none_iff.mpr fun other hother => ?_
    have hne : other ≠ name := by
      rintro rfl
      simpa [Text.sameIgnoringCase_refl] using h _ hother
    simpa using hne
  have hfield : t.field? name = none := by
    rw [field?, position?, hexact, List.findIdx?_eq_none_iff.mpr h, Option.none_or,
      Option.bind_none]
  have hnamed : t.toEvent.field? name = none :=
    KeyedMap.find?_eq_none fun key hkey => h key (mem_schema_of_mem_keys hwidth hkey)
  rw [hfield, hnamed]
  exact .unmatched h

/-- The name is spelt as in the schema, or it matches at most one column up to case. -/
theorem resolves (hwidth : t.values.length = t.schema.length)
    (hname : name ∈ t.schema ∨ MatchedOnce t.schema name) :
    t.Resolves name ((schemaPosition? t.schema name).bind (t.values[·]?)) (t.field? name)
      (t.toEvent.field? name) := by
  by_cases hmem : name ∈ t.schema
  · exact resolves_of_mem hwidth hmem
  · rw [schemaPosition?_eq_none_iff.mpr hmem, Option.bind_none]
    by_cases hsame : ∃ column ∈ t.schema, Text.sameIgnoringCase column name = true
    · obtain ⟨column, hcolumn, hsame⟩ := hsame
      obtain ⟨p, hp⟩ := List.getElem?_of_mem hcolumn
      exact resolves_of_cased hwidth (hname.resolve_left hmem) hmem hp hsame
    · refine resolves_of_unmatched hwidth fun column hcolumn => ?_
      exact Bool.eq_false_iff.mpr fun h => hsame ⟨column, hcolumn, h⟩

/-- The three ways agree where the first and the last column of the name have one value, and where
no column has the name in any case. -/
theorem Resolves.agree_iff {read? field? named? : Option Value}
    (h : t.Resolves name read? field? named?) (hwidth : t.values.length = t.schema.length) :
    (read? = field? ∧ field? = named?) ↔
      (∃ first last, FirstAt t.schema name first ∧ LastAt t.schema name last ∧
        t.values[first]? = t.values[last]?) ∨
      ∀ column ∈ t.schema, Text.sameIgnoringCase column name = false := by
  cases h with
  | @spelt first last hfirst hlast =>
    constructor
    · rintro ⟨_, hequal⟩
      exact .inl ⟨first, last, hfirst, hlast, hequal⟩
    · rintro (⟨first', last', hfirst', hlast', hequal⟩ | hunmatched)
      · obtain rfl : first = first' :=
          Nat.le_antisymm (hfirst.least _ hfirst'.here) (hfirst'.least _ hfirst.here)
        obtain rfl : last = last' :=
          Nat.le_antisymm (hlast'.greatest _ hlast.here) (hlast.greatest _ hlast'.here)
        exact ⟨hequal.symm, hequal⟩
      · have hself := hunmatched name (List.mem_of_getElem? hfirst.here)
        simp [Text.sameIgnoringCase_refl] at hself
  | @cased column p hname hp hsame =>
    have hlt : p < t.values.length := hwidth ▸ (List.getElem?_eq_some_iff.mp hp).1
    have hvalue : t.values[p]? = some t.values[p] := List.getElem?_eq_getElem hlt
    constructor
    · rintro ⟨hnone, _⟩
      rw [hvalue] at hnone
      cases hnone
    · rintro (⟨first, _, hfirst, _⟩ | hunmatched)
      · exact absurd (List.mem_of_getElem? hfirst.here) hname
      · rw [hunmatched column (List.mem_of_getElem? hp)] at hsame
        cases hsame
  | unmatched h => exact ⟨fun _ => .inr h, fun _ => ⟨rfl, rfl⟩⟩

end Tuple

namespace Layout

/-- A column that is copied is read at its last position. -/
theorem slotValue_of_slotSource {t : Tuple} {policy : OutputPolicy} {window : Option Window}
    {aliases : FieldMap} {slot : Slot} {c : Column} {schema : List String}
    (h : slot.source = c.slotSource schema) : slotValue policy t window aliases slot =
      .ok ((schemaPosition? schema c.name).bind (t.values[·]?)) := by
  rw [slotValue, h, Column.slotSource]
  cases schemaPosition? schema c.name <;> rfl

/-- Over a schema, the slot of a bare column, a look-up in a tuple and a look-up in the event of its
named values find what `Tuple.Resolves` says. They agree unless the first and the last column of the
name differ in value, or the only column has the name in another case. -/
theorem column_resolves {schema : List String} {declarations : List Declaration} {plan : Plan}
    {layout : Layout} (hplan : Plan.compileOver schema declarations = .ok plan)
    (hlayout : plan.layout = some layout) {i : Nat} {c : Column} {hidden : Bool}
    (hfield : plan.fields[i]? = some ⟨.column c, hidden⟩)
    (hname : c.name ∈ schema ∨ MatchedOnce schema c.name) :
    ∃ slot, layout.slots[i]? = some slot ∧ ∀ t : Tuple, t.Fits schema → ∃ read?,
      (∀ policy window aliases, slotValue policy t window aliases slot = .ok read?) ∧
      t.Resolves c.name read? (t.field? c.name) (t.toEvent.field? c.name) ∧
      ((read? = t.field? c.name ∧ t.field? c.name = t.toEvent.field? c.name) ↔
        (∃ first last, FirstAt schema c.name first ∧ LastAt schema c.name last ∧
          t.values[first]? = t.values[last]?) ∨
        ∀ column ∈ schema, Text.sameIgnoringCase column c.name = false) := by
  obtain ⟨named, _, rfl⟩ := Outcome.map_eq_ok.mp hplan
  obtain ⟨_, _, _, slots, hslots, rfl⟩ := ofPlan?_eq_some hlayout
  obtain ⟨hlt, hf⟩ := List.getElem?_eq_some_iff.mp hfield
  have hrelated := slotsFrom?_ofField hslots
  have hlt' : i < slots.length := hrelated.length_eq ▸ hlt
  have hslot : OfField schema ⟨.column c, hidden⟩ slots[i] := by
    rw [← hf]
    exact hrelated.get hlt hlt'
  have hsource : slots[i].source = c.slotSource schema := (Option.some.inj hslot.source).symm
  refine ⟨slots[i], List.getElem?_eq_getElem hlt', fun t ht => ?_⟩
  obtain ⟨rfl, hwidth⟩ := ht
  have hresolves := Tuple.resolves hwidth hname
  exact ⟨_, fun policy window aliases => slotValue_of_slotSource hsource, hresolves,
    hresolves.agree_iff hwidth⟩

/-- A tuple whose two columns of one name have one value. -/
theorem column_resolves_repeated :
    let t : Tuple := { schema := ["a", "b", "a"], values := [.integer 1, .integer 2, .integer 1] }
    ∃ plan layout slot, Plan.compileOver t.schema [⟨.column { name := "a" }, false⟩] = .ok plan ∧
      plan.layout = some layout ∧ layout.slots[0]? = some slot ∧
      slotValue {} t none ∅ slot = .ok (t.field? "a") ∧ t.field? "a" = t.toEvent.field? "a" := by
  obtain ⟨slot, hslot, h⟩ := @column_resolves ["a", "b", "a"]
    [⟨.column { name := "a" }, false⟩] _ _ rfl rfl 0 { name := "a" } false rfl (.inl (by simp))
  obtain ⟨read?, hread, _, hagree⟩ := h
    { schema := ["a", "b", "a"], values := [.integer 1, .integer 2, .integer 1] } ⟨rfl, rfl⟩
  have hfirst : FirstAt ["a", "b", "a"] "a" 0 := ⟨rfl, fun q _ => q.zero_le⟩
  have hlast : LastAt ["a", "b", "a"] "a" 2 :=
    ⟨rfl, fun q hq => Nat.le_of_lt_succ (List.getElem?_eq_some_iff.mp hq).1⟩
  obtain ⟨hfield, hnamed⟩ := hagree.mpr (.inl ⟨0, 2, hfirst, hlast, rfl⟩)
  exact ⟨_, _, slot, rfl, rfl, hslot, (hread {} none ∅).trans (congrArg Except.ok hfield), hnamed⟩

/-- A layout does not find a column whose name differs in case, which both look-ups find. -/
theorem cased_column_unread :
    let t : Tuple := { schema := ["a"], values := [.integer 1] }
    ∃ plan layout slot, Plan.compileOver t.schema [⟨.column { name := "A" }, false⟩] = .ok plan ∧
      plan.layout = some layout ∧ layout.slots[0]? = some slot ∧ MatchedOnce t.schema "A" ∧
      slotValue {} t none ∅ slot = .ok none ∧ t.field? "A" = some (.integer 1) ∧
      t.toEvent.field? "A" = some (.integer 1) :=
  ⟨_, _, _, rfl, rfl, rfl, by decide, rfl, rfl, rfl⟩

/-- Of two columns with one name the layout and the event have the last, the tuple the first. -/
example :
    let t : Tuple := { schema := ["a", "a"], values := [.integer 1, .integer 2] }
    schemaPosition? t.schema "a" = some 1 ∧ t.toEvent.field? "a" = some (.integer 2) ∧
      t.field? "a" = some (.integer 1) := ⟨rfl, rfl, rfl⟩

end Layout
end StreamSelect
