import StreamSelect.Project.Basic
import StreamSelect.Proofs.Evaluation.Call
import StreamSelect.Proofs.Expr.Linking
import StreamSelect.Proofs.Plan.Declared
import StreamSelect.Proofs.Project.Phases

/-!
Metadata calls after linking. The argument of such a call is a key as it is written, but linking
replaces it like any column if an alias of that name is declared before. Then no key is left, and
the call fails on every row. All other metadata calls read what they read without aliases.
-/
namespace StreamSelect

namespace Expr

/-- The fault of a metadata call without a key. -/
def noKey : Fault := .failure "META requires a single metadata key or *"

/-- The arguments are one key without a source, and it is one of the names. -/
def keyAmong (names : List String) : List Expr → Bool
  | [.column ⟨key, none⟩] => names.contains key
  | _ => false

/-- Linking changes the value of a metadata call only where the key is the name of an alias. -/
theorem metadataValue_linkAll (A : Aliases) (args : List Expr) (row? : Option Row) :
    metadataValue (linkAll A args) row? =
      if keyAmong (A.map Prod.fst) args then .error noKey else metadataValue args row? := by
  -- linking keeps the outermost shape of everything but a column without a source
  match args with
  | [] => rfl
  | [.column ⟨key, some source⟩] => rfl
  | [.column ⟨key, none⟩] =>
    have hamong : keyAmong (A.map Prod.fst) [.column ⟨key, none⟩] = true ↔
        Column.NamesAlias ⟨key, none⟩ A :=
      List.contains_iff_mem.trans (and_iff_right rfl).symm
    simp only [linkAll, link]
    by_cases hkey : Column.NamesAlias ⟨key, none⟩ A
    · obtain ⟨body, _, hlinked⟩ := Column.link_of_namesAlias hkey
      rw [hlinked, if_pos (hamong.mpr hkey)]
      rfl
    · rw [Column.link_of_not_namesAlias hkey, if_neg (mt hamong.mp hkey)]
  | [.aliasRef name body] => rfl
  | [.literal l] => rfl
  | [.binary op left right] => rfl
  | [.unary op operand] => rfl
  | [.call function inner] => rfl
  | [.case operand branches otherwise] => rfl
  | [.member base key] => rfl
  | [.element base position] => rfl
  | [.slice base start stop] => rfl
  | [.star except replace] => rfl
  | first :: second :: rest => simp [linkAll, metadataValue, keyAmong]

theorem evaluate_link_metadata {function : String} (h : Function.ofName? function = some .metadata)
    (A : Aliases) (args : List Expr) (s : Subject) (scope : Scope) :
    ((call function args).link A).evaluate s scope =
      if keyAmong (A.map Prod.fst) args then .error noKey else metadataValue args s.first? := by
  rw [link, evaluate_metadata s scope h, metadataValue_linkAll]

end Expr

namespace Plan
variable {before after : List Declaration} {declaration : Declaration} {p : Plan}

/-- What a declaration has become in the plan, linked with aliases that have the names declared
before it: its field, or its replacements if it is a star. -/
structure LinkedWith (p : Plan) (before : List Declaration) (declaration : Declaration)
    (A : Aliases) : Prop where
  names : A.map Prod.fst = (before.filterMap (·.item.alias?)).reverse
  field : ∀ e alias?, declaration.item = .computed e alias? → declaration.item.copied? = none →
    ∃ f, p.fields[before.countP (!·.item.isStar)]? = some f ∧ f.hidden = declaration.hidden ∧
      f.alias? = alias? ∧ f.expr? = some (e.link A)
  replacement : ∀ except replace, declaration.item = .star except replace →
    ∀ r ∈ replace, ⟨r.2, r.1.link A⟩ ∈ p.replacements

theorem linkedWith_of_compile (h : compile (before ++ declaration :: after) = .ok p) :
    ∃ A, p.LinkedWith before declaration A := by
  obtain ⟨d, d', last, hd, hd', hlast, rfl⟩ := compile_split h
  obtain ⟨⟨fields, hfields, _, hlength⟩, ⟨aliases, haliases, hnames⟩, _⟩ := Draft.Extends.of_run hd
  obtain ⟨⟨later, hlater, _⟩, _, ⟨replaced, hreplaced⟩⟩ := Draft.Extends.of_run hlast
  have hadds := Draft.Adds.of_add hd'
  rw [List.append_nil] at haliases
  rw [List.nil_append] at hfields
  refine ⟨d.aliases, by rw [haliases, hnames], fun e alias? hitem hcopied => ?_,
    fun except replace hitem r hr => ?_⟩
  · obtain ⟨item, hidden⟩ := declaration
    subst hitem
    obtain ⟨f, hf, hhidden, halias, hexpr⟩ := Draft.planned?_computed hcopied d hidden
    refine ⟨f, ?_, hhidden, halias, hexpr⟩
    have hall : last.fields = fields ++ f :: later := by
      rw [hlater, hadds.fields, hf, hfields, List.append_assoc]
      rfl
    rw [Draft.finish, hall, ← hlength, List.getElem?_append_right (Nat.le_refl _), Nat.sub_self]
    rfl
  · have hmem : Replacement.mk r.2 (r.1.link d.aliases) ∈ d.replacing declaration.item := by
      rw [hitem]
      exact List.mem_map.mpr ⟨r, hr, rfl⟩
    change _ ∈ (last.star.map Star.replace).getD []
    rw [hreplaced, hadds.replacements]
    exact List.mem_append_left _ (List.mem_append_right _ hmem)

/-- A metadata call of the declaration reads what it reads without aliases, unless its key is the
name of an alias declared before. -/
theorem LinkedWith.evaluate_metadata {A : Aliases} (h : p.LinkedWith before declaration A)
    {function : String} (hfunction : Function.ofName? function = some .metadata)
    (args : List Expr) (s : Subject) (scope : Scope) :
    ((Expr.call function args).link A).evaluate s scope =
      if Expr.keyAmong (before.filterMap (·.item.alias?)) args then .error Expr.noKey
      else metadataValue args s.first? := by
  have hamong : Expr.keyAmong (A.map Prod.fst) args =
      Expr.keyAmong (before.filterMap (·.item.alias?)) args := by
    unfold Expr.keyAmong
    split
    · rw [h.names, List.contains_reverse]
    · rfl
  rw [Expr.evaluate_link_metadata hfunction, hamong]

/-- A field under an alias that always fails, and not for missing data, lets no projection
succeed. -/
theorem assemble_ne_ok {name : String} {e : Expr} {hidden : Bool} {fault : Fault}
    {policy : OutputPolicy} {s : Subject} {window : Option Window}
    (hf : ⟨.alias name e, hidden⟩ ∈ p.fields) (hfault : ∀ scope, e.evaluate s scope = .error fault)
    (hmissing : fault.isMissingData = false) (event : Event) :
    p.assemble policy s window ≠ .ok event := by
  intro h
  obtain ⟨replaced, _, h⟩ := Outcome.bind_eq_ok.mp h
  obtain ⟨last, hrun, _⟩ := Outcome.bind_eq_ok.mp h
  obtain ⟨done, rest, hsplit⟩ := List.append_of_mem hf
  rw [hsplit] at hrun
  obtain ⟨a, b, _, hstep, _⟩ := Outcome.foldlM_eq_ok_split hrun
  rw [writeExpression_alias, hfault] at hstep
  obtain ⟨v?, hsettled, _⟩ := Outcome.bind_eq_ok.mp hstep
  cases v? with
  | some v => cases OutputPolicy.settle_eq_some hsettled
  | none =>
    obtain ⟨_, cause, hcause, hcausemissing⟩ := OutputPolicy.settle_eq_none hsettled
    cases hcause
    rw [hmissing] at hcausemissing
    cases hcausemissing

/-- What a metadata call of a list reads where it stands. A call with one key, declared under an
alias, reads the metadata of the first row and gives null where the key is missing, unless an alias
with the name of the key is declared before. Then it fails, and so does every projection. Of all
metadata calls in an expression, linking changes only those with such a key. -/
theorem metadata_keys (h : compile (before ++ declaration :: after) = .ok p) :
    (∀ function key name, Function.ofName? function = some .metadata →
      declaration.item = .computed (.call function [.column { name := key }]) (some name) →
      ∃ e, p.fields[before.countP (!·.item.isStar)]? = some ⟨.alias name e, declaration.hidden⟩ ∧
        (key ∉ before.filterMap (·.item.alias?) → ∀ s scope,
          e.evaluate s scope = .ok ((s.first?.bind (·.meta? none key)).getD .null)) ∧
        (key ∈ before.filterMap (·.item.alias?) →
          (∀ s scope, e.evaluate s scope = .error Expr.noKey) ∧
          ∀ policy s window event, p.assemble policy s window ≠ .ok event)) ∧
    ∃ A, p.LinkedWith before declaration A ∧
      ∀ e ∈ declaration.item.expressions, ∀ function args, Expr.call function args ∈ e.walk →
        Function.ofName? function = some .metadata →
        (Expr.call function args).link A ∈ (e.link A).walk ∧
        ∀ s scope, ((Expr.call function args).link A).evaluate s scope =
          if Expr.keyAmong (before.filterMap (·.item.alias?)) args then .error Expr.noKey
          else metadataValue args s.first? := by
  obtain ⟨A, hlinked⟩ := linkedWith_of_compile h
  refine ⟨fun function key name hfunction hitem => ?_, A, hlinked,
    fun e _ function args hcall hfunction => ⟨?_, hlinked.evaluate_metadata hfunction args⟩⟩
  · obtain ⟨f, hf, hhidden, halias, hexpr⟩ := hlinked.field _ _ hitem (by rw [hitem]; rfl)
    have hform := PlannedField.form_eq halias hexpr
    obtain ⟨form, hidden⟩ := f
    obtain rfl : form = _ := hform
    obtain rfl : hidden = _ := hhidden
    refine ⟨_, hf, fun hkey s scope => ?_, fun hkey => ?_⟩
    · have hfree : Expr.keyAmong (before.filterMap (·.item.alias?)) [.column { name := key }] =
          false := by simpa [Expr.keyAmong] using hkey
      rw [hlinked.evaluate_metadata hfunction, hfree]
      rfl
    · have hcaptured : Expr.keyAmong (before.filterMap (·.item.alias?))
          [.column { name := key }] = true := List.contains_iff_mem.mpr hkey
      have hfails : ∀ s scope, ((Expr.call function [.column { name := key }]).link A).evaluate s
          scope = .error Expr.noKey := by
        intro s scope
        rw [hlinked.evaluate_metadata hfunction, hcaptured]
        rfl
      exact ⟨hfails, fun policy s window event =>
        assemble_ne_ok (List.mem_of_getElem? hf) (hfails s) rfl event⟩
  · rw [Expr.link_eq_mapColumns, Expr.link_eq_mapColumns]
    exact Expr.mapColumns_mem_walk e hcall

/-- A key that is no alias before it, after an alias of another name. -/
theorem metadata_keys_afterAlias : ∃ p e,
    Plan.compile [⟨.computed (.literal (.integer 1)) (some "x"), false⟩,
      ⟨.computed (.call "meta" [.column { name := "topic" }]) (some "topic"), false⟩] = .ok p ∧
    p.fields[1]? = some ⟨.alias "topic" e, false⟩ ∧
    ∀ s scope, e.evaluate s scope = .ok ((s.first?.bind (·.meta? none "topic")).getD .null) := by
  have h := @metadata_keys [⟨.computed (.literal (.integer 1)) (some "x"), false⟩] []
    ⟨.computed (.call "meta" [.column { name := "topic" }]) (some "topic"), false⟩ _ rfl
  obtain ⟨e, hf, hreads, _⟩ := h.1 "meta" "topic" "topic" rfl rfl
  exact ⟨_, e, rfl, hf, hreads (by simp [Item.alias?])⟩

/-- An alias that has the name of a metadata key makes the call fail that reads the key. -/
theorem aliased_key_fails :
    let row := Row.event { metadata := .ofList [("topic", .text "t")] }
    ∃ p fault, Plan.compile [⟨.computed (.literal (.integer 1)) (some "topic"), false⟩,
        ⟨.computed (.call "meta" [.column { name := "topic" }]) (some "m"), false⟩] = .ok p ∧
      row.meta? none "topic" = some (.text "t") ∧
      Projector.projectRow ⟨p, {}⟩ row none = .error fault :=
  ⟨_, _, rfl, rfl, rfl⟩

end Plan
end StreamSelect
