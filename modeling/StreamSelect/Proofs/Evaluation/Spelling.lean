import StreamSelect.Proofs.Evaluation.Fault

/-!
Calls under different spellings of one function. The table of functions takes names in upper case in
the full mapping of Unicode, so names with one upper case call one function and come to the same
values. Two functions are told from their siblings in the table by ASCII letters: `deduplicate` from
the other aggregates, and `window_start` from `window_end`. A spelling of these with a letter beyond
ASCII is refused, or answered with the end of the window.
-/
namespace StreamSelect

open Outcome (Carries)

namespace Text

/-- Capital letters of ASCII and the underscore. -/
def isCapital (c : Char) : Bool := c == '_' || 65 ≤ c.toNat ∧ c.toNat ≤ 90

private theorem eq_ofNat_of_le {c : Char} (hlow : 65 ≤ c.toNat) :
    c = Char.ofNat (65 + (c.toNat - 65)) := by
  rw [Nat.add_sub_cancel' hlow, Char.ofNat_toNat]

/-- A letter of the alphabet is an upper case, and that of its lower case. -/
private theorem upperChar_letter (n : Fin 26) :
    upperChar (Char.ofNat (65 + n)) = [Char.ofNat (65 + n)] ∧
      upperChar (Char.ofNat (65 + n)).toLower = [Char.ofNat (65 + n)] := by
  revert n
  decide +kernel

private theorem upperChar_of_isCapital {c : Char} (h : isCapital c = true) :
    upperChar c = [c] := by
  simp only [isCapital, Bool.or_eq_true, beq_iff_eq, decide_eq_true_eq] at h
  rcases h with rfl | ⟨hlow, hhigh⟩
  · rfl
  · rw [eq_ofNat_of_le hlow]
    exact (upperChar_letter ⟨c.toNat - 65, by omega⟩).1

private theorem upperChar_toLower (c : Char) : upperChar c.toLower = upperChar c := by
  by_cases h : c.val ≥ 'A'.val ∧ c.val ≤ 'Z'.val
  · have hlow : 65 ≤ c.toNat := h.1
    have hhigh : c.toNat ≤ 90 := h.2
    rw [eq_ofNat_of_le hlow]
    obtain ⟨hupper, hlower⟩ := upperChar_letter ⟨c.toNat - 65, by omega⟩
    exact hlower.trans hupper.symm
  · rw [show c.toLower = c from dif_neg h]

/-- A name in capital letters is its own upper case. -/
theorem upper_of_capitals {s : String} (h : s.toList.all isCapital = true) : upper s = s := by
  have hchars : s.toList.flatMap upperChar = s.toList.flatMap fun c => [c] :=
    List.flatMap_congr fun c hc => upperChar_of_isCapital (List.all_eq_true.mp h c hc)
  rw [upper, hchars, List.flatMap_singleton', String.ofList_toList]

/-- Names that differ only in ASCII case have one upper case. -/
theorem upper_eq_of_sameIgnoringCase {a b : String} (h : sameIgnoringCase a b = true) :
    upper a = upper b := by
  have hupper : ∀ s : String,
      upper s = String.ofList ((s.toList.map Char.toLower).flatMap upperChar) := by
    intro s
    rw [upper, List.flatMap_map]
    simp only [upperChar_toLower]
  rw [sameIgnoringCase, beq_iff_eq] at h
  rw [hupper a, hupper b, h]

/-- Where only one of two names with one upper case is the spelling in ASCII letters, this is the
upper case of the spelling. -/
theorem upper_of_misspelt {a b spelling : String} (h : upper a = upper b)
    (hspelt : sameIgnoringCase a spelling ≠ sameIgnoringCase b spelling) :
    upper a = upper spelling := by
  cases ha : sameIgnoringCase a spelling with
  | true => exact upper_eq_of_sameIgnoringCase ha
  | false =>
    have hb : sameIgnoringCase b spelling = true := by
      rw [ha] at hspelt
      simpa using hspelt
    exact h.trans (upper_eq_of_sameIgnoringCase hb)

end Text

namespace AggregateFunction

/-- The name of the call occurs in faults only. -/
theorem apply_carries (f : AggregateFunction) (a b : String) (values : List Value) :
    Carries (· = ·) (f.apply a values) (f.apply b values) := by
  have hadd : ∀ total v, Carries (· = ·) (addTo a total v) (addTo b total v) := by
    intro total v
    unfold addTo
    split
    · exact fun _ h => by cases h
    · split
      · exact .refl _
      · split
        · exact .refl _
        · exact fun _ h => by cases h
  have hsum : Carries (· = ·) (sumOf a values) (sumOf b values) := by
    refine Carries.bind (.foldlM (R := (· = ·)) ?_ rfl) fun _ _ h => h ▸ .refl _
    rintro total _ v rfl
    exact hadd total v
  have hextreme : ∀ keep, Carries (· = ·) (extreme a keep values) (extreme b keep values) := by
    intro keep
    refine Carries.bind (.foldlM (R := (· = ·)) ?_ rfl) fun _ _ h => h ▸ .refl _
    rintro best _ v rfl
    unfold better
    split
    · exact .refl _
    · split
      · exact .refl _
      · exact fun _ h => by cases h
  cases f with
  | count => exact .refl _
  | sum => exact hsum
  | avg =>
    simp only [apply, average]
    split
    · exact .refl _
    · refine hsum.bind ?_
      rintro total _ rfl
      split
      · exact .refl _
      · exact fun _ h => by cases h
  | min => exact hextreme .lt
  | max => exact hextreme .gt
  | collect => exact .refl _
  | deduplicate => exact fun _ h => by cases h

end AggregateFunction

namespace Function

theorem mem_table_of_ofName? {name : String} {f : Function} (h : ofName? name = some f) :
    (Text.upper name, f) ∈ table := by
  obtain ⟨before, after, hsplit, _⟩ := List.lookup_eq_some_iff.mp h
  simp [hsplit]

/-- The names in the table are their own upper case. -/
theorem upper_upper_of_ofName? {name : String} {f : Function} (h : ofName? name = some f) :
    Text.upper (Text.upper name) = Text.upper name := by
  have htable : ∀ e ∈ table, e.1.toList.all Text.isCapital = true := by decide
  exact Text.upper_of_capitals (htable (Text.upper name, f) (mem_table_of_ofName? h))

theorem upper_of_deduplicate {name : String}
    (h : ofName? name = some (.aggregate .deduplicate)) : Text.upper name = "DEDUPLICATE" := by
  have htable : ∀ e ∈ table, e.2 = .aggregate .deduplicate → e.1 = "DEDUPLICATE" := by decide
  exact htable _ (mem_table_of_ofName? h) rfl

theorem ofName?_deduplicate {name : String}
    (h : Text.sameIgnoringCase name "deduplicate" = true) :
    ofName? name = some (.aggregate .deduplicate) := by
  rw [ofName?_congr (Text.upper_eq_of_sameIgnoringCase h)]
  rfl

theorem ofName?_windowStart {name : String}
    (h : Text.sameIgnoringCase name "window_start" = true) :
    ofName? name = some .windowBoundary := by
  rw [ofName?_congr (Text.upper_eq_of_sameIgnoringCase h)]
  rfl

end Function

namespace Expr
variable {a b : String} {args : List Expr} {s : Subject} {scope : Scope}

/-- Two names of one function come to the same value where the evaluator tells neither of them from
the other. -/
theorem evaluate_call_carries (hname : Function.ofName? a = Function.ofName? b)
    (hdeduplicate : Text.sameIgnoringCase a "deduplicate" = Text.sameIgnoringCase b "deduplicate")
    (hwindow : windowValue a scope.window = windowValue b scope.window) :
    Carries (· = ·) ((call a args).evaluate s scope) ((call b args).evaluate s scope) := by
  cases ha : Function.ofName? a with
  | none =>
    rw [evaluate_unknown s scope ha]
    exact fun _ h => by cases h
  | some function =>
    have hb := hname.symm.trans ha
    cases function with
    | scalar f =>
      rw [evaluate_scalar s scope ha, evaluate_scalar s scope hb]
      exact .refl _
    | windowBoundary =>
      rw [evaluate_window s scope ha, evaluate_window s scope hb, hwindow]
      exact .refl _
    | metadata =>
      rw [evaluate_metadata s scope ha, evaluate_metadata s scope hb]
      exact .refl _
    | aggregate f =>
      cases hd : Text.sameIgnoringCase a "deduplicate" with
      | true =>
        have hd' := hdeduplicate.symm.trans hd
        by_cases harity : args.length = 2
        · obtain ⟨key, all, rfl⟩ := List.length_eq_two.mp harity
          rw [evaluate_deduplicate s scope ha hd, evaluate_deduplicate s scope hb hd']
          exact .refl _
        · rw [evaluate_deduplicate_arity s scope ha hd harity]
          exact fun _ h => by cases h
      | false =>
        have hd' := hdeduplicate.symm.trans hd
        by_cases harity : args.length = 1
        · obtain ⟨arg, rfl⟩ := List.length_eq_one_iff.mp harity
          rw [evaluate_aggregate s scope ha hd, evaluate_aggregate s scope hb hd']
          refine Carries.bind (.refl _) ?_
          rintro values _ rfl
          exact f.apply_carries a b values
        · rw [evaluate_aggregate_arity s scope ha hd harity]
          exact fun _ h => by cases h

theorem evaluate_call_iff (hname : Function.ofName? a = Function.ofName? b)
    (hdeduplicate : Text.sameIgnoringCase a "deduplicate" = Text.sameIgnoringCase b "deduplicate")
    (hwindow : windowValue a scope.window = windowValue b scope.window) (v : Value) :
    (call a args).evaluate s scope = .ok v ↔ (call b args).evaluate s scope = .ok v := by
  constructor
  · intro hv
    obtain ⟨_, hv', rfl⟩ := evaluate_call_carries hname hdeduplicate hwindow v hv
    exact hv'
  · intro hv
    obtain ⟨_, hv', rfl⟩ := evaluate_call_carries hname.symm hdeduplicate.symm hwindow.symm v hv
    exact hv'

/-- A spelling of `deduplicate` with a letter beyond ASCII comes to no value. -/
theorem evaluate_call_refused (hname : Function.ofName? a = some (.aggregate .deduplicate))
    (hspelt : Text.sameIgnoringCase a "deduplicate" = false) (v : Value) :
    (call a args).evaluate s scope ≠ .ok v := by
  intro h
  by_cases harity : args.length = 1
  · obtain ⟨arg, rfl⟩ := List.length_eq_one_iff.mp harity
    rw [evaluate_aggregate s scope hname hspelt] at h
    obtain ⟨values, _, happly⟩ := Outcome.bind_eq_ok.mp h
    cases happly
  · rw [evaluate_aggregate_arity s scope hname hspelt harity] at h
    cases h

/-- Where only one of two names of `deduplicate` is spelt in ASCII letters, the other comes to no
value. -/
theorem evaluate_call_of_misspelt (args : List Expr) (s : Subject) (scope : Scope)
    (h : Text.upper a = Text.upper b)
    (hspelt : Text.sameIgnoringCase a "deduplicate" ≠ Text.sameIgnoringCase b "deduplicate") :
    (Text.sameIgnoringCase a "deduplicate" = true ∧
        ∀ v, (call b args).evaluate s scope ≠ .ok v) ∨
      (Text.sameIgnoringCase b "deduplicate" = true ∧
        ∀ v, (call a args).evaluate s scope ≠ .ok v) := by
  have hname : Function.ofName? a = some (.aggregate .deduplicate) :=
    (Function.ofName?_congr (Text.upper_of_misspelt h hspelt)).trans
      (Function.ofName?_deduplicate (by decide))
  cases ha : Text.sameIgnoringCase a "deduplicate" with
  | true =>
    have hb : Text.sameIgnoringCase b "deduplicate" = false := by
      rw [ha] at hspelt
      simpa using hspelt
    exact .inl ⟨rfl, evaluate_call_refused ((Function.ofName?_congr h).symm.trans hname) hb⟩
  | false =>
    have hb : Text.sameIgnoringCase b "deduplicate" = true := by
      rw [ha] at hspelt
      simpa using hspelt
    exact .inr ⟨hb, evaluate_call_refused hname ha⟩

/-- The windows on which both spellings of `window_start` give one value. -/
theorem windowValue_eq_iff (a b : String) (window : Option Window) :
    windowValue a window = windowValue b window ↔
      (Text.sameIgnoringCase a "window_start" ≠ Text.sameIgnoringCase b "window_start" →
        ∀ w ∈ window, w.start.millis = w.stop.millis) := by
  cases window with
  | none => simp [windowValue]
  | some w =>
    cases ha : Text.sameIgnoringCase a "window_start" <;>
      cases hb : Text.sameIgnoringCase b "window_start" <;> simp [windowValue, ha, hb, eq_comm]

end Expr

namespace Function
variable {name : String}

/-- The evaluator finds the function that the table has for the name. The names of `deduplicate` and
`window_start` are spelt in ASCII letters, and all others in any way. -/
structure Reached (name : String) : Prop where
  deduplicate : Text.upper name = "DEDUPLICATE" →
    Text.sameIgnoringCase name "deduplicate" = true
  windowStart : Text.upper name = "WINDOW_START" →
    Text.sameIgnoringCase name "window_start" = true

theorem Reached.of_upper (h : Text.upper (Text.upper name) = Text.upper name) :
    Reached (Text.upper name) where
  deduplicate hname := by
    rw [h] at hname
    rw [hname]
    decide
  windowStart hname := by
    rw [h] at hname
    rw [hname]
    decide

/-- A name that is found is tested for ASCII letters with the result that its upper case has. -/
theorem Reached.tests (h : Reached name) :
    (Text.sameIgnoringCase name "deduplicate" = true ↔ Text.upper name = "DEDUPLICATE") ∧
      (Text.sameIgnoringCase name "window_start" = true ↔ Text.upper name = "WINDOW_START") := by
  have hdeduplicate : Text.upper "deduplicate" = "DEDUPLICATE" := by rfl
  have hwindow : Text.upper "window_start" = "WINDOW_START" := by rfl
  refine ⟨⟨fun hname => ?_, h.deduplicate⟩, ⟨fun hname => ?_, h.windowStart⟩⟩
  · rw [Text.upper_eq_of_sameIgnoringCase hname, hdeduplicate]
  · rw [Text.upper_eq_of_sameIgnoringCase hname, hwindow]

theorem Reached.of_deduplicate (h : Text.sameIgnoringCase name "deduplicate" = true) :
    Reached name where
  deduplicate _ := h
  windowStart hname := by
    rw [upper_of_deduplicate (ofName?_deduplicate h)] at hname
    exact absurd hname (by decide)

/-- The call goes to the function of the name: it has the value that it has under the name in the
table, the name is not refused as unknown, and the start of the window is not taken for its end. -/
structure Dispatched (name : String) (args : List Expr) (s : Subject) (scope : Scope) : Prop where
  table : ∀ v, (Expr.call name args).evaluate s scope = .ok v ↔
    (Expr.call (Text.upper name) args).evaluate s scope = .ok v
  known : (Expr.call name args).evaluate s scope ≠ .error (.unknownFunction name)
  start : Text.upper name = "WINDOW_START" → ∀ w ∈ scope.window,
    (Expr.call name args).evaluate s scope = .ok (.integer w.start.millis)

end Function

namespace Expr
variable {a b : String}

/-- Two names that are found and have one upper case come to the same values. -/
theorem evaluate_call_iff_of_reached (h : Text.upper a = Text.upper b)
    (ha : Function.Reached a) (hb : Function.Reached b) (args : List Expr) (s : Subject)
    (scope : Scope) (v : Value) :
    (call a args).evaluate s scope = .ok v ↔ (call b args).evaluate s scope = .ok v := by
  have hdeduplicate : Text.sameIgnoringCase a "deduplicate" =
      Text.sameIgnoringCase b "deduplicate" := by
    rw [Bool.eq_iff_iff, ha.tests.1, hb.tests.1, h]
  have hwindow : Text.sameIgnoringCase a "window_start" =
      Text.sameIgnoringCase b "window_start" := by
    rw [Bool.eq_iff_iff, ha.tests.2, hb.tests.2, h]
  exact evaluate_call_iff (Function.ofName?_congr h) hdeduplicate
    ((windowValue_eq_iff a b scope.window).mpr (absurd hwindow)) v

end Expr

/-- All calls under a name of the table go to its function exactly if the name is found. -/
theorem Function.dispatched_iff_reached {name : String} (h : (ofName? name).isSome = true) :
    (∀ args s scope, Dispatched name args s scope) ↔ Reached name := by
  obtain ⟨f, hf⟩ := Option.isSome_iff_exists.mp h
  have hupper := upper_upper_of_ofName? hf
  constructor
  · intro hall
    constructor
    · intro hname
      by_contra hspelt
      have hdeduplicate : ofName? name = some (.aggregate .deduplicate) := by
        rw [ofName?, hname]
        rfl
      have hvalue : (Expr.call (Text.upper name)
          [.literal .null, .literal (.boolean true)]).evaluate (.group []) {} =
            .ok (.array []) := by
        rw [hname]
        rfl
      exact Expr.evaluate_call_refused hdeduplicate (by simpa using hspelt) _
        (((hall _ _ _).table _).mpr hvalue)
    · intro hname
      have hwindow : ofName? name = some .windowBoundary := by
        rw [ofName?, hname]
        rfl
      have hstart := (hall [] (.group []) { window := some (.ofMillis 0 1) }).start hname _ rfl
      rw [Expr.evaluate_window _ _ hwindow] at hstart
      by_contra hspelt
      simp only [windowValue, hspelt, if_false, Except.ok.injEq, Value.integer.injEq] at hstart
      exact absurd hstart (by decide)
  · intro hreached args s scope
    refine ⟨Expr.evaluate_call_iff_of_reached hupper.symm hreached (.of_upper hupper) args s scope,
      fun hfault => ?_, fun hname w hw => ?_⟩
    · rcases Expr.evaluate_ofEvaluation _ s scope _ hfault with hoperational | ⟨_, heq, hrefused⟩
      · cases hoperational
      · cases heq
        rcases hrefused with hnone | ⟨hdeduplicate, hspelt⟩
        · rw [hnone] at hf
          cases hf
        · rw [hreached.deduplicate (upper_of_deduplicate hdeduplicate)] at hspelt
          cases hspelt
    · have hwindow : ofName? name = some .windowBoundary := by
        rw [ofName?, hname]
        rfl
      rw [Expr.evaluate_window s scope hwindow, Option.mem_def.mp hw]
      simp only [windowValue, hreached.windowStart hname, if_true]

namespace Expr

variable {args : List Expr} {s : Subject} {scope : Scope}

private theorem evaluate_call_iff_plain (h : Text.sameIgnoringCase a "deduplicate" = true)
    (v : Value) :
    (call a args).evaluate s scope = .ok v ↔
      (call "deduplicate" args).evaluate s scope = .ok v := by
  exact evaluate_call_iff_of_reached (Text.upper_eq_of_sameIgnoringCase h) (.of_deduplicate h)
    (.of_deduplicate (by decide)) args s scope v

/-- Where only one of two names of `deduplicate` is spelt in ASCII letters, they agree on the calls
that are refused under both. -/
theorem evaluate_call_iff_of_misspelt (h : Text.upper a = Text.upper b)
    (hspelt : Text.sameIgnoringCase a "deduplicate" ≠ Text.sameIgnoringCase b "deduplicate") :
    (∀ v, (call a args).evaluate s scope = .ok v ↔ (call b args).evaluate s scope = .ok v) ↔
      ∀ v, (call "deduplicate" args).evaluate s scope ≠ .ok v := by
  rcases evaluate_call_of_misspelt args s scope h hspelt with ⟨ha, hrefused⟩ | ⟨hb, hrefused⟩
  · simp only [evaluate_call_iff_plain ha, hrefused, iff_false]
  · simp only [evaluate_call_iff_plain hb, hrefused, false_iff]

/-- Where only one of two names of `window_start` is spelt in ASCII letters, one is answered with
the start of the window and the other with its end. -/
theorem evaluate_call_iff_of_misspelt_window (h : Text.upper a = Text.upper b)
    (hspelt : Text.sameIgnoringCase a "window_start" ≠ Text.sameIgnoringCase b "window_start") :
    (∀ v, (call a args).evaluate s scope = .ok v ↔ (call b args).evaluate s scope = .ok v) ↔
      ∀ w ∈ scope.window, w.start.millis = w.stop.millis := by
  have ha : Function.ofName? a = some .windowBoundary :=
    (Function.ofName?_congr (Text.upper_of_misspelt h hspelt)).trans
      (Function.ofName?_windowStart (by decide))
  have hb := (Function.ofName?_congr h).symm.trans ha
  rw [evaluate_window s scope ha, evaluate_window s scope hb]
  constructor
  · intro hall
    have hvalue := (hall (windowValue a scope.window)).mp rfl
    exact (windowValue_eq_iff a b scope.window).mp (Except.ok.inj hvalue).symm hspelt
  · intro hempty v
    rw [(windowValue_eq_iff a b scope.window).mpr fun _ => hempty]

/-- Two names with one upper case come to the same value, or both fail, exactly unless only one of
them is `deduplicate` in ASCII letters and the call under this name has a value, or only one is
`window_start` in ASCII letters and the start and the end of the window differ. All calls under a
name of the table go to its function exactly if the name is found. -/
theorem evaluate_call_spelling {a b : String} (h : Text.upper a = Text.upper b) :
    (∀ args s scope,
      (∀ v, (call a args).evaluate s scope = .ok v ↔ (call b args).evaluate s scope = .ok v) ↔
        (Text.sameIgnoringCase a "deduplicate" ≠ Text.sameIgnoringCase b "deduplicate" →
          ∀ v, (call "deduplicate" args).evaluate s scope ≠ .ok v) ∧
        (Text.sameIgnoringCase a "window_start" ≠ Text.sameIgnoringCase b "window_start" →
          ∀ w ∈ scope.window, w.start.millis = w.stop.millis)) ∧
    ((Function.ofName? a).isSome = true →
      ((∀ args s scope, Function.Dispatched a args s scope) ↔ Function.Reached a)) := by
  refine ⟨fun args s scope => ?_, Function.dispatched_iff_reached⟩
  by_cases hdeduplicate :
      Text.sameIgnoringCase a "deduplicate" = Text.sameIgnoringCase b "deduplicate"
  · by_cases hwindow :
        Text.sameIgnoringCase a "window_start" = Text.sameIgnoringCase b "window_start"
    · have hvalue := (windowValue_eq_iff a b scope.window).mpr (absurd hwindow)
      exact ⟨fun _ => ⟨absurd hdeduplicate, absurd hwindow⟩,
        fun _ => evaluate_call_iff (Function.ofName?_congr h) hdeduplicate hvalue⟩
    · rw [evaluate_call_iff_of_misspelt_window h hwindow]
      exact ⟨fun hempty => ⟨absurd hdeduplicate, fun _ => hempty⟩,
        fun ⟨_, hempty⟩ => hempty hwindow⟩
  · have hwindow :
        Text.sameIgnoringCase a "window_start" = Text.sameIgnoringCase b "window_start" := by
      by_contra hwindow
      have hupper := (Text.upper_of_misspelt h hdeduplicate).symm.trans
        (Text.upper_of_misspelt h hwindow)
      exact absurd hupper (by decide)
    rw [evaluate_call_iff_of_misspelt h hdeduplicate]
    exact ⟨fun hrefused => ⟨fun _ => hrefused, absurd hwindow⟩,
      fun ⟨hrefused, _⟩ => hrefused hdeduplicate⟩

theorem evaluate_call_spelling_floor :
    Text.upper "ﬂoor" = Text.upper "Floor" ∧
    (call "ﬂoor" [.literal (.integer 2)]).evaluate (.group []) {} = .ok (.integer 2) ∧
    Function.Dispatched "ﬂoor" [.literal (.integer 2)] (.group []) {} := by
  have hupper : Text.upper "ﬂoor" = Text.upper "Floor" := by rfl
  obtain ⟨hvalues, hdispatched⟩ := evaluate_call_spelling hupper
  refine ⟨hupper, ?_, (hdispatched rfl).mpr ⟨?_, ?_⟩ _ _ _⟩
  · have hfloor : (call "Floor" [.literal (.integer 2)]).evaluate (.group []) {} =
        .ok (.integer 2) := by rfl
    exact ((hvalues _ _ _).mpr ⟨absurd (by decide), absurd (by decide)⟩ _).mpr hfloor
  · exact fun hname => absurd hname (by decide)
  · exact fun hname => absurd hname (by decide)

/-- Not all spellings of a name call one function. A dotless i has the capital I for its upper
case. -/
theorem dotless_spellings_differ :
    Text.upper "wındow_start" = Text.upper "window_start" ∧
    (call "window_start" []).evaluate (.group []) { window := some (.ofMillis 1 2) } =
      .ok (.integer 1) ∧
    (call "wındow_start" []).evaluate (.group []) { window := some (.ofMillis 1 2) } =
      .ok (.integer 2) ∧
    Function.ofName? "deduplıcate" = some (.aggregate .deduplicate) ∧
    (call "deduplıcate" [.literal .null]).evaluate (.group []) {} =
      .error (.unknownFunction "deduplıcate") := ⟨rfl, rfl, rfl, rfl, rfl⟩

end Expr
end StreamSelect
