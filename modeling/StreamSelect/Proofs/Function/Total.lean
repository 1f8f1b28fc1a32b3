import Mathlib.Data.List.Infix
import StreamSelect.Function.Aggregate
import StreamSelect.Proofs.Outcome
import StreamSelect.Proofs.Value.Integer

/-!
Count, sum and average of integers among nulls. The sum is carried from each integer to the next,
so it is exact while the sums of all prefixes fit into 64 bits, and is refused at the first prefix
whose sum does not, though later integers could bring it back. The average divides the exact sum,
and fails only with it.
-/
namespace StreamSelect

/-- The integer that the value is. -/
def Value.integer? : Value → Option Int64
  | .integer i => some i
  | _ => none

namespace AggregateFunction
variable {name : String} {values xs ys : List Value} {is : List Int64} {i : Int64} {v : Value}

/-- Every value is an integer or null. -/
def Integral (values : List Value) : Prop :=
  ∀ v ∈ values, v.isNull = true ∨ v.integer?.isSome = true

instance (values : List Value) : Decidable (Integral values) :=
  inferInstanceAs (Decidable (∀ v ∈ values, _))

/-- The integers among the values, in order. -/
def integers (values : List Value) : List Int64 := values.filterMap Value.integer?

@[simp] theorem integers_append (xs ys : List Value) :
    integers (xs ++ ys) = integers xs ++ integers ys :=
  List.filterMap_append

theorem present_eq_integers (h : Integral values) :
    present values = (integers values).map .integer := by
  induction values with
  | nil => rfl
  | cons v rest ih =>
    have hrest := ih fun w hw => h w (List.mem_cons_of_mem _ hw)
    have hv := h v List.mem_cons_self
    cases v with
    | null => exact hrest
    | integer i => exact congrArg (Value.integer i :: ·) hrest
    | _ => simp [Value.isNull, Value.integer?] at hv

theorem length_present (h : Integral values) :
    (present values).length = (integers values).length := by
  rw [present_eq_integers h, List.length_map]

/-- The sum as a number without bounds. -/
def total (is : List Int64) : ℤ := (is.map Int64.toInt).sum

@[simp] theorem total_append (is js : List Int64) : total (is ++ js) = total is + total js := by
  simp [total]

@[simp] theorem total_singleton (i : Int64) : total [i] = i.toInt := by
  simp [total]

/-- The sums of all prefixes fit into 64 bits. -/
def PrefixesFit (is : List Int64) : Prop := ∀ front ∈ is.inits, FitsInt64 (total front)

instance (is : List Int64) : Decidable (PrefixesFit is) :=
  inferInstanceAs (Decidable (∀ front ∈ is.inits, _))

theorem PrefixesFit.total (h : PrefixesFit is) : FitsInt64 (total is) :=
  h is ((List.mem_inits _ _).mpr (List.prefix_refl is))

theorem prefixesFit_concat :
    PrefixesFit (is ++ [i]) ↔ PrefixesFit is ∧ FitsInt64 (total (is ++ [i])) := by
  simp only [PrefixesFit, List.mem_inits, List.prefix_concat_iff, forall_eq_or_imp, and_comm]

/-- What the sum has come to after some integers: nothing before the first. -/
def running (is : List Int64) : Option Value :=
  if is = [] then none else some (.integer (.ofInt (total is)))

/-- A further integer is added exactly, or refused if the sum with it does not fit. -/
theorem addTo_running (h : FitsInt64 (total is)) (name : String) (i : Int64) :
    addTo name (running is) (.integer i) =
      if FitsInt64 (total (is ++ [i])) then .ok (running (is ++ [i]))
      else .error (.aggregateMisuse name
        (Value.overflow .add (total is) i.toInt).message) := by
  have hnext : running (is ++ [i]) = some (.integer (.ofInt (total (is ++ [i])))) :=
    if_neg (by simp)
  rw [hnext]
  by_cases hempty : is = []
  · subst hempty
    have hfits := fitsInt64_toInt i
    rw [List.nil_append, total_singleton, if_pos hfits, Int64.ofInt_toInt]
    rfl
  · have hsofar : (Int64.ofInt (total is)).toInt = total is :=
      Int64.toInt_ofInt_of_le h.1 h.2
    have hop : Arithmetic.onInt64? .add (.ofInt (total is)) i = int64? (total (is ++ [i])) := by
      rw [Value.onInt64?_of_ne_modulo (by decide), hsofar, total_append, total_singleton]
      rfl
    obtain ⟨hexact, hoverflow⟩ := Value.arithmetic_of_onInt64? hop nofun
    rw [running, if_neg hempty]
    by_cases hfits : FitsInt64 (total (is ++ [i]))
    · obtain ⟨n, hn, hresult⟩ := hexact hfits
      rw [if_pos hfits, ← hn, Int64.ofInt_toInt]
      simp only [addTo, hresult]
      rfl
    · rw [if_neg hfits]
      simp only [addTo, hoverflow hfits, hsofar]
      rfl

/-- What a sum comes to: the exact one if those of all prefixes fit, and otherwise the fault at the
first that does not. -/
inductive Summed (name : String) (is : List Int64) : Outcome (Option Value) → Prop
  | exact (h : PrefixesFit is) : Summed name is (.ok (running is))
  | overflow (front rest : List Int64) (i : Int64) (hsplit : is = front ++ i :: rest)
    (hfront : PrefixesFit front) (h : ¬FitsInt64 (total (front ++ [i]))) :
    Summed name is (.error (.aggregateMisuse name
      (Value.overflow .add (total front) i.toInt).message))

theorem summed_run (name : String) (is : List Int64) :
    Summed name is ((is.map Value.integer).foldlM (addTo name) none) := by
  induction is using List.reverseRecOn with
  | nil => exact .exact (by decide)
  | append_singleton is i ih =>
    rw [List.map_append, List.foldlM_append]
    generalize (is.map Value.integer).foldlM (addTo name) none = run at ih ⊢
    cases ih with
    | exact h =>
      have hstep : ([i].map Value.integer).foldlM (addTo name) (running is) =
          addTo name (running is) (.integer i) := bind_pure _
      change Summed name _ (([i].map Value.integer).foldlM (addTo name) (running is))
      rw [hstep, addTo_running h.total]
      split
      next hfits => exact .exact (prefixesFit_concat.mpr ⟨h, hfits⟩)
      next hoverflow => exact .overflow is [] i rfl h hoverflow
    | overflow front rest j hsplit hfront h =>
      exact .overflow front (rest ++ [i]) j (by simp [hsplit]) hfront h

/-- The fault of a sum: with some integer it leaves 64 bits for the first time. -/
def RefusedSum (name : String) (is : List Int64) (result : Outcome Value) : Prop :=
  ∃ front i, front ++ [i] <+: is ∧ PrefixesFit front ∧ ¬FitsInt64 (total (front ++ [i])) ∧
    result = .error (.aggregateMisuse name (Value.overflow .add (total front) i.toInt).message)

/-- The sum is that of all integers, or it is refused where it leaves 64 bits for the first time. -/
theorem sumOf_cases (h : Integral values) (name : String) :
    (PrefixesFit (integers values) ∧
      sumOf name values = .ok ((running (integers values)).getD .null)) ∨
    ¬PrefixesFit (integers values) ∧ RefusedSum name (integers values) (sumOf name values) := by
  have hrun := summed_run name (integers values)
  rw [sumOf, present_eq_integers h]
  generalize ((integers values).map Value.integer).foldlM (addTo name) none = run at hrun ⊢
  cases hrun with
  | exact hfit => exact .inl ⟨hfit, rfl⟩
  | overflow front rest i hsplit hfront hoverflow =>
    have hfirst : front ++ [i] <+: integers values := ⟨rest, by simp [hsplit]⟩
    refine .inr ⟨fun hfit => hoverflow ?_, front, i, hfirst, hfront, hoverflow, rfl⟩
    exact hfit _ ((List.mem_inits _ _).mpr hfirst)

theorem sumOf_of_fit (h : Integral values) (hfit : PrefixesFit (integers values)) (name : String) :
    sumOf name values = .ok ((running (integers values)).getD .null) :=
  (sumOf_cases h name).elim And.right fun hrefused => absurd hfit hrefused.1

theorem sumOf_of_not_fit (h : Integral values) (hfit : ¬PrefixesFit (integers values))
    (name : String) : RefusedSum name (integers values) (sumOf name values) :=
  (sumOf_cases h name).elim (fun hexact => absurd hexact.1 hfit) And.right

/-- A sum that is not refused is that of all integers. -/
theorem sumOf_eq_ok (h : Integral values) (hsum : sumOf name values = .ok v) :
    FitsInt64 (total (integers values)) ∧ v = (running (integers values)).getD .null := by
  rcases sumOf_cases h name with ⟨hfit, hexact⟩ | ⟨_, _, _, _, _, _, hrefused⟩
  · rw [hexact] at hsum
    cases hsum
    exact ⟨hfit.total, rfl⟩
  · rw [hrefused] at hsum
    cases hsum

theorem sumOf_of_no_integer (h : Integral values) (hempty : integers values = []) (name : String) :
    sumOf name values = .ok .null := by
  rw [sumOf, present_eq_integers h, hempty]
  rfl

theorem exists_running (hne : is ≠ []) (h : FitsInt64 (total is)) :
    ∃ n : Int64, n.toInt = total is ∧ running is = some (.integer n) :=
  ⟨_, Int64.toInt_ofInt_of_le h.1 h.2, if_neg hne⟩

theorem sumOf_exact (h : Integral values) (hne : integers values ≠ [])
    (hfit : PrefixesFit (integers values)) (name : String) : ∃ n : Int64,
      n.toInt = total (integers values) ∧ sumOf name values = .ok (.integer n) := by
  obtain ⟨n, hn, hrunning⟩ := exists_running hne hfit.total
  exact ⟨n, hn, by rw [sumOf_of_fit h hfit, hrunning, Option.getD_some]⟩

/-- The number of integers, if 64 bits hold it. No list in memory has more. -/
theorem toInt_count (h : Integral values) (hcount : (integers values).length < 2 ^ 63) :
    (Int64.ofNat (present values).length).toInt = (integers values).length := by
  rw [length_present h, Int64.toInt_ofNat_of_lt hcount]

/-- An exact sum by the number of its integers fits, so it is divided. -/
theorem divide_total (hne : is ≠ []) {n count : Int64} (hn : n.toInt = total is)
    (hcount : count.toInt = is.length) :
    ∃ q : Int64, q.toInt = truncate (total is / is.length) ∧
      (Value.integer n).arithmetic .divide (.integer count) = .ok (.integer q) := by
  have hzero : count ≠ 0 := by
    rintro rfl
    exact hne (List.length_eq_zero_iff.mp (Int.ofNat_eq_zero.mp hcount.symm))
  have hfits : FitsInt64 (n.toInt.tdiv count.toInt) := by
    refine (fitsInt64_toInt n).of_natAbs_le (Int.natAbs_tdiv_le_natAbs _ _) fun hneg => ?_
    have hopposite := Int.tdiv_nonneg (Int.neg_nonneg_of_nonpos hneg.le)
      (hcount ▸ Int.natCast_nonneg is.length)
    rw [Int.neg_tdiv] at hopposite
    exact Int.neg_nonneg.mp hopposite
  obtain ⟨q, hq, hresult⟩ :=
    (Value.exactWhere_of_fits (a := n) .divide (by decide) fun _ => hzero).exact hfits
  refine ⟨q, ?_, hresult⟩
  rw [hq, ← Int.cast_natCast, ← hn, ← hcount, truncate_div]
  rfl

theorem present_ne_nil (h : Integral values) (hne : integers values ≠ []) :
    present values ≠ [] := by
  rw [present_eq_integers h]
  exact mt List.map_eq_nil_iff.mp hne

theorem average_of_no_integer (h : Integral values) (hempty : integers values = [])
    (name : String) : average name values = .ok .null := by
  rw [average, present_eq_integers h, hempty]
  rfl

theorem average_of_sum_refused (hne : present values ≠ []) {fault : Fault}
    (hsum : sumOf name values = .error fault) : average name values = .error fault := by
  have hcount : ¬(present values).length = 0 := mt List.length_eq_zero_iff.mp hne
  simp only [average, if_neg hcount, hsum]
  rfl

theorem average_of_sum (hne : present values ≠ []) (hsum : sumOf name values = .ok v)
    {w : Value} (hdivide : v.arithmetic .divide (.integer (.ofNat (present values).length)) =
      .ok w) : average name values = .ok w := by
  have hcount : ¬(present values).length = 0 := mt List.length_eq_zero_iff.mp hne
  simp only [average, if_neg hcount, hsum]
  refine Outcome.bind_eq_ok.mpr ⟨v, rfl, ?_⟩
  simp only [hdivide]

theorem average_exact (h : Integral values) (hcount : (integers values).length < 2 ^ 63)
    (hne : integers values ≠ []) (hfit : PrefixesFit (integers values)) (name : String) :
    ∃ q : Int64, q.toInt = truncate (total (integers values) / (integers values).length) ∧
      average name values = .ok (.integer q) := by
  obtain ⟨n, hn, hsum⟩ := sumOf_exact h hne hfit name
  obtain ⟨q, hq, hdivide⟩ := divide_total hne hn (toInt_count h hcount)
  exact ⟨q, hq, average_of_sum (present_ne_nil h hne) hsum hdivide⟩

/-- The average fails with the sum, and never for a reason of its own. -/
theorem average_eq_error_iff (h : Integral values) (hcount : (integers values).length < 2 ^ 63)
    (name : String) (fault : Fault) :
    average name values = .error fault ↔ sumOf name values = .error fault := by
  by_cases hempty : integers values = []
  · rw [average_of_no_integer h hempty, sumOf_of_no_integer h hempty]
  · refine ⟨fun hfault => ?_, average_of_sum_refused (present_ne_nil h hempty)⟩
    rcases sumOf_cases h name with ⟨hfit, _⟩ | ⟨_, _, _, _, _, _, hrefused⟩
    · obtain ⟨q, _, hresult⟩ := average_exact h hcount hempty hfit name
      rw [hresult] at hfault
      cases hfault
    · rw [average_of_sum_refused (present_ne_nil h hempty) hrefused] at hfault
      rw [hrefused, hfault]

/-- What the aggregates of integers and nulls come to, whatever spelling they are called by. A count
is one of 64 bits, which hold the length of every list in memory. -/
structure Totals (values : List Value) : Prop where
  count : (integers values).length < 2 ^ 63 → ∀ name, ∃ n : Int64,
    n.toInt = (integers values).length ∧
      AggregateFunction.count.apply name values = .ok (.integer n)
  sum_none : integers values = [] → ∀ name, AggregateFunction.sum.apply name values = .ok .null
  sum_exact : integers values ≠ [] → PrefixesFit (integers values) → ∀ name, ∃ n : Int64,
    n.toInt = total (integers values) ∧ AggregateFunction.sum.apply name values = .ok (.integer n)
  sum_refused : ¬PrefixesFit (integers values) → ∀ name,
    RefusedSum name (integers values) (AggregateFunction.sum.apply name values)
  average_none : integers values = [] → ∀ name, AggregateFunction.avg.apply name values = .ok .null
  average_exact : (integers values).length < 2 ^ 63 → integers values ≠ [] →
    PrefixesFit (integers values) → ∀ name, ∃ q : Int64,
      q.toInt = truncate (total (integers values) / (integers values).length) ∧
        AggregateFunction.avg.apply name values = .ok (.integer q)
  average_refused : (integers values).length < 2 ^ 63 → ∀ name fault,
    (AggregateFunction.avg.apply name values = .error fault ↔
      AggregateFunction.sum.apply name values = .error fault)

theorem totals_of_integral (h : Integral values) : Totals values where
  count hcount _ := ⟨_, toInt_count h hcount, rfl⟩
  sum_none := sumOf_of_no_integer h
  sum_exact := sumOf_exact h
  sum_refused := sumOf_of_not_fit h
  average_none := average_of_no_integer h
  average_exact := average_exact h
  average_refused := average_eq_error_iff h

/-- The value is the exact sum of two, and null adds nothing. -/
inductive ExactSum : Value → Value → Value → Prop
  | null_left (v : Value) : ExactSum .null v v
  | null_right (v : Value) : ExactSum v .null v
  | integers {m n k : Int64} (h : k.toInt = m.toInt + n.toInt) :
    ExactSum (.integer m) (.integer n) (.integer k)

/-- The running sums of two lists and of both together. -/
theorem exactSum_running {js : List Int64} (hi : FitsInt64 (total is)) (hj : FitsInt64 (total js))
    (hboth : FitsInt64 (total (is ++ js))) :
    ExactSum ((running is).getD .null) ((running js).getD .null)
      ((running (is ++ js)).getD .null) := by
  by_cases hempty : is = []
  · rw [hempty]
    exact .null_left _
  by_cases hempty' : js = []
  · rw [hempty', List.append_nil]
    exact .null_right _
  obtain ⟨m, hm, hrunning⟩ := exists_running hempty hi
  obtain ⟨n, hn, hrunning'⟩ := exists_running hempty' hj
  obtain ⟨k, hk, hrunningBoth⟩ := exists_running (by simp [hempty]) hboth
  rw [hrunning, hrunning', hrunningBoth]
  exact .integers (by rw [hk, hm, hn, total_append])

/-- What the aggregates of two lists say about those of both together. -/
structure SplitTotals (xs ys : List Value) : Prop where
  count : (integers (xs ++ ys)).length < 2 ^ 63 → ∀ name, ∃ m n k : Int64,
    AggregateFunction.count.apply name xs = .ok (.integer m) ∧
    AggregateFunction.count.apply name ys = .ok (.integer n) ∧
    AggregateFunction.count.apply name (xs ++ ys) = .ok (.integer k) ∧
    k.toInt = m.toInt + n.toInt
  collect : ∀ name, ∃ as bs,
    AggregateFunction.collect.apply name xs = .ok (.array as) ∧
    AggregateFunction.collect.apply name ys = .ok (.array bs) ∧
    AggregateFunction.collect.apply name (xs ++ ys) = .ok (.array (as ++ bs))
  sum : ∀ name u v w,
    AggregateFunction.sum.apply name xs = .ok u → AggregateFunction.sum.apply name ys = .ok v →
    AggregateFunction.sum.apply name (xs ++ ys) = .ok w → ExactSum u v w

theorem splitTotals_of_integral (hx : Integral xs) (hy : Integral ys) : SplitTotals xs ys := by
  have hboth : Integral (xs ++ ys) := fun v hv => (List.mem_append.mp hv).elim (hx v) (hy v)
  refine ⟨fun hcount _ => ⟨_, _, _, rfl, rfl, rfl, ?_⟩, fun _ => ⟨xs, ys, rfl, rfl, rfl⟩, ?_⟩
  · have hcounts := hcount
    rw [integers_append, List.length_append] at hcounts
    rw [toInt_count hboth hcount, toInt_count hx (by omega), toInt_count hy (by omega),
      integers_append, List.length_append, Nat.cast_add]
  · intro name u v w hu hv hw
    obtain ⟨hfitsX, rfl⟩ := sumOf_eq_ok hx hu
    obtain ⟨hfitsY, rfl⟩ := sumOf_eq_ok hy hv
    obtain ⟨hfitsBoth, rfl⟩ := sumOf_eq_ok hboth hw
    rw [integers_append] at hfitsBoth ⊢
    exact exactSum_running hfitsX hfitsY hfitsBoth

/-- Aggregates of integers, nulls anywhere between them, are exact or refused. `COUNT` counts the
integers. `SUM` is exact if the sums of all prefixes fit into 64 bits; otherwise it fails at the
first that does not. `AVG` fails where `SUM` does, and is else the exact sum by the count, cut
toward zero. Both are null without an integer. For two lists in one, counts add up, collected values
follow one another, and sums that are not refused add up. -/
theorem integer_totals_exact :
    (∀ values, Integral values → Totals values) ∧
    ∀ xs ys, Integral xs → Integral ys → SplitTotals xs ys :=
  ⟨fun _ => totals_of_integral, fun _ _ => splitTotals_of_integral⟩

/-- Integers whose sum fits, though that of the first two does not. -/
def crossing : List Value := [.integer Int64.maxValue, .null, .integer 1, .integer (-1)]

/-- A sum that leaves the range on the way, an average below zero, and sums of which one is null. -/
theorem integer_totals_exact_crossing :
    RefusedSum "sum" [Int64.maxValue, 1, -1] (AggregateFunction.sum.apply "sum" crossing) ∧
    AggregateFunction.sum.apply "sum" crossing = .error (.aggregate "sum"
      "Query execution error: Integer overflow in 9223372036854775807 + 1") ∧
    (∃ q : Int64, q.toInt = truncate (total [-7, 2] / ([-7, 2] : List Int64).length) ∧
      AggregateFunction.avg.apply "avg" [.integer (-7), .null, .integer 2] = .ok (.integer q)) ∧
    AggregateFunction.avg.apply "avg" [.integer (-7), .null, .integer 2] =
      .ok (.integer (-2)) ∧
    ExactSum .null (.integer (-5)) (.integer (-5)) := by
  refine ⟨?_, rfl, ?_, rfl, ?_⟩
  · exact (integer_totals_exact.1 crossing (by decide)).sum_refused (by decide) "sum"
  · exact (integer_totals_exact.1 [.integer (-7), .null, .integer 2] (by decide)).average_exact
      (by decide) (by decide) (by decide) "avg"
  · exact (integer_totals_exact.2 [.null] [.integer (-7), .null, .integer 2] (by decide)
      (by decide)).sum "sum" _ _ _ rfl rfl rfl

end AggregateFunction
end StreamSelect
