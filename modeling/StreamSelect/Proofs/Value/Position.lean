import Mathlib.Data.List.Basic
import StreamSelect.Proofs.Value.Integer
import StreamSelect.Value.Path

/-!
Positions in sequences. A bound of a range is brought into the sequence and a single position has to
be in it, but both are counted in the same way, from the end if they are below zero. So ranges that
meet make up the range over both, and the item at a position is the range from it to the next one.
-/
namespace StreamSelect.Value
variable {items : List Value} {n : ℕ}

/-- A bound, counted from the end if it is below zero, and cut to the range from 0 to `n`. -/
def bound (n : ℕ) (k : ℤ) : ℤ := max 0 (min n (if k < 0 then n + k else k))

/-- The first position of a range: without a bound that of the sequence. -/
def lowerBound (n : ℕ) (start : Option Int64) : ℤ := start.elim 0 fun k => bound n k.toInt

/-- The position behind a range: without a bound that behind the sequence. -/
def upperBound (n : ℕ) (stop : Option Int64) : ℤ := stop.elim n fun k => bound n k.toInt

/-- The items at the positions from `low` up to but not including `high`, in order. -/
def itemsBetween (items : List Value) (low high : ℤ) : List Value :=
  (items.zipIdx.filter fun item => low ≤ item.2 ∧ item.2 < high).map Prod.fst

theorem clampPosition_eq (n : ℕ) (k : Int64) : (clampPosition n k : ℤ) = bound n k.toInt := by
  unfold clampPosition bound fromStart
  split <;> omega

theorem filter_zipIdx (items : List Value) (k low high : ℕ) :
    ((items.zipIdx k).filter fun item => (low : ℤ) ≤ item.2 ∧ (item.2 : ℤ) < high).map Prod.fst =
      (items.take (high - k)).drop (low - k) := by
  induction items generalizing k with
  | nil => simp
  | cons item items ih =>
    have hrest := ih (k + 1)
    rw [List.zipIdx_cons]
    by_cases hhigh : k < high
    · have htake : high - k = high - (k + 1) + 1 := by omega
      by_cases hlow : low ≤ k
      · rw [List.filter_cons_of_pos (by simp [hlow, hhigh]), List.map_cons, hrest, htake,
          List.take_succ_cons, Nat.sub_eq_zero_of_le hlow, Nat.sub_eq_zero_of_le (by omega),
          List.drop_zero, List.drop_zero]
      · have hdrop : low - k = low - (k + 1) + 1 := by omega
        rw [List.filter_cons_of_neg (by simp [hlow]), hrest, htake, hdrop, List.take_succ_cons,
          List.drop_succ_cons]
    · have htake : high - k = 0 := by omega
      have htake' : high - (k + 1) = 0 := by omega
      rw [List.filter_cons_of_neg (by simp [hhigh]), hrest, htake, htake', List.take_zero,
        List.take_zero, List.drop_nil, List.drop_nil]

/-- The items from one position to another, taken from the front and then dropped. -/
theorem itemsBetween_eq (items : List Value) (low high : ℕ) :
    itemsBetween items low high = (items.take high).drop low :=
  filter_zipIdx items 0 low high

theorem exists_lowerBound (n : ℕ) (start : Option Int64) :
    ∃ first : ℕ, lowerBound n start = first ∧ first ≤ n ∧
      (start.map (clampPosition n)).getD 0 = first := by
  cases start with
  | none => exact ⟨0, rfl, n.zero_le, rfl⟩
  | some k => exact ⟨_, (clampPosition_eq n k).symm, Nat.min_le_right _ _, rfl⟩

theorem exists_upperBound (n : ℕ) (stop : Option Int64) :
    ∃ last : ℕ, upperBound n stop = last ∧ last ≤ n ∧
      (stop.map (clampPosition n)).getD n = last := by
  cases stop with
  | none => exact ⟨n, rfl, n.le_refl, rfl⟩
  | some k => exact ⟨_, (clampPosition_eq n k).symm, Nat.min_le_right _ _, rfl⟩

theorem slice_array (items : List Value) (start stop : Option Int64) :
    (array items).slice start stop = .ok (.array (itemsBetween items
      (lowerBound items.length start) (upperBound items.length stop))) := by
  obtain ⟨first, hfirst, _, hstart⟩ := exists_lowerBound items.length start
  obtain ⟨last, hlast, _, hstop⟩ := exists_upperBound items.length stop
  simp only [slice, hstart, hstop, hfirst, hlast, itemsBetween_eq]

/-- Ranges that meet make up the range over both. -/
theorem itemsBetween_append {low mid high : ℕ} (hlow : low ≤ mid) (hmid : mid ≤ high)
    (hhigh : high ≤ items.length) :
    itemsBetween items low mid ++ itemsBetween items mid high = itemsBetween items low high := by
  have hlength : low ≤ (items.take mid).length := by
    rw [List.length_take]
    omega
  have htake : items.take high = items.take mid ++ (items.take high).drop mid := by
    have hsplit := (List.take_append_drop mid (items.take high)).symm
    rwa [List.take_take, min_eq_left hmid] at hsplit
  rw [itemsBetween_eq, itemsBetween_eq, itemsBetween_eq]
  conv_rhs => rw [htake, List.drop_append_of_le_length hlength]

theorem itemsBetween_all (items : List Value) : itemsBetween items 0 items.length = items := by
  have hall := itemsBetween_eq items 0 items.length
  rwa [List.take_length, List.drop_zero] at hall

/-- The range of a single position. -/
theorem itemsBetween_single {p : ℕ} (h : p < items.length) :
    itemsBetween items p (p + 1) = [items[p]] := by
  have hrange := itemsBetween_eq items p (p + 1)
  rwa [List.drop_take, List.drop_eq_getElem_cons h, Nat.add_sub_cancel_left] at hrange

/-- The position that counting in 64 bits comes to is exact for a sequence that memory holds. -/
theorem toInt_fromStart (h : n < 2 ^ 63) (k : Int64) :
    (if k < 0 then Int64.ofNat n + k else k).toInt = fromStart n k := by
  have hneg : k < 0 ↔ k.toInt < 0 := Int64.lt_iff_toInt_lt
  have hn := Int64.toInt_ofNat_of_lt h
  unfold fromStart
  by_cases hbelow : k.toInt < 0
  · have hfits : FitsInt64 ((Int64.ofNat n).toInt + k.toInt) := by
      have hk := fitsInt64_toInt k
      unfold FitsInt64 at *
      omega
    rw [if_pos (hneg.mpr hbelow), if_pos hbelow, toInt_add_of_fits hfits, hn]
  · rw [if_neg (mt hneg.mp hbelow), if_neg hbelow]

/-- The positions of the items are counted up to the last, or down to the first. -/
theorem fromStart_inBounds_iff {k : Int64} :
    0 ≤ fromStart n k ∧ fromStart n k < n ↔ -(n : ℤ) ≤ k.toInt ∧ k.toInt < n := by
  unfold fromStart
  split <;> omega

theorem atIndex_inBounds {k : Int64} (h : 0 ≤ fromStart items.length k)
    (hlt : (fromStart items.length k).toNat < items.length) :
    (array items).atIndex k = .ok items[(fromStart items.length k).toNat] := by
  simp only [atIndex, if_pos h, List.getElem?_eq_getElem hlt]

theorem atIndex_refused {k : Int64}
    (h : ¬(-(items.length : ℤ) ≤ k.toInt ∧ k.toInt < items.length)) :
    (array items).atIndex k = .error (.indexOutOfRange k items.length) := by
  have hnone : (if 0 ≤ fromStart items.length k then items[(fromStart items.length k).toNat]?
      else none) = none := by
    split
    next hnonneg =>
      refine List.getElem?_eq_none ?_
      have := mt fromStart_inBounds_iff.mp h
      omega
    next => rfl
  simp only [atIndex, hnone]

/-- How positions address the items of a sequence. -/
structure Addressed (items : List Value) : Prop where
  /-- Counting from the end stays within 64 bits, so it is exact. -/
  counted : ∀ k : Int64, (Int64.ofNat items.length).toInt = items.length ∧
    (if k < 0 then Int64.ofNat items.length + k else k).toInt = fromStart items.length k
  clamped : ∀ k, (clampPosition items.length k : ℤ) = bound items.length k.toInt ∧
    clampPosition items.length k ≤ items.length
  slice : ∀ start stop, (array items).slice start stop = .ok (.array (itemsBetween items
    (lowerBound items.length start) (upperBound items.length stop)))
  split : ∀ k, ∃ front back, (array items).slice none (some k) = .ok (.array front) ∧
    (array items).slice (some k) none = .ok (.array back) ∧ front ++ back = items
  join : ∀ start k stop, lowerBound items.length start ≤ bound items.length k.toInt →
    bound items.length k.toInt ≤ upperBound items.length stop →
    ∃ front back, (array items).slice start (some k) = .ok (.array front) ∧
      (array items).slice (some k) stop = .ok (.array back) ∧
      (array items).slice start stop = .ok (.array (front ++ back))
  index : ∀ i : Int64, -(items.length : ℤ) ≤ i.toInt → i.toInt < items.length →
    ∃ h : (fromStart items.length i).toNat < items.length,
      (array items).atIndex i = .ok items[(fromStart items.length i).toNat]
  refused : ∀ i : Int64, ¬(-(items.length : ℤ) ≤ i.toInt ∧ i.toInt < items.length) →
    (array items).atIndex i = .error (.indexOutOfRange i items.length)
  fromEnd : ∀ i : Int64, 0 ≤ i.toInt → i.toInt < items.length →
    (array items).atIndex i = (array items).atIndex (i - .ofNat items.length)
  single : ∀ i : Int64, -(items.length : ℤ) ≤ i.toInt → i.toInt < items.length →
    ∃ v, (array items).atIndex i = .ok v ∧
      (array items).slice (some i) (if i = -1 then none else some (i + 1)) = .ok (.array [v])

theorem bound_inRange (n : ℕ) (k : ℤ) : 0 ≤ bound n k ∧ bound n k ≤ n := by
  unfold bound
  omega

/-- Slices that meet make up the slice over both. -/
theorem slice_join (items : List Value) (start : Option Int64) (k : Int64)
    (stop : Option Int64)
    (hstart : lowerBound items.length start ≤ bound items.length k.toInt)
    (hstop : bound items.length k.toInt ≤ upperBound items.length stop) :
    ∃ front back, (array items).slice start (some k) = .ok (.array front) ∧
      (array items).slice (some k) stop = .ok (.array back) ∧
      (array items).slice start stop = .ok (.array (front ++ back)) := by
  obtain ⟨first, hfirst, _, _⟩ := exists_lowerBound items.length start
  obtain ⟨last, hlast, hlength, _⟩ := exists_upperBound items.length stop
  refine ⟨_, _, slice_array .., slice_array .., ?_⟩
  rw [slice_array]
  change _ = Except.ok (Value.array (itemsBetween items _ (bound items.length k.toInt) ++
    itemsBetween items (bound items.length k.toInt) _))
  rw [hfirst, ← clampPosition_eq] at hstart
  rw [hlast, ← clampPosition_eq] at hstop
  rw [hfirst, hlast, ← clampPosition_eq,
    itemsBetween_append (by exact_mod_cast hstart) (by exact_mod_cast hstop) hlength]

theorem slice_all (items : List Value) : (array items).slice none none = .ok (.array items) := by
  rw [slice_array]
  exact congrArg (fun range => Except.ok (Value.array range)) (itemsBetween_all items)

/-- The slice from a position of the sequence up to the next one. -/
theorem slice_single (h : items.length < 2 ^ 63) {i : Int64}
    (hi : 0 ≤ fromStart items.length i)
    (hlt : (fromStart items.length i).toNat < items.length) :
    (array items).slice (some i) (if i = -1 then none else some (i + 1)) =
      .ok (.array [items[(fromStart items.length i).toNat]]) := by
  have hlower : lowerBound items.length (some i) = (fromStart items.length i).toNat := by
    change bound _ _ = _
    unfold bound fromStart at *
    omega
  have hupper : upperBound items.length (if i = -1 then none else some (i + 1)) =
      (fromStart items.length i).toNat + 1 := by
    have hminus : i = -1 ↔ i.toInt = -1 := Int64.toInt_inj.symm
    by_cases hlast : i = -1
    · rw [if_pos hlast]
      change (items.length : ℤ) = _
      have := hminus.mp hlast
      unfold fromStart at *
      omega
    · rw [if_neg hlast]
      change bound _ (i + 1).toInt = _
      have hfits : FitsInt64 (i.toInt + Int64.toInt 1) := by
        have hi' := fitsInt64_toInt i
        have hone : Int64.toInt 1 = 1 := rfl
        unfold fromStart FitsInt64 at *
        omega
      have := mt hminus.mpr hlast
      rw [toInt_add_of_fits hfits, show Int64.toInt 1 = 1 from rfl]
      unfold bound fromStart at *
      omega
  rw [slice_array, hlower, hupper, itemsBetween_single hlt]

/-- Counting an item from the end or from the start is the same. -/
theorem fromStart_sub (h : n < 2 ^ 63) {i : Int64} (hi : 0 ≤ i.toInt) (hlt : i.toInt < n) :
    fromStart n (i - .ofNat n) = fromStart n i := by
  have hn := Int64.toInt_ofNat_of_lt h
  have hfits : FitsInt64 (i.toInt - (Int64.ofNat n).toInt) := by
    unfold FitsInt64
    omega
  unfold fromStart
  rw [toInt_sub_of_fits hfits, hn]
  split <;> omega

/-- In a sequence that memory holds, a slice is the items from its first bound up to but not
including its second, both cut to the sequence, so that slices which meet make up the slice over
both. A single position from minus the length up to the length is that of an item, the same item
from either end and the only one of the slice that ends behind it; any other is reported with the
length. Counting never leaves 64 bits, and no item is read that is not there. -/
theorem array_addressed (h : items.length < 2 ^ 63) : Addressed items := by
  have hindex : ∀ i : Int64, -(items.length : ℤ) ≤ i.toInt → i.toInt < items.length →
      0 ≤ fromStart items.length i ∧
        (fromStart items.length i).toNat < items.length := by
    intro i hi hlt
    obtain ⟨hnonneg, hlast⟩ := fromStart_inBounds_iff.mpr ⟨hi, hlt⟩
    exact ⟨hnonneg, by omega⟩
  constructor
  case counted => exact fun k => ⟨Int64.toInt_ofNat_of_lt h, toInt_fromStart h k⟩
  case clamped => exact fun k => ⟨clampPosition_eq _ k, Nat.min_le_right _ _⟩
  case slice => exact slice_array items
  case split =>
    intro k
    obtain ⟨hlow, hhigh⟩ := bound_inRange items.length k.toInt
    obtain ⟨front, back, hfront, hback, hall⟩ := slice_join items none k none hlow hhigh
    rw [slice_all] at hall
    cases hall
    exact ⟨front, back, hfront, hback, rfl⟩
  case join => exact slice_join items
  case index =>
    intro i hi hlt
    obtain ⟨hnonneg, hlast⟩ := hindex i hi hlt
    exact ⟨hlast, atIndex_inBounds hnonneg hlast⟩
  case refused => exact fun i => atIndex_refused
  case fromEnd =>
    intro i hi hlt
    obtain ⟨hnonneg, hlast⟩ := hindex i (by omega) hlt
    have hsame := fromStart_sub h hi hlt
    simp only [atIndex, hsame, if_pos hnonneg, List.getElem?_eq_getElem hlast]
  case single =>
    intro i hi hlt
    obtain ⟨hnonneg, hlast⟩ := hindex i hi hlt
    exact ⟨_, atIndex_inBounds hnonneg hlast, slice_single h hnonneg hlast⟩

/-- A text, a null and an integer, sliced from before the start and read from the end. -/
theorem array_addressed_ofThree :
    let items : List Value := [.text "a", .null, .integer 7]
    Addressed items ∧
      (array items).slice (some Int64.minValue) (some (-1)) = .ok (.array [.text "a", .null]) ∧
      (array items).slice (some 2) (some 1) = .ok (.array []) ∧
      (array items).atIndex (-3) = .ok (.text "a") ∧
      (array items).atIndex (-4) = .error (.indexOutOfRange (-4) 3) ∧
      ∃ front back, (array items).slice none (some 5) = .ok (.array front) ∧
        (array items).slice (some 5) none = .ok (.array back) ∧ front ++ back = items := by
  intro items
  have h : Addressed items := array_addressed (by decide)
  exact ⟨h, rfl, rfl, rfl, rfl, h.split 5⟩

end StreamSelect.Value
