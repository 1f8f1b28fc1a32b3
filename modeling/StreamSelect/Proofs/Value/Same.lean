import Mathlib
import StreamSelect.Proofs.Decimal.Difference
import StreamSelect.Value.Order

/-!
Structural equality is transitive at any depth. Decimals are the same if their numbers are, whatever
their scales. It is not reflexive: what is not a number differs from itself, and so does all that
contains it.
-/
namespace StreamSelect.Value
variable {v w : Value}

/-- The kinds of which only equal values are the same. -/
def isPlain : Value → Bool
  | null | boolean _ | integer _ | text _ | timestamp _ => true
  | _ => false

theorem same_iff_of_isPlain (h : v.isPlain = true) : v.same w = true ↔ v = w := by
  cases v <;> cases w <;> simp_all [isPlain, same]

theorem same_decimal_iff (a b : Decimal) :
    (decimal a).same (decimal b) = true ↔ a.toRat = b.toRat := by
  rw [same, beq_iff_eq, Decimal.compare_eq, compare_eq_iff_eq]

/-- Zeros of either sign are equal, as doubles. -/
theorem same_float_iff (a b : Float) : (float a).same (float b) = true ↔
    a ≠ .nan ∧ b ≠ .nan ∧ (a = b ∨ a = 0 ∧ b = -0 ∨ a = -0 ∧ b = 0) := by
  rw [same, Float.beq_iff_ne_nan_and_eq]

mutual

theorem same_trans {v w x : Value} (h : v.same w = true) (h' : w.same x = true) :
    v.same x = true := by
  cases v with
  | float a =>
    cases w with
    | float b =>
      cases x with
      | float c =>
        rw [same_float_iff] at h h' ⊢
        grind
      | _ => cases h'
    | _ => cases h
  | decimal a =>
    cases w with
    | decimal b =>
      cases x with
      | decimal c =>
        rw [same_decimal_iff] at h h' ⊢
        exact h.trans h'
      | _ => cases h'
    | _ => cases h
  | array vs =>
    cases w with
    | array ws =>
      cases x with
      | array xs => exact sameItems_trans vs ws xs h h'
      | _ => cases h'
    | _ => cases h
  | map vs =>
    cases w with
    | map ws =>
      cases x with
      | map xs => exact sameEntries_trans vs ws xs h h'
      | _ => cases h'
    | _ => cases h
  | _ =>
    obtain rfl := (same_iff_of_isPlain rfl).mp h
    exact h'
termination_by structural v

theorem sameItems_trans (vs ws xs : List Value) (h : sameItems vs ws = true)
    (h' : sameItems ws xs = true) : sameItems vs xs = true := by
  cases vs with
  | nil =>
    cases ws with
    | nil => exact h'
    | cons w ws => cases h
  | cons v vs =>
    cases ws with
    | nil => cases h
    | cons w ws =>
      cases xs with
      | nil => cases h'
      | cons x xs =>
        rw [sameItems, Bool.and_eq_true] at h h' ⊢
        exact ⟨same_trans h.1 h'.1, sameItems_trans vs ws xs h.2 h'.2⟩
termination_by structural vs

theorem sameEntries_trans (vs ws xs : List (String × Value)) (h : sameEntries vs ws = true)
    (h' : sameEntries ws xs = true) : sameEntries vs xs = true := by
  cases vs with
  | nil =>
    cases ws with
    | nil => exact h'
    | cons w ws => cases h
  | cons v vs =>
    cases ws with
    | nil => cases h
    | cons w ws =>
      cases xs with
      | nil => cases h'
      | cons x xs =>
        rw [sameEntries, Bool.and_eq_true, Bool.and_eq_true, beq_iff_eq] at h h' ⊢
        exact ⟨⟨h.1.1.trans h'.1.1, same_trans h.1.2 h'.1.2⟩,
          sameEntries_trans vs ws xs h.2 h'.2⟩
termination_by structural vs

end

end StreamSelect.Value
