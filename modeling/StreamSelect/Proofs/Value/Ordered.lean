import Mathlib.Data.Prod.Lex
import Mathlib.Data.String.Basic
import StreamSelect.Evaluation
import StreamSelect.Proofs.Decimal.Difference

/-!
Which values have an order. Values of one ordered kind are put in order by a key: integers and
decimals by their numbers, timestamps by their fields from left to right. Values that can be
compared at all belong to one class, where numbers of all kinds make up a single one.
-/
namespace StreamSelect

/-- The fields from left to right, the first of them deciding. -/
def Timestamp.key (t : Timestamp) : ℤ ×ₗ ℕ ×ₗ ℕ ×ₗ ℕ ×ₗ ℕ ×ₗ ℕ ×ₗ ℕ :=
  toLex (t.year, toLex (t.month, toLex (t.day, toLex (t.hour, toLex (t.minute,
    toLex (t.second, t.nanosecond))))))

theorem Timestamp.compare_eq (a b : Timestamp) : a.compare b = Ord.compare a.key b.key := by
  simp only [Timestamp.compare, key, Prod.Lex.compare_def, compareLex, compareOn, ofLex_toLex]

namespace Value
variable {v w : Value} {o : Ordering}

/-- The kinds whose values are all in order. Doubles are not among them. -/
inductive OrderedKind
  | integer
  | text
  | boolean
  | timestamp
  | decimal

def orderedKind? : Value → Option OrderedKind
  | .integer _ => some .integer
  | .text _ => some .text
  | .boolean _ => some .boolean
  | .timestamp _ => some .timestamp
  | .decimal _ => some .decimal
  | _ => none

/-- The classes of values that can be compared with each other. -/
inductive OrderClass
  | number
  | text
  | boolean
  | timestamp
  deriving DecidableEq

/-- The class of a value. Sequences and mappings have none, and null has none either. -/
def orderClass? : Value → Option OrderClass
  | .integer _ | .float _ | .decimal _ => some .number
  | .text _ => some .text
  | .boolean _ => some .boolean
  | .timestamp _ => some .timestamp
  | _ => none

/-- Values are compared inside of a class only. -/
theorem orderClass_of_compare? (h : v.compare? w = some o) :
    ∃ c, v.orderClass? = some c ∧ w.orderClass? = some c := by
  cases v <;> cases w <;> first | exact ⟨_, rfl, rfl⟩ | cases h

/-- A relation between comparable values goes by their order. -/
theorem relation_compare (h : v.compare? w = some o) (op : Relation) :
    op.compare v w = .ok (.boolean (op.holds o)) := by
  have hequals : v.equals w = (o == .eq) := by
    unfold equals
    rw [h]
  cases op <;> simp [Relation.compare, Relation.holds, hequals, h, bne]

def integerKey : Value → ℤ
  | .integer i => i.toInt
  | _ => 0

def textKey : Value → String
  | .text s => s
  | _ => ""

def booleanKey : Value → Bool
  | .boolean b => b
  | _ => false

def timestampKey : Value → ℤ ×ₗ ℕ ×ₗ ℕ ×ₗ ℕ ×ₗ ℕ ×ₗ ℕ ×ₗ ℕ
  | .timestamp t => t.key
  | _ => Timestamp.key ⟨0, 0, 0, 0, 0, 0, 0⟩

def decimalKey : Value → ℚ
  | .decimal d => d.toRat
  | _ => 0

/-- The key puts the two values in order. -/
def Keyed {L : Type} [LinearOrder L] (key : Value → L) (v w : Value) : Prop :=
  v.compare? w = some (compare (key v) (key w))

theorem exists_keyed (kind : OrderedKind) : ∃ (L : Type) (_ : LinearOrder L) (key : Value → L),
    ∀ v w : Value, v.orderedKind? = some kind → w.orderedKind? = some kind → Keyed key v w := by
  cases kind with
  | integer =>
    refine ⟨ℤ, inferInstance, integerKey, fun v w hv hw => ?_⟩
    cases v <;> cases hv
    cases w <;> cases hw
    rfl
  | text =>
    refine ⟨String, inferInstance, textKey, fun v w hv hw => ?_⟩
    cases v <;> cases hv
    cases w <;> cases hw
    rfl
  | boolean =>
    refine ⟨Bool, inferInstance, booleanKey, fun v w hv hw => ?_⟩
    cases v <;> cases hv
    cases w <;> cases hw
    rfl
  | timestamp =>
    refine ⟨_, inferInstance, timestampKey, fun v w hv hw => ?_⟩
    cases v <;> cases hv
    cases w <;> cases hw
    exact congrArg some (Timestamp.compare_eq _ _)
  | decimal =>
    refine ⟨ℚ, inferInstance, decimalKey, fun v w hv hw => ?_⟩
    cases v <;> cases hv
    cases w <;> cases hw
    exact congrArg some (Decimal.compare_eq _ _)

end Value
end StreamSelect
