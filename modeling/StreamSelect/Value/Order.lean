import StreamSelect.Value.Basic

/-!
Equality and order of values. `Value.same` is structural: kinds must agree, decimals are compared
as numbers, and what is not a number differs from itself. `Value.compare?` orders values of one
kind and numbers of any kind; `Value.equals` is what the operator `=` uses.
-/
namespace StreamSelect.Value

mutual

/-- Structural equality. -/
def same : Value → Value → Bool
  | .null, .null => true
  | .boolean a, .boolean b => a == b
  | .integer a, .integer b => a == b
  | .float a, .float b => a == b
  | .decimal a, .decimal b => a.compare b == .eq
  | .text a, .text b => a == b
  | .timestamp a, .timestamp b => a == b
  | .array a, .array b => sameItems a b
  | .map a, .map b => sameEntries a b
  | _, _ => false

/-- Equality of sequences, item by item. -/
def sameItems : List Value → List Value → Bool
  | [], [] => true
  | v :: vs, w :: ws => same v w && sameItems vs ws
  | _, _ => false

/-- Equality of mappings, whose entries are in key order. -/
def sameEntries : List (String × Value) → List (String × Value) → Bool
  | [], [] => true
  | (k, v) :: vs, (l, w) :: ws => k == l && same v w && sameEntries vs ws
  | _, _ => false

end

/-- The order of two doubles, none if one of them is not a number. -/
def compareFloat? (a b : Float) : Option Ordering :=
  if a < b then some .lt
  else if a == b then some .eq
  else if b < a then some .gt
  else none

/-- The order of two comparable values. Numbers of different kinds are compared as doubles. -/
def compare? : Value → Value → Option Ordering
  | .text a, .text b => some (compare a b)
  | .boolean a, .boolean b => some (compare a b)
  | .timestamp a, .timestamp b => some (a.compare b)
  | .integer a, .integer b => some (compare a.toInt b.toInt)
  | .decimal a, .decimal b => some (a.compare b)
  | a, b => do compareFloat? (← a.toFloat?) (← b.toFloat?)

/-- Equality that takes equal numbers of different kinds as equal. -/
def equals (a b : Value) : Bool :=
  match a.compare? b with
  | some ordering => ordering == .eq
  | none => a.same b

end StreamSelect.Value
