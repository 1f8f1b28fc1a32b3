import StreamSelect.Fault
import StreamSelect.Value.Text

/-!
Steps into structured values: by key, by position and by a range of positions. Null answers every
step with null. Positions below zero count from the end; a range is cut to the sequence, while a
single position outside it is a fault.
-/
namespace StreamSelect.Value

/-- The value at a key of a mapping, null if there is none. Keys are matched as they are spelt. -/
def atKey (v : Value) (key : String) : Outcome Value :=
  match v with
  | .map entries => .ok ((KeyedMap.lookupEntry key entries).getD .null)
  | .null => .ok .null
  | other => .error (.notNavigable key other.kindName)

/-- A position counted from the start, `n` being the length. -/
def fromStart (n : Nat) (position : Int64) : Int :=
  if position.toInt < 0 then n + position.toInt else position.toInt

/-- A position brought into the range from 0 to `n`. -/
def clampPosition (n : Nat) (position : Int64) : Nat :=
  min (fromStart n position).toNat n

/-- The value at a position of a sequence. -/
def atIndex (v : Value) (index : Int64) : Outcome Value :=
  match v with
  | .array items =>
    let position := fromStart items.length index
    match if 0 ≤ position then items[position.toNat]? else none with
    | some item => .ok item
    | none => .error (.indexOutOfRange index items.length)
  | .null => .ok .null
  | other => .error (.wrongKind "ARRAY" other.kindName (some other.display))

/-- The items from position `start` up to but not including `stop`. -/
def slice (v : Value) (start stop : Option Int64) : Outcome Value :=
  match v with
  | .array items =>
    let first := (start.map (clampPosition items.length)).getD 0
    let last := (stop.map (clampPosition items.length)).getD items.length
    .ok (.array ((items.take last).drop first))
  | .null => .ok .null
  | other => .error (.wrongKind "ARRAY" other.kindName (some other.display))

end StreamSelect.Value
