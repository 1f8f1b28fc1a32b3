import StreamSelect.Fault
import StreamSelect.Row

/-!
What arrives at a selection and leaves it: a row, a batch of rows in one window, the groups of a
grouped stream, or the fault of an earlier stage.
-/
namespace StreamSelect

/-- Rows in order, in the window they share if there is one. -/
structure Batch where
  rows : List Row := []
  window : Option Window := none
  deriving Inhabited

namespace Batch

def first? (b : Batch) : Option Row := b.rows.head?

def size (b : Batch) : Nat := b.rows.length

def isEmpty (b : Batch) : Bool := b.rows.isEmpty

end Batch

inductive Packet
  | row (row : Row)
  | batch (batch : Batch)
  | groups (groups : List Batch)
  | fault (fault : Fault)
  deriving Inhabited

end StreamSelect
