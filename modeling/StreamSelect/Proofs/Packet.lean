import Mathlib.Data.List.Forall2
import StreamSelect.Packet

/-!
Packets of one shape, related row by row.
-/
namespace StreamSelect.Packet

/-- Two single rows, or two batches in one window with as many rows, whose rows are related in
order. -/
inductive Rowwise (R : Row → Row → Prop) : Packet → Packet → Prop
  | row {r r' : Row} (h : R r r') : Rowwise R (.row r) (.row r')
  | batch {rows rows' : List Row} {window : Option Window} (h : List.Forall₂ R rows rows') :
    Rowwise R (.batch ⟨rows, window⟩) (.batch ⟨rows', window⟩)

/-- Two packets of one kind with as many rows, also in each group, whose rows are related in order.
Windows are the same. -/
inductive Matched (R : Row → Row → Prop) : Packet → Packet → Prop
  | rowwise {input input' : Packet} (h : Rowwise R input input') : Matched R input input'
  | groups {groups groups' : List Batch}
    (h : List.Forall₂ (fun b b' => Rowwise R (.batch b) (.batch b')) groups groups') :
    Matched R (.groups groups) (.groups groups')
  | fault (cause : Fault) : Matched R (.fault cause) (.fault cause)

/-- The packet with every row replaced. -/
def mapRows (f : Row → Row) : Packet → Packet
  | .row r => .row (f r)
  | .batch b => .batch { b with rows := b.rows.map f }
  | .groups gs => .groups (gs.map fun b => { b with rows := b.rows.map f })
  | .fault cause => .fault cause

/-- Where a function makes the rows of one packet out of those of the other, it makes the packet. -/
theorem Rowwise.mapRows_eq {f : Row → Row} {out out' : Packet}
    (h : Rowwise (fun r r' => f r = r') out out') : out.mapRows f = out' := by
  cases h with
  | row h => exact congrArg Packet.row h
  | batch h =>
    rw [← List.forall₂_map_left_iff (R := Eq), List.forall₂_eq_eq_eq] at h
    rw [mapRows, h]

end StreamSelect.Packet
