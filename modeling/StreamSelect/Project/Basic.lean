import StreamSelect.Packet
import StreamSelect.Project.Named
import StreamSelect.Project.Positional

/-!
Projection of packets. Each packet is projected on its own: a plan that aggregates makes one event
of every group, any other plan one row of every row. The first fault ends the projection of a
packet.
-/
namespace StreamSelect

/-- A plan with the policy it is applied under. -/
structure Projector where
  plan : Plan
  policy : OutputPolicy := {}
  deriving Inhabited

namespace Projector

/-- One row. A tuple goes by position if the plan has a layout. -/
def projectRow (p : Projector) (row : Row) (window : Option Window) : Outcome Row :=
  match row, p.plan.layout with
  | .tuple input, some layout => .tuple <$> layout.project p.policy input window
  | _, _ => .event <$> p.plan.assemble p.policy (.row row) window

/-- One event for all rows of a group. -/
def projectGroup (p : Projector) (rows : List Row) (window : Option Window) : Outcome Event :=
  p.plan.assemble p.policy (.group rows) window

/-- A batch: one event for all of it, or its rows one by one in the same window. -/
def projectBatch (p : Projector) (batch : Batch) : Outcome Packet :=
  if p.plan.aggregate then
    (fun e => .row (.event e)) <$> p.projectGroup batch.rows batch.window
  else do
    let rows ← batch.rows.mapM (p.projectRow · batch.window)
    return .batch { rows, window := batch.window }

/-- The row that stands for a group. Without aggregates it comes from the group's first row; an
empty group gives an empty event. -/
def projectMember (p : Projector) (group : Batch) : Outcome Row :=
  if p.plan.aggregate then .event <$> p.projectGroup group.rows group.window
  else
    match group.first? with
    | some row => p.projectRow row group.window
    | none => .ok (.event {})

def project (p : Projector) : Packet → Outcome Packet
  | .fault fault => .error fault
  | .row row =>
    if p.plan.aggregate then (fun e => .row (.event e)) <$> p.projectGroup [row] none
    else .row <$> p.projectRow row none
  | .batch batch => p.projectBatch batch
  | .groups groups => do
    let rows ← groups.mapM p.projectMember
    return .batch { rows }

end Projector
end StreamSelect
