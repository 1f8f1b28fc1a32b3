import StreamSelect.Proofs.Outcome
import StreamSelect.Proofs.Packet
import StreamSelect.Project.Basic

/-!
Two projections of one packet, compared through what they make of rows and of groups.
-/
namespace StreamSelect.Projector
variable {p q : Projector} {strict : Prop} {R : Row → Row → Prop}

/-- If one projection tracks another on every row and on every group, it does so on every packet. An
empty group becomes an empty event without any of them. -/
theorem project_tracks (haggregate : q.plan.aggregate = p.plan.aggregate)
    (hrow : ∀ row window,
      Outcome.Tracks strict R (p.projectRow row window) (q.projectRow row window))
    (hgroup : ∀ rows window, Outcome.Tracks strict (fun e e' => R (.event e) (.event e'))
      (p.projectGroup rows window) (q.projectGroup rows window))
    (hempty : R (.event {}) (.event {})) (input : Packet) :
    Outcome.Tracks strict (Packet.Rowwise R) (p.project input) (q.project input) := by
  cases input with
  | fault fault => exact .of_error fault
  | row row =>
    simp only [project, haggregate]
    split
    · exact (hgroup [row] none).map fun _ _ h => .row h
    · exact (hrow row none).map fun _ _ h => .row h
  | batch b =>
    simp only [project, projectBatch, haggregate]
    split
    · exact (hgroup b.rows b.window).map fun _ _ h => .row h
    · refine (Outcome.Tracks.mapM fun row => hrow row b.window).bind ?_
      exact fun _ _ h => .of_ok (.batch h)
  | groups groups =>
    have hmember : ∀ group, Outcome.Tracks strict R (p.projectMember group)
        (q.projectMember group) := by
      intro group
      simp only [projectMember, haggregate]
      split
      · exact (hgroup group.rows group.window).map fun _ _ h => h
      · cases group.first? with
        | none => exact .of_ok hempty
        | some row => exact hrow row group.window
    refine (Outcome.Tracks.mapM hmember).bind ?_
    exact fun _ _ h => .of_ok (.batch h)

end StreamSelect.Projector
