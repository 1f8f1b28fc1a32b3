import StreamSelect.Plan.Compile
import StreamSelect.Proofs.Outcome
import StreamSelect.Project.Basic

/-!
How the projections of packets of different kinds are related. A batch without aggregates is the
projections of its rows, each alone in the window; the groups of an aggregation are the projections
of each group as a batch; groups without aggregates are the projections of their first rows; and a
single row is a batch of one. Nothing is projected in part: the first fault is the outcome.
-/
namespace StreamSelect.Projector
open Outcome (Agree AllOrNothing)
variable {p : Projector}

/-- The first row of a group, projected as a batch of its own in the group's window. For an empty
group that batch is an empty event. -/
def projectFirst (p : Projector) (group : Batch) : Outcome Packet :=
  match group.first? with
  | some r => p.project (.batch ⟨[r], group.window⟩)
  | none => .ok (.batch ⟨[.event {}], group.window⟩)

theorem project_batch_single (h : p.plan.aggregate = false) (r : Row) (window : Option Window) :
    p.project (.batch ⟨[r], window⟩) =
      (fun r => .batch ⟨[r], window⟩) <$> p.projectRow r window := by
  simp only [project, projectBatch, h, Bool.false_eq_true, if_false, List.mapM_cons, List.mapM_nil]
  cases p.projectRow r window <;> rfl

theorem project_batch_aggregate (h : p.plan.aggregate = true) (batch : Batch) :
    p.project (.batch batch) =
      (fun e => .row (.event e)) <$> p.projectGroup batch.rows batch.window := by
  simp only [project, projectBatch, h, if_true]

theorem projectFirst_eq (h : p.plan.aggregate = false) (group : Batch) :
    p.projectFirst group = (fun r => .batch ⟨[r], group.window⟩) <$> p.projectMember group := by
  simp only [projectFirst, projectMember, h, Bool.false_eq_true, if_false]
  cases group.first? with
  | some r => exact project_batch_single h r group.window
  | none => rfl

/-- Without aggregates a batch is projected row by row. -/
theorem project_batch_rowwise (h : p.plan.aggregate = false) (batch : Batch) :
    AllOrNothing (fun r => p.project (.batch ⟨[r], batch.window⟩))
      (fun _ r => .batch ⟨[r], batch.window⟩) (fun rows => .batch ⟨rows, batch.window⟩)
      batch.rows (p.project (.batch batch)) := by
  have hbatch : p.project (.batch batch) = (fun rows => .batch ⟨rows, batch.window⟩) <$>
      batch.rows.mapM (p.projectRow · batch.window) := by
    simp only [project, projectBatch, h, Bool.false_eq_true, if_false, map_eq_pure_bind]
  rw [hbatch]
  exact .mapM (fun r => project_batch_single h r batch.window) _

/-- With aggregates each group is projected as a batch, which becomes one event. -/
theorem project_groups_aggregate (h : p.plan.aggregate = true) (groups : List Batch) :
    AllOrNothing (fun group => p.project (.batch group)) (fun _ e => .row (.event e))
      (fun events => .batch { rows := events.map .event }) groups (p.project (.groups groups)) := by
  have hgroups : p.project (.groups groups) =
      (fun events => .batch { rows := events.map .event }) <$>
        groups.mapM fun group => p.projectGroup group.rows group.window := by
    have hmember : p.projectMember = fun group =>
        Row.event <$> p.projectGroup group.rows group.window := by
      funext group
      simp only [projectMember, h, if_true]
    simp only [project, hmember, Outcome.mapM_map]
    cases groups.mapM fun group => p.projectGroup group.rows group.window <;> rfl
  rw [hgroups]
  exact .mapM (fun group => project_batch_aggregate h group) _

/-- Without aggregates a group is projected as its first row. -/
theorem project_groups_first (h : p.plan.aggregate = false) (groups : List Batch) :
    AllOrNothing p.projectFirst (fun group r => .batch ⟨[r], group.window⟩)
      (fun rows => .batch { rows }) groups (p.project (.groups groups)) := by
  have hgroups : p.project (.groups groups) =
      (fun rows => .batch { rows }) <$> groups.mapM p.projectMember := by
    simp only [project, map_eq_pure_bind]
  rw [hgroups]
  exact .mapM (projectFirst_eq h) _

/-- Without aggregates groups that have the same first rows and windows give the same rows. -/
theorem project_groups_congr_first (h : p.plan.aggregate = false) {groups groups' : List Batch}
    (hfirst : List.Forall₂ (fun g g' : Batch => g.first? = g'.first? ∧ g.window = g'.window)
      groups groups') : p.project (.groups groups) = p.project (.groups groups') := by
  have hmembers : groups.mapM p.projectMember = groups'.mapM p.projectMember := by
    refine Outcome.mapM_congr (hfirst.imp fun g g' hg => ?_)
    simp only [projectMember, h, Bool.false_eq_true, if_false, hg.1, hg.2]
  simp only [project, hmembers]

/-- A row without aggregates is the only row of the batch that it makes alone. -/
theorem project_row_agree (h : p.plan.aggregate = false) (r : Row) :
    Agree (fun single batch => ∃ out, single = .row out ∧ batch = .batch ⟨[out], none⟩)
      (p.project (.row r)) (p.project (.batch ⟨[r], none⟩)) := by
  rw [project_batch_single h]
  simp only [project, h, Bool.false_eq_true, if_false]
  cases p.projectRow r none with
  | error fault => exact .error fault
  | ok out => exact .ok ⟨out, rfl, rfl⟩

/-- All packets are projected by one procedure for rows and one for groups, and none in part.
Without aggregates a batch is its rows, each projected alone in the window of the batch, and a group
is its first row alone in the window of the group, so that the rows after it count for nothing. With
aggregates the groups are those groups, each projected as a batch. A single row is a batch of that
row without a window. -/
theorem project_dispatch (p : Projector) :
    (p.plan.aggregate = false → ∀ batch : Batch,
      AllOrNothing (fun r => p.project (.batch ⟨[r], batch.window⟩))
        (fun _ r => .batch ⟨[r], batch.window⟩) (fun rows => .batch ⟨rows, batch.window⟩)
        batch.rows (p.project (.batch batch))) ∧
    (p.plan.aggregate = true → ∀ groups : List Batch,
      AllOrNothing (fun group => p.project (.batch group)) (fun _ e => .row (.event e))
        (fun events => .batch { rows := events.map .event }) groups
        (p.project (.groups groups))) ∧
    (p.plan.aggregate = false → ∀ groups : List Batch,
      AllOrNothing p.projectFirst (fun group r => .batch ⟨[r], group.window⟩)
        (fun rows => .batch { rows }) groups (p.project (.groups groups)) ∧
      ∀ groups' : List Batch,
        List.Forall₂ (fun g g' : Batch => g.first? = g'.first? ∧ g.window = g'.window)
          groups groups' → p.project (.groups groups) = p.project (.groups groups')) ∧
    ∀ r : Row,
      (p.plan.aggregate = false →
        Agree (fun single batch => ∃ out, single = .row out ∧ batch = .batch ⟨[out], none⟩)
          (p.project (.row r)) (p.project (.batch ⟨[r], none⟩))) ∧
      (p.plan.aggregate = true → p.project (.row r) = p.project (.batch ⟨[r], none⟩)) := by
  refine ⟨project_batch_rowwise, project_groups_aggregate, fun h groups => ?_, fun r => ?_⟩
  · exact ⟨project_groups_first h groups, fun groups' => project_groups_congr_first h⟩
  · refine ⟨fun h => project_row_agree h r, fun h => ?_⟩
    rw [project_batch_aggregate h]
    simp only [project, h, if_true]

/-- The rounded column `a` and the start of the window. -/
def roundedInWindow : List Declaration := [
  { item := .computed (.call "ROUND" [.column { name := "a" }]) (some "r") },
  { item := .computed (.call "window_start" []) (some "w") }]

/-- A batch fails with the second of its three rows. As a group it is its first row, and an empty
group next to it is an empty event. -/
theorem project_dispatch_roundedInWindow :
    let row (v : Value) : Row := .event { fields := .ofList [("a", v)] }
    let batch : Batch :=
      ⟨[row (.integer 1), row (.text "t"), row (.boolean true)], some (.ofMillis 10 20)⟩
    let fault := Fault.field (some "r") "ROUND(a)" (.wrongKind "NUMBER" "STRING" (some "t"))
    let rows : List Row :=
      [.event { fields := .ofList [("r", .integer 1), ("w", .integer 10)] }, .event {}]
    ∃ p, Plan.compile roundedInWindow = .ok p ∧ p.aggregate = false ∧
      let projector : Projector := ⟨p, {}⟩
      (∃ done r rest, batch.rows = done ++ r :: rest ∧
        (∀ y ∈ done, ∃ out, projector.project (.batch ⟨[y], batch.window⟩) = .ok out) ∧
        projector.project (.batch ⟨[r], batch.window⟩) = .error fault) ∧
      projector.project (.groups [batch, {}]) = .ok (.batch { rows }) ∧
      ∃ parts, List.Forall₂
        (fun group r => projector.projectFirst group = .ok (.batch ⟨[r], group.window⟩))
        [batch, {}] parts ∧ Packet.batch { rows } = .batch { rows := parts } := by
  intro row batch fault rows
  obtain ⟨p, hp, haggregate, hbatch, hgroups⟩ : ∃ p, Plan.compile roundedInWindow = .ok p ∧
      p.aggregate = false ∧ project ⟨p, {}⟩ (.batch batch) = .error fault ∧
      project ⟨p, {}⟩ (.groups [batch, {}]) = .ok (.batch { rows }) := ⟨_, rfl, rfl, rfl, rfl⟩
  obtain ⟨hrows, _, hgroup, _⟩ := project_dispatch ⟨p, {}⟩
  exact ⟨p, hp, haggregate, (hrows haggregate batch).fault fault hbatch, hgroups,
    (hgroup haggregate [batch, {}]).1.parts _ hgroups⟩

end StreamSelect.Projector
