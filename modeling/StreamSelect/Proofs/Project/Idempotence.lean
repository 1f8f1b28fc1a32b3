import StreamSelect.Plan.Compile
import StreamSelect.Proofs.Project.Phases
import StreamSelect.Proofs.Project.Shape

/-!
A star alone, with the fields that it leaves out. A row of any shape becomes an event, and the same
star copies this event as it is: the sources of a join are merged by then, one of them has given
its metadata, and the entry that these make among the fields is there already or is made again.
-/
namespace StreamSelect

/-- The event that a star alone makes of a row: the fields that are not left out, with the metadata
among them if the policy attaches any and no field has their name. -/
def Row.starred (except : List String) (policy : OutputPolicy) (row : Row) : Event where
  emitter := row.emitter
  fields := Plan.attach policy (row.metadata?.getD ∅)
    (row.allFields.filterKeys (!except.contains ·))
  metadata := row.metadata?.getD ∅
  timestamp := row.timestamp

/-- Of what was attached to filtered fields, the filter can only remove the metadata, and these are
attached again. -/
theorem Plan.attach_filterKeys_attach (policy : OutputPolicy) (metadata fields : FieldMap)
    (keep : String → Bool) :
    attach policy metadata ((attach policy metadata (fields.filterKeys keep)).filterKeys keep) =
      attach policy metadata (fields.filterKeys keep) := by
  refine KeyedMap.ext_get? fun k => ?_
  simp only [get?_attach, KeyedMap.get?_filterKeys]
  cases keep k with
  | false => rfl
  | true => simp only [if_true, Option.or_assoc, Option.or_self]

namespace Row
variable {except : List String} {policy : OutputPolicy}

theorem starred_starred (row : Row) :
    (Row.event (row.starred except policy)).starred except policy = row.starred except policy := by
  have hfields := Plan.attach_filterKeys_attach policy (row.metadata?.getD ∅) row.allFields
    (!except.contains ·)
  exact congrArg (fun fields => { row.starred except policy with fields }) hfields

/-- From an event without anything nothing is left out. -/
theorem starred_empty : (Row.event {}).starred except policy = {} := by
  have hfields : Plan.attach policy ∅ ((∅ : FieldMap).filterKeys (!except.contains ·)) = ∅ :=
    Plan.attach_empty policy _
  exact congrArg (fun fields => ({ fields } : Event)) hfields

end Row

namespace Projector
variable {except : List String} {policy : OutputPolicy}

/-- A plan with a star has no layout, so that a tuple goes by name. -/
theorem projectRow_starOnly (row : Row) (window : Option Window) :
    projectRow ⟨Plan.starOnly except, policy⟩ row window =
      .ok (.event (row.starred except policy)) := by
  rw [projectRow_named fun _ _ => rfl, Plan.assemble_starOnly]
  rfl

theorem project_starOnly_row (row : Row) :
    project ⟨Plan.starOnly except, policy⟩ (.row row) =
      .ok (.row (.event (row.starred except policy))) := by
  change Packet.row <$> projectRow ⟨Plan.starOnly except, policy⟩ row none = _
  rw [projectRow_starOnly]
  rfl

theorem project_starOnly_batch (rows : List Row) (window : Option Window) :
    project ⟨Plan.starOnly except, policy⟩ (.batch ⟨rows, window⟩) =
      .ok (.batch ⟨(rows.map (·.starred except policy)).map .event, window⟩) := by
  change (rows.mapM fun row => projectRow ⟨Plan.starOnly except, policy⟩ row window) >>= _ = _
  rw [Outcome.mapM_of_ok fun row => projectRow_starOnly row window, List.map_map]
  rfl

/-- Of every group the first row is copied. -/
theorem project_starOnly_groups (groups : List Batch) :
    project ⟨Plan.starOnly except, policy⟩ (.groups groups) = .ok (.batch ⟨(groups.map fun g =>
      (g.first?.map (·.starred except policy)).getD {}).map .event, none⟩) := by
  have hmember : ∀ g : Batch, projectMember ⟨Plan.starOnly except, policy⟩ g =
      .ok (.event ((g.first?.map (·.starred except policy)).getD {})) := by
    intro g
    have haggregate : ¬(Plan.starOnly except).aggregate = true := Bool.false_ne_true
    rw [projectMember, if_neg haggregate]
    cases g.first? with
    | none => rfl
    | some row => exact projectRow_starOnly row g.window
  change groups.mapM (projectMember ⟨Plan.starOnly except, policy⟩) >>= _ = _
  rw [Outcome.mapM_of_ok hmember, List.map_map]
  rfl

/-- A batch of events that the star copies as they are is copied as it is. -/
theorem project_starOnly_fixed {events : List Event} (window : Option Window)
    (h : ∀ e ∈ events, (Row.event e).starred except policy = e) :
    project ⟨Plan.starOnly except, policy⟩ (.batch ⟨events.map .event, window⟩) =
      .ok (.batch ⟨events.map .event, window⟩) := by
  have hevents : (events.map Row.event).map (·.starred except policy) = events := by
    rw [List.map_map]
    exact (List.map_congr_left h).trans (List.map_id events)
  rw [project_starOnly_batch, hevents]

/-- A list of one star is idempotent whatever it leaves out, also the name under which metadata are
attached. It makes an event of a row, and an event of each row of a batch in the same order and
window; projected again, these stay as they are. It makes a batch of groups as well and then keeps
it. -/
theorem project_star_idempotent (except : List String) (hidden : Bool) :
    ∃ p, Plan.compile [⟨.star except [], hidden⟩] = .ok p ∧
      (∀ schema, Plan.compileOver schema [⟨.star except [], hidden⟩] = .ok p) ∧
      ∀ policy : OutputPolicy,
        (∀ row : Row,
          let out := Packet.row (.event (row.starred except policy))
          project ⟨p, policy⟩ (.row row) = .ok out ∧ project ⟨p, policy⟩ out = .ok out) ∧
        (∀ rows window,
          let out := Packet.batch ⟨(rows.map (·.starred except policy)).map .event, window⟩
          project ⟨p, policy⟩ (.batch ⟨rows, window⟩) = .ok out ∧
            project ⟨p, policy⟩ out = .ok out) ∧
        ∀ groups, ∃ out, project ⟨p, policy⟩ (.groups groups) = .ok out ∧
          project ⟨p, policy⟩ out = .ok out := by
  refine ⟨Plan.starOnly except, rfl, fun _ => rfl, fun policy => ⟨fun row => ?_, ?_, ?_⟩⟩
  · refine ⟨project_starOnly_row row, ?_⟩
    rw [project_starOnly_row, Row.starred_starred]
  · intro rows window
    refine ⟨project_starOnly_batch rows window, project_starOnly_fixed window ?_⟩
    exact List.forall_mem_map.mpr fun row _ => row.starred_starred
  · intro groups
    refine ⟨_, project_starOnly_groups groups, project_starOnly_fixed none ?_⟩
    refine List.forall_mem_map.mpr fun g _ => ?_
    cases g.first? with
    | none => exact Row.starred_empty
    | some row => exact row.starred_starred

/-- A join in a window, without the field that has the name of attached metadata. These are of the
second event, as the first has none, and stand under this name then. -/
theorem project_star_idempotent_reserved :
    let first : Event := {
      emitter := "s"
      fields := .ofList [("a", .integer 1)]
      timestamp := 5 }
    let second : Event := {
      emitter := "t"
      fields := .ofList [("a", .integer 2), ("__meta", .text "own")]
      metadata := .ofList [("k", .text "v")] }
    let policy : OutputPolicy := { attachMetadata := true }
    let window := Window.ofMillis 1 2
    let out := Packet.batch ⟨[.event {
      emitter := "s"
      fields := .ofList [("a", .integer 1), ("__meta", .map [("k", .text "v")])]
      metadata := .ofList [("k", .text "v")]
      timestamp := 5 }], some window⟩
    ∃ p, Plan.compile [⟨.star ["__meta"] [], false⟩] = .ok p ∧
      project ⟨p, policy⟩ (.batch ⟨[.joined ⟨[first, second]⟩], some window⟩) = .ok out ∧
      project ⟨p, policy⟩ out = .ok out := by
  intro first second policy window out
  obtain ⟨p, hp, _, h⟩ := project_star_idempotent ["__meta"] false
  have hbatch := (h policy).2.1 [.joined ⟨[first, second]⟩] (some window)
  exact ⟨p, hp, hbatch⟩

end Projector
end StreamSelect
