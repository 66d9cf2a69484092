import TermLinks.CoordinatorStore
import TermLinks.Ranking
import TermLinks.TimestampOrder

namespace TermLinks.Coordinator

section

variable {α : Type} (stamp : α → Time)

/-- `ORDER BY … DESC` on a timestamp column. -/
def laterText (a b : α) : Prop := encodeTime (stamp b) ≤ encodeTime (stamp a)

instance : DecidableRel (laterText stamp) := fun _ _ => inferInstanceAs (Decidable (_ ≤ _))

instance : Std.Total (laterText stamp) := ⟨fun _ _ => le_total _ _⟩

instance : IsTrans α (laterText stamp) := ⟨fun _ _ _ hab hbc => le_trans hbc hab⟩

/-- The rows that are returned come latest first, and no row left out is later than one of them. -/
def MostRecent (returned rows : List α) : Prop :=
  returned.Pairwise (fun a b => stamp b ≤ stamp a) ∧ ∃ left, (returned ++ left).Perm rows ∧
    ∀ row ∈ returned, ∀ other ∈ left, stamp other ≤ stamp row

theorem topBy_mostRecent {rows : List α} (comparable : Comparable (rows.map stamp)) (limit : Nat) :
    MostRecent stamp (topBy (laterText stamp) limit rows) rows := by
  have perm := List.perm_insertionSort (laterText stamp) rows
  have sorted : (rows.insertionSort (laterText stamp)).Pairwise (fun a b => stamp b ≤ stamp a) := by
    apply List.Pairwise.imp_of_mem ?_ (List.pairwise_insertionSort (laterText stamp) rows)
    intro a b ha hb later
    have ha := List.mem_map_of_mem (f := stamp) (perm.mem_iff.mp ha)
    have hb := List.mem_map_of_mem (f := stamp) (perm.mem_iff.mp hb)
    exact (comparable.encodeTime_le_iff hb ha).mp later
  have pieces := List.take_append_drop limit (rows.insertionSort (laterText stamp))
  rw [← pieces] at sorted
  obtain ⟨top, _, across⟩ := List.pairwise_append.mp sorted
  refine ⟨top, (rows.insertionSort (laterText stamp)).drop limit, ?_, across⟩
  unfold topBy
  rw [pieces]
  exact perm

end

/-- A row of the list with its stages and the summary of its messages. -/
def Store.summarized (s : Store) (row : WorkflowRow) : Workflow :=
  let messages := s.roomMessages.filter fun message => message.workflowID = row.id
  { row with
    stages := s.stagesOf row.id
    messages := []
    messageCount := messages.length
    lastMessage := messages.getLast? }

def Store.listWorkflows (s : Store) (limit : Int) : List Workflow :=
  let limit := if limit < 1 ∨ limit > 200 then 50 else limit.toNat
  (topBy (laterText WorkflowRow.updatedAt) limit s.workflows).map s.summarized

def Store.workspaceSuggestions (s : Store) (limit : Int) : List Project :=
  let limit := if limit < 1 ∨ limit > 100 then 30 else limit.toNat
  topBy (laterText Project.lastUsedAt) limit s.projects

theorem listWorkflows_mostRecent {s : Store} (comparable : Comparable (s.workflows.map WorkflowRow.updatedAt))
    (limit : Int) :
    MostRecent WorkflowRow.updatedAt ((s.listWorkflows limit).map Workflow.toWorkflowRow) s.workflows := by
  have rows : (s.listWorkflows limit).map Workflow.toWorkflowRow =
      topBy (laterText WorkflowRow.updatedAt) (if limit < 1 ∨ limit > 200 then 50 else limit.toNat) s.workflows := by
    unfold Store.listWorkflows
    rw [List.map_map]
    exact List.map_id _
  rw [rows]
  exact topBy_mostRecent _ comparable _

theorem workspaceSuggestions_mostRecent {s : Store}
    (comparable : Comparable (s.projects.map Project.lastUsedAt))
    (limit : Int) : MostRecent Project.lastUsedAt (s.workspaceSuggestions limit) s.projects :=
  topBy_mostRecent _ comparable _

end TermLinks.Coordinator
