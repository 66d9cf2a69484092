import TermLinks.CoordinatorManager

namespace TermLinks.Coordinator

/-- What opening the store does to what an earlier daemon left running. -/
def Store.markInterrupted (s : Store) (now : Time) : Store :=
  { s with
    stages := updateWhere (fun row => row.status = .running)
      (fun row => { row with
        status := .interrupted
        error := "Termlinks restarted while this agent was running"
        endedAt := some now }) s.stages
    workflows := updateWhere (fun row => row.status = .running ∨ row.status = .queued)
      (WorkflowRow.withStatus .interrupted now) s.workflows }

/-- The daemon's process ends at any point and a new one opens the store; identifiers already drawn are not
drawn again. -/
def State.restart (s : State) (now : Time) : State where
  store := s.store.markInterrupted now
  running := ∅
  workspaces := ∅
  runners := []
  calls := []
  sessions := []
  issued := s.issued
  now := now

inductive LifeLabel
  | step (label : Label)
  | restart (now : Time)

/-- The coordinator over the life of several daemons. -/
def lifeStep (host : Host) (s : State) : LifeLabel → Option State
  | .step label => step host s label
  | .restart now => some (s.restart now)

end TermLinks.Coordinator
