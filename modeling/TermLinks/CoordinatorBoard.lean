import TermLinks.CoordinatorProgress
import TermLinks.Slots

namespace TermLinks.Coordinator

/-- What the other parties see of a runner. -/
structure Seat where
  workflowID : String
  cancelled : Bool
  pc : RunnerPc

def Runner.seat (R : Runner) : Seat := ⟨R.workflowID, R.cancelled, R.pc⟩

/-- The coordinator without its texts: who runs what, where every call and every runner stands, and
the stored statuses. -/
@[ext] structure Board where
  running : String → Option Nat
  seat : Nat → Option Seat
  call : Nat → Option Call
  status : String → Option WorkflowStatus
  stage : String → String → StageStatus → Prop
  issued : String → Prop

namespace Board

def setSeat (b : Board) (r : Nat) (q : Seat) : Board :=
  { b with seat := Function.update b.seat r (some q) }

def setCall (b : Board) (i : Nat) (c : Call) : Board :=
  { b with call := Function.update b.call i (some c) }

def setStatus (b : Board) (W : String) (status : WorkflowStatus) : Board :=
  { b with status := Function.update b.status W (some status) }

/-- The stage gets a status if it exists. -/
def setStage (b : Board) (W x : String) (status : StageStatus) : Board :=
  { b with
    stage := fun W' x' status' =>
      if W' = W ∧ x' = x then status' = status ∧ ∃ was, b.stage W' x' was else b.stage W' x' status' }

def addStage (b : Board) (W x : String) : Board :=
  { b with
    stage := fun W' x' status => b.stage W' x' status ∨ W' = W ∧ x' = x ∧ status = StageStatus.queued }

def cancelStages (b : Board) (W : String) : Board :=
  { b with
    stage := fun W' x status =>
      if W' = W then
        b.stage W' x status ∧ status ≠ StageStatus.queued ∨
          status = StageStatus.cancelled ∧ b.stage W' x .queued
      else b.stage W' x status }

def issue (b : Board) (id : String) : Board := { b with issued := fun other => other = id ∨ b.issued other }

/-- Registers a runner in a free seat. -/
def register (b : Board) (W : String) (n : Nat) (pc : RunnerPc) : Board :=
  { b with
    running := Function.update b.running W (some n)
    seat := Function.update b.seat n (some ⟨W, false, pc⟩) }

def launchUnlessRunning (b : Board) (W : String) (n : Nat) : Board :=
  if b.running W = none then b.register W n .loop else b

theorem launchUnlessRunning_call (b : Board) (W : String) (n : Nat) :
    (b.launchUnlessRunning W n).call = b.call := by
  unfold launchUnlessRunning
  split <;> rfl

/-- Unregisters a runner that is registered. -/
def release (b : Board) (W : String) (r : Nat) : Board :=
  if b.running W = some r then { b with running := Function.update b.running W none } else b

def cancelSeat (b : Board) (W : String) : Board :=
  { b with
    seat := fun i => if b.running W = some i then (b.seat i).map ({ · with cancelled := true }) else b.seat i }

theorem release_seat (b : Board) (W : String) (r : Nat) : (b.release W r).seat = b.seat := by
  unfold release
  split <;> rfl

theorem release_running (b : Board) (W : String) (r : Nat) : (b.release W r).running W ≠ some r := by
  unfold release
  split
  next => simp
  next h => exact h

theorem release_setSeat (b : Board) (W : String) (r i : Nat) (q : Seat) :
    (b.release W r).setSeat i q = (b.setSeat i q).release W r := by
  unfold release setSeat
  by_cases h : b.running W = some r
  · simp only [h, if_true]
  · simp only [h, if_false]

/-- The steps of the coordinator, as they change the board; `hasTurn` tells of which `sendAgentMessage`
calls the agent has a queued turn. -/
inductive Step (hasTurn : Nat → Prop) (b : Board) : Label → Board → Prop
  | idle {label : Label} {b' : Board} (running : b'.running = b.running) (seat : b'.seat = b.seat)
      (status : b'.status = b.status) (stage : b'.stage = b.stage)
      (issued : ∀ id, b.issued id → b'.issued id)
      (old : ∀ i c, c.busy = true → b'.call i = some c → b.call i = some c)
      (kept : ∀ i c, c.cancelling = true → b.call i = some c → b'.call i = some c) : Step hasTurn b label b'
  | reserved {i n : Nat} {draft : Draft} {id workspace : String} {now : Time}
      (pending : b.call i = some (.createReserve draft)) (fresh : ¬b.issued id) (free : b.seat n = none) :
      Step hasTurn b (.reserve i id workspace)
        (((b.issue id).register id n .pending).setCall i
          (.createStore (newWorkflow draft id now) workspace n))
  | created {i r : Nat} {workflow : Workflow} {workspace : String} {q : Seat} {b' : Board}
      (pending : b.call i = some (.createStore workflow workspace r)) (seat : b.seat r = some q)
      (absent : b.status workflow.id = none)
      (written : b' = { (((b.setStatus workflow.id workflow.status).setSeat r
        { q with pc := .loop }).setCall i
        (.returned (.created workflow))) with stage := b'.stage })
      (stage : ∀ W x status, W ≠ workflow.id → (b'.stage W x status ↔ b.stage W x status)) :
      Step hasTurn b (.storeWorkflow i true) b'
  | rolledBack {i r : Nat} {id workspace : String} {b' : Board}
      (pending : b.call i = some (.createRollback id workspace r)) : Step hasTurn b (.rollback i) b'
  | sent {n : Nat} {workflowID agentID : String} {input : MessageInput} {message : RoomMessage}
      (fresh : b.call n = none) (room : message.workflowID = workflowID) :
      Step hasTurn b (.send workflowID input true) (b.setCall n (.sendAgent workflowID agentID message))
  | followedUp {i n : Nat} {workflowID agentID stageID workspace : String} {message stored : RoomMessage}
      {was : WorkflowStatus}
      (pending : b.call i = some (.sendAgent workflowID agentID message)) (new : ¬hasTurn i)
      (fresh : ¬b.issued stageID) (unused : ∀ W status, ¬b.stage W stageID status)
      (exist : b.status message.workflowID = some was) (free : b.seat n = none) :
      Step hasTurn b (.sendAgent i stageID workspace true)
        (((((b.addStage message.workflowID stageID).setStatus message.workflowID (requeue was)).issue
          stageID).launchUnlessRunning workflowID n).setCall i (.returned (.sent stored)))
  | nudged {i n : Nat} {workflowID agentID stageID workspace x : String} {message stored : RoomMessage}
      (pending : b.call i = some (.sendAgent workflowID agentID message))
      (queued : b.stage workflowID x .queued) (exist : b.status workflowID ≠ none) (free : b.seat n = none) :
      Step hasTurn b (.sendAgent i stageID workspace true)
        ((b.launchUnlessRunning workflowID n).setCall i (.returned (.sent stored)))
  | requested {n : Nat} {id : String} (fresh : b.call n = none) (exist : b.status id ≠ none) :
      Step hasTurn b (.cancel id true) (b.setCall n (.cancelSignal id))
  | signalled {i : Nat} {id : String} (pending : b.call i = some (.cancelSignal id)) :
      Step hasTurn b (.cancelSignal i) ((b.cancelSeat id).setCall i (.cancelStages id))
  | marked {i : Nat} {id : String} (pending : b.call i = some (.cancelStages id)) :
      Step hasTurn b (.cancelStages i true)
        ((b.cancelStages id).setCall i (.cancelStatus id))
  | cancelled {i : Nat} {id : String} (pending : b.call i = some (.cancelStatus id))
      (exist : b.status id ≠ none) :
      Step hasTurn b (.cancelStatus i true)
        ((b.setStatus id .cancelled).setCall i (.returned (.cancelled id)))
  | hopped {r : Nat} {q : Seat} {input : RunnerInput} {pc : RunnerPc} (seat : b.seat r = some q)
      (ok : input = .fail → q.cancelled = true ∧ q.pc.reads = true)
      (hop : Hop q.cancelled q.workflowID q.pc input pc) :
      Step hasTurn b (.runner r input) (b.setSeat r { q with pc })
  | started {r : Nat} {q : Seat} {workflow : Workflow} {stage : Stage} {prompt sessionID : String}
      (seat : b.seat r = some q) (at_start : q.pc = .startStage workflow stage prompt sessionID)
      (exist : b.status workflow.id ≠ none) :
      Step hasTurn b (.runner r .ok)
        (((b.setStatus workflow.id .running).setStage workflow.id stage.id .running).setSeat r
          { q with pc := .announce workflow stage prompt sessionID })
  | completed {r : Nat} {q : Seat} {workflow : Workflow} {stage : Stage} {output : String}
      (seat : b.seat r = some q) (at_end : q.pc = .complete workflow stage output) :
      Step hasTurn b (.runner r .ok)
        ((b.setStage workflow.id stage.id .completed).setSeat r { q with pc := .loop })
  | gaveUp {r : Nat} {q : Seat} {workflow : Workflow} {stage : Stage} {how : TurnEnd}
      {output message : String} {announced : Bool}
      (seat : b.seat r = some q)
      (at_end : q.pc = .finishStage workflow stage how output message announced) :
      Step hasTurn b (.runner r .ok)
        ((b.setStage workflow.id stage.id how.status).setSeat r
          { q with pc := if announced then .announceFailure workflow stage message else .stageError })
  | failed {r : Nat} {q : Seat} (seat : b.seat r = some q) (at_failure : q.pc = .setFailed)
      (exist : b.status q.workflowID ≠ none) :
      Step hasTurn b (.runner r .ok)
        ((b.setStatus q.workflowID .failed).setSeat r { q with pc := .cleanup })
  | finished {r : Nat} {q : Seat} (seat : b.seat r = some q) (at_finish : q.pc = .finish)
      (exist : b.status q.workflowID ≠ none) (empty : ∀ x, ¬b.stage q.workflowID x .queued) :
      Step hasTurn b (.runner r .ok)
        (((b.setStatus q.workflowID .completed).setSeat r { q with pc := .cleanup }).release q.workflowID r)
  | retired {r : Nat} {q : Seat} (seat : b.seat r = some q) (at_cleanup : q.pc = .cleanup) :
      Step hasTurn b (.runner r .ok) ((b.release q.workflowID r).setSeat r { q with pc := .done })

end Board

def State.board (s : State) : Board where
  running W := s.running.lookup W
  seat := slots (s.runners.map Runner.seat)
  call := slots s.calls
  status := s.store.statusOf
  stage := s.store.hasStage
  issued id := id ∈ s.issued

theorem board_seat {s : State} {r : Nat} {R : Runner} (h : s.runners[r]? = some R) :
    s.board.seat r = some R.seat :=
  slots_map h _

theorem runner_of_seat {s : State} {r : Nat} {q : Seat} (seat : s.board.seat r = some q) :
    ∃ R, s.runners[r]? = some R ∧ R.seat = q := by
  have here : (s.runners.map Runner.seat)[r]? = some q := seat
  rw [List.getElem?_map, Option.map_eq_some_iff] at here
  exact here

theorem board_free (s : State) : s.board.seat s.runners.length = none := by
  have h := slots_length (s.runners.map Runner.seat)
  rwa [List.length_map] at h

theorem board_setRunner {s : State} {r : Nat} {R : Runner} (h : s.runners[r]? = some R) (Q : Runner) :
    (s.setRunner r Q).board = s.board.setSeat r Q.seat := by
  have hm : (s.runners.map Runner.seat)[r]? = some R.seat := by simp [h]
  ext1
  case seat =>
    simp only [State.board, State.setRunner, List.map_set]
    exact slots_set hm Q.seat
  all_goals rfl

theorem board_setCall {s : State} {i : Nat} {c : Call} (h : s.calls[i]? = some c) (now : Call) :
    (s.setCall i now).board = s.board.setCall i now := by
  ext1
  case call => exact slots_set h now
  all_goals rfl

theorem board_addCall (s : State) (c : Call) :
    (s.addCall c).board = s.board.setCall s.calls.length c := by
  ext1
  case call => exact slots_append _ c
  all_goals rfl

theorem board_issue (s : State) (id : String) : (s.issue id).board = s.board.issue id := by
  ext1
  case issued =>
    funext other
    exact propext List.mem_cons
  all_goals rfl

theorem board_release (s : State) (r : Nat) (R : Runner) :
    (s.release r R).board = s.board.release R.workflowID r := by
  unfold State.release Board.release
  split
  next h =>
    rw [if_pos (show s.board.running R.workflowID = some r from h)]
    ext1
    case running => exact lookup_erase_eq _ _
    all_goals rfl
  next h => rw [if_neg (show ¬s.board.running R.workflowID = some r from h)]

theorem board_noteSession (s : State) (id sessionID : String) :
    (s.noteSession id sessionID).board = s.board := by
  unfold State.noteSession
  split
  next => rfl
  next =>
    split
    next => rfl
    next R hR =>
      rw [board_setRunner hR]
      ext1
      case seat => exact Function.update_eq_self_iff.mpr (board_seat hR).symm
      all_goals rfl

theorem board_cancelRunner (s : State) (id : String) : (s.cancelRunner id).board = s.board.cancelSeat id := by
  unfold State.cancelRunner
  split
  next h =>
    ext1
    case seat =>
      funext i
      exact (if_neg (by simp [State.board, h])).symm
    all_goals rfl
  next r h =>
    split
    next hR =>
      ext1
      case seat =>
        funext i
        simp only [Board.cancelSeat]
        split
        next hi =>
          cases h.symm.trans hi
          simp [State.board, slots, hR]
        next => rfl
      all_goals rfl
    next R hR =>
      ext1
      case seat =>
        funext i
        have hm : (s.runners.map Runner.seat)[r]? = some R.seat := by simp [hR]
        have hs := congrFun (slots_set hm { R with cancelled := true }.seat) i
        simp only [State.board, Board.cancelSeat, List.map_set]
        refine hs.trans ?_
        by_cases hi : i = r
        · subst hi
          simp [h, slots, hR, Runner.seat]
        · simp [h, hi, Ne.symm hi]
      all_goals rfl

theorem board_register (s : State) (W workspace : String) (pc : RunnerPc) :
    (s.register W workspace pc).board = s.board.register W s.runners.length pc := by
  have ha := slots_append (s.runners.map Runner.seat) (⟨W, workspace, false, none, pc⟩ : Runner).seat
  rw [List.length_map] at ha
  ext1
  case running => exact lookup_insert_eq _ _ _
  case seat =>
    simp only [State.board, State.register, List.map_append, List.map_cons, List.map_nil]
    exact ha
  all_goals rfl

theorem board_launchUnlessRunning (s : State) (W workspace : String) :
    (s.launchUnlessRunning W workspace).board = s.board.launchUnlessRunning W s.runners.length := by
  unfold State.launchUnlessRunning Board.launchUnlessRunning
  by_cases h : s.running.lookup W = none
  · rw [if_pos (by simp [h]), if_pos (show s.board.running W = none from h), board_register]
  · rw [if_neg (by simpa using h), if_neg (show ¬s.board.running W = none from h)]

end TermLinks.Coordinator
