import Mathlib.Data.List.Sort
import TermLinks.GoText
import TermLinks.RowTable
import TermLinks.Timestamp

namespace TermLinks.Coordinator

inductive WorkflowStatus
  | queued | running | completed | failed | cancelled | interrupted
deriving DecidableEq, Repr

inductive StageStatus
  | queued | running | completed | failed | cancelled | interrupted
deriving DecidableEq, Repr

inductive SenderType
  | human | agent | system
deriving DecidableEq, Repr

inductive MessageKind
  | task | message | handoff | question | status
deriving DecidableEq, Repr

def messageSenderHuman : String := "human"
def messageSenderSystem : String := "system"
def messageRecipientTeam : String := "team"
def messageRecipientHuman : String := "human"

structure Agent where
  id : String
  name : String
  command : String
  version : String
  available : Bool
  runnable : Bool
  authStatus : String
  transport : String
  detectedAt : Time
deriving DecidableEq

structure Stage where
  id : String
  workflowID : String
  position : Nat
  agentID : String
  title : String
  prompt : String
  status : StageStatus
  sessionID : String
  output : String
  error : String
  startedAt : Option Time
  endedAt : Option Time
deriving DecidableEq

/-- A message before it is stored has id `0` and no creation time. -/
structure RoomMessage where
  id : Nat
  workflowID : String
  stageID : String
  senderID : String
  senderType : SenderType
  recipient : String
  kind : MessageKind
  body : String
  replyTo : Option Nat
  createdAt : Option Time
deriving DecidableEq

structure Event where
  id : Nat
  workflowID : String
  stageID : String
  type : String
  message : String
  createdAt : Time
deriving DecidableEq

/-- The columns of the `workflows` table. -/
structure WorkflowRow where
  id : String
  request : String
  cwd : String
  status : WorkflowStatus
  createdAt : Time
  updatedAt : Time
deriving DecidableEq

structure Workflow extends WorkflowRow where
  stages : List Stage
  messages : List RoomMessage
  messageCount : Nat
  lastMessage : Option RoomMessage
deriving DecidableEq

structure Draft where
  request : String
  cwd : String
  stages : List Stage
deriving DecidableEq

structure Project where
  path : String
  name : String
  lastUsedAt : Time
deriving DecidableEq

/-- The tables of the workflow database, each with its rows in rowid order, and the last ids the
two AUTOINCREMENT columns have handed out. -/
structure Store where
  agents : List Agent
  projects : List Project
  workflows : List WorkflowRow
  stages : List Stage
  events : List Event
  roomMessages : List RoomMessage
  lastEventID : Nat
  lastMessageID : Nat
deriving DecidableEq

def Store.empty : Store := ⟨[], [], [], [], [], [], 0, 0⟩

inductive StoreError
  | noRows
  | replyElsewhere
  | constraint
deriving DecidableEq, Repr

def supportsExecution (id : String) : Bool := id = "codex" || id = "claude"

def agentOrder (a b : Agent) : Prop :=
  (a.available = true ∧ b.available = false) ∨ (a.available = b.available ∧ a.name ≤ b.name)

instance (a b : Agent) : Decidable (agentOrder a b) :=
  inferInstanceAs (Decidable (_ ∨ _))

def WorkflowRow.withStatus (status : WorkflowStatus) (now : Time) (row : WorkflowRow) : WorkflowRow :=
  { row with status, updatedAt := now }

def requeue : WorkflowStatus → WorkflowStatus
  | .queued => .queued
  | .running => .running
  | .completed | .failed | .cancelled | .interrupted => .queued

def WorkflowRow.requeued (now : Time) (row : WorkflowRow) : WorkflowRow :=
  row.withStatus (requeue row.status) now

def WorkflowRow.touched (now : Time) (row : WorkflowRow) : WorkflowRow := { row with updatedAt := now }

def Stage.inserted (workflowID : String) (stage : Stage) : Stage :=
  { stage with workflowID, sessionID := "", output := "", error := "", startedAt := none, endedAt := none }

def Stage.started (sessionID : String) (now : Time) (row : Stage) : Stage :=
  { row with status := .running, sessionID, startedAt := some now, error := "" }

def Stage.finished (status : StageStatus) (output error : String) (now : Time) (row : Stage) : Stage :=
  { row with status, output, error, endedAt := some now }

namespace Store

/-- `filepath.Base` of a cleaned absolute path. -/
def baseName (path : String) : String :=
  let last := ((path.toList.reverse).takeWhile (· ≠ '/')).reverse
  if last = [] then "/" else String.ofList last

def workflowExists (s : Store) (id : String) : Bool := s.workflows.any fun row => row.id = id

def updateWorkflow (s : Store) (id : String) (f : WorkflowRow → WorkflowRow) : Store :=
  { s with workflows := updateWhere (fun row => row.id = id) f s.workflows }

def updateStage (s : Store) (workflowID id : String) (f : Stage → Stage) : Store :=
  { s with stages := updateWhere (fun row => row.id = id ∧ row.workflowID = workflowID) f s.stages }

/-- `INSERT INTO events`, which refers to a workflow. -/
def insertEvent (s : Store) (workflowID stageID type message : String) (now : Time) :
    Except StoreError Store :=
  if s.workflowExists workflowID then
    .ok { s with
      events := s.events ++ [⟨s.lastEventID + 1, workflowID, stageID, type, message, now⟩]
      lastEventID := s.lastEventID + 1 }
  else .error .constraint

/-- `INSERT INTO stages`: a new primary key, a new position of an existing workflow; the columns that
are not given take their defaults. -/
def insertStage (workflowID : String) (s : Store) (stage : Stage) : Except StoreError Store :=
  if s.stages.any (fun row => row.id = stage.id ∨
      row.workflowID = workflowID ∧ row.position = stage.position) ∨
      ¬ s.workflowExists workflowID then .error .constraint
  else .ok { s with stages := s.stages ++ [stage.inserted workflowID] }

def insertMessage (s : Store) (message : RoomMessage) (created : Time) :
    Except StoreError (Store × RoomMessage) :=
  if s.workflowExists message.workflowID then
    let stored := { message with id := s.lastMessageID + 1, createdAt := some created }
    .ok ({ s with roomMessages := s.roomMessages ++ [stored], lastMessageID := s.lastMessageID + 1 },
      stored)
  else .error .constraint

def upsertProject (s : Store) (path : String) (used : Time) : Store :=
  if s.projects.any (fun row => row.path = path) then
    { s with
      projects := updateWhere (fun row => row.path = path)
        (fun row => { row with lastUsedAt := used }) s.projects }
  else { s with projects := s.projects ++ [⟨path, baseName path, used⟩] }

/-- `ReplaceAgents`: agents that were not found again stay, as unavailable. -/
def replaceAgents (s : Store) (agents : List Agent) : Store :=
  let cleared := s.agents.map fun row => { row with available := false, authStatus := "unknown" }
  { s with
    agents := agents.foldl (fun rows agent =>
      if rows.any (fun row => row.id = agent.id) then
        updateWhere (fun row => row.id = agent.id) (fun _ => agent) rows
      else rows ++ [agent]) cleared }

def agentList (s : Store) : List Agent :=
  (s.agents.map fun row => { row with runnable := row.available && supportsExecution row.id }).insertionSort
    agentOrder

def createWorkflow (s : Store) (workflow : Workflow) : Except StoreError Store := do
  if s.workflowExists workflow.id then throw .constraint
  let s := { s with workflows := s.workflows ++ [workflow.toWorkflowRow] }
  let s ← workflow.stages.foldlM (insertStage workflow.id) s
  let s := s.upsertProject workflow.cwd workflow.createdAt
  let s ← s.insertEvent workflow.id "" "workflow.created" "Workflow queued" workflow.createdAt
  let (s, _) ← s.insertMessage
    { id := 0, workflowID := workflow.id, stageID := "", senderID := messageSenderHuman,
      senderType := .human, recipient := messageRecipientTeam, kind := .task,
      body := workflow.request, replyTo := none, createdAt := none } workflow.createdAt
  return s

def stagesOf (s : Store) (workflowID : String) : List Stage :=
  (s.stages.filter fun row => row.workflowID = workflowID).insertionSort fun a b => a.position ≤ b.position

def messagesOf (s : Store) (workflowID : String) (limit : Nat) : List RoomMessage :=
  let limit := if limit < 1 ∨ limit > 500 then 500 else limit
  (((s.roomMessages.filter fun row => row.workflowID = workflowID).reverse).take limit).reverse

/-- `Store.Workflow`. -/
def workflow (s : Store) (id : String) : Except StoreError Workflow :=
  match findRow WorkflowRow.id id s.workflows with
  | none => .error .noRows
  | some row => .ok
      { row with
        stages := s.stagesOf id
        messages := s.messagesOf id 500
        messageCount := (s.roomMessages.filter fun message => message.workflowID = id).length
        lastMessage := (s.roomMessages.filter fun message => message.workflowID = id).getLast? }

def setWorkflowStatus (s : Store) (id : String) (status : WorkflowStatus) (now : Time) :
    Except StoreError Store :=
  if s.workflowExists id then
    .ok (s.updateWorkflow id (WorkflowRow.withStatus status now))
  else .error .noRows

def startStage (s : Store) (workflowID stageID sessionID : String) (now : Time) :
    Except StoreError Store :=
  let s := s.updateWorkflow workflowID (WorkflowRow.withStatus .running now)
  let s := s.updateStage workflowID stageID (Stage.started sessionID now)
  s.insertEvent workflowID stageID "stage.started" "Agent terminal started" now

def stageEventType : StageStatus → String
  | .queued => "stage.queued"
  | .running => "stage.running"
  | .completed => "stage.completed"
  | .failed => "stage.failed"
  | .cancelled => "stage.cancelled"
  | .interrupted => "stage.interrupted"

def finishStage (s : Store) (workflowID stageID : String) (status : StageStatus)
    (output message : String) (now : Time) : Except StoreError Store := do
  let errorMessage := if status = .completed then "" else message
  let s := s.updateStage workflowID stageID (Stage.finished status output errorMessage now)
  let s ← s.insertEvent workflowID stageID (stageEventType status) message now
  return s.updateWorkflow workflowID (WorkflowRow.touched now)

def cancelQueuedStages (s : Store) (workflowID : String) (now : Time) : Store :=
  { s with
    stages := updateWhere (fun row => row.workflowID = workflowID ∧ row.status = .queued)
      (fun row => row.finished .cancelled row.output "Workflow cancelled" now) s.stages }

/-- The position `COALESCE(MAX(position), -1) + 1` of the next stage. -/
def nextPosition (s : Store) (workflowID : String) : Nat :=
  (s.stages.filter fun row => row.workflowID = workflowID).foldl (fun next row => max next (row.position + 1)) 0

def checkReply (s : Store) (message : RoomMessage) : Except StoreError Unit :=
  match message.replyTo with
  | none => .ok ()
  | some reply =>
    match findRow RoomMessage.id reply s.roomMessages with
    | none => .error .noRows
    | some row => if row.workflowID = message.workflowID then .ok () else .error .replyElsewhere

/-- `addMessageWithStage` without a stage. -/
def addMessage (s : Store) (message : RoomMessage) (now : Time) :
    Except StoreError (Store × RoomMessage) := do
  let created := message.createdAt.getD now
  s.checkReply message
  let (s, stored) ← s.insertMessage message created
  return (s.updateWorkflow message.workflowID (WorkflowRow.touched created), stored)

/-- `addMessageWithStage` with a stage: the stage joins the end of the workflow as queued, and a
workflow that had ended is queued again. -/
def addMessageWithStage (s : Store) (message : RoomMessage) (stage : Stage) (now : Time) :
    Except StoreError (Store × RoomMessage) := do
  let created := message.createdAt.getD now
  s.checkReply message
  let (s, stored) ← s.insertMessage message created
  let s ← insertStage message.workflowID s
    { stage with
      position := s.nextPosition message.workflowID
      workflowID := message.workflowID
      status := .queued }
  let s ← s.insertEvent message.workflowID stage.id "stage.queued" "Agent follow-up queued" created
  return (s.updateWorkflow message.workflowID (WorkflowRow.requeued created), stored)

end Store

end TermLinks.Coordinator
