import TermLinks.HistoryLinks

namespace TermLinks.TerminalHistory

def maxSessions : Nat := 64

/-- Where the open request that holds `openHistoryMu` stands. -/
inductive OpenPc
  | idle
  | got (entry : SavedTerminal)
  | starting (entry : SavedTerminal)
  | marking (id : Nat) (created : SessionInfo)
deriving DecidableEq

/-- A list request inside `sessions.List`: the sessions still to be read and what was read. -/
structure ListCall where
  todo : List String
  infos : List SessionInfo
deriving DecidableEq

/-- The daemon as its history requests see it. `objects` are all sessions ever started, `sessions` the
ids the manager retains, `opened` the sessions started by opening an entry, `replies` the running
sessions that open requests returned. -/
structure Daemon where
  store : Store
  objects : List SessionInfo
  sessions : List String
  opener : OpenPc
  lists : List ListCall
  ended : List SessionInfo
  renamed : List (String × String)
  favorites : List SessionInfo
  opened : List (Nat × String)
  replies : List (Nat × String)
deriving DecidableEq

def Daemon.initial : Daemon where
  store := .empty
  objects := []
  sessions := []
  opener := .idle
  lists := []
  ended := []
  renamed := []
  favorites := []
  opened := []
  replies := []

/-- `linkedSessionID` of `openTerminalHistory`. -/
def SavedTerminal.linkedSessionID (entry : SavedTerminal) : String :=
  if entry.activeSessionID = "" then entry.sourceSessionID else entry.activeSessionID

inductive Label
  | open (id : Nat)
  | check
  | start (created : SessionInfo)
  | startFails
  | mark
  | create (created : SessionInfo)
  | makeRoom (id : String)
  | finish (id : String) (endedAt : Time)
  | recordEnded (call : Nat)
  | rename (id name : String)
  | renameSession (call : Nat) (now : Time)
  | list (ids : List String)
  | readInfo (call : Nat)
  | reconcile (call : Nat)
  | favorite (id : String)
  | saveSession (call : Nat) (now : Time)
  | update (id : Nat) (name : Option String) (favorite : Option Bool) (now : Time)
  | delete (id : Nat)
  | restart
deriving DecidableEq

/-- The critical section that ends a session. -/
def SessionInfo.finished (endedAt : Time) (info : SessionInfo) : SessionInfo :=
  { info with running := false, endedAt := some endedAt }

/-- A session that went down with the daemon. -/
def SessionInfo.killed (info : SessionInfo) : SessionInfo := { info with running := false }

def SessionInfo.renamed (name : String) (info : SessionInfo) : SessionInfo := { info with name }

namespace Daemon

def info (s : Daemon) (id : String) : Option SessionInfo := findRow SessionInfo.id id s.objects

/-- `sessions.Get(id)` with `Info().Running`. -/
def isRunning (s : Daemon) (id : String) : Bool :=
  id ∈ s.sessions && (s.info id).any SessionInfo.running

/-- The session most recently started by opening the entry. -/
def lastOpened (s : Daemon) (id : Nat) : Option String :=
  (s.opened.filter fun pair => pair.1 = id).getLast?.map Prod.snd

/-- `Manager.Start`, once there is room; a drawn id is never drawn again. -/
def start (s : Daemon) (created : SessionInfo) : Option Daemon :=
  if s.sessions.length < maxSessions ∧ created.running = true ∧ created.endedAt = none ∧
      s.info created.id = none then
    some { s with objects := s.objects ++ [created], sessions := s.sessions ++ [created.id] }
  else none

/-- A change of one session's `info`. -/
def setInfo (s : Daemon) (id : String) (f : SessionInfo → SessionInfo) : Daemon :=
  { s with objects := updateWhere (fun info => info.id = id) f s.objects }

end Daemon

def step (s : Daemon) : Label → Option Daemon
  | .open id =>
    match s.opener, s.store.get id with
    | .idle, .ok entry => some { s with opener := .got entry }
    | .idle, .error _ => some s
    | _, _ => none
  | .check =>
    match s.opener with
    | .got entry =>
      if s.isRunning entry.linkedSessionID then
        some { s with opener := .idle, replies := s.replies ++ [(entry.id, entry.linkedSessionID)] }
      else some { s with opener := .starting entry }
    | _ => none
  | .start created =>
    match s.opener with
    | .starting entry =>
      (s.start created).map fun t =>
        { t with opener := .marking entry.id created, opened := s.opened ++ [(entry.id, created.id)] }
    | _ => none
  | .startFails =>
    match s.opener with
    | .starting _ => some { s with opener := .idle }
    | _ => none
  | .mark =>
    match s.opener with
    | .marking id created =>
      -- when MarkOpened fails the new session is only asked to stop
      some { s with opener := .idle, store := s.store.apply (.markOpened id created.id created.startedAt) }
    | _ => none
  | .create created => s.start created
  | .makeRoom id =>
    if s.sessions.length ≥ maxSessions ∧ s.isRunning id = false then
      some { s with sessions := s.sessions.filter (· ≠ id) }
    else none
  | .finish id endedAt => do
    let info ← s.info id
    if info.running then
      return { s.setInfo id (SessionInfo.finished endedAt) with ended := s.ended ++ [info.finished endedAt] }
    else none
  | .recordEnded call => do
    let info ← s.ended[call]?
    return { s with store := s.store.apply (.recordEnded info), ended := s.ended.eraseIdx call }
  | .rename id name =>
    if id ∈ s.sessions then
      some { s.setInfo id (SessionInfo.renamed name) with renamed := s.renamed ++ [(id, name)] }
    else none
  | .renameSession call now => do
    let (id, name) ← s.renamed[call]?
    return { s with store := s.store.apply (.renameSession id name now), renamed := s.renamed.eraseIdx call }
  | .list ids =>
    -- in whatever order the requests then sort the infos
    if ids.Perm s.sessions then some { s with lists := s.lists ++ [⟨ids, []⟩] } else none
  | .readInfo call => do
    let request ← s.lists[call]?
    let id ← request.todo.head?
    let info ← s.info id
    return { s with lists := s.lists.set call ⟨request.todo.tail, request.infos ++ [info]⟩ }
  | .reconcile call => do
    let request ← s.lists[call]?
    if request.todo = [] then
      return { s with store := s.store.apply (.reconcile request.infos), lists := s.lists.eraseIdx call }
    else none
  | .favorite id => do
    let info ← s.info id
    if id ∈ s.sessions then return { s with favorites := s.favorites ++ [info] } else none
  | .saveSession call now => do
    let info ← s.favorites[call]?
    return { s with
      store := s.store.apply (.saveSession info true now), favorites := s.favorites.eraseIdx call }
  | .update id name favorite now => some { s with store := s.store.apply (.update id name favorite now) }
  | .delete id => some { s with store := s.store.apply (.delete id) }
  | .restart =>
    some { s with
      objects := updateWhere SessionInfo.running SessionInfo.killed s.objects
      sessions := []
      opener := .idle
      lists := []
      ended := []
      renamed := []
      favorites := [] }

end TermLinks.TerminalHistory
