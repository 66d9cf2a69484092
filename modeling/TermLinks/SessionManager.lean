import TermLinks.ConnectorHandlers
import TermLinks.GoText
import TermLinks.SessionStream

namespace TermLinks.SessionManager

open SessionStream (Session Action)

def defaultRows : UInt16 := 30

def defaultCols : UInt16 := 100

def maxSessions : Nat := 64

structure StartOptions where
  name : String
  command : List String
  cwd : String
  environment : List String
  rows : UInt16
  cols : UInt16
deriving DecidableEq

/-- A session with what `Info` says of it; `startedAt` is an instant. -/
structure Entry where
  id : String
  name : String
  command : List String
  cwd : String
  startedAt : Int
  rows : UInt16
  cols : UInt16
  session : Session
deriving DecidableEq

def Entry.running (entry : Entry) : Bool := entry.session.running

/-- `validateSize`; the error is "terminal size is outside allowed bounds". -/
def validateSize (cols rows : UInt16) : Bool := !(cols < 20 || cols > 500 || rows < 5 || rows > 300)

inductive StartError
  | commandRequired
  | size
  | resolve (error : String)
  | notAccessible (cwd : String)
  | limit
  | generateID (error : String)
  | start (command error : String)
deriving DecidableEq

def StartError.text (isPrint : Char → Bool) : StartError → String
  | .commandRequired => "command is required"
  | .size => "terminal size is outside allowed bounds"
  | .resolve error => "resolve working directory: " ++ error
  | .notAccessible cwd => "working directory is not accessible: " ++ cwd
  | .limit => "session limit reached (" ++ toString maxSessions ++ " running sessions)"
  | .generateID error => "generate session id: " ++ error
  | .start command error => "start " ++ quote isPrint command ++ ": " ++ error

/-- What `Start` asks of the operating system before it makes room. -/
structure Host where
  getwd : Except String String
  abs : String → Except String String
  isDirectory : String → Bool

/-- The options with the size a terminal has by default. -/
def StartOptions.sized (options : StartOptions) : StartOptions where
  __ := options
  rows := if options.rows = 0 then defaultRows else options.rows
  cols := if options.cols = 0 then defaultCols else options.cols

/-- `Start` up to `makeRoom`: the options with their defaults and an absolute directory. -/
def StartOptions.check (host : Host) (options : StartOptions) : Except StartError StartOptions :=
  if trimSpace (options.command.headD "") = "" then .error .commandRequired
  else if ¬validateSize options.sized.cols options.sized.rows then .error .size
  else
    match if options.cwd = "" then host.getwd else .ok options.cwd with
    | .error error => .error (.resolve error)
    | .ok cwd =>
      match host.abs cwd with
      | .error error => .error (.resolve error)
      | .ok absCwd =>
        if host.isDirectory absCwd then .ok { options.sized with cwd := absCwd }
        else .error (.notAccessible absCwd)

/-- The loop of `makeRoom` over the sessions: what it has yet to see, and the oldest completed one so far; `began` is
the table as it was when the loop began. -/
structure Scan where
  unseen : List String
  oldest : Option (String × Int)
  began : List Entry
deriving DecidableEq

/-- Where the call of `Start` that holds the start lock stands. -/
inductive StartPc
  | idle
  | checking (options : StartOptions)
  | makingRoom (options : StartOptions)
  | scanning (options : StartOptions) (scan : Scan)
  | drawing (options : StartOptions)
  | spawning (options : StartOptions) (id : String)
  | inserting (options : StartOptions) (id : String)
  | returned (result : Except StartError String)

structure Manager where
  sessions : List Entry
  start : StartPc

def Manager.new : Manager := ⟨[], .idle⟩

inductive Label
  | start (options : StartOptions)
  | check (host : Host)
  | lock
  | visit (id : String)
  | decide
  | drawID (drawn : Except String String)
  | spawn (failure : Option String)
  | insert (now : Int)
  | session (id : String) (action : Action)
  | get (id : String)
  | list

namespace Manager

def ids (m : Manager) : List String := m.sessions.map Entry.id

/-- `Get`. -/
def get (m : Manager) (id : String) : Option Entry := m.sessions.find? fun entry => entry.id = id

/-- The head of the loop of `makeRoom`. -/
def makeRoom (m : Manager) (options : StartOptions) : Manager :=
  if m.sessions.length ≥ maxSessions then { m with start := .scanning options ⟨m.ids, none, m.sessions⟩ }
  else { m with start := .drawing options }

def delete (m : Manager) (id : String) : Manager :=
  { m with sessions := m.sessions.filter fun entry => entry.id ≠ id }

/-- One session in the loop. -/
def visit (scan : Scan) (entry : Entry) : Scan :=
  let unseen := scan.unseen.erase entry.id
  if entry.running then { scan with unseen }
  else
    match scan.oldest with
    | none => { scan with unseen, oldest := some (entry.id, entry.startedAt) }
    | some (_, oldestTime) =>
      if entry.startedAt < oldestTime then { scan with unseen, oldest := some (entry.id, entry.startedAt) }
      else { scan with unseen }

/-- What `Start` stores of a session; its name is that of the command where the options have none. -/
def newEntry (options : StartOptions) (id : String) (now : Int) : Entry where
  id
  name :=
    let name := trimSpace options.name
    if name = "" then Connector.filepathBase (options.command.headD "") else name
  command := options.command
  cwd := options.cwd
  startedAt := now
  rows := options.rows
  cols := options.cols
  session := SessionStream.start

/-- `makeRoom` holds the lock of the table. -/
def locked (m : Manager) : Bool := m.start matches .scanning _ _

/-- One step of a session that somebody holds. -/
def act (m : Manager) (id : String) (session : Session) : Manager :=
  { m with sessions := m.sessions.map fun entry => if entry.id = id then { entry with session } else entry }

def step (m : Manager) : Label → Option Manager
  | .start options =>
    match m.start with
    | .idle => some { m with start := .checking options }
    | .returned _ => some { m with start := .checking options }
    | _ => none
  | .check host =>
    match m.start with
    | .checking options =>
      match options.check host with
      | .ok options => some { m with start := .makingRoom options }
      | .error error => some { m with start := .returned (.error error) }
    | _ => none
  | .lock =>
    match m.start with
    | .makingRoom options => some (m.makeRoom options)
    | _ => none
  | .visit id =>
    match m.start with
    | .scanning options scan =>
      if id ∈ scan.unseen then
        (m.get id).map fun entry => { m with start := .scanning options (visit scan entry) }
      else none
    | _ => none
  | .decide =>
    match m.start with
    | .scanning options scan =>
      if scan.unseen = [] then
        match scan.oldest with
        | none => some { m with start := .returned (.error .limit) }
        | some (oldestID, _) => some ((m.delete oldestID).makeRoom options)
      else none
    | _ => none
  | .drawID drawn =>
    match m.start with
    | .drawing options =>
      match drawn with
      | .error error => some { m with start := .returned (.error (.generateID error)) }
      -- Sixteen random bytes are no id there is.
      | .ok id => if id ∈ m.ids then none else some { m with start := .spawning options id }
    | _ => none
  | .spawn failure =>
    match m.start with
    | .spawning options id =>
      match failure with
      | some error => some { m with start := .returned (.error (.start (options.command.headD "") error)) }
      | none => some { m with start := .inserting options id }
    | _ => none
  | .insert now =>
    match m.start with
    | .inserting options id => some ⟨m.sessions ++ [newEntry options id now], .returned (.ok id)⟩
    | _ => none
  | .session id action => do
    let entry ← m.get id
    let session ← entry.session.step action
    return m.act id session
  | .get _ => if m.locked then none else some m
  | .list => if m.locked then none else some m

end Manager

end TermLinks.SessionManager
