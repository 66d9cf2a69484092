import TermLinks.CloudPacket
import TermLinks.ConnectorHandlers
import TermLinks.Exec

namespace TermLinks.Connector

def protocolVersion : Int := 1

def maxControlMessage : Nat := 7 * 2 ^ 20

def maxEncryptedPacket : Nat := 5 * 2 ^ 20

def maxTerminalInput : Nat := 64 * 2 ^ 10

def maxDesktopInput : Nat := 256 * 2 ^ 10

def isHex (c : Char) : Bool := ('0' ≤ c && c ≤ '9') || ('a' ≤ c && c ≤ 'f')

/-- The loop of `validMessageID` over the runes, which knows the byte index of each. -/
def validMessageRunes : Nat → List Char → Bool
  | _, [] => true
  | index, character :: rest =>
    (if index = 8 ∨ index = 13 ∨ index = 18 ∨ index = 23 then character = '-' else isHex character) &&
      validMessageRunes (index + character.utf8Size) rest

def validMessageID (id : String) : Bool := id.utf8ByteSize = 36 && validMessageRunes 0 id.toList

def validSessionID (id : String) : Bool := id.utf8ByteSize = 32 && id.toList.all isHex

/-- The fields the messages of the browser have; a message has those of its own type. -/
structure Fields where
  id : String
  challenge : String
  method : String
  path : String
  sessionID : String
  binary : Bool
  data : String
  windowID : Nat
  maxWidth : Int
  maxHeight : Int
  /-- `validWindowInput` -/
  validInput : Bool
  name : String
  size : Int
  offset : Int

/-- `json.Unmarshal` into `innerMessageType`, and into the message of the named type. -/
structure Unmarshal where
  kind : Bytes → Option (Int × String)
  fields : String → Bytes → Option Fields

/-- What `handleEncrypted` does with a plaintext. -/
inductive Dispatch
  | reject
  | authenticate (challenge : String)
  /-- on the reader -/
  | handle (handler : Handler)
  /-- on a goroutine of its own -/
  | start (handler : Handler)
  | nothing

def terminalInput (fields : Fields) : Option Bytes :=
  if fields.binary then Cloud.rawURLDecode fields.data else some (utf8 fields.data)

/-- The type of an inner message, once its id is found valid. -/
def dispatchFields (kind : String) (fields : Fields) : Dispatch :=
  match kind with
  | "http_request" => .start (.httpRequest fields.method fields.path)
  | "terminal_open" => if validSessionID fields.sessionID then .handle (.dialTerminal fields.id) else .reject
  | "terminal_data" =>
    .handle (.write .terminal fields.id ((terminalInput fields).any fun data => data.length ≤ maxTerminalInput))
  | "terminal_close" => .handle (.closeLine .terminal fields.id)
  | "desktop_open" => .handle (.openView .desktop fields.id)
  | "desktop_data" =>
    .handle (.write .desktop fields.id
      ((Cloud.rawURLDecode fields.data).any fun data => data.length ≠ 0 && data.length ≤ maxDesktopInput))
  | "desktop_close" => .handle (.closeLine .desktop fields.id)
  | "window_sources_request" => .start .listWindows
  | "window_open" =>
    if fields.windowID = 0 || fields.maxWidth < 320 || fields.maxWidth > 2560 || fields.maxHeight < 240 ||
        fields.maxHeight > 1800 then .reject
    else .start (.openView .window fields.id)
  | "window_input" => if fields.validInput then .nothing else .reject
  | "window_close" => .handle (.closeLine .window fields.id)
  | "file_upload_start" => .handle (.startUpload fields.id fields.name fields.size)
  | "file_upload_chunk" => .handle (.chunk fields.id fields.offset (Cloud.rawURLDecode fields.data))
  | "file_upload_finish" => .handle (.finishUpload fields.id)
  | "file_upload_cancel" => .handle (.cancelUpload fields.id)
  | _ => .reject

def dispatch (unmarshal : Unmarshal) (authenticated : Bool) (plaintext : Bytes) : Dispatch :=
  match unmarshal.kind plaintext with
  | none => .reject
  | some (version, kind) =>
    if version ≠ protocolVersion then .reject
    else if !authenticated then
      if kind ≠ "authenticate" then .reject
      else
        match unmarshal.fields kind plaintext with
        | some fields =>
          if fields.challenge.utf8ByteSize < 16 || fields.challenge.utf8ByteSize > 256 then .reject
          else .authenticate fields.challenge
        | none => .reject
    else
      match unmarshal.fields kind plaintext with
      | some fields => if validMessageID fields.id then dispatchFields kind fields else .reject
      | none => .reject

/-- A resource in the maps that `closeChannel` took. -/
inductive Taken
  | line (line : Line) (r : Nat)
  | upload (r : Nat)
deriving DecidableEq

/-- Where a goroutine stands: in `openChannel`, `handleEncrypted`, `closeChannel` or a handler. `next` is the
channel `openChannel` goes on to put into the table. -/
inductive Pc
  | replacing (id : String) (channel : Nat)
  | inserting (id : String) (channel : Nat)
  | looking (id packet : String)
  | found (id packet : String) (channel : Nat)
  | decrypting (id packet : String) (channel : Nat) (sequence : UInt32)
  | decrypted (id packet : String) (plaintext : Bytes) (channel : Nat) (sequence : UInt32)
  | accepted (id : String) (plaintext : Bytes) (channel : Nat)
  | login (id : String) (channel : Nat)
  | granting (id : String) (channel : Nat)
  | closing (id : String) (next : Option (String × Nat))
  | taking (channel : Nat) (next : Option (String × Nat))
  | disposing (channel : Nat) (rest : List Taken) (next : Option (String × Nat))
  | handling (id : String) (channel : Nat) (handler : Handler)
  | returned

def Pc.isReturned : Pc → Bool
  | .returned => true
  | _ => false

/-- A goroutine; the reader of the relay runs one `onReader` at a time. -/
structure Task where
  onReader : Bool
  pc : Pc

/-- A packet that `handleEncrypted` accepted on a channel. -/
structure Accepted where
  channel : Nat
  id : String
  sequence : UInt32
  packet : String
  plaintext : Bytes
deriving DecidableEq

/-- `connectionState`, with every channel it made and every goroutine, and what was accepted, logged in and done
so far. -/
structure State where
  table : Table
  channels : List BrowserChannel
  tasks : List Task
  accepted : List Accepted
  logins : List Nat
  effects : List (Nat × Effect)

def State.initial : State := ⟨∅, [], [], [], [], []⟩

inductive Label
  | channelOpen (id : String)
  | fromBrowser (id packet : String)
  | channelClose (id : String)
  /-- the `authTimer` of a channel fires -/
  | authTimeout (channel : Nat)
  /-- `closeAllChannels` comes to this channel -/
  | shutdown (id : String)
  /-- a goroutine takes its next step, with the answer of what it calls -/
  | run (task : Nat) (ok : Bool)
deriving DecidableEq

def BrowserChannel.new (id : String) : BrowserChannel := ⟨id, false, 0, ∅, ∅, ∅, ∅, [], false⟩

/-- What `closeChannel` takes out of the maps. -/
def BrowserChannel.contents (channel : BrowserChannel) : List Taken :=
  channel.sockets.entries.map (fun entry => .line .terminal entry.2) ++
    channel.desktops.entries.map (fun entry => .line .desktop entry.2) ++
    channel.windows.entries.map (fun entry => .line .window entry.2) ++
    channel.uploads.entries.map fun entry => .upload entry.2

def BrowserChannel.emptied (channel : BrowserChannel) : BrowserChannel :=
  { channel with sockets := ∅, desktops := ∅, windows := ∅, uploads := ∅, taken := true }

def BrowserChannel.dispose (channel : BrowserChannel) : Taken → BrowserChannel
  | .line line r => channel.shut line r
  | .upload r => channel.cleanup r

namespace State

def setPc (s : State) (k : Nat) (task : Task) (pc : Pc) : State :=
  { s with tasks := s.tasks.set k { task with pc } }

def setChannel (s : State) (c : Nat) (channel : BrowserChannel) : State :=
  { s with channels := s.channels.set c channel }

def addTask (s : State) (task : Task) : State := { s with tasks := s.tasks ++ [task] }

def readerFree (s : State) : Bool := s.tasks.all fun task => !task.onReader || task.pc.isReturned

end State

/-- Where `closeChannel` returns to. -/
def Pc.resume : Option (String × Nat) → Pc
  | some (id, channel) => .inserting id channel
  | none => .returned

def State.startReader (s : State) (pc : Pc) : Option State :=
  if s.readerFree then some (s.addTask ⟨true, pc⟩) else none

/-- Where a handler goes on. -/
def Pc.handle (id : String) (c : Nat) : Option Handler → Pc
  | some handler => .handling id c handler
  | none => .returned

/-- The step of a handler on its channel. -/
def handleStep (s : State) (k : Nat) (task : Task) (id : String) (c : Nat) (move : Move) : State :=
  { s.setChannel c move.channel with
    tasks := s.tasks.set k { task with pc := .handle id c move.next } ++
      move.spawn.toList.map fun handler => ⟨false, .handling id c handler⟩
    effects := s.effects ++ move.effect.toList.map fun effect => (c, effect) }

/-- The next step of a goroutine. `decrypt` is `decryptPacket` of a packet of the browser. -/
def taskStep (decrypt : String → UInt32 → String → Option Bytes) (unmarshal : Unmarshal) (s : State) (k : Nat)
    (task : Task) (ok : Bool) : Pc → Option State
  | .replacing id c =>
    if (s.table.lookup id).isSome then some (s.setPc k task (.closing id (some (id, c))))
    else some { s.setPc k task .returned with table := s.table.insert id c }
  | .inserting id c => some { s.setPc k task .returned with table := s.table.insert id c }
  | .looking id packet =>
    match s.table.lookup id with
    | some c => some (s.setPc k task (.found id packet c))
    | none => some (s.setPc k task (.closing id none))
  | .found id packet c =>
    (s.channels[c]?).map fun channel => s.setPc k task (.decrypting id packet c channel.receiveSeq)
  | .decrypting id packet c sequence =>
    match decrypt id sequence packet with
    | some plaintext =>
      if plaintext.length > maxControlMessage then some (s.setPc k task (.closing id none))
      else some (s.setPc k task (.decrypted id packet plaintext c sequence))
    | none => some (s.setPc k task (.closing id none))
  | .decrypted id packet plaintext c sequence =>
    (s.channels[c]?).map fun channel =>
      if channel.receiveSeq ≠ sequence then s.setPc k task (.closing id none)
      else
        { (s.setChannel c { channel with receiveSeq := channel.receiveSeq + 1 }).setPc k task
            (.accepted id plaintext c) with
          accepted := s.accepted ++ [⟨c, id, sequence, packet, plaintext⟩] }
  | .accepted id plaintext c =>
    (s.channels[c]?).map fun channel =>
      match dispatch unmarshal channel.authenticated plaintext with
      | .reject => s.setPc k task (.closing id none)
      | .authenticate _ => s.setPc k task (.login id c)
      | .handle handler => s.setPc k task (.handling id c handler)
      | .start handler => (s.setPc k task .returned).addTask ⟨false, .handling id c handler⟩
      | .nothing => s.setPc k task .returned
  | .login id c =>
    if ok then some { s.setPc k task (.granting id c) with logins := s.logins ++ [c] }
    else some (s.setPc k task (.closing id none))
  | .granting _ c =>
    (s.channels[c]?).map fun channel =>
      (s.setChannel c { channel with authenticated := true }).setPc k task .returned
  | .closing id next =>
    match s.table.lookup id with
    | some c => some { s.setPc k task (.taking c next) with table := s.table.erase id }
    | none => some (s.setPc k task (.resume next))
  | .taking c next =>
    (s.channels[c]?).map fun channel =>
      (s.setChannel c channel.emptied).setPc k task (.disposing c channel.contents next)
  | .disposing _ [] next => some (s.setPc k task (.resume next))
  | .disposing c (item :: rest) next =>
    (s.channels[c]?).map fun channel =>
      (s.setChannel c (channel.dispose item)).setPc k task (.disposing c rest next)
  | .handling id c handler =>
    (s.channels[c]?).map fun channel =>
      handleStep s k task id c (handler.move channel (s.table.lookup id).isSome ok)
  | .returned => none

def step (decrypt : String → UInt32 → String → Option Bytes) (unmarshal : Unmarshal) (s : State) :
    Label → Option State
  | .channelOpen id =>
    if validMessageID id then
      State.startReader { s with channels := s.channels ++ [.new id] } (.replacing id s.channels.length)
    else none
  | .fromBrowser id packet =>
    if validMessageID id ∧ 0 < packet.utf8ByteSize ∧ packet.utf8ByteSize ≤ maxEncryptedPacket then
      s.startReader (.looking id packet)
    else none
  | .channelClose id => if validMessageID id then s.startReader (.closing id none) else none
  | .authTimeout c =>
    match s.channels[c]? with
    | some channel => if channel.authenticated then none else some (s.addTask ⟨false, .closing channel.id none⟩)
    | none => none
  | .shutdown id => some (s.addTask ⟨false, .closing id none⟩)
  | .run k ok =>
    match s.tasks[k]? with
    | some task => taskStep decrypt unmarshal s k task ok task.pc
    | none => none

theorem link_dispose (channel : BrowserChannel) (item : Taken) : SameLink channel (channel.dispose item) := by
  cases item with
  | line line r => exact link_shut channel line r
  | upload r => exact link_cleanup channel r

end TermLinks.Connector
