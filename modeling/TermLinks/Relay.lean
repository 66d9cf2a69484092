import TermLinks.E2EPacket
import TermLinks.Exec
import TermLinks.JsonRender

namespace TermLinks.Relay

def maxEncryptedPacket : Nat := 5 * 1024 * 1024

def maxBrowserSockets : Nat := 8

def isHex (c : Char) : Bool := ('a' ≤ c && c ≤ 'f') || ('0' ≤ c && c ≤ '9')

/-- Runs of hexadecimal digits of the given lengths, joined by hyphens. -/
def hexGroups : List Nat → List Char → Bool
  | [], cs => cs.isEmpty
  | [n], cs => cs.length = n && cs.all isHex
  | n :: m :: more, cs =>
    (cs.take n).length = n && (cs.take n).all isHex && (cs.drop n).head? = some '-' &&
      hexGroups (m :: more) (cs.drop (n + 1))

def isUUID (value : String) : Bool := hexGroups [8, 4, 4, 4, 12] value.toList

def isURLChar (c : Char) : Bool :=
  ('A' ≤ c && c ≤ 'Z') || ('a' ≤ c && c ≤ 'z') || ('0' ≤ c && c ≤ '9') || c = '_' || c = '-'

def isBase64URL (value : String) : Bool := !value.toList.isEmpty && value.toList.all isURLChar

def normalizeCloseCode (code : Int) : Int :=
  if 1000 ≤ code ∧ code ≤ 4999 ∧ code ∉ [1004, 1005, 1006, 1015] then code else 1012

/-- What `TextDecoder` makes of the first bytes of a text: a character cut short becomes the replacement
character. -/
def decodePrefix : Nat → List Char → List Char
  | _, [] => []
  | bytes, c :: rest =>
    if c.utf8Size ≤ bytes then c :: decodePrefix (bytes - c.utf8Size) rest
    else if bytes = 0 then [] else ['\ufffd']

/-- `TextDecoder.decode` also drops a byte order mark at the front. -/
def boundedReason (reason : String) : String :=
  if reason.utf8ByteSize ≤ 120 then reason
  else
    match decodePrefix 120 reason.toList with
    | '\ufeff' :: rest => String.ofList rest
    | decoded => String.ofList decoded

inductive Attachment
  | connector
  | browser (channel : String)
deriving DecidableEq

def socketAttachment : Attachment → Option Attachment
  | .connector => some .connector
  | .browser channel => if isUUID channel then some (.browser channel) else none

/-- What `crypto.randomUUID` returns. -/
structure UUID where
  text : String
  valid : isUUID text = true
deriving DecidableEq

inductive Message
  | connected
  | pong
  | bridgeReady (id : String)
  | channelOpen (id : String)
  | fromBrowser (id data : String)
  | channelClose (id : String) (code : Int) (reason : String)
deriving DecidableEq

/-- A text frame: a message of the relay, or data that it passes on. -/
inductive Frame
  | json (message : Message)
  | text (data : String)
deriving DecidableEq

inductive Incoming
  | text (data : String)
  | binary (data : Bytes)
deriving DecidableEq

/-- A socket that `acceptWebSocket` took. `closing` is what `close` was called with first, `lost` tells that the
peer or the network ended it. -/
structure Socket where
  attachment : Attachment
  listed : Bool
  closing : Option (Int × String)
  lost : Bool
deriving DecidableEq

def Socket.isOpen (s : Socket) : Bool := s.closing.isNone && !s.lost

def Socket.close (code : Int) (reason : String) (s : Socket) : Socket :=
  if s.isOpen then { s with closing := some (code, reason) } else s

inductive Happening
  | arrived (socket : Nat) (origin : Attachment) (message : Incoming)
  | sent (socket : Nat) (target : Attachment) (frame : Frame)
deriving DecidableEq

structure State where
  sockets : List Socket
  trace : List Happening
deriving DecidableEq

def initial : State := ⟨[], []⟩

/-- The socket `getWebSockets` returns for a connector, or for the tag of a channel, that is open. -/
def State.find (σ : State) (attachment : Attachment) : Option Nat :=
  σ.sockets.findIdx? fun s => s.listed && s.attachment = attachment && s.isOpen

def State.connector (σ : State) : Option Nat := σ.find .connector

def State.browser (σ : State) (channel : String) : Option Nat := σ.find (.browser channel)

def State.accept (attachment : Attachment) (σ : State) : State :=
  { σ with sockets := σ.sockets ++ [⟨attachment, true, none, false⟩] }

/-- `send` on a socket; `none` where it throws. -/
def State.send (throws : List Nat) (i : Nat) (frame : Frame) (σ : State) : Option State :=
  match σ.sockets[i]? with
  | some s => if i ∈ throws then none else some { σ with trace := σ.trace ++ [.sent i s.attachment frame] }
  | none => none

def State.close (i : Nat) (code : Int) (reason : String) (σ : State) : State :=
  { σ with sockets := σ.sockets.modify i (Socket.close code reason) }

/-- `close` on all sockets that `getWebSockets` returns and that have the role. -/
def State.closeAll (role : Attachment → Bool) (code : Int) (reason : String) (σ : State) : State :=
  { σ with sockets := σ.sockets.map fun s => if s.listed && role s.attachment then s.close code reason else s }

def Attachment.isConnector : Attachment → Bool
  | .connector => true
  | .browser _ => false

def Attachment.isBrowser : Attachment → Bool
  | .connector => false
  | .browser _ => true

def disconnectBrowsers (code : Int) (reason : String) (σ : State) : State :=
  σ.closeAll Attachment.isBrowser (normalizeCloseCode code) (boundedReason reason)

def closeBrowser (channel : String) (code : Int) (reason : String) (σ : State) : State :=
  match σ.browser channel with
  | some i => σ.close i code reason
  | none => σ

def sendToConnector (throws : List Nat) (message : Message) (σ : State) : Bool × State :=
  match σ.connector with
  | some i =>
    match σ.send throws i (.json message) with
    | some σ' => (true, σ')
    | none => (false, σ)
  | none => (false, σ)

/-- `message.length` -/
def length (text : String) : Nat := E2E.utf16Length text.toList

def forwardCiphertext (throws : List Nat) (channel : String) (message : Incoming) (σ : State) : State :=
  match message with
  | .binary _ => closeBrowser channel 1007 "Invalid encrypted packet" σ
  | .text data =>
    if length data = 0 ∨ length data > maxEncryptedPacket ∨ !isBase64URL data then
      closeBrowser channel 1007 "Invalid encrypted packet" σ
    else
      match sendToConnector throws (.fromBrowser channel data) σ with
      | (true, σ) => σ
      | (false, σ) => closeBrowser channel 1012 "Your computer is offline" σ

/-- A property of an object that `JSON.parse` made; the last member of a name counts. -/
def member (name : String) (members : List (String × Json.Value)) : Option Json.Value :=
  (members.reverse.find? fun pair => pair.1 = name).map Prod.snd

def stringMember (name : String) (members : List (String × Json.Value)) : Option String :=
  match member name members with
  | some (.string text) => some text
  | _ => none

structure ConnectorToBrowser where
  id : String
  data : String
deriving DecidableEq

def parseConnectorToBrowser (members : List (String × Json.Value)) : Option ConnectorToBrowser :=
  match stringMember "id" members, stringMember "data" members with
  | some id, some data =>
    if !isUUID id ∨ length data = 0 ∨ length data > maxEncryptedPacket ∨ !isBase64URL data then none
    else some ⟨id, data⟩
  | _, _ => none

structure ChannelClose where
  id : String
  code : Option Int
  reason : Option String
deriving DecidableEq

/-- `code` where it is absent or an integer in range. -/
def closeCode (members : List (String × Json.Value)) : Option (Option Int) :=
  match member "code" members with
  | none => some none
  | some (.number n) => (n.toInt?.filter fun code => 1000 ≤ code ∧ code ≤ 4999).map some
  | some _ => none

def closeReason (members : List (String × Json.Value)) : Option (Option String) :=
  match member "reason" members with
  | none => some none
  | some (.string text) => some (some text)
  | some _ => none

def parseChannelClose (members : List (String × Json.Value)) : Option ChannelClose := do
  let id ← stringMember "id" members
  if !isUUID id then none
  let code ← closeCode members
  let reason ← closeReason members
  some ⟨id, code, reason⟩

def handleConnectorMessage (throws : List Nat) (socket : Nat) (value : Json.Value) (σ : State) : State :=
  match value with
  | .object members =>
    match stringMember "type" members with
    | none => σ.close socket 1007 "Invalid connector message"
    | some type =>
      if type = "e2e_to_browser" then
        match parseConnectorToBrowser members with
        | none => σ.close socket 1007 "Invalid encrypted browser message"
        | some message =>
          match σ.browser message.id with
          | none => σ
          | some browser =>
            match σ.send throws browser (.text message.data) with
            | some σ' => σ'
            | none => σ.close browser 1011 "Encrypted forwarding failed"
      else if type = "channel_close" then
        match parseChannelClose members with
        | none => σ.close socket 1007 "Invalid channel close"
        | some message =>
          closeBrowser message.id (normalizeCloseCode (message.code.getD 1000))
            (boundedReason (message.reason.getD "")) σ
      else if type = "ping" then (σ.send throws socket (.json .pong)).getD σ
      else if type = "hello" then σ
      else σ.close socket 1007 "Unsupported connector message"
  | _ => σ.close socket 1007 "Invalid connector message"

def webSocketMessage (throws : List Nat) (socket : Nat) (attachment : Attachment) (message : Incoming)
    (σ : State) : State :=
  match socketAttachment attachment with
  | none => σ.close socket 1008 "Invalid socket state"
  | some (.browser channel) => forwardCiphertext throws channel message σ
  | some .connector =>
    match message with
    | .binary _ => σ.close socket 1009 "Connector message too large"
    | .text data =>
      if length data > maxEncryptedPacket * 2 then σ.close socket 1009 "Connector message too large"
      else
        match Json.parse data with
        | none => σ.close socket 1007 "Invalid connector message"
        | some value => handleConnectorMessage throws socket value σ

def webSocketClose (throws : List Nat) (socket : Nat) (attachment : Attachment) (code : Int) (reason : String)
    (σ : State) : State :=
  match socketAttachment attachment with
  | none => σ
  | some .connector =>
    if σ.connector.any fun current => current ≠ socket then σ
    else
      disconnectBrowsers (if code = 1000 then 1012 else code)
        (if reason = "" then "Computer disconnected" else reason) σ
  | some (.browser channel) =>
    (sendToConnector throws (.channelClose channel (normalizeCloseCode code) (boundedReason reason)) σ).2

def webSocketError (throws : List Nat) (socket : Nat) (attachment : Attachment) (σ : State) : State :=
  match socketAttachment attachment with
  | none => σ
  | some .connector =>
    if σ.connector.any fun current => current ≠ socket then σ
    else disconnectBrowsers 1012 "Computer connection failed" σ
  | some (.browser channel) =>
    (sendToConnector throws (.channelClose channel 1011 "Browser connection failed") σ).2

structure Request where
  method : String
  pathname : String
  upgrade : Option String
  /-- `X-Termlinks-Connector` -/
  connectorHeader : Option String
deriving DecidableEq

inductive Response
  | switchingProtocols
  | status (online : Bool)
  | jsonError (status : Nat) (message : String)
  /-- an exception that the caller turns into an error of its own -/
  | thrown
deriving DecidableEq

def Request.upgrades (request : Request) : Bool := request.upgrade.map String.toLower = some "websocket"

def acceptConnector (throws : List Nat) (request : Request) (σ : State) : Response × State :=
  if !request.upgrades ∨ request.connectorHeader ≠ some "authorized" then
    (.jsonError 400 "Invalid connector request", σ)
  else
    let closed := disconnectBrowsers 1012 "Computer reconnected"
      (σ.closeAll Attachment.isConnector 1012 "Replaced by a new connector")
    let accepted := closed.accept .connector
    match accepted.send throws σ.sockets.length (.json .connected) with
    | some σ' => (.switchingProtocols, σ')
    | none => (.thrown, accepted)

def acceptBrowser (throws : List Nat) (request : Request) (channel : UUID) (σ : State) : Response × State :=
  match σ.connector with
  | none => (.jsonError 503 "Your computer is offline", σ)
  | some connector =>
    if !request.upgrades then (.jsonError 426 "WebSocket upgrade required", σ)
    else if (σ.sockets.filter fun s => s.listed && s.attachment.isBrowser).length ≥ maxBrowserSockets then
      (.jsonError 503 "Too many portal connections", σ)
    else
      let relaySide := σ.sockets.length
      let accepted := σ.accept (.browser channel.text)
      match accepted.send throws connector (.json (.channelOpen channel.text)) with
      | none => (.switchingProtocols, accepted.close relaySide 1012 "Your computer is offline")
      | some announced =>
        match announced.send throws relaySide (.json (.bridgeReady channel.text)) with
        | none => (.switchingProtocols, announced.close relaySide 1012 "Your computer is offline")
        | some greeted => (.switchingProtocols, greeted)

def fetch (throws : List Nat) (request : Request) (channel : UUID) (σ : State) : Response × State :=
  if request.pathname = "/connector" then acceptConnector throws request σ
  else if request.pathname = "/status" ∧ request.method = "GET" then (.status σ.connector.isSome, σ)
  else if request.pathname = "/ws/bridge" ∧ request.method = "GET" then acceptBrowser throws request channel σ
  else (.jsonError 404 "Not found", σ)

inductive Event
  /-- with the UUID that `crypto.randomUUID` has ready -/
  | fetch (request : Request) (channel : UUID)
  | message (socket : Nat) (message : Incoming)
  | close (socket : Nat) (code : Int) (reason : String)
  | error (socket : Nat)
  /-- the peer or the network takes the socket out of `OPEN`; the event may come later -/
  | lost (socket : Nat)
  /-- `getWebSockets` returns the socket no longer -/
  | forgotten (socket : Nat)
deriving DecidableEq

/-- An event, and the sockets on which `send` throws while it is handled. -/
structure Label where
  throws : List Nat
  event : Event
deriving DecidableEq

def step (σ : State) (label : Label) : Option State :=
  match label.event with
  | .fetch request channel => some (fetch label.throws request channel σ).2
  | .message socket message =>
    σ.sockets[socket]?.map fun s =>
      webSocketMessage label.throws socket s.attachment message
        { σ with trace := σ.trace ++ [.arrived socket s.attachment message] }
  | .close socket code reason =>
    σ.sockets[socket]?.map fun s => webSocketClose label.throws socket s.attachment code reason σ
  | .error socket => σ.sockets[socket]?.map fun s => webSocketError label.throws socket s.attachment σ
  | .lost socket => some { σ with sockets := σ.sockets.modify socket fun s => { s with lost := true } }
  | .forgotten socket =>
    some { σ with sockets := σ.sockets.modify socket fun s => { s with lost := true, listed := false } }

end TermLinks.Relay
