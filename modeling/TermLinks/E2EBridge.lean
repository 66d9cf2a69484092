import TermLinks.ConnectorSending
import TermLinks.ConnectorAcceptance
import TermLinks.SealedLog

namespace TermLinks.Bridge

open E2E (textEncode)
open Sending (Nonce randRead)

variable {Key Record Value : Type}

/-- A packet as its sender made it: the text, and the encryption in it. -/
structure Packet (Key : Type) where
  text : String
  content : Sealed Key
deriving DecidableEq

/-- `EncryptedBridge` after its greeting, with what it encrypted and what it accepted. -/
structure Browser (Key : Type) where
  key : Key
  channel : Utf16.Units
  sendSequence : Nat
  /-- `sendChain` is rejected -/
  rejected : Bool
  receiveSequence : Nat
  sent : List (Packet Key)
  received : List Bytes

/-- The `sendSeq` of a `browserChannel`, with what was encrypted under it. -/
structure Sender (Key : Type) where
  sendSeq : UInt32
  sent : List (Packet Key)

/-- The `connectionState` of one `runOnce`; `senders` belong to its channels in their order. -/
structure Connection (Key : Type) where
  receive : Connector.State
  senders : List (Sender Key)

/-- The browsers and the connections of a connector. What is between them is up to the relay, which may send any
text to anyone. -/
structure State (Key : Type) where
  browsers : List (Browser Key)
  connections : List (Connection Key)

inductive Label (Key Record Value : Type)
  /-- `connectWithKey`, with the channel that the relay gave -/
  | join (key : Key) (channel : Utf16.Units)
  /-- the next link of `sendChain`; `isOpen` is the socket before the packet is encrypted, `posted` whether its `send`
  does not throw -/
  | browserSend (b : Nat) (isOpen posted : Bool) (iv : Nonce) (value : Record)
  | browserReceive (b : Nat) (packet : String)
  /-- `runOnce` -/
  | connect
  | connector (i : Nat) (label : Connector.Label)
  /-- what `sendEncrypted` does under `sendMu`, for a channel that it found in the table at some time -/
  | connectorSend (i c : Nat) (nonce : Option Nonce) (value : Value)

def Browser.encrypted (aead : Aead Key) (stringify : Record → Bytes) (browser : Browser Key) (iv : Nonce)
    (value : Record) : Option (Packet Key) :=
  (E2E.encryptPacket aead.encrypt stringify browser.key browser.channel .browser browser.sendSequence iv.val value).map
    fun text => ⟨text, aead.seal browser.key iv.val
      (E2E.encryptionAAD browser.channel .browser (putUint32 browser.sendSequence)) (stringify value)⟩

def Browser.sendEncrypted (aead : Aead Key) (stringify : Record → Bytes) (browser : Browser Key)
    (isOpen posted : Bool) (iv : Nonce) (value : Record) : Browser Key :=
  if browser.rejected then browser
  else if !isOpen then { browser with rejected := true }
  else
    match browser.encrypted aead stringify iv value with
    | some packet =>
      { browser with
        sendSequence := browser.sendSequence + 1, rejected := !posted, sent := browser.sent ++ [packet] }
    | none => { browser with sendSequence := browser.sendSequence + 1, rejected := true }

def Sender.encrypted (aead : Aead Key) (marshal : Value → Option Bytes) (key : Key) (channelID : String)
    (sender : Sender Key) (nonce : Option Nonce) (value : Value) : Option (Packet Key) := do
  let text ← Cloud.encryptPacket aead.encrypt marshal key (utf8 channelID) .connector sender.sendSeq (randRead nonce)
    value
  let plaintext ← marshal value
  let nonce ← randRead nonce
  some ⟨text, aead.seal key nonce
    (Cloud.additionalData (utf8 channelID) .connector (putUint32 sender.sendSeq.toNat)) plaintext⟩

/-- The number is drawn even when nothing can be encrypted. -/
def Sender.sendEncrypted (aead : Aead Key) (marshal : Value → Option Bytes) (key : Key) (channelID : String)
    (sender : Sender Key) (nonce : Option Nonce) (value : Value) : Sender Key :=
  ⟨sender.sendSeq + 1, sender.sent ++ (sender.encrypted aead marshal key channelID nonce value).toList⟩

namespace State

def initial : State Key := ⟨[], []⟩

/-- All that was encrypted. -/
def log (s : State Key) : List (Sealed Key) :=
  (s.browsers.flatMap fun browser => browser.sent.map Packet.content) ++
    s.connections.flatMap fun connection => connection.senders.flatMap fun sender => sender.sent.map Packet.content

def setBrowser (s : State Key) (b : Nat) (browser : Browser Key) : State Key :=
  { s with browsers := s.browsers.set b browser }

def setConnection (s : State Key) (i : Nat) (connection : Connection Key) : State Key :=
  { s with connections := s.connections.set i connection }

end State

/-- A channel that was opened can be sent on. -/
def Connection.adopt (connection : Connection Key) (receive : Connector.State) : Connection Key :=
  ⟨receive, connection.senders ++
    List.replicate (receive.channels.length - connection.senders.length) ⟨0, []⟩⟩

section

variable [DecidableEq Key]

/-- `decrypt` of `main.ts`; `parses` tells whether `JSON.parse` does not throw. -/
def Browser.receive (log : List (Sealed Key)) (parses : Bytes → Bool) (browser : Browser Key)
    (packet : String) :
    Browser Key :=
  match E2E.decryptPacket (openSealed log) (Option.guard parses) browser.key browser.channel .connector
      browser.receiveSequence packet with
  | some plaintext =>
    { browser with receiveSequence := browser.receiveSequence + 1, received := browser.received ++ [plaintext] }
  | none => browser

/-- `decryptPacket` as `handleEncrypted` calls it. -/
def State.decrypt (key : Key) (s : State Key) (channelID : String) (sequence : UInt32) (packet : String) :
    Option Bytes :=
  Cloud.decryptPacket (openSealed s.log) key (utf8 channelID) .browser sequence packet

/-- What the computers do, and `key` is of the portal token. -/
structure Codec (Key Record Value : Type) where
  aead : Aead Key
  key : Key
  marshal : Value → Option Bytes
  unmarshal : Connector.Unmarshal
  stringify : Record → Bytes
  parses : Bytes → Bool

def step (codec : Codec Key Record Value) (s : State Key) : Label Key Record Value → Option (State Key)
  | .join key channel => some { s with browsers := s.browsers ++ [⟨key, channel, 0, false, 0, [], []⟩] }
  | .browserSend b isOpen posted iv value =>
    (s.browsers[b]?).map fun browser =>
      s.setBrowser b (browser.sendEncrypted codec.aead codec.stringify isOpen posted iv value)
  | .browserReceive b packet =>
    (s.browsers[b]?).map fun browser => s.setBrowser b (browser.receive s.log codec.parses packet)
  | .connect => some { s with connections := s.connections ++ [⟨.initial, []⟩] }
  | .connector i label =>
    match s.connections[i]? with
    | some connection =>
      (Connector.step (s.decrypt codec.key) codec.unmarshal connection.receive label).map fun receive =>
        s.setConnection i (connection.adopt receive)
    | none => none
  | .connectorSend i c nonce value =>
    match s.connections[i]? with
    | some connection =>
      match connection.receive.channels[c]?, connection.senders[c]? with
      | some channel, some sender =>
        some (s.setConnection i { connection with
          senders := connection.senders.set c
            (sender.sendEncrypted codec.aead codec.marshal codec.key channel.id nonce value) })
      | _, _ => none
    | none => none

end

end TermLinks.Bridge
