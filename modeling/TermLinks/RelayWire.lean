import TermLinks.Connector
import TermLinks.Relay

namespace TermLinks.Relay

/-- The object that `JSON.stringify` gets. -/
def Message.value : Message → Json.Value
  | .connected => .object [("type", .string "connected"), ("protocol", .string "e2e-v1")]
  | .pong => .object [("type", .string "pong")]
  | .bridgeReady id => .object
    [("type", .string "bridge_ready"), ("id", .string id), ("protocol", .string "e2e-v1")]
  | .channelOpen id => .object [("type", .string "channel_open"), ("id", .string id)]
  | .fromBrowser id data =>
    .object [("type", .string "e2e_from_browser"), ("id", .string id), ("data", .string data)]
  | .channelClose id code reason =>
    .object [("type", .string "channel_close"), ("id", .string id), ("code", .number (Json.ofInt code)),
      ("reason", .string reason)]

def stringify (value : Json.Value) : String := String.ofList (Json.render (fun _ => false) value)

def Message.text (message : Message) : String := stringify message.value

end TermLinks.Relay

namespace TermLinks.Connector

/-- What `json.Marshal` escapes besides the quote, the backslash and control characters. -/
def htmlEscaped (c : Char) : Bool := c = '<' || c = '>' || c = '&' || c = '\u2028' || c = '\u2029'

def marshal (value : Json.Value) : String := String.ofList (Json.render htmlEscaped value)

theorem basic_html : ∀ c, htmlEscaped c → c.toNat < 65536 := by
  intro c escaped
  simp only [htmlEscaped, Bool.or_eq_true, decide_eq_true_eq] at escaped
  rcases escaped with (((rfl | rfl) | rfl) | rfl) | rfl <;> decide

theorem parse_marshal (value : Json.Value) : Json.parse (marshal value) = some value :=
  Json.parse_render basic_html value

def messageType (type : String) : Json.Value := .object [("type", .string type)]

def encryptedOuterMessage (type id data : String) : Json.Value :=
  .object [("type", .string type), ("id", .string id), ("data", .string data)]

def channelCloseMessage (type id : String) (code : Int) (reason : String) : Json.Value :=
  .object ([("type", .string type), ("id", .string id)] ++
    (if code = 0 then [] else [("code", .number (Json.ofInt code))]) ++
    if reason = "" then [] else [("reason", .string reason)])

/-- `foldName` of the names of fields, which are letters; two more characters fold to letters. -/
def foldRune (c : Char) : Char :=
  if c = '\u017f' then 's' else if c = '\u212a' then 'k' else c.toLower

def foldName (name : String) : List Char := name.toList.map foldRune

/-- A string field: the last member of its name counts, `null` leaves it, another value is an error. -/
def stringField (name : String) (members : List (String × Json.Value)) : Option String :=
  members.foldlM (fun current pair =>
    if foldName pair.1 = name.toList then
      match pair.2 with
      | .string text => some text
      | .null => some current
      | _ => none
    else some current) ""

/-- Members of other names leave a field as it is. -/
theorem foldlM_others {α : Type} {name : List Char} {f : α → String × Json.Value → Option α}
    (skips : ∀ current pair, foldName pair.1 ≠ name → f current pair = some current)
    {members : List (String × Json.Value)} (others : ∀ pair ∈ members, foldName pair.1 ≠ name) (current : α) :
    members.foldlM f current = some current := by
  induction members with
  | nil => rfl
  | cons pair members ih =>
    obtain ⟨other, others⟩ := List.forall_mem_cons.mp others
    rw [List.foldlM_cons, skips current pair other]
    exact ih others

/-- The one member of a field's name decides it. -/
theorem foldlM_member {α : Type} {name : List Char} {f : α → String × Json.Value → Option α}
    (skips : ∀ current pair, foldName pair.1 ≠ name → f current pair = some current)
    {before after : List (String × Json.Value)} {pair : String × Json.Value}
    (others : ∀ pair ∈ before ++ after, foldName pair.1 ≠ name) (current : α) :
    (before ++ pair :: after).foldlM f current = f current pair := by
  have first := foldlM_others skips (fun pair member => others pair (List.mem_append_left _ member)) current
  rw [List.foldlM_append, first]
  show List.foldlM f current (pair :: after) = f current pair
  rw [List.foldlM_cons]
  cases f current pair with
  | none => rfl
  | some next => exact foldlM_others skips (fun pair member => others pair (List.mem_append_right _ member)) next

theorem stringField_member {name key text : String} {before after : List (String × Json.Value)}
    (own : foldName key = name.toList)
    (others : ∀ pair ∈ before ++ after, foldName pair.1 ≠ name.toList) :
    stringField name (before ++ (key, .string text) :: after) = some text := by
  unfold stringField
  rw [foldlM_member (fun current pair other => if_neg other) others]
  exact if_pos own

/-- A literal as an `int`. -/
def parseInt (n : Json.Number) : Option Int :=
  if n.fraction = [] ∧ n.exponent = none then
    let value := Json.signed n.negative n.whole
    if -2 ^ 63 ≤ value ∧ value < 2 ^ 63 then some value else none
  else none

def intField (name : String) (members : List (String × Json.Value)) : Option Int :=
  members.foldlM (fun current pair =>
    if foldName pair.1 = name.toList then
      match pair.2 with
      | .number n => parseInt n
      | .null => some current
      | _ => none
    else some current) 0

/-- `json.Unmarshal` into a struct; `null` leaves it as it is. -/
def unmarshal {α : Type} (decode : List (String × Json.Value) → Option α) (data : String) : Option α :=
  match Json.parse data with
  | some (.object members) => decode members
  | some .null => decode []
  | _ => none

structure ChannelOpenMessage where
  type : String
  id : String

def decodeChannelOpen (members : List (String × Json.Value)) : Option ChannelOpenMessage := do
  some ⟨← stringField "type" members, ← stringField "id" members⟩

structure EncryptedOuterMessage where
  type : String
  id : String
  data : String

def decodeEncryptedOuter (members : List (String × Json.Value)) : Option EncryptedOuterMessage := do
  some ⟨← stringField "type" members, ← stringField "id" members, ← stringField "data" members⟩

structure ChannelCloseMessage where
  type : String
  id : String
  code : Int
  reason : String

def decodeChannelClose (members : List (String × Json.Value)) : Option ChannelCloseMessage := do
  some ⟨← stringField "type" members, ← stringField "id" members, ← intField "code" members,
    ← stringField "reason" members⟩

def normalizeCloseCode (code : Int) : Int :=
  if code < 1000 ∨ code > 4999 ∨ code = 1004 ∨ code = 1005 ∨ code = 1006 ∨ code = 1015 then 1012 else code

/-- The loop of `boundedReason`: bytes come off the end until the rest is a text. -/
def validPrefix : Nat → Bytes → String
  | 0, _ => ""
  | n + 1, data =>
    match String.fromUTF8? ⟨(data.take (n + 1)).toArray⟩ with
    | some text => text
    | none => validPrefix n data

def boundedReason (reason : String) : String :=
  if reason.utf8ByteSize ≤ 120 then reason else validPrefix 120 (utf8 reason)

inductive MessageKind
  | text
  | binary
deriving DecidableEq

/-- What `readRelay` does with a message that it accepts. -/
inductive Received
  | nothing
  | openChannel (id : String)
  | handleEncrypted (id packet : String)
  | closeChannel (id : String) (code : Int) (reason : String)
deriving DecidableEq

/-- One round of the loop of `readRelay`, with the read limit of its connection. -/
def readRelay (messageKind : MessageKind) (data : String) : Except String Received :=
  if data.utf8ByteSize > maxControlMessage then .error "websocket: read limit exceeded"
  else if messageKind ≠ .text then .error "relay sent a non-text control message"
  else
    match unmarshal (stringField "type") data with
    | none => .error "relay sent invalid JSON"
    | some kind =>
      if kind = "connected" ∨ kind = "pong" then .ok .nothing
      else if kind = "channel_open" then
        match unmarshal decodeChannelOpen data with
        | some message =>
          if validMessageID message.id then .ok (.openChannel message.id)
          else .error "relay sent an invalid channel open"
        | none => .error "relay sent an invalid channel open"
      else if kind = "e2e_from_browser" then
        match unmarshal decodeEncryptedOuter data with
        | some message =>
          if !validMessageID message.id ∨ message.data.utf8ByteSize = 0 ∨
              message.data.utf8ByteSize > maxEncryptedPacket then .error "relay sent an invalid encrypted packet"
          else .ok (.handleEncrypted message.id message.data)
        | none => .error "relay sent an invalid encrypted packet"
      else if kind = "channel_close" then
        match unmarshal decodeChannelClose data with
        | some message =>
          if validMessageID message.id then
            .ok (.closeChannel message.id (normalizeCloseCode message.code) (boundedReason message.reason))
          else .error "relay sent an invalid channel close"
        | none => .error "relay sent an invalid channel close"
      else .error "relay sent an unsupported message"

/-- The codes and reasons of the calls of `closeChannel` that notify the relay. -/
def closeNotices : List (Int × String) :=
  [(1008, "Authentication timed out"), (1012, "Channel replaced"), (1008, "Unknown channel"),
   (1008, "Authentication failed"), (1008, "Encrypted sequence conflict"), (1003, "Invalid encrypted message"),
   (1008, "Authentication required"), (1003, "Invalid API request"), (1003, "Invalid terminal request"),
   (1003, "Invalid terminal data"), (1003, "Invalid terminal close"), (1003, "Invalid desktop request"),
   (1003, "Invalid desktop data"), (1003, "Invalid desktop close"), (1003, "Invalid window-list request"),
   (1003, "Invalid selected-window request"), (1003, "Invalid selected-window input"),
   (1003, "Invalid selected-window close"), (1003, "Invalid file upload request"),
   (1003, "Invalid file upload data"), (1003, "Invalid file upload finish"), (1003, "Invalid file upload cancel"),
   (1003, "Unsupported encrypted message"), (1011, "Local authentication failed"),
   (1013, "Local portal is unavailable"), (1008, "Local authentication failed")]

/-- The texts that come into the queue of a connector, and the heartbeat. -/
inductive Enqueued {Key Value : Type} (encrypt : Key → Bytes → Bytes → Bytes → Bytes)
    (marshalValue : Value → Option Bytes) : String → Prop
  | hello : Enqueued encrypt marshalValue (marshal (messageType "hello"))
  | ping : Enqueued encrypt marshalValue "\x7b\"type\":\"ping\"\x7d"
  | packet {id packet : String} (valid : validMessageID id) {key : Key} {sequence : UInt32}
      {nonce : Option Bytes} {value : Value}
    (encrypted : Cloud.encryptPacket encrypt marshalValue key (utf8 id) .connector sequence nonce
      value = some packet)
    (fits : packet.utf8ByteSize ≤ maxEncryptedPacket) :
    Enqueued encrypt marshalValue (marshal (encryptedOuterMessage "e2e_to_browser" id packet))
  | close {id reason : String} (valid : validMessageID id) {code : Int}
      (call : (code, reason) ∈ closeNotices) :
    Enqueued encrypt marshalValue (marshal (channelCloseMessage "channel_close" id code reason))

end TermLinks.Connector
