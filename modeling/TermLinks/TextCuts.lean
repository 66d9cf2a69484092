import TermLinks.CoordinatorManager
import TermLinks.RelaySteps
import TermLinks.RelayWire
import TermLinks.Runes
import TermLinks.TextDecoder

namespace TermLinks.TextCuts

open Runes

/-- Where the loop of `utf8Prefix` stops; an index beyond the value panics. -/
def prefixEnd (value : Bytes) : Nat → Option Nat
  | 0 => some 0
  | limit + 1 => value[limit + 1]?.bind fun b => if runeStart b then some (limit + 1) else prefixEnd
    value limit

def utf8Prefix (value : Bytes) (limit : Nat) : Option Bytes :=
  if value.length ≤ limit then some value else (prefixEnd value limit).map fun stop => value.take stop

def utf8Tail (value : Bytes) (limit : Nat) : Bytes :=
  if value.length ≤ limit then value
  else (value.drop (value.length - limit)).dropWhile fun b => !runeStart b

def safeStoredOutput (output : Bytes) : Bytes := filterRunes Coordinator.keepRune output

def truncatedNotice : Bytes := utf8 "\n\n[Message truncated by Termlinks.]"

def truncateRoomMessage (value : Bytes) : Option Bytes :=
  let value := safeStoredOutput value
  if value.length > 48 * 1024 then (utf8Prefix value (48 * 1024)).map (· ++ truncatedNotice) else some value

/-- What the room's discussion is made of, as the bytes that the strings hold. -/
structure RoomMessage where
  senderID : Bytes
  senderType : Bytes
  recipient : Bytes
  kind : Bytes
  body : Bytes
deriving DecidableEq

def contextSender (message : RoomMessage) : Bytes :=
  if message.senderType = utf8 "human" then utf8 "Human"
  else if message.senderType = utf8 "agent" then utf8 "@" ++ message.senderID
  else message.senderID

def contextLine (message : RoomMessage) : Bytes :=
  contextSender message ++ utf8 " → @" ++ message.recipient ++ utf8 ":\n" ++ message.body ++ utf8 "\n\n"

def omittedNotice : Bytes := utf8 "[Earlier room discussion omitted to keep context bounded.]\n\n"

def teamRoomContext (messages : List RoomMessage) : Bytes :=
  let shown := messages.filter fun message => !(message.kind = utf8 "status" || Runes.trimSpace message.body = [])
  let value := shown.flatMap contextLine
  let value := if value.length > 64 * 1024 then omittedNotice ++ utf8Tail value (64 * 1024) else value
  Runes.trimSpace value

/-- The loop of the connector's `boundedReason`: the length of what is left of the bytes. -/
def validEnd (data : Bytes) : Nat → Nat
  | 0 => 0
  | length + 1 => if valid (data.take (length + 1)) then length + 1 else validEnd data length

/-- `boundedReason` of the connector. -/
def boundedReason (reason : Bytes) : Bytes :=
  if reason.length ≤ 120 then reason else reason.take (validEnd reason 120)

/-- `boundedReason` of the relay. -/
def boundedReasonUnits (reason : Utf16.Units) : Utf16.Units :=
  let bytes := E2E.textEncode reason
  if bytes.length ≤ 120 then reason else Utf16.encode (TextDecoder.decode (bytes.take 120))

section

variable {value reason : Bytes} {limit : Nat}

/-- The loop stays within the value, and backs up to the last start byte up to the limit. -/
theorem prefixEnd_eq (long : limit < value.length) :
    ∃ stop, prefixEnd value limit = some stop ∧ stop ≤ limit ∧
    (stop = 0 ∨ ∃ b, value[stop]? = some b ∧ runeStart b = true) ∧
    ∀ i b, stop < i → i ≤ limit → value[i]? = some b → runeStart b = false := by
  induction limit with
  | zero => exact ⟨0, rfl, Nat.le_refl 0, Or.inl rfl, fun i b after before => by omega⟩
  | succ limit ih =>
    have here : value[limit + 1]? = some value[limit + 1] := List.getElem?_eq_getElem long
    rw [prefixEnd, here, Option.bind_some]
    by_cases starts : runeStart value[limit + 1] = true
    · rw [if_pos starts]
      exact ⟨limit + 1, rfl, Nat.le_refl _, Or.inr ⟨_, here, starts⟩, fun i b after before => by omega⟩
    · rw [if_neg starts]
      obtain ⟨stop, found, within, cut, last⟩ := ih (by omega)
      refine ⟨stop, found, by omega, cut, ?_⟩
      intro i b after before there
      by_cases top : i = limit + 1
      · subst top
        rw [here] at there
        cases there
        exact Bool.eq_false_iff.mpr starts
      · exact last i b after (by omega) there

/-- Where a limit is not reached, nothing is cut. -/
theorem longestPrefix_self {admitted : Bytes → Prop} (h : admitted value) (short : value.length ≤ limit) :
    LongestPrefix admitted limit value value :=
  ⟨List.prefix_refl _, short, h, fun _ front _ _ => front.length_le⟩

theorem longestSuffix_self {admitted : Bytes → Prop} (h : admitted value) (short : value.length ≤ limit) :
    LongestSuffix admitted limit value value :=
  ⟨List.suffix_refl _, short, h, fun _ back _ _ => back.length_le⟩

theorem utf8Prefix_longest (h : Valid value) (limit : Nat) :
    ∃ cut, utf8Prefix value limit = some cut ∧ LongestPrefix Valid limit value cut := by
  unfold utf8Prefix
  split
  next short => exact ⟨value, rfl, longestPrefix_self h short⟩
  next long =>
    obtain ⟨stop, found, within, cut, last⟩ := prefixEnd_eq (Nat.lt_of_not_le long)
    rw [found]
    exact ⟨_, rfl, PrefixCode.longestPrefix h within cut last (Nat.lt_of_not_le long)⟩

theorem utf8Tail_longest (h : Valid value) (limit : Nat) :
    LongestSuffix Valid limit value (utf8Tail value limit) := by
  unfold utf8Tail
  split
  next short => exact longestSuffix_self h short
  next long => exact PrefixCode.longestSuffix h (by omega)

theorem length_utf8Tail (value : Bytes) (limit : Nat) : (utf8Tail value limit).length ≤ limit := by
  unfold utf8Tail
  split
  next short => exact short
  next =>
    refine Nat.le_trans (List.dropWhile_suffix _).length_le ?_
    rw [List.length_drop]
    omega

/-- The loop takes bytes off the end until the rest is UTF-8. -/
theorem validEnd_eq (data : Bytes) (length : Nat) : validEnd data length ≤ length ∧
    Valid (data.take (validEnd data length)) ∧
    ∀ n, n ≤ length → Valid (data.take n) → n ≤ validEnd data length := by
  induction length with
  | zero => exact ⟨Nat.le_refl 0, valid_empty, fun n small _ => small⟩
  | succ length ih =>
    simp only [validEnd]
    by_cases whole : valid (data.take (length + 1)) = true
    · rw [if_pos whole]
      exact ⟨Nat.le_refl _, valid_iff.mp whole, fun n small _ => small⟩
    · rw [if_neg whole]
      obtain ⟨within, holds, longest⟩ := ih
      refine ⟨by omega, holds, ?_⟩
      intro n small words
      by_cases top : n = length + 1
      · subst top
        exact absurd (valid_iff.mpr words) whole
      · exact longest n (by omega) words

theorem boundedReason_longest (h : Valid reason ∨ 120 < reason.length) :
    LongestPrefix Valid 120 reason (boundedReason reason) := by
  unfold boundedReason
  split
  next short => exact longestPrefix_self (h.resolve_right (by omega)) short
  next long =>
    obtain ⟨within, holds, longest⟩ := validEnd_eq reason 120
    refine ⟨?_, ?_, holds, ?_⟩
    · exact List.take_prefix _ _
    · rw [List.length_take]
      omega
    · intro other front small words
      rw [List.prefix_iff_eq_take.mp front] at words
      have bound := longest other.length small words
      rw [List.length_take]
      omega

theorem length_boundedReason (reason : Bytes) : (boundedReason reason).length ≤ 120 := by
  unfold boundedReason
  split
  next short => exact short
  next =>
    have within := (validEnd_eq reason 120).1
    rw [List.length_take]
    omega

/-- The connector's reason is UTF-8, unless it was none to begin with and nothing was cut. -/
theorem valid_boundedReason : Valid (boundedReason reason) ↔ Valid reason ∨ 120 < reason.length := by
  by_cases short : reason.length ≤ 120
  · have same : boundedReason reason = reason := if_pos short
    rw [same, or_iff_left (by omega)]
  · exact iff_of_true (boundedReason_longest (Or.inr (by omega))).holds (Or.inr (by omega))

theorem truncateRoomMessage_valid (value : Bytes) : ∃ cut, truncateRoomMessage value = some cut ∧ Valid cut ∧
    cut.length ≤ 48 * 1024 + truncatedNotice.length := by
  have stored : Valid (safeStoredOutput value) := valid_filterRunes _ _
  simp only [truncateRoomMessage]
  split
  next long =>
    obtain ⟨cut, found, longest⟩ := utf8Prefix_longest stored (48 * 1024)
    have fits := longest.fits
    rw [found]
    refine ⟨_, rfl, longest.holds.append (valid_utf8 _), ?_⟩
    rw [List.length_append]
    omega
  next short => exact ⟨_, rfl, stored, by omega⟩

end

/-- What a message shows of itself is UTF-8. -/
structure RoomMessage.Valid (message : RoomMessage) : Prop where
  sender : Runes.Valid message.senderID
  recipient : Runes.Valid message.recipient
  body : Runes.Valid message.body

theorem valid_contextLine {message : RoomMessage} (h : message.Valid) : Valid (contextLine message) := by
  have sender : Valid (contextSender message) := by
    unfold contextSender
    split
    next => exact valid_utf8 _
    next =>
      split
      next => exact (valid_utf8 _).append h.sender
      next => exact h.sender
  have line := (sender.append (valid_utf8 " → @")).append h.recipient
  exact ((line.append (valid_utf8 ":\n")).append h.body).append (valid_utf8 "\n\n")

theorem length_teamRoomContext (messages : List RoomMessage) :
    (teamRoomContext messages).length ≤ 64 * 1024 + omittedNotice.length := by
  simp only [teamRoomContext]
  refine Nat.le_trans (length_trimSpace _) ?_
  split
  next =>
    rw [List.length_append]
    have tail := length_utf8Tail ((messages.filter fun message =>
      !(message.kind = utf8 "status" || Runes.trimSpace message.body = [])).flatMap contextLine) (64 * 1024)
    omega
  next => omega

theorem valid_teamRoomContext {messages : List RoomMessage} (h : ∀ message ∈ messages, message.Valid) :
    Valid (teamRoomContext messages) := by
  have lines : ∀ shown : List RoomMessage, (∀ message ∈ shown, message.Valid) → Valid (shown.flatMap contextLine) := by
    intro shown all
    induction shown with
    | nil => exact valid_empty
    | cons message shown ih =>
      obtain ⟨first, rest⟩ := List.forall_mem_cons.mp all
      exact (valid_contextLine first).append (ih rest)
  have value := lines (messages.filter fun message =>
    !(message.kind = utf8 "status" || Runes.trimSpace message.body = [])) fun message member =>
      h message (List.mem_filter.mp member).1
  simp only [teamRoomContext]
  refine valid_trimSpace ?_
  split
  next => exact (valid_utf8 _).append (utf8Tail_longest value _).holds
  next => exact value

/-- On characters, the relay's decoder of a cut text is the one of its model. -/
theorem cut_eq (bytes : Nat) (cs : List Char) : TextDecoder.cut bytes cs = Relay.decodePrefix bytes cs := by
  induction cs generalizing bytes with
  | nil => rfl
  | cons c cs ih =>
    rw [TextDecoder.cut, Relay.decodePrefix, ih]
    rfl

theorem boundedReasonUnits_text (reason : Utf16.Units) :
    String.ofList (Utf16.scalars (boundedReasonUnits reason)) =
      Relay.boundedReason (String.ofList (Utf16.scalars reason)) := by
  have size : (E2E.textEncode reason).length = (String.ofList (Utf16.scalars reason)).utf8ByteSize := length_utf8 _
  have bytes : E2E.textEncode reason = (Utf16.scalars reason).flatMap String.utf8EncodeChar := utf8_ofList _
  simp only [boundedReasonUnits, Relay.boundedReason]
  rw [size]
  split
  next => rfl
  next =>
    rw [Utf16.scalars_encode, bytes, String.toList_ofList, ← cut_eq]
    unfold TextDecoder.decode
    rw [TextDecoder.run_take]
    generalize TextDecoder.cut 120 (Utf16.scalars reason) = kept
    by_cases marked : ∃ rest, kept = '\ufeff' :: rest
    · obtain ⟨rest, rfl⟩ := marked
      rfl
    · have plain : ∀ rest, kept = '\ufeff' :: rest → False := fun rest same => marked ⟨rest, same⟩
      simp only

theorem length_boundedReasonUnits (reason : Utf16.Units) :
    (E2E.textEncode (boundedReasonUnits reason)).length ≤ 122 := by
  have size : (E2E.textEncode (boundedReasonUnits reason)).length =
      (String.ofList (Utf16.scalars (boundedReasonUnits reason))).utf8ByteSize := length_utf8 _
  rw [size, boundedReasonUnits_text]
  exact Relay.boundedReason_size _

/-- Bytes that are dropped up to a start byte are dropped as whole characters. -/
theorem dropBytes_words (excess : Nat) (cs : List Char) :
    ((cs.flatMap String.utf8EncodeChar).drop excess).dropWhile (fun b => !runeStart b) =
      (Coordinator.dropBytes excess cs).flatMap String.utf8EncodeChar := by
  induction excess, cs using Coordinator.dropBytes.induct with
  | case1 text =>
    cases text with
    | nil => rfl
    | cons c text =>
      obtain ⟨b, rest, word, starts, -⟩ := encode_starts c
      rw [Coordinator.dropBytes, List.drop_zero, List.flatMap_cons, word, List.cons_append]
      exact List.dropWhile_cons_of_neg (by simp [starts])
  | case2 excess => simp [Coordinator.dropBytes]
  | case3 excess c cs ih =>
    obtain ⟨b, rest, word, -, others⟩ := encode_starts c
    have size := String.length_utf8EncodeChar c
    rw [word, List.length_cons] at size
    have left : excess + 1 - c.utf8Size = excess - rest.length := by omega
    rw [left] at ih
    have inside : ∀ x ∈ rest.drop excess, (!runeStart x) = true := by
      intro x member
      rw [others x (List.mem_of_mem_drop member)]
      rfl
    rw [Coordinator.dropBytes, left, ← ih, List.flatMap_cons, word, List.cons_append, List.drop_succ_cons,
      List.drop_append, List.dropWhile_append_of_pos inside]

theorem utf8_flatMap (text : String) : utf8 text = text.toList.flatMap String.utf8EncodeChar := by
  rw [← utf8_ofList, String.ofList_toList]

theorem utf8Tail_text (text : String) (limit : Nat) :
    utf8Tail (utf8 text) limit = utf8 (Coordinator.utf8Tail text limit) := by
  have size : (utf8 text).length = byteLen text := length_utf8 text
  unfold utf8Tail Coordinator.utf8Tail
  rw [size]
  split
  next => rfl
  next => rw [utf8_flatMap text, dropBytes_words, utf8_ofList]

theorem validPrefix_text (data : Bytes) (length : Nat) :
    utf8 (Connector.validPrefix length data) = data.take (validEnd data length) := by
  induction length with
  | zero => rfl
  | succ length ih =>
    have array : (⟨(data.take (length + 1)).toArray⟩ : ByteArray) = (data.take (length + 1)).toByteArray := by
      apply ByteArray.ext
      rw [List.data_toByteArray]
    have same : valid (data.take (length + 1)) = true ↔ (data.take (length + 1)).toByteArray.IsValidUTF8 :=
      ByteArray.validateUTF8_eq_true_iff
    simp only [Connector.validPrefix, validEnd, array, String.fromUTF8?]
    by_cases whole : (data.take (length + 1)).toByteArray.IsValidUTF8
    · rw [dif_pos whole, if_pos (same.mpr whole)]
      exact List.toList_data_toByteArray
    · rw [dif_neg whole, if_neg (mt same.mp whole)]
      exact ih

theorem boundedReason_text (reason : String) :
    boundedReason (utf8 reason) = utf8 (Connector.boundedReason reason) := by
  unfold boundedReason Connector.boundedReason
  rw [length_utf8]
  split
  next => rfl
  next => exact (validPrefix_text _ _).symm

/-- The sender's type as its constant spells it. -/
def senderTypeText : Coordinator.SenderType → String
  | .human => "human"
  | .agent => "agent"
  | .system => "system"

def messageKindText : Coordinator.MessageKind → String
  | .task => "task"
  | .message => "message"
  | .handoff => "handoff"
  | .question => "question"
  | .status => "status"

def RoomMessage.ofText (message : Coordinator.RoomMessage) : RoomMessage :=
  ⟨utf8 message.senderID, utf8 (senderTypeText message.senderType), utf8 message.recipient,
    utf8 (messageKindText message.kind), utf8 message.body⟩

theorem contextLine_text (message : Coordinator.RoomMessage) : contextLine (.ofText message) =
    utf8 (Coordinator.contextSender message ++ " → @" ++ message.recipient ++ ":\n" ++
      message.body ++ "\n\n") := by
  have sender : contextSender (.ofText message) = utf8 (Coordinator.contextSender message) := by
    unfold contextSender Coordinator.contextSender RoomMessage.ofText
    cases message.senderType with
    | human => rfl
    | agent =>
      have other : utf8 (senderTypeText .agent) ≠ utf8 "human" := by decide
      rw [if_neg other, utf8_append]
      rfl
    | system =>
      have human : utf8 (senderTypeText .system) ≠ utf8 "human" := by decide
      have agent : utf8 (senderTypeText .system) ≠ utf8 "agent" := by decide
      rw [if_neg human, if_neg agent]
  simp only [contextLine, sender, utf8_append]
  rfl

/-- On texts, the room's context is the one of the manager's model. -/
theorem teamRoomContext_text (messages : List Coordinator.RoomMessage) :
    teamRoomContext (messages.map .ofText) = utf8 (Coordinator.teamRoomContext messages) := by
  have shown : ∀ message : Coordinator.RoomMessage,
      (!((RoomMessage.ofText message).kind = utf8 "status" || Runes.trimSpace (RoomMessage.ofText message).body = [])) =
        !(message.kind = .status || TermLinks.trimSpace message.body = "") := by
    intro message
    have kinds : ∀ kind, utf8 (messageKindText kind) = utf8 "status" ↔ kind = .status := by
      intro kind
      cases kind <;> decide
    have kind : (RoomMessage.ofText message).kind = utf8 "status" ↔ message.kind = .status := kinds _
    have body : Runes.trimSpace (RoomMessage.ofText message).body = [] ↔ TermLinks.trimSpace message.body = "" := by
      unfold RoomMessage.ofText
      rw [trimSpace_utf8]
      exact ⟨fun h => utf8_injective h, fun h => by rw [h]; rfl⟩
    simp only [kind, body]
  have lines : ∀ messages : List Coordinator.RoomMessage, (messages.map RoomMessage.ofText).flatMap contextLine =
      utf8 (String.join (messages.map fun message => Coordinator.contextSender message ++ " → @" ++ message.recipient ++
        ":\n" ++ message.body ++ "\n\n")) := by
    intro messages
    induction messages with
    | nil => rfl
    | cons message messages ih =>
      rw [List.map_cons, List.map_cons, List.flatMap_cons, String.join_cons, utf8_append, ih, contextLine_text]
  simp only [teamRoomContext, Coordinator.teamRoomContext, List.filter_map, Function.comp_def, shown, lines]
  rw [length_utf8, ← trimSpace_utf8]
  congr 1
  unfold byteLen
  split
  next => rw [utf8_append, utf8Tail_text]; rfl
  next => rfl

/-- The cuts of a text are maximal; a room message is cut to a text whatever it was, and the room's context and both
kinds of reason stay within their limits, as texts where they are made of texts. -/
theorem text_cuts_are_maximal :
    (∀ value, Valid value → ∀ limit,
      (∃ cut, utf8Prefix value limit = some cut ∧ LongestPrefix Valid limit value cut) ∧
      LongestSuffix Valid limit value (utf8Tail value limit)) ∧
    (∀ reason, Valid reason → LongestPrefix Valid 120 reason (boundedReason reason)) ∧
    (∀ value, ∃ cut, truncateRoomMessage value = some cut ∧ Valid cut ∧
      cut.length ≤ 48 * 1024 + truncatedNotice.length) ∧
    (∀ messages, (teamRoomContext messages).length ≤ 64 * 1024 + omittedNotice.length ∧
      ((∀ message ∈ messages, message.Valid) → Valid (teamRoomContext messages))) ∧
    (∀ reason, (boundedReason reason).length ≤ 123 ∧
      (Valid (boundedReason reason) ↔ Valid reason ∨ 120 < reason.length)) ∧
    ∀ reason : Utf16.Units, (E2E.textEncode (boundedReasonUnits reason)).length ≤ 123 ∧
      Valid (E2E.textEncode (boundedReasonUnits reason)) := by
  refine ⟨?_, ?_, truncateRoomMessage_valid, ?_, ?_, ?_⟩
  · intro value h limit
    exact ⟨utf8Prefix_longest h limit, utf8Tail_longest h limit⟩
  · intro reason h
    exact boundedReason_longest (Or.inl h)
  · intro messages
    exact ⟨length_teamRoomContext messages, valid_teamRoomContext⟩
  · intro reason
    have bound := length_boundedReason reason
    exact ⟨by omega, valid_boundedReason⟩
  · intro reason
    have bound := length_boundedReasonUnits reason
    exact ⟨by omega, valid_utf8 _⟩

/-- A limit of three bytes leaves one of the four of a text. -/
theorem text_cuts_are_maximal_euro : ∃ cut, utf8Prefix (utf8 "a€") 3 = some cut ∧
    LongestPrefix Valid 3 (utf8 "a€") cut :=
  (text_cuts_are_maximal.1 _ (valid_utf8 _) 3).1

/-- Bytes that are no text are passed on as they are. -/
theorem invalid_bytes_are_passed_on :
    ¬Valid (teamRoomContext [⟨[], utf8 "human", utf8 "team", utf8 "message", [0xff]⟩]) ∧
      ¬Valid (boundedReason [0xff]) := by
  constructor
  · intro h
    exact absurd (valid_iff.mpr h) (by decide)
  · intro h
    exact absurd (valid_iff.mpr h) (by decide)

end TermLinks.TextCuts
