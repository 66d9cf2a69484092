import TermLinks.BridgeReplay

namespace TermLinks.Bridge

open Cloud (Direction additionalData additionalData_injective)
open Connector (Accepted validMessageID validMessageRunes)
open E2E (textEncode)

variable {Key Record Value : Type}

/-- The connector draws no number on a channel again after all of them were used. -/
def Unwrapped (s : State Key) : Label Key Record Value → Prop
  | .connectorSend i c _ _ =>
    ∀ connection ∈ s.connections[i]?, ∀ sender ∈ connection.senders[c]?, sender.sendSeq = 0 → sender.sent = []
  | _ => True

instance decidableUnwrapped [DecidableEq Key] (s : State Key) :
    (label : Label Key Record Value) → Decidable (Unwrapped s label)
  | .connectorSend i c _ _ => inferInstanceAs (Decidable
      (∀ connection ∈ s.connections[i]?, ∀ sender ∈ connection.senders[c]?, sender.sendSeq = 0 →
        sender.sent = []))
  | .join _ _ | .browserSend _ _ _ _ _ | .browserReceive _ _ | .connect | .connector _ _ => isTrue trivial

/-- The packets of a channel carry increasing numbers; a number that was lost leaves a gap. -/
def Sender.Increasing (aead : Aead Key) (key : Key) (channelID : String) (sender : Sender Key) : Prop :=
  ∃ numbers : List Nat, numbers.length = sender.sent.length ∧ numbers.Pairwise (· < ·) ∧
    (∀ n ∈ numbers, n < 2 ^ 32 ∧ (sender.sendSeq ≠ 0 → n < sender.sendSeq.toNat)) ∧
    ∀ (k n : Nat) (packet : Packet Key), numbers[k]? = some n → sender.sent[k]? = some packet →
      packet.Made aead key (utf8 channelID) .connector n

def Connection.Increasing (aead : Aead Key) (key : Key) (connection : Connection Key) : Prop :=
  ∀ (c : Nat) (channel : Connector.BrowserChannel) (sender : Sender Key),
    connection.receive.channels[c]? = some channel → connection.senders[c]? = some sender →
    sender.Increasing aead key channel.id

section

variable {aead : Aead Key} {key : Key} {channelID : String} {sender : Sender Key}

/-- The next number is above all that were used. -/
theorem increasing_sendEncrypted (h : sender.Increasing aead key channelID)
    (unwrapped : sender.sendSeq = 0 → sender.sent = []) (marshal : Value → Option Bytes)
    (nonce : Option Sending.Nonce)
    (value : Value) : (sender.sendEncrypted aead marshal key channelID nonce value).Increasing aead
      key channelID := by
  obtain ⟨numbers, length, increasing, bounds, made⟩ := h
  have below : ∀ n ∈ numbers, n < sender.sendSeq.toNat := by
    intro n member
    by_cases start : sender.sendSeq = 0
    · have none_sent := unwrapped start
      rw [none_sent] at length
      rw [List.length_eq_zero_iff.mp length] at member
      cases member
    · exact (bounds n member).2 start
  have limit := sender.sendSeq.toNat_lt
  -- the counter has moved past `n`, unless it is back at zero
  have past : sender.sendSeq + 1 ≠ 0 → sender.sendSeq.toNat < (sender.sendSeq + 1).toNat := by
    intro going
    have positive : (sender.sendSeq + 1).toNat ≠ 0 := by
      intro zero
      exact going (UInt32.toNat_inj.mp zero)
    have value : (1 : UInt32).toNat = 1 := rfl
    rw [UInt32.toNat_add, value] at positive ⊢
    omega
  cases encrypted : sender.encrypted aead marshal key channelID nonce value with
  | none =>
    have kept : (sender.sendEncrypted aead marshal key channelID nonce value) = ⟨sender.sendSeq + 1, sender.sent⟩ := by
      simp [Sender.sendEncrypted, encrypted]
    rw [kept]
    refine ⟨numbers, length, increasing, ?_, made⟩
    intro n member
    refine ⟨(bounds n member).1, ?_⟩
    intro going
    have first := below n member
    have second := past going
    show n < (sender.sendSeq + 1).toNat
    omega
  | some packet =>
    have more : (sender.sendEncrypted aead marshal key channelID nonce value) =
        ⟨sender.sendSeq + 1, sender.sent ++ [packet]⟩ := by
      simp [Sender.sendEncrypted, encrypted]
    rw [more]
    refine ⟨numbers ++ [sender.sendSeq.toNat], ?_, ?_, ?_, ?_⟩
    · rw [List.length_append, List.length_append, length]
      rfl
    · apply List.pairwise_append.mpr
      refine ⟨increasing, List.pairwise_singleton _ _, ?_⟩
      intro n member last new
      rw [List.mem_singleton.mp new]
      exact below n member
    · intro n member
      rcases List.mem_append.mp member with old | new
      · refine ⟨(bounds n old).1, ?_⟩
        intro going
        have first := below n old
        have second := past going
        show n < (sender.sendSeq + 1).toNat
        omega
      · rw [List.mem_singleton.mp new]
        exact ⟨limit, past⟩
    · intro k n other at_k sent_k
      by_cases old : k < numbers.length
      · rw [List.getElem?_append_left old] at at_k
        rw [List.getElem?_append_left (by omega)] at sent_k
        exact made k n other at_k sent_k
      · have bound := (List.getElem?_eq_some_iff.mp at_k).1
        rw [List.length_append, List.length_singleton] at bound
        have last : k = numbers.length := by omega
        rw [last, List.getElem?_concat_length] at at_k
        rw [last, length, List.getElem?_concat_length] at sent_k
        rw [← Option.some.inj at_k, ← Option.some.inj sent_k]
        exact Sender.encrypted_eq encrypted

end

section

variable {aead : Aead Key} {key : Key} {connection : Connection Key}

theorem increasing_adopt (length : connection.senders.length = connection.receive.channels.length)
    (h : connection.Increasing aead key) {decrypt : String → UInt32 → String → Option Bytes}
    {unmarshal : Connector.Unmarshal} {label : Connector.Label} {receive : Connector.State}
    (ht : Connector.step decrypt unmarshal connection.receive label = some receive) :
    (connection.adopt receive).Increasing aead key := by
  intro c channel sender there at_c
  rcases (adopt_cases length ht).2 c channel there with ⟨before, there', own, senders⟩ | ⟨-, new⟩
  · rw [senders] at at_c
    rw [← own]
    exact h c before sender there' at_c
  · rw [new] at at_c
    cases Option.some.inj at_c
    exact ⟨[], rfl, List.Pairwise.nil, nofun, nofun⟩

theorem increasing_set (h : connection.Increasing aead key) {c : Nat} {channel : Connector.BrowserChannel}
    {sender after : Sender Key} (there : connection.receive.channels[c]? = some channel)
    (at_c : connection.senders[c]? = some sender) (increasing : after.Increasing aead key channel.id) :
    Connection.Increasing aead key { connection with senders := connection.senders.set c after } := by
  intro d channel' sender' there' at_d
  have inside := (List.getElem?_eq_some_iff.mp at_c).1
  have there' : connection.receive.channels[d]? = some channel' := there'
  have at_d : (connection.senders.set c after)[d]? = some sender' := at_d
  by_cases same : c = d
  · rw [← same, List.getElem?_set_self inside] at at_d
    cases Option.some.inj at_d
    rw [← same, there] at there'
    cases Option.some.inj there'
    exact increasing
  · rw [List.getElem?_set_ne same] at at_d
    exact h d channel' sender' there' at_d

variable [DecidableEq Key] {codec : Codec Key Record Value} {s t : State Key}

theorem increasing_step {label : Label Key Record Value} (honest : s.Honest codec)
    (h : ∀ connection ∈ s.connections, connection.Increasing codec.aead codec.key)
    (unwrapped : Unwrapped s label) (ht : step codec s label = some t) :
    ∀ connection ∈ t.connections, connection.Increasing codec.aead codec.key := by
  cases label with
  | join key channel =>
    cases ht
    exact h
  | browserSend b isOpen posted iv value =>
    obtain ⟨browser, _, rfl⟩ := Option.map_eq_some_iff.mp ht
    exact h
  | browserReceive b packet =>
    obtain ⟨browser, _, rfl⟩ := Option.map_eq_some_iff.mp ht
    exact h
  | connect =>
    cases ht
    intro connection member
    rcases List.mem_append.mp member with old | new
    · exact h connection old
    · rw [List.mem_singleton.mp new]
      intro c channel sender there
      simp [Connector.State.initial] at there
  | connector i label =>
    simp only [step] at ht
    split at ht
    next connection here =>
      obtain ⟨receive, moved, rfl⟩ := Option.map_eq_some_iff.mp ht
      have known := List.mem_of_getElem? here
      intro other member
      rcases List.mem_or_eq_of_mem_set member with old | rfl
      · exact h other old
      · exact increasing_adopt (honest.connections connection known).length (h connection known) moved
    next => cases ht
  | connectorSend i c nonce value =>
    simp only [step] at ht
    split at ht
    next connection here =>
      split at ht
      next channel sender there at_c =>
        cases ht
        have known := List.mem_of_getElem? here
        have increasing := increasing_sendEncrypted (h connection known c channel sender there at_c)
          (unwrapped connection here sender at_c) codec.marshal nonce value
        intro other member
        rcases List.mem_or_eq_of_mem_set member with old | rfl
        · exact h other old
        · exact increasing_set (h connection known) there at_c increasing
      next => cases ht
    next => cases ht

end

theorem validMessageRunes_plain {index : Nat} {cs : List Char} (h : validMessageRunes index cs = true) :
    ∀ c ∈ cs, c = '-' ∨ Connector.isHex c = true := by
  induction cs generalizing index with
  | nil => exact fun c member => absurd member List.not_mem_nil
  | cons d cs ih =>
    rw [validMessageRunes, Bool.and_eq_true] at h
    intro c member
    rcases List.mem_cons.mp member with rfl | tail
    · split at h
      next => exact Or.inl (of_decide_eq_true h.1)
      next => exact Or.inr h.1
    · exact ih h.2 c tail

/-- Only one string of JavaScript is encoded as a valid id. -/
theorem units_of_textEncode {units : Utf16.Units} {id : String} (valid : validMessageID id = true)
    (h : textEncode units = utf8 id) : units = E2E.units id := by
  have scalars : Utf16.scalars units = id.toList := by
    have text := utf8_injective h
    rw [← text, String.toList_ofList]
  have clean : Char.ofNat 0xfffd ∉ Utf16.scalars units := by
    rw [scalars]
    intro member
    have runes := (Bool.and_eq_true _ _ ▸ valid).2
    rcases validMessageRunes_plain runes _ member with hyphen | hex
    · exact absurd hyphen (by decide)
    · exact absurd hex (by decide)
  rw [E2E.units, ← scalars, Utf16.encode_scalars (Utf16.wellFormed_of_no_replacement clean)]

theorem textEncode_units (id : String) : textEncode (E2E.units id) = utf8 id := by
  unfold textEncode E2E.units
  rw [Utf16.scalars_encode, String.ofList_toList]

/-- While the connector has no id twice, the id leads to one channel of one connection. -/
theorem channel_unique {s : State Key} (once : s.ids.Nodup) {k k' : Connection Key} (member : k ∈ s.connections)
    (member' : k' ∈ s.connections) {c c' : Nat} {channel channel' : Connector.BrowserChannel}
    (there : k.receive.channels[c]? = some channel) (there' : k'.receive.channels[c']? = some channel')
    (same : channel.id = channel'.id) : k = k' ∧ c = c' := by
  obtain ⟨each, apart⟩ := List.nodup_flatMap.mp once
  have id : k.ids[c]? = some channel.id := by rw [Connection.ids, List.getElem?_map, there, Option.map_some]
  have id' : k'.ids[c']? = some channel.id := by rw [Connection.ids, List.getElem?_map, there', Option.map_some, same]
  have connections : k = k' := by
    obtain ⟨i, at_i⟩ := List.mem_iff_getElem?.mp member
    obtain ⟨i', at_i'⟩ := List.mem_iff_getElem?.mp member'
    obtain ⟨inside, value⟩ := List.getElem?_eq_some_iff.mp at_i
    obtain ⟨inside', value'⟩ := List.getElem?_eq_some_iff.mp at_i'
    have order := List.pairwise_iff_getElem.mp apart
    rcases Nat.lt_trichotomy i i' with before | equal | behind
    · have disjoint := order i i' inside inside' before
      rw [value, value'] at disjoint
      exact absurd (List.mem_of_getElem? id') (disjoint (List.mem_of_getElem? id))
    · rw [← equal, at_i] at at_i'
      exact Option.some.inj at_i'
    · have disjoint := order i' i inside' inside behind
      rw [value, value'] at disjoint
      exact absurd (List.mem_of_getElem? id) (disjoint (List.mem_of_getElem? id'))
  refine ⟨connections, ?_⟩
  rw [← connections] at id'
  have inside := (List.getElem?_eq_some_iff.mp id).1
  exact (List.getElem?_inj inside (each k member)).mp (id.trans id'.symm)

section

variable [DecidableEq Key] {codec : Codec Key Record Value} {s t : State Key} {connection : Connection Key}

/-- What a channel accepts is what its browser sent, in order. -/
theorem accepted_prefix (h : s.Honest codec) (own : (s.browsers.map Browser.channel).Nodup)
    (member : connection ∈ s.connections) {c : Nat} {channel : Connector.BrowserChannel}
    (there : connection.receive.channels[c]? = some channel) {browser : Browser Key}
    (joined : browser ∈ s.browsers) (named : browser.channel = E2E.units channel.id) :
    (connection.receive.acceptedOn c).map Accepted.plaintext <+:
      browser.sent.map fun packet => packet.content.plaintext := by
  apply prefix_of_getElem?
  intro j plaintext at_j
  rw [List.getElem?_map] at at_j
  obtain ⟨a, here, rfl⟩ := Option.map_eq_some_iff.mp at_j
  obtain ⟨accepted, on_c⟩ := List.mem_filter.mp (List.mem_of_getElem? here)
  have number := acceptedOn_number h member here
  have id := id_of_accepted h member accepted
  rw [of_decide_eq_true on_c, Connection.ids, List.getElem?_map, there, Option.map_some] at id
  obtain ⟨-, other, joined', -, encoded, packet, sent, -, content⟩ := accepted_made h member accepted
  rw [← Option.some.inj id] at encoded
  have valid := (h.connections connection member).valid channel (List.mem_of_getElem? there)
  have channels := (units_of_textEncode valid encoded).trans named.symm
  have same := List.inj_on_of_nodup_map own joined' joined channels
  rw [same, number] at sent
  rw [List.getElem?_map, sent, Option.map_some, content]

/-- A channel without a browser accepts nothing. -/
theorem accepted_nil (h : s.Honest codec) (member : connection ∈ s.connections) {c : Nat}
    {channel : Connector.BrowserChannel} (there : connection.receive.channels[c]? = some channel)
    (nobody : ∀ browser ∈ s.browsers, browser.channel ≠ E2E.units channel.id) :
    connection.receive.acceptedOn c = [] := by
  apply List.eq_nil_iff_forall_not_mem.mpr
  intro a within
  obtain ⟨accepted, on_c⟩ := List.mem_filter.mp within
  have id := id_of_accepted h member accepted
  rw [of_decide_eq_true on_c, Connection.ids, List.getElem?_map, there, Option.map_some] at id
  obtain ⟨-, browser, joined, -, encoded, -⟩ := accepted_made h member accepted
  rw [← Option.some.inj id] at encoded
  have valid := (h.connections connection member).valid channel (List.mem_of_getElem? there)
  exact nobody browser joined (units_of_textEncode valid encoded)

/-- What a browser accepted is a packet of the connector for its channel, with that number. -/
theorem received_made (h : s.Honest codec) {browser : Browser Key} (joined : browser ∈ s.browsers) {j : Nat}
    {plaintext : Bytes} (at_j : browser.received[j]? = some plaintext) :
    j < 2 ^ 32 ∧ ∃ connection ∈ s.connections, ∃ (c : Nat) (channel : Connector.BrowserChannel)
      (sender : Sender Key),
      connection.receive.channels[c]? = some channel ∧
      connection.senders[c]? = some sender ∧ browser.channel = E2E.units channel.id ∧
      ∃ packet ∈ sender.sent, ∃ (key : Key) (nonce channelID ciphertext : Bytes), packet.content =
        ⟨key, nonce, additionalData channelID .connector (putUint32 j), plaintext, ciphertext⟩ := by
  obtain ⟨small, nonce, ciphertext, sealed⟩ := (h.supplied browser joined).sealed j plaintext at_j
  refine ⟨small, ?_⟩
  rcases mem_log.mp sealed with ⟨other, joined', packet, sent, content⟩ |
    ⟨connection, member, sender, sends, packet, sent, content⟩
  · -- the packets of browsers name the other direction
    obtain ⟨k, at_k⟩ := List.mem_iff_getElem?.mp sent
    obtain ⟨below, made⟩ := (h.browsers other joined').made k packet at_k
    obtain ⟨-, -, wrong, -, -⟩ := made.associated content (by omega) small
    cases wrong
  · obtain ⟨c, at_c⟩ := List.mem_iff_getElem?.mp sends
    have orderly := h.connections connection member
    have inside := (List.getElem?_eq_some_iff.mp at_c).1
    rw [orderly.length] at inside
    have there := List.getElem?_eq_getElem inside
    obtain ⟨number, made⟩ := orderly.made c _ sender there at_c packet sent
    obtain ⟨-, encoded, -, -, -⟩ := made.associated content number.toNat_lt small
    have valid := orderly.valid _ (List.mem_of_getElem? there)
    exact ⟨connection, member, c, _, sender, there, at_c, units_of_textEncode valid encoded, packet, sent, _, nonce, _,
      ciphertext, content⟩

theorem units_inj {id id' : String} (h : E2E.units id = E2E.units id') : id = id' := by
  have encoded := congrArg textEncode h
  rw [textEncode_units, textEncode_units] at encoded
  exact utf8_injective encoded

/-- What a browser accepts is what the connector encrypted for its channel, in order. -/
theorem received_prefix (h : s.Honest codec)
    (increasing : ∀ connection ∈ s.connections, connection.Increasing codec.aead codec.key) (once : s.ids.Nodup)
    (member : connection ∈ s.connections) {c : Nat} {channel : Connector.BrowserChannel} {sender : Sender Key}
    (there : connection.receive.channels[c]? = some channel) (at_c : connection.senders[c]? = some sender)
    {browser : Browser Key} (joined : browser ∈ s.browsers) (named : browser.channel = E2E.units channel.id) :
    browser.received <+: sender.sent.map fun packet => packet.content.plaintext := by
  obtain ⟨numbers, length, order, bounds, made⟩ := increasing connection member c channel sender there at_c
  -- every number of the stream has its packet among those of this channel
  have found : ∀ (j : Nat) (plaintext : Bytes), browser.received[j]? = some plaintext →
      ∃ (k : Nat) (packet : Packet Key), numbers[k]? = some j ∧ sender.sent[k]? = some packet ∧
        packet.content.plaintext = plaintext := by
    intro j plaintext at_j
    obtain ⟨small, connection', member', c', channel', sender', there', at_c', named', packet, sent, key, nonce,
      channelID, ciphertext, content⟩ := received_made h joined at_j
    obtain ⟨rfl, rfl⟩ := channel_unique once member member' there there' (units_inj (named.symm.trans named'))
    cases Option.some.inj (there.symm.trans there')
    cases Option.some.inj (at_c.symm.trans at_c')
    obtain ⟨k, sent_k⟩ := List.mem_iff_getElem?.mp sent
    have inside := (List.getElem?_eq_some_iff.mp sent_k).1
    rw [← length] at inside
    have at_k := List.getElem?_eq_getElem inside
    have bound := (bounds _ (List.mem_of_getElem? at_k)).1
    obtain ⟨-, -, -, number, -⟩ := (made k _ packet at_k sent_k).associated content bound small
    rw [← number] at at_k
    exact ⟨k, packet, at_k, sent_k, by rw [content]⟩
  have all : ∀ n < browser.received.length, n ∈ numbers := by
    intro n inside
    obtain ⟨k, packet, at_k, -⟩ := found n _ (List.getElem?_eq_getElem inside)
    exact List.mem_of_getElem? at_k
  apply prefix_of_getElem?
  intro j plaintext at_j
  obtain ⟨k, packet, at_k, sent_k, content⟩ := found j plaintext at_j
  have inside := (List.getElem?_eq_some_iff.mp at_j).1
  have place := getElem?_of_increasing order all inside
  have distinct : numbers.Nodup := order.imp Nat.ne_of_lt
  have same := (List.getElem?_inj (List.getElem?_eq_some_iff.mp at_k).1 distinct).mp (at_k.trans place.symm)
  rw [List.getElem?_map, ← same, sent_k, Option.map_some, content]

/-- A browser whose channel the connector does not have accepts nothing. -/
theorem received_nil (h : s.Honest codec) {browser : Browser Key} (joined : browser ∈ s.browsers)
    (nowhere : ∀ connection ∈ s.connections, ∀ channel ∈ connection.receive.channels,
      browser.channel ≠ E2E.units channel.id) : browser.received = [] := by
  cases received : browser.received with
  | nil => rfl
  | cons plaintext rest =>
    have first : browser.received[0]? = some plaintext := by rw [received]; rfl
    obtain ⟨-, connection, member, c, channel, sender, there, -, named, -⟩ := received_made h joined first
    exact absurd named (nowhere connection member channel (List.mem_of_getElem? there))

/-- In every schedule in which the connector draws no number twice on a channel, while a browser uses its channel for
one connection and the connector has no two channels of one id, both streams of a channel arrive in order, and nothing
else arrives. -/
theorem streams_are_prefixes {labels : List (Label Key Record Value)}
    (ran : exec (step codec) State.initial labels = some s)
    (unwrapped : Along (step codec) Unwrapped State.initial labels)
    (own : (s.browsers.map Browser.channel).Nodup) (once : s.ids.Nodup) :
    (∀ connection ∈ s.connections, ∀ (c : Nat) (channel : Connector.BrowserChannel),
      connection.receive.channels[c]? = some channel →
      (∀ browser ∈ s.browsers, browser.channel = E2E.units channel.id →
        (connection.receive.acceptedOn c).map Accepted.plaintext <+:
          browser.sent.map fun packet => packet.content.plaintext) ∧
      ((∀ browser ∈ s.browsers, browser.channel ≠ E2E.units channel.id) →
        connection.receive.acceptedOn c = [])) ∧
    ∀ browser ∈ s.browsers,
      (∀ connection ∈ s.connections, ∀ (c : Nat) (channel : Connector.BrowserChannel) (sender : Sender Key),
        connection.receive.channels[c]? = some channel → connection.senders[c]? = some sender →
        browser.channel = E2E.units channel.id →
        browser.received <+: sender.sent.map fun packet => packet.content.plaintext) ∧
      ((∀ connection ∈ s.connections, ∀ channel ∈ connection.receive.channels,
        browser.channel ≠ E2E.units channel.id) → browser.received = []) := by
  have both : s.Honest codec ∧ ∀ connection ∈ s.connections, connection.Increasing codec.aead codec.key := by
    refine @exec_preserves _ _ (step codec) Unwrapped
      (fun s => s.Honest codec ∧ ∀ connection ∈ s.connections, connection.Increasing codec.aead codec.key)
      ?_ _ _ _ ?_ ran unwrapped
    · intro s label t before guard ht
      exact ⟨honest_step before.1 ht, increasing_step before.1 before.2 guard ht⟩
    · exact ⟨⟨nofun, nofun, nofun, nofun, nofun⟩, nofun⟩
  obtain ⟨honest, increasing⟩ := both
  constructor
  · intro connection member c channel there
    refine ⟨?_, accepted_nil honest member there⟩
    intro browser joined named
    exact accepted_prefix honest own member there joined named
  · intro browser joined
    refine ⟨?_, received_nil honest joined⟩
    intro connection member c channel sender there at_c named
    exact received_prefix honest increasing once member there at_c joined named

end

theorem sender_encrypted {aead : Aead Key} {marshal : Value → Option Bytes} {key : Key} {channelID : String}
    {sender : Sender Key} {nonce : Sending.Nonce} {value : Value} {plaintext : Bytes}
    (marshalled : marshal value = some plaintext) :
    sender.encrypted aead marshal key channelID (some nonce) value =
      some ⟨Cloud.rawURLEncode
        (Cloud.packetBytes aead.encrypt key (utf8 channelID) .connector sender.sendSeq nonce.val
          plaintext),
        aead.seal key nonce.val (additionalData (utf8 channelID) .connector (putUint32 sender.sendSeq.toNat))
          plaintext⟩ := by
  unfold Sender.encrypted Sending.randRead
  rw [Option.map_some, PacketInterop.encryptPacket_connector marshalled, marshalled]
  rfl

/-- The packet of the connector on the channel with a number. -/
def outputPacket (sequence : UInt32) (value : String) : Packet Unit :=
  ⟨Cloud.rawURLEncode (Cloud.packetBytes loginCodec.aead.encrypt () (utf8 channelID) .connector sequence zeroNonce.val
      (utf8 value)),
    loginCodec.aead.seal () zeroNonce.val (additionalData (utf8 channelID) .connector (putUint32 sequence.toNat))
      (utf8 value)⟩

theorem streams_are_prefixes_login :
    ∃ s, exec (step loginCodec) State.initial
      (loginRun ++ [.connectorSend 0 0 (some zeroNonce) "authenticated",
        .browserReceive 0 (outputPacket 0 "authenticated").text]) = some s ∧
      s.browsers.map Browser.received = [[utf8 "authenticated"]] ∧
      ∀ connection ∈ s.connections, ∀ (c : Nat) (channel : Connector.BrowserChannel),
        connection.receive.channels[c]? = some channel → ∀ browser ∈ s.browsers,
        browser.channel = E2E.units channel.id →
        (connection.receive.acceptedOn c).map Accepted.plaintext <+:
          browser.sent.map fun packet => packet.content.plaintext := by
  have ends : (exec (step loginCodec) State.initial (loginRun ++
      [.connectorSend 0 0 (some zeroNonce) "authenticated",
        .browserReceive 0 (outputPacket 0 "authenticated").text])).map (fun s =>
          (s.browsers.map Browser.received, decide (s.browsers.map Browser.channel).Nodup, decide s.ids.Nodup)) =
      some ([[utf8 "authenticated"]], true, true) := by decide +kernel
  obtain ⟨s, ran, facts⟩ := Option.map_eq_some_iff.mp ends
  obtain ⟨received, rest⟩ := Prod.mk.inj facts
  obtain ⟨own, once⟩ := Prod.mk.inj rest
  have streams := (streams_are_prefixes ran (by decide +kernel) (of_decide_eq_true own) (of_decide_eq_true once)).1
  exact ⟨s, ran, received, fun connection member c channel there => (streams connection member c channel there).1⟩

/-- The decoder on a packet's layout, with any decryption. -/
theorem openPacket_layout {Key : Type} (decrypt : Key → Bytes → Bytes → Bytes → Option Bytes) (key : Key)
    (channelID : Bytes) (direction : Direction) (sequence : UInt32) {nonce ciphertext : Bytes}
    (twelve : nonce.length = 12) (tagged : 16 ≤ ciphertext.length) :
    Cloud.openPacket decrypt key channelID direction sequence
        (putUint32 sequence.toNat ++ nonce ++ ciphertext) =
      decrypt key nonce ciphertext (additionalData channelID direction (putUint32 sequence.toNat)) := by
  have front : (putUint32 sequence.toNat).length = 4 := length_putUint32 _
  have both : (putUint32 sequence.toNat ++ nonce).length = 16 := by rw [List.length_append, front, twelve]
  have whole : (putUint32 sequence.toNat ++ nonce ++ ciphertext).length = 16 + ciphertext.length := by
    rw [List.length_append, both]
  have first : (putUint32 sequence.toNat ++ nonce ++ ciphertext).take 4 = putUint32 sequence.toNat := by
    rw [List.append_assoc]
    exact List.take_left' front
  have second : ((putUint32 sequence.toNat ++ nonce ++ ciphertext).drop 4).take 12 = nonce := by
    rw [List.append_assoc, List.drop_left' front]
    exact List.take_left' twelve
  have third : (putUint32 sequence.toNat ++ nonce ++ ciphertext).drop (4 + 12) = ciphertext := List.drop_left' both
  unfold Cloud.openPacket Cloud.nonceSize Cloud.overhead
  rw [if_neg (by omega)]
  dsimp only
  rw [first, second, third, if_neg (by rw [uint32_putUint32 sequence.toNat_lt]; exact not_not.mpr rfl)]

/-- The same output again and again, then another. -/
def wrapRun (n : Nat) : List (Label Unit String String) :=
  [.join () (E2E.units channelID), .connect, .connector 0 (.channelOpen channelID)] ++
    List.replicate n (.connectorSend 0 0 (some zeroNonce) "output") ++
    [.connectorSend 0 0 (some zeroNonce) "later"] ++ [.browserReceive 0 (outputPacket 0 "later").text]

/-- A browser that accepted nothing yet, and a connector that encrypted these packets on its channel. -/
def streaming (received : List Bytes) (sendSeq : UInt32) (sent : List (Packet Unit)) : State Unit :=
  ⟨[⟨(), E2E.units channelID, 0, false, received.length, [], received⟩],
    [⟨⟨∅, [.new channelID], [⟨true, .replacing channelID 0⟩], [], [], []⟩, [⟨sendSeq, sent⟩]⟩]⟩

theorem streaming_send (sendSeq : UInt32) (sent : List (Packet Unit)) (value : String) :
    step loginCodec (streaming [] sendSeq sent) (.connectorSend 0 0 (some zeroNonce) value) =
      some (streaming [] (sendSeq + 1) (sent ++ [outputPacket sendSeq value])) := by
  have encrypted := @sender_encrypted _ _ loginCodec.aead loginCodec.marshal () channelID
    ⟨sendSeq, sent⟩ zeroNonce value
    (utf8 value) rfl
  have sends : Sender.sendEncrypted loginCodec.aead loginCodec.marshal () channelID ⟨sendSeq, sent⟩ (some zeroNonce)
      value = ⟨sendSeq + 1, sent ++ [outputPacket sendSeq value]⟩ := by
    unfold Sender.sendEncrypted
    rw [encrypted]
    rfl
  show some (streaming [] sendSeq sent |>.setConnection 0
    ⟨_, [Sender.sendEncrypted loginCodec.aead loginCodec.marshal ()
    channelID ⟨sendSeq, sent⟩ (some zeroNonce) value]⟩) = _
  rw [sends]
  rfl

theorem streaming_sends (n : Nat) : exec (step loginCodec) (streaming [] 0 [])
    (List.replicate n (.connectorSend 0 0 (some zeroNonce) "output")) =
      some (streaming [] (UInt32.ofNat n)
        ((List.range n).map fun k => outputPacket (UInt32.ofNat k) "output")) := by
  induction n with
  | zero => rfl
  | succ n ih =>
    rw [List.replicate_succ']
    apply exec_snoc_iff.mpr
    refine ⟨_, ih, ?_⟩
    rw [streaming_send, List.range_succ, List.map_append, List.map_singleton, UInt32.ofNat_add]
    rfl

/-- The browser takes a packet with the number that it waits for, whenever it was encrypted. -/
theorem streaming_receive {sendSeq : UInt32} {sent : List (Packet Unit)} (value : String)
    (honest : (streaming [] sendSeq sent).Honest loginCodec) (has : outputPacket 0 value ∈ sent) :
    step loginCodec (streaming [] sendSeq sent) (.browserReceive 0 (outputPacket 0 value).text) =
      some (streaming [utf8 value] sendSeq sent) := by
  have logged : (outputPacket 0 value).content ∈ (streaming [] sendSeq sent).log :=
    mem_log.mpr (Or.inr ⟨_, List.mem_singleton_self _, _, List.mem_singleton_self _, _, has, rfl⟩)
  have opened := (openSealed_iff honest.genuine).mpr logged
  have size := loginCodec.aead.length_encrypt () zeroNonce.val (utf8 value)
    (additionalData (utf8 channelID) .connector (putUint32 (0 : UInt32).toNat))
  have accepted : E2E.decryptPacket (openSealed (streaming [] sendSeq sent).log) (Option.guard loginCodec.parses) ()
      (E2E.units channelID) .connector 0 (outputPacket 0 value).text = some (utf8 value) := by
    have zero : (0 : Nat) = (0 : UInt32).toNat := rfl
    rw [E2E.decryptPacket, outputPacket, E2E.base64URLToBytes_rawURLEncode, Option.bind_some, zero,
      PacketInterop.openPacket_browser, textEncode_units, Cloud.packetBytes,
      openPacket_layout _ _ _ _ _ zeroNonce.property (by omega)]
    exact Option.bind_eq_some_iff.mpr ⟨utf8 value, opened, rfl⟩
  have moved : Browser.receive (streaming [] sendSeq sent).log loginCodec.parses
      ⟨(), E2E.units channelID, 0, false, 0, [], []⟩ (outputPacket 0 value).text =
        ⟨(), E2E.units channelID, 0, false, 1, [], [utf8 value]⟩ := by
    unfold Browser.receive
    rw [accepted]
    rfl
  show some (streaming [] sendSeq sent |>.setBrowser 0 (Browser.receive (streaming [] sendSeq sent).log
    loginCodec.parses ⟨(), E2E.units channelID, 0, false, 0, [], []⟩ (outputPacket 0 value).text)) = _
  rw [moved]
  rfl

/-- After a whole round of the counter the relay may leave the first packet out. -/
theorem exec_wrapRun {n : Nat} (round : UInt32.ofNat n = 0) :
    exec (step loginCodec) State.initial (wrapRun n) = some (streaming [utf8 "later"] 1
      (((List.range n).map fun k => outputPacket (UInt32.ofNat k) "output") ++
        [outputPacket 0 "later"])) := by
  have opens : exec (step loginCodec) State.initial
      [.join () (E2E.units channelID), .connect, .connector 0 (.channelOpen channelID)] =
        some (streaming [] 0 []) := by
    rfl
  have sends := exec_append_iff.mpr ⟨_, opens, streaming_sends n⟩
  have later := exec_snoc_iff.mpr ⟨_, sends, streaming_send _ _ "later"⟩
  rw [round] at later
  have honest := honest_run later
  exact exec_snoc_iff.mpr
    ⟨_, later, streaming_receive "later" honest (List.mem_append_right _ (List.mem_singleton_self _))⟩

/-- The connector has no limit where the browser has one: its number 0 comes again with the packet after 2^32, which
the browser accepts as the first. -/
theorem wrapped_number_is_accepted :
    ∃ s, exec (step loginCodec) State.initial (wrapRun (2 ^ 32)) = some s ∧
      (s.browsers.map Browser.channel).Nodup ∧ s.ids.Nodup ∧
      ∃ browser ∈ s.browsers, ∃ connection ∈ s.connections, ∃ channel sender,
        connection.receive.channels[0]? = some channel ∧ connection.senders[0]? = some sender ∧
        browser.channel = E2E.units channel.id ∧
        ¬browser.received <+: sender.sent.map fun packet => packet.content.plaintext := by
  have round : UInt32.ofNat (2 ^ 32) = 0 := by decide
  refine ⟨_, exec_wrapRun round, List.nodup_singleton _, List.nodup_singleton _, _, List.mem_singleton_self _, _,
    List.mem_singleton_self _, _, _, rfl, rfl, rfl, ?_⟩
  intro ordered
  have first := List.prefix_iff_getElem?.mp ordered 0 Nat.zero_lt_one
  have many : 0 < (List.range (2 ^ 32)).length := by
    rw [List.length_range]
    omega
  rw [List.getElem?_map, List.getElem?_append_left (by rw [List.length_map]; exact many), List.getElem?_map,
    List.getElem?_range (by omega)] at first
  have same : utf8 "output" = utf8 "later" := Option.some.inj first
  exact absurd same (by decide)

end TermLinks.Bridge
