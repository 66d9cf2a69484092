import TermLinks.E2EBridge

namespace TermLinks.Bridge

open Cloud (Direction additionalData)
open E2E (textEncode)
open Sending (Nonce randRead)
open Connector (validMessageID)

variable {Key Record Value : Type}

/-- A packet with this number, made for a channel and a direction. -/
def Packet.Made (aead : Aead Key) (key : Key) (channelID : Bytes) (direction : Direction) (number : Nat)
    (packet : Packet Key) : Prop :=
  ∃ nonce plaintext, nonce.length = 12 ∧
    packet.content = aead.seal key nonce (additionalData channelID direction (putUint32 number)) plaintext ∧
    Cloud.rawURLDecode packet.text = some (putUint32 number ++ nonce ++ packet.content.ciphertext)

/-- The packets of a browser carry the numbers from zero, all of them below its limit. -/
structure Browser.Orderly (aead : Aead Key) (browser : Browser Key) : Prop where
  made : ∀ (j : Nat) (packet : Packet Key), browser.sent[j]? = some packet →
    j < 0xffffffff ∧ packet.Made aead browser.key (textEncode browser.channel) .browser j
  next : browser.rejected = false → browser.sendSequence = browser.sent.length

/-- What a browser accepted was encrypted for it, under the numbers from zero. -/
structure Browser.Supplied (log : List (Sealed Key)) (browser : Browser Key) : Prop where
  sealed : ∀ (j : Nat) (plaintext : Bytes), browser.received[j]? = some plaintext →
    j < 2 ^ 32 ∧ ∃ nonce ciphertext,
      ⟨browser.key, nonce, additionalData (textEncode browser.channel) .connector (putUint32 j), plaintext,
        ciphertext⟩ ∈ log
  next : browser.receiveSequence = browser.received.length

structure Connection.Orderly (aead : Aead Key) (key : Key) (connection : Connection Key) : Prop where
  length : connection.senders.length = connection.receive.channels.length
  made : ∀ (c : Nat) (channel : Connector.BrowserChannel) (sender : Sender Key),
    connection.receive.channels[c]? = some channel → connection.senders[c]? = some sender →
    ∀ packet ∈ sender.sent, ∃ number : UInt32, packet.Made aead key (utf8 channel.id) .connector number.toNat
  valid : ∀ channel ∈ connection.receive.channels, validMessageID channel.id = true

section

variable {aead : Aead Key} {browser : Browser Key} {stringify : Record → Bytes} {iv : Nonce} {packet : Packet Key}

theorem Browser.encrypted_eq {value : Record} (h : browser.encrypted aead stringify iv value = some packet) :
    browser.sendSequence < 0xffffffff ∧
      packet.Made aead browser.key (textEncode browser.channel) .browser browser.sendSequence := by
  obtain ⟨text, encrypted, rfl⟩ := Option.map_eq_some_iff.mp h
  unfold E2E.encryptPacket at encrypted
  split at encrypted
  next => cases encrypted
  next below =>
    cases Option.some.inj encrypted
    refine ⟨by omega, iv.val, stringify value, iv.property, ?_, ?_⟩
    · rw [E2E.encryptionAAD_eq]
    · rw [E2E.bytesToBase64URL_eq, Cloud.rawURLDecode_rawURLEncode]
      rfl

theorem Sender.encrypted_eq {marshal : Value → Option Bytes} {key : Key} {channelID : String}
    {sender : Sender Key} {nonce : Option Nonce} {value : Value}
    (h : sender.encrypted aead marshal key channelID nonce value = some packet) :
    packet.Made aead key (utf8 channelID) .connector sender.sendSeq.toNat := by
  simp only [Sender.encrypted, Option.bind_eq_bind, Option.bind_eq_some_iff] at h
  obtain ⟨text, encrypted, plaintext, marshalled, drawn, read, made⟩ := h
  cases Option.some.inj made
  obtain ⟨nonce, rfl, rfl⟩ := Option.map_eq_some_iff.mp read
  refine ⟨nonce.val, plaintext, nonce.property, rfl, ?_⟩
  rw [randRead, Option.map_some, PacketInterop.encryptPacket_connector marshalled] at encrypted
  cases Option.some.inj encrypted
  rw [Cloud.rawURLDecode_rawURLEncode]
  rfl

theorem Packet.Made.genuine {key : Key} {channelID : Bytes} {direction : Direction} {number : Nat}
    (h : packet.Made aead key channelID direction number) : packet.content.Genuine aead := by
  obtain ⟨nonce, plaintext, -, content, -⟩ := h
  rw [content]
  rfl

/-- The chain goes on, or is rejected for good. -/
theorem sendEncrypted_orderly {isOpen posted : Bool} {value : Record} (h : browser.Orderly aead) :
    (browser.sendEncrypted aead stringify isOpen posted iv value).Orderly aead := by
  unfold Browser.sendEncrypted
  split
  next => exact h
  next going =>
    split
    next => exact ⟨h.made, nofun⟩
    next =>
      split
      next packet encrypted =>
        have next' := h.next (by simpa using going)
        obtain ⟨below, made⟩ := Browser.encrypted_eq encrypted
        refine ⟨?_, ?_⟩
        · intro j other there
          by_cases old : j < browser.sent.length
          · rw [List.getElem?_append_left old] at there
            exact h.made j other there
          · have bound := (List.getElem?_eq_some_iff.mp there).1
            rw [List.length_append, List.length_singleton] at bound
            have last : j = browser.sendSequence := by omega
            rw [last, next', List.getElem?_concat_length] at there
            cases Option.some.inj there
            rw [last]
            exact ⟨below, made⟩
        · intro _
          show browser.sendSequence + 1 = (browser.sent ++ [packet]).length
          rw [next', List.length_append, List.length_singleton]
      next => exact ⟨h.made, nofun⟩

theorem sent_sendEncrypted {isOpen posted : Bool} {value : Record} :
    browser.sent <+: (browser.sendEncrypted aead stringify isOpen posted iv value).sent := by
  unfold Browser.sendEncrypted
  split
  next => exact List.prefix_refl _
  next =>
    split
    next => exact List.prefix_refl _
    next =>
      split
      next packet _ => exact List.prefix_append _ _
      next => exact List.prefix_refl _

/-- Sending leaves what was received, and who the browser is. -/
theorem side_sendEncrypted {isOpen posted : Bool} {value : Record} :
    (browser.sendEncrypted aead stringify isOpen posted iv value).key = browser.key ∧
      (browser.sendEncrypted aead stringify isOpen posted iv value).channel = browser.channel ∧
      (browser.sendEncrypted aead stringify isOpen posted iv value).received = browser.received ∧
      (browser.sendEncrypted aead stringify isOpen posted iv value).receiveSequence =
        browser.receiveSequence := by
  unfold Browser.sendEncrypted
  split
  next => exact ⟨rfl, rfl, rfl, rfl⟩
  next =>
    split
    next => exact ⟨rfl, rfl, rfl, rfl⟩
    next =>
      split
      next => exact ⟨rfl, rfl, rfl, rfl⟩
      next => exact ⟨rfl, rfl, rfl, rfl⟩

end

section

variable [DecidableEq Key] {aead : Aead Key} {browser : Browser Key} {log : List (Sealed Key)} {parses : Bytes → Bool}
  {packet : String}

omit [DecidableEq Key] in
theorem openPacket_browser_eq_some {decrypt : Key → Bytes → Bytes → Bytes → Option Bytes} {key : Key}
    {channel : Utf16.Units} {direction : Direction} {sequence : Nat} {bytes plaintext : Bytes}
    (h : E2E.openPacket decrypt key channel direction sequence bytes = some plaintext) :
    sequence < 2 ^ 32 ∧ ∃ nonce ciphertext,
      decrypt key nonce ciphertext (additionalData (textEncode channel) direction (putUint32 sequence)) =
        some plaintext := by
  unfold E2E.openPacket at h
  split at h
  next => cases h
  next long =>
    dsimp only at h
    split at h
    next => cases h
    next same =>
      have four : (bytes.take 4).length = 4 := by
        rw [List.length_take]
        omega
      have number := not_not.mp same
      have small := uint32_lt four
      refine ⟨by omega, (bytes.drop 4).take 12, bytes.drop 16, ?_⟩
      rw [E2E.encryptionAAD_eq, ← putUint32_uint32 four, number] at h
      exact h

theorem receive_supplied (h : browser.Supplied log) : (browser.receive log parses packet).Supplied log := by
  unfold Browser.receive
  split
  next plaintext accepted =>
    obtain ⟨opened, found, guarded⟩ := Option.bind_eq_some_iff.mp accepted
    obtain ⟨bytes, -, unsealed⟩ := Option.bind_eq_some_iff.mp found
    have same : opened = plaintext := by
      unfold Option.guard at guarded
      split at guarded
      next => exact Option.some.inj guarded
      next => cases guarded
    rw [same] at unsealed
    obtain ⟨small, nonce, ciphertext, decrypted⟩ := openPacket_browser_eq_some unsealed
    have next' := h.next
    refine ⟨?_, ?_⟩
    · intro j other there
      by_cases old : j < browser.received.length
      · rw [List.getElem?_append_left old] at there
        exact h.sealed j other there
      · have bound := (List.getElem?_eq_some_iff.mp there).1
        rw [List.length_append, List.length_singleton] at bound
        have last : j = browser.receiveSequence := by omega
        rw [last, next', List.getElem?_concat_length] at there
        cases Option.some.inj there
        rw [last]
        exact ⟨small, nonce, ciphertext, openSealed_eq_some decrypted⟩
    · show browser.receiveSequence + 1 = (browser.received ++ [plaintext]).length
      rw [next', List.length_append, List.length_singleton]
  next => exact h

theorem receive_side : (browser.receive log parses packet).key = browser.key ∧
    (browser.receive log parses packet).channel = browser.channel ∧
    (browser.receive log parses packet).sent = browser.sent ∧
    (browser.receive log parses packet).rejected = browser.rejected ∧
    (browser.receive log parses packet).sendSequence = browser.sendSequence := by
  unfold Browser.receive
  split
  next => exact ⟨rfl, rfl, rfl, rfl, rfl⟩
  next => exact ⟨rfl, rfl, rfl, rfl, rfl⟩

end

section

variable {s t : State Key}

theorem mem_log {e : Sealed Key} : e ∈ s.log ↔
    (∃ browser ∈ s.browsers, ∃ packet ∈ browser.sent, packet.content = e) ∨
      ∃ connection ∈ s.connections, ∃ sender ∈ connection.senders, ∃ packet ∈ sender.sent,
        packet.content = e := by
  simp [State.log]

theorem log_setBrowser {b : Nat} {browser after : Browser Key} (here : s.browsers[b]? = some browser)
    (more : ∀ packet ∈ browser.sent, packet ∈ after.sent) : ∀ e ∈ s.log, e ∈ (s.setBrowser b after).log := by
  intro e member
  rw [mem_log] at member ⊢
  rcases member with ⟨other, there, packet, sent, content⟩ | other
  · obtain ⟨j, at_j⟩ := List.mem_iff_getElem?.mp there
    by_cases same : b = j
    · rw [← same, here] at at_j
      cases Option.some.inj at_j
      have inside := (List.getElem?_eq_some_iff.mp here).1
      exact Or.inl ⟨after, List.mem_set inside _, packet, more packet sent, content⟩
    · refine Or.inl ⟨other, List.mem_iff_getElem?.mpr ⟨j, ?_⟩, packet, sent, content⟩
      show (s.browsers.set b after)[j]? = some other
      rw [List.getElem?_set_ne same, at_j]
  · exact Or.inr other

theorem log_setConnection {i : Nat} {connection after : Connection Key}
    (here : s.connections[i]? = some connection) (more : ∀ sender ∈ connection.senders, ∀ packet ∈ sender.sent,
      ∃ later ∈ after.senders, packet ∈ later.sent) :
    ∀ e ∈ s.log, e ∈ (s.setConnection i after).log := by
  intro e member
  rw [mem_log] at member ⊢
  rcases member with other | ⟨other, there, sender, sends, packet, sent, content⟩
  · exact Or.inl other
  · obtain ⟨j, at_j⟩ := List.mem_iff_getElem?.mp there
    by_cases same : i = j
    · rw [← same, here] at at_j
      cases Option.some.inj at_j
      have inside := (List.getElem?_eq_some_iff.mp here).1
      obtain ⟨later, sends', sent'⟩ := more sender sends packet sent
      exact Or.inr ⟨after, List.mem_set inside _, later, sends', packet, sent', content⟩
    · refine Or.inr ⟨other, List.mem_iff_getElem?.mpr ⟨j, ?_⟩, sender, sends, packet, sent, content⟩
      show (s.connections.set i after)[j]? = some other
      rw [List.getElem?_set_ne same, at_j]

/-- Every encryption of the log is one that took place. -/
theorem genuine_log {aead : Aead Key} {key : Key} (browsers : ∀ browser ∈ s.browsers, browser.Orderly aead)
    (connections : ∀ connection ∈ s.connections, connection.Orderly aead key) :
    ∀ e ∈ s.log, e.Genuine aead := by
  intro e member
  rcases mem_log.mp member with ⟨browser, there, packet, sent, rfl⟩ |
    ⟨connection, there, sender, sends, packet, sent, rfl⟩
  · obtain ⟨j, at_j⟩ := List.mem_iff_getElem?.mp sent
    exact ((browsers browser there).made j packet at_j).2.genuine
  · obtain ⟨c, at_c⟩ := List.mem_iff_getElem?.mp sends
    have orderly := connections connection there
    have inside := (List.getElem?_eq_some_iff.mp at_c).1
    rw [orderly.length] at inside
    obtain ⟨number, made⟩ := orderly.made c _ sender (List.getElem?_eq_getElem inside) at_c packet sent
    exact made.genuine

theorem Browser.Supplied.mono {browser : Browser Key} {log more : List (Sealed Key)} (h : browser.Supplied log)
    (grows : ∀ e ∈ log, e ∈ more) : browser.Supplied more := by
  refine ⟨?_, h.next⟩
  intro j plaintext there
  obtain ⟨small, nonce, ciphertext, sealed⟩ := h.sealed j plaintext there
  exact ⟨small, nonce, ciphertext, grows _ sealed⟩

end

section

variable [DecidableEq Key] {codec : Codec Key Record Value} {s t : State Key}

omit [DecidableEq Key] in
theorem openPacket_mono {decrypt decrypt' : Key → Bytes → Bytes → Bytes → Option Bytes} {key : Key}
    {channelID : Bytes} {direction : Direction} {sequence : UInt32} {encoded plaintext : Bytes}
    (more : ∀ nonce ciphertext associated opened, decrypt key nonce ciphertext associated = some opened →
      decrypt' key nonce ciphertext associated = some opened)
    (h : Cloud.openPacket decrypt key channelID direction sequence encoded = some plaintext) :
    Cloud.openPacket decrypt' key channelID direction sequence encoded = some plaintext := by
  unfold Cloud.openPacket at h ⊢
  split at h
  next => cases h
  next long =>
    rw [if_neg long]
    dsimp only at h ⊢
    split at h
    next => cases h
    next same =>
      rw [if_neg same]
      exact more _ _ _ _ h

theorem decrypt_mono {aead : Aead Key} {key : Key} (genuine : ∀ e ∈ t.log, e.Genuine aead)
    (grows : ∀ e ∈ s.log, e ∈ t.log) {channelID packet : String} {sequence : UInt32} {plaintext : Bytes}
    (h : s.decrypt key channelID sequence packet = some plaintext) :
    t.decrypt key channelID sequence packet = some plaintext := by
  obtain ⟨encoded, decoded, opened⟩ := Option.bind_eq_some_iff.mp h
  apply Option.bind_eq_some_iff.mpr
  exact ⟨encoded, decoded, openPacket_mono (fun _ _ _ _ => openSealed_mono genuine grows) opened⟩

end

section

variable {decrypt decrypt' : String → UInt32 → String → Option Bytes} {r : Connector.State}

theorem named_mono (more : ∀ id sequence packet plaintext, decrypt id sequence packet = some plaintext →
    decrypt' id sequence packet = some plaintext) (h : r.Named decrypt) : r.Named decrypt' := by
  refine ⟨h.reader, h.names, h.listed, ?_⟩
  intro i a id packet plaintext c sequence here at_pc
  exact more _ _ _ _ (h.opened i a id packet plaintext c sequence here at_pc)

theorem numbered_mono (more : ∀ id sequence packet plaintext, decrypt id sequence packet = some plaintext →
    decrypt' id sequence packet = some plaintext) (h : r.Numbered decrypt) : r.Numbered decrypt' := by
  refine ⟨?_, h.sequences⟩
  intro a member
  obtain ⟨opened, known⟩ := h.accepted a member
  exact ⟨more _ _ _ _ opened, known⟩

end

end TermLinks.Bridge
