import TermLinks.E2EPacket

namespace TermLinks.PacketInterop

open Cloud (Direction)
open E2E (textEncode)

variable {Key Value Record Parsed : Type}

theorem encryptPacket_connector {encrypt : Key → Bytes → Bytes → Bytes → Bytes} {marshal : Value → Option Bytes}
    {key : Key} {channelID : Bytes} {direction : Direction} {sequence : UInt32} {nonce plaintext : Bytes}
    {value : Value} (h : marshal value = some plaintext) :
    Cloud.encryptPacket encrypt marshal key channelID direction sequence (some nonce) value =
      some (Cloud.rawURLEncode
        (Cloud.packetBytes encrypt key channelID direction sequence nonce plaintext)) := by
  unfold Cloud.encryptPacket
  rw [h]
  rfl

theorem encryptPacket_browser {encrypt : Key → Bytes → Bytes → Bytes → Bytes} (stringify : Record → Bytes)
    (key : Key) (channel : Utf16.Units) (direction : Direction) {sequence : UInt32} (iv : Bytes)
    (value : Record) (below : sequence.toNat < 0xffffffff) :
    E2E.encryptPacket encrypt stringify key channel direction sequence.toNat iv value =
      some (Cloud.rawURLEncode
        (Cloud.packetBytes encrypt key (textEncode channel) direction sequence iv (stringify value))) := by
  unfold E2E.encryptPacket Cloud.packetBytes
  rw [if_neg (by omega)]
  dsimp only
  rw [E2E.bytesToBase64URL_eq, E2E.encryptionAAD_eq]

/-- On the decoded bytes both decoders do the same. -/
theorem openPacket_browser (decrypt : Key → Bytes → Bytes → Bytes → Option Bytes) (key : Key)
    (channel : Utf16.Units) (direction : Direction) (sequence : UInt32) (bytes : Bytes) :
    E2E.openPacket decrypt key channel direction sequence.toNat bytes =
      Cloud.openPacket decrypt key (textEncode channel) direction sequence bytes := by
  unfold E2E.openPacket Cloud.openPacket
  simp only [E2E.encryptionAAD_eq]
  rfl

/-- A packet of another length or sequence is no packet for the decoder. -/
def Misfit (sequence : UInt32) (bytes : Bytes) : Prop :=
  bytes.length < 32 ∨ bytes.take 4 ≠ putUint32 sequence.toNat

theorem openPacket_misfit (decrypt : Key → Bytes → Bytes → Bytes → Option Bytes) (key : Key) (channelID : Bytes)
    (direction : Direction) {sequence : UInt32} {bytes : Bytes} (h : Misfit sequence bytes) :
    Cloud.openPacket decrypt key channelID direction sequence bytes = none := by
  cases opened : Cloud.openPacket decrypt key channelID direction sequence bytes with
  | none => rfl
  | some plaintext =>
    obtain ⟨long, same, _⟩ := Cloud.openPacket_eq_some opened
    simp only [Cloud.nonceSize, Cloud.overhead] at long
    rcases h with short | other
    · omega
    · exact absurd same other

theorem textEncode_injective {a b : Utf16.Units} (ha : Utf16.wellFormed a) (hb : Utf16.wellFormed b)
    (h : textEncode a = textEncode b) : a = b :=
  Utf16.scalars_injective ha hb (String.ofList_injective (utf8_injective h))

theorem encryptionAAD_injective {c c' : Utf16.Units} (hc : Utf16.wellFormed c) (hc' : Utf16.wellFormed c')
    {d d' : Direction} {s s' : Bytes} (hs : s.length = 4) (hs' : s'.length = 4)
    (h : E2E.encryptionAAD c d s = E2E.encryptionAAD c' d' s') : c = c' ∧ d = d' ∧ s = s' := by
  rw [E2E.encryptionAAD_eq, E2E.encryptionAAD_eq] at h
  obtain ⟨channel, direction, sequence⟩ := Cloud.additionalData_injective hs hs' h
  exact ⟨textEncode_injective hc hc' channel, direction, sequence⟩

/-- Each decoder recovers what the other encoder put into a packet, the encoders write the same text, the
associated data names channel, direction and sequence, and packets that are short or carry another
sequence are rejected. -/
theorem codecs_interoperate (aead : Aead Key) (marshal : Value → Option Bytes) (stringify : Record → Bytes)
    (parse : Bytes → Option Parsed) (key : Key) (channel : Utf16.Units) (direction : Direction)
    (sequence : UInt32) (below : sequence.toNat < 2 ^ 32 - 1) (nonce : Bytes) (twelve : nonce.length = 12) :
    (∀ value plaintext, marshal value = some plaintext → ∃ packet,
      Cloud.encryptPacket aead.encrypt marshal key (textEncode channel) direction sequence
        (some nonce) value =
        some packet ∧
      E2E.decryptPacket aead.decrypt parse key channel direction sequence.toNat packet = parse plaintext) ∧
    (∀ value, ∃ packet,
      E2E.encryptPacket aead.encrypt stringify key channel direction sequence.toNat nonce value =
        some packet ∧
      Cloud.decryptPacket aead.decrypt key (textEncode channel) direction sequence packet =
        some (stringify value)) ∧
    (∀ value record, marshal value = some (stringify record) →
      Cloud.encryptPacket aead.encrypt marshal key (textEncode channel) direction sequence
        (some nonce) value =
        E2E.encryptPacket aead.encrypt stringify key channel direction sequence.toNat nonce record) ∧
    (∀ (c c' : Bytes) (d d' : Direction) (s s' : UInt32),
      Cloud.additionalData c d (putUint32 s.toNat) = Cloud.additionalData c' d' (putUint32 s'.toNat) →
        c = c' ∧ d = d' ∧ s = s') ∧
    (∀ (c c' : Utf16.Units) (d d' : Direction) (s s' : UInt32), Utf16.wellFormed c → Utf16.wellFormed c' →
      E2E.encryptionAAD c d (putUint32 s.toNat) = E2E.encryptionAAD c' d' (putUint32 s'.toNat) →
        c = c' ∧ d = d' ∧ s = s') ∧
    (∀ packet bytes, Cloud.rawURLDecode packet = some bytes → Misfit sequence bytes →
      Cloud.decryptPacket aead.decrypt key (textEncode channel) direction sequence packet = none) ∧
    (∀ packet bytes, E2E.base64URLToBytes packet = some bytes → Misfit sequence bytes →
      E2E.decryptPacket aead.decrypt parse key channel direction sequence.toNat packet = none) := by
  have opens := fun plaintext =>
    Cloud.openPacket_packetBytes aead key (textEncode channel) direction sequence twelve plaintext
  have same_sequence : ∀ s s' : UInt32, putUint32 s.toNat = putUint32 s'.toNat → s = s' := by
    intro s s' h
    exact UInt32.toNat_inj.mp (putUint32_injective s.toNat_lt s'.toNat_lt h)
  refine ⟨?_, ?_, ?_, ?_, ?_, ?_, ?_⟩
  · intro value plaintext marshalled
    refine ⟨_, encryptPacket_connector marshalled, ?_⟩
    rw [E2E.decryptPacket, E2E.base64URLToBytes_rawURLEncode, Option.bind_some, openPacket_browser, opens,
      Option.bind_some]
  · intro value
    refine ⟨_, encryptPacket_browser stringify key channel direction nonce value (by omega), ?_⟩
    rw [Cloud.decryptPacket, Cloud.rawURLDecode_rawURLEncode, Option.bind_some, opens]
  · intro value record marshalled
    rw [encryptPacket_connector marshalled,
      encryptPacket_browser stringify key channel direction nonce record (by omega)]
  · intro c c' d d' s s' h
    obtain ⟨hc, hd, hs⟩ := Cloud.additionalData_injective (length_putUint32 _) (length_putUint32 _) h
    exact ⟨hc, hd, same_sequence s s' hs⟩
  · intro c c' d d' s s' wf wf' h
    obtain ⟨hc, hd, hs⟩ := encryptionAAD_injective wf wf' (length_putUint32 _) (length_putUint32 _) h
    exact ⟨hc, hd, same_sequence s s' hs⟩
  · intro packet bytes decoded misfit
    rw [Cloud.decryptPacket, decoded, Option.bind_some, openPacket_misfit _ _ _ _ misfit]
  · intro packet bytes decoded misfit
    rw [E2E.decryptPacket, decoded, Option.bind_some, openPacket_browser, openPacket_misfit _ _ _ _ misfit,
      Option.bind_none]

theorem codecs_interoperate_authenticate :
    ∃ packet,
      E2E.encryptPacket (Aead.zeroTag Unit).encrypt utf8 () (E2E.units "c1") .browser 0 (List.replicate 12 7)
        "authenticate" = some packet ∧
      Cloud.decryptPacket (Aead.zeroTag Unit).decrypt () (textEncode (E2E.units "c1")) .browser 0 packet =
        some (utf8 "authenticate") :=
  (codecs_interoperate (Aead.zeroTag Unit) (fun value : String => some (utf8 value)) utf8
    (fun bytes : Bytes => some bytes) () (E2E.units "c1") .browser 0 (by decide) (List.replicate 12 7)
    (by decide)).2.1 "authenticate"

/-- `TextEncoder` writes the same three bytes for every lone surrogate. -/
theorem lone_surrogates_share_associated_data :
    ∃ c c' : Utf16.Units, c ≠ c' ∧ ∀ d s, E2E.encryptionAAD c d s = E2E.encryptionAAD c' d s := by
  refine ⟨[0xd800], [0xd801], by decide, ?_⟩
  intro d s
  have same : textEncode [0xd800] = textEncode [0xd801] := by decide
  rw [E2E.encryptionAAD_eq, E2E.encryptionAAD_eq, same]

end TermLinks.PacketInterop
