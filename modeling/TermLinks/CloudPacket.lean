import Mathlib.Data.Bool.AllAny
import TermLinks.Aead
import TermLinks.Base64

namespace TermLinks.Cloud

def keyContext : String := "termlinks-e2e-v1\x00"

def aadContext : String := "termlinks-e2e-v1:"

inductive Direction
  | browser | connector
deriving DecidableEq, Repr

def Direction.text : Direction → String
  | .browser => "browser"
  | .connector => "connector"

/-- `base64.RawURLEncoding.EncodeToString`. -/
def rawURLEncode (bytes : Bytes) : String :=
  String.ofList ((Base64.sextets bytes).map (Base64.encodeChar Base64.urlAlphabet))

/-- `base64.RawURLEncoding.DecodeString`: line ends are skipped, left-over bits are not looked at. -/
def rawURLDecode (text : String) : Option Bytes :=
  (Base64.decodeChars Base64.urlAlphabet (text.toList.filter fun c => c ≠ '\r' ∧ c ≠ '\n')).bind Base64.octets

/-- `[]byte(aadContext+channelID+":"+direction+":")` and the sequence bytes after it. A Go string is its bytes. -/
def additionalData (channelID : Bytes) (direction : Direction) (sequenceBytes : Bytes) : Bytes :=
  utf8 aadContext ++ channelID ++ utf8 ":" ++ utf8 direction.text ++ utf8 ":" ++ sequenceBytes

variable {Key Value : Type}

def deriveKey (sha256 : Bytes → Key) (token : Bytes) : Key := sha256 (utf8 keyContext ++ token)

/-- `gcm.NonceSize()` and `gcm.Overhead()`. -/
def nonceSize : Nat := 12

def overhead : Nat := 16

/-- The bytes of a packet before they become text. -/
def packetBytes (encrypt : Key → Bytes → Bytes → Bytes → Bytes) (key : Key) (channelID : Bytes)
    (direction : Direction) (sequence : UInt32) (nonce plaintext : Bytes) : Bytes :=
  let sequenceBytes := putUint32 sequence.toNat
  sequenceBytes ++ nonce ++ encrypt key nonce plaintext (additionalData channelID direction sequenceBytes)

/-- `marshal` is `json.Marshal` and `nonce` what `rand.Read` gave; either may fail. -/
def encryptPacket (encrypt : Key → Bytes → Bytes → Bytes → Bytes) (marshal : Value → Option Bytes) (key : Key)
    (channelID : Bytes) (direction : Direction) (sequence : UInt32) (nonce : Option Bytes) (value : Value) :
    Option String := do
  let plaintext ← marshal value
  let nonce ← nonce
  return rawURLEncode (packetBytes encrypt key channelID direction sequence nonce plaintext)

/-- `decryptPacket` on the decoded bytes. -/
def openPacket (decrypt : Key → Bytes → Bytes → Bytes → Option Bytes) (key : Key) (channelID : Bytes)
    (direction : Direction) (expectedSequence : UInt32) (encoded : Bytes) : Option Bytes :=
  if encoded.length < 4 + nonceSize + overhead then none
  else
    let sequenceBytes := encoded.take 4
    if uint32 sequenceBytes ≠ expectedSequence.toNat then none
    else
      decrypt key ((encoded.drop 4).take nonceSize) (encoded.drop (4 + nonceSize))
        (additionalData channelID direction sequenceBytes)

def decryptPacket (decrypt : Key → Bytes → Bytes → Bytes → Option Bytes) (key : Key) (channelID : Bytes)
    (direction : Direction) (expectedSequence : UInt32) (packet : String) : Option Bytes :=
  (rawURLDecode packet).bind (openPacket decrypt key channelID direction expectedSequence)

theorem urlChar_ne {n : Nat} (h : n < 64) :
    Base64.encodeChar Base64.urlAlphabet n ≠ '\r' ∧ Base64.encodeChar Base64.urlAlphabet n ≠ '\n' := by
  have all : ∀ c ∈ Base64.urlAlphabet, c ≠ '\r' ∧ c ≠ '\n' := List.all_iff_forall_prop.mp (by decide)
  exact all _ (Base64.encodeChar_mem (by decide) h)

theorem rawURLDecode_rawURLEncode (bytes : Bytes) : rawURLDecode (rawURLEncode bytes) = some bytes := by
  have small := Base64.sextet_lt bytes
  have kept : ((Base64.sextets bytes).map (Base64.encodeChar Base64.urlAlphabet)).filter
      (fun c => c ≠ '\r' ∧ c ≠ '\n') = (Base64.sextets bytes).map (Base64.encodeChar Base64.urlAlphabet) := by
    apply List.filter_eq_self.mpr
    intro c hc
    obtain ⟨n, hn, rfl⟩ := List.mem_map.mp hc
    simpa using urlChar_ne (small n hn)
  unfold rawURLDecode rawURLEncode
  rw [String.toList_ofList, kept, Base64.decodeChars_map Base64.decodeChar_urlAlphabet small,
    Option.bind_some, Base64.octets_sextets]

theorem length_rawURLEncode (bytes : Bytes) :
    (rawURLEncode bytes).toList.length = (4 * bytes.length + 2) / 3 := by
  rw [rawURLEncode, String.toList_ofList, List.length_map, Base64.length_sextets]

theorem reverse_colon_text (direction : Direction) :
    (utf8 ":" ++ utf8 direction.text ++ utf8 ":").reverse =
      match direction with
      | .browser => [58, 114, 101, 115, 119, 111, 114, 98, 58]
      | .connector => [58, 114, 111, 116, 99, 101, 110, 110, 111, 99, 58] := by
  cases direction with
  | browser => decide
  | connector => decide

/-- The colons need no escaping: the two directions end differently and the sequence has a fixed length. -/
theorem additionalData_injective {c c' : Bytes} {d d' : Direction} {s s' : Bytes}
    (hs : s.length = 4) (hs' : s'.length = 4) (h : additionalData c d s = additionalData c' d' s') :
    c = c' ∧ d = d' ∧ s = s' := by
  unfold additionalData at h
  obtain ⟨front, rfl⟩ := List.append_inj' h (by rw [hs, hs'])
  simp only [List.append_assoc, List.append_cancel_left_eq] at front
  have turned := congrArg List.reverse front
  have same := reverse_colon_text d
  have same' := reverse_colon_text d'
  simp only [List.append_assoc] at same same'
  rw [List.reverse_append, @List.reverse_append _ c', same, same'] at turned
  cases d with
  | browser =>
    cases d' with
    | browser => exact ⟨List.reverse_injective (by simpa using turned), rfl, rfl⟩
    | connector => simp at turned
  | connector =>
    cases d' with
    | browser => simp at turned
    | connector => exact ⟨List.reverse_injective (by simpa using turned), rfl, rfl⟩

theorem length_packetBytes (aead : Aead Key) (key : Key) (channelID : Bytes) (direction : Direction)
    (sequence : UInt32) (nonce plaintext : Bytes) :
    (packetBytes aead.encrypt key channelID direction sequence nonce plaintext).length =
      4 + nonce.length + (plaintext.length + 16) := by
  simp only [packetBytes, List.length_append, length_putUint32, aead.length_encrypt]

theorem openPacket_packetBytes (aead : Aead Key) (key : Key) (channelID : Bytes) (direction : Direction)
    (sequence : UInt32) {nonce : Bytes} (hn : nonce.length = nonceSize) (plaintext : Bytes) :
    openPacket aead.decrypt key channelID direction sequence
      (packetBytes aead.encrypt key channelID direction sequence nonce plaintext) = some plaintext := by
  have len := length_packetBytes aead key channelID direction sequence nonce plaintext
  have front : (putUint32 sequence.toNat).length = 4 := length_putUint32 _
  unfold openPacket
  rw [if_neg (by rw [len, hn]; simp only [overhead]; omega)]
  unfold packetBytes
  simp only [List.append_assoc, List.take_left' front, List.drop_left' front, List.take_left' hn,
    uint32_putUint32 sequence.toNat_lt, ne_eq, not_true_eq_false, if_false]
  have both : (putUint32 sequence.toNat ++ nonce).length = 4 + nonceSize := by
    rw [List.length_append, front, hn]
  rw [← List.append_assoc, List.drop_left' both, aead.decrypt_encrypt]

/-- What a decoder accepts has the layout of a packet and the expected sequence. -/
theorem openPacket_eq_some {decrypt : Key → Bytes → Bytes → Bytes → Option Bytes} {key : Key}
    {channelID : Bytes} {direction : Direction} {sequence : UInt32} {encoded plaintext : Bytes}
    (h : openPacket decrypt key channelID direction sequence encoded = some plaintext) :
    4 + nonceSize + overhead ≤ encoded.length ∧ encoded.take 4 = putUint32 sequence.toNat ∧
      decrypt key ((encoded.drop 4).take nonceSize) (encoded.drop (4 + nonceSize))
        (additionalData channelID direction (putUint32 sequence.toNat)) = some plaintext := by
  unfold openPacket at h
  split at h
  next => cases h
  next long =>
    dsimp only at h
    split at h
    next => cases h
    next same =>
      have four : (encoded.take 4).length = 4 := by
        rw [List.length_take]
        omega
      have number : encoded.take 4 = putUint32 sequence.toNat := by
        rw [← not_not.mp same, putUint32_uint32 four]
      rw [number] at h
      exact ⟨by omega, number, h⟩

end TermLinks.Cloud
