import TermLinks.ConnectorHTTP
import TermLinks.PacketInterop
import TermLinks.RelayAgreement

namespace TermLinks.Sending

open Connector (Table maxEncryptedPacket)

/-- What `rand.Read` fills a nonce with. -/
abbrev Nonce := {bytes : Bytes // bytes.length = Cloud.nonceSize}

/-- The bytes of a nonce, unless `rand.Read` failed. -/
def randRead (nonce : Option Nonce) : Option Bytes := nonce.map Subtype.val

/-- How a call of `sendEncrypted` ended. -/
inductive Outcome
  | sent
  /-- "encrypted channel is closed" -/
  | closed
  /-- the value or its packet cannot be sent -/
  | failed (channel : Nat)
  /-- the error of the context -/
  | stopped (channel : Nat)
deriving DecidableEq

/-- Where the call that holds `sendMu` stands. -/
inductive Phase
  | drawing
  | encrypting (sequence : UInt32)
  | queueing (sequence : UInt32) (packet : String)
  | leaving (outcome : Outcome)
deriving DecidableEq

structure Holder where
  call : Nat
  phase : Phase
deriving DecidableEq

/-- `browserChannel`, as far as packets are sent on it: `sendMu` and `sendSeq`. -/
structure Channel where
  sendMu : Option Holder
  sendSeq : UInt32
deriving DecidableEq

inductive Pc
  | looking
  | locking (channel : Nat)
  | inside (channel : Nat)
  | returned (outcome : Outcome)
deriving DecidableEq

/-- A call of `sendEncrypted`. -/
structure Call (Value : Type) where
  channelID : String
  value : Value
  pc : Pc

/-- A packet that came into the queue, with the channel it was encrypted for. -/
structure Outgoing where
  channel : Nat
  channelID : String
  packet : String
deriving DecidableEq

/-- `connectionState`, as far as packets are sent: `outgoing` lists every packet that came into the queue, `waiting`
counts the texts that are in it. -/
structure State (Value : Type) where
  table : Table
  channels : List Channel
  calls : List (Call Value)
  outgoing : List Outgoing
  waiting : Nat
  done : Bool

inductive Label (Value : Type)
  | openChannel (id : String)
  | closeChannel (id : String)
  /-- the context of the connection is done -/
  | cancel
  /-- `writeRelay` takes a text out of the queue -/
  | write
  /-- another text comes into the queue -/
  | other
  | send (channelID : String) (value : Value)
  /-- a call takes its next step; `rand.Read` may fail, and `select` takes a case that is ready -/
  | run (call : Nat) (nonce : Option Nonce) (queue : Bool)

def queueSize : Nat := 256

variable {Key Value : Type}

namespace State

def initial : State Value := ⟨∅, [], [], [], 0, false⟩

def setPc (s : State Value) (k : Nat) (call : Call Value) (pc : Pc) : State Value :=
  { s with calls := s.calls.set k { call with pc } }

def setChannel (s : State Value) (c : Nat) (channel : Channel) : State Value :=
  { s with channels := s.channels.set c channel }

end State

/-- What `sendEncrypted` does with the answer of `encryptPacket`. -/
def checkPacket (c : Nat) (sequence : UInt32) : Option String → Phase
  | some packet => if packet.utf8ByteSize > maxEncryptedPacket then .leaving (.failed c)
    else .queueing sequence packet
  | none => .leaving (.failed c)

/-- The next step of the call that holds `sendMu`. -/
def holderStep (aead : Aead Key) (marshal : Value → Option Bytes) (key : Key) (s : State Value) (k : Nat)
    (call : Call Value) (c : Nat) (channel : Channel) (nonce : Option Nonce) (queue : Bool) :
    Phase → Option (State Value)
  | .drawing => some (s.setChannel c ⟨some ⟨k, .encrypting channel.sendSeq⟩, channel.sendSeq + 1⟩)
  | .encrypting sequence =>
    let packet := Cloud.encryptPacket aead.encrypt marshal key (utf8 call.channelID) .connector sequence
      (randRead nonce) call.value
    some (s.setChannel c { channel with sendMu := some ⟨k, checkPacket c sequence packet⟩ })
  | .queueing _ packet =>
    if queue then
      if s.waiting < queueSize then
        some { s.setChannel c { channel with sendMu := some ⟨k, .leaving .sent⟩ } with
          outgoing := s.outgoing ++ [⟨c, call.channelID, packet⟩], waiting := s.waiting + 1 }
      else none
    else if s.done then some (s.setChannel c { channel with sendMu := some ⟨k, .leaving (.stopped c)⟩ })
    else none
  | .leaving outcome => some ((s.setChannel c { channel with sendMu := none }).setPc k call (.returned outcome))

def callStep (aead : Aead Key) (marshal : Value → Option Bytes) (key : Key) (s : State Value) (k : Nat)
    (call : Call Value) (nonce : Option Nonce) (queue : Bool) : Pc → Option (State Value)
  | .looking =>
    match s.table.lookup call.channelID with
    | some c => some (s.setPc k call (.locking c))
    | none => some (s.setPc k call (.returned .closed))
  | .locking c =>
    match s.channels[c]? with
    | some channel =>
      if channel.sendMu = none then
        some ((s.setChannel c { channel with sendMu := some ⟨k, .drawing⟩ }).setPc k call (.inside c))
      else none
    | none => none
  | .inside c =>
    match s.channels[c]? with
    | some channel =>
      match channel.sendMu with
      | some holder =>
        if holder.call = k then holderStep aead marshal key s k call c channel nonce queue holder.phase else none
      | none => none
    | none => none
  | .returned _ => none

def step (aead : Aead Key) (marshal : Value → Option Bytes) (key : Key) (s : State Value) :
    Label Value → Option (State Value)
  | .openChannel id =>
    some { s with channels := s.channels ++ [⟨none, 0⟩], table := s.table.insert id s.channels.length }
  | .closeChannel id => some { s with table := s.table.erase id }
  | .cancel => some { s with done := true }
  | .write => if 0 < s.waiting then some { s with waiting := s.waiting - 1 } else none
  | .other => if s.waiting < queueSize then some { s with waiting := s.waiting + 1 } else none
  | .send channelID value => some { s with calls := s.calls ++ [⟨channelID, value, .looking⟩] }
  | .run k nonce queue =>
    match s.calls[k]? with
    | some call => callStep aead marshal key s k call nonce queue call.pc
    | none => none

/-- The sequence number that a packet carries. -/
def carried (packet : String) : Option Nat :=
  (Cloud.rawURLDecode packet).map fun bytes => uint32 (bytes.take 4)

namespace State

def queuedOn (s : State Value) (c : Nat) : List Outgoing := s.outgoing.filter fun entry => entry.channel = c

/-- What the packets of a channel carry, in the order of the queue. -/
def numbers (s : State Value) (c : Nat) : List (Option Nat) :=
  (s.queuedOn c).map fun entry => carried entry.packet

/-- A call on the channel got the error of the context. -/
def Stopped (s : State Value) (c : Nat) : Prop := ∃ call ∈ s.calls, call.pc = .returned (.stopped c)

instance decidableStopped (s : State Value) (c : Nat) : Decidable (s.Stopped c) :=
  inferInstanceAs (Decidable (∃ call ∈ s.calls, call.pc = .returned (.stopped c)))

/-- Where a call stands that holds the lock of a channel. -/
def held (s : State Value) (k : Nat) : Option (Call Value × Nat × Channel × Phase) :=
  match s.calls[k]? with
  | some call =>
    match call.pc with
    | .inside c =>
      match s.channels[c]? with
      | some channel =>
        match channel.sendMu with
        | some holder => if holder.call = k then some (call, c, channel, holder.phase) else none
        | none => none
      | none => none
    | _ => none
  | none => none

end State

/-- `json.Marshal` and `rand.Read` succeed, and the packet is not too large. -/
def Fits (marshal : Value → Option Bytes) (nonce : Option Nonce) (value : Value) : Prop :=
  nonce.isSome ∧ ∃ plaintext ∈ marshal value, plaintext.length + 32 ≤ maxEncryptedPacket / 4 * 3

instance decidableFits (marshal : Value → Option Bytes) (nonce : Option Nonce) (value : Value) :
    Decidable (Fits marshal nonce value) :=
  inferInstanceAs (Decidable (_ ∧ _))

def Allowed (marshal : Value → Option Bytes) (s : State Value) (nonce : Option Nonce) (queue : Bool) :
    Option (Call Value × Nat × Channel × Phase) → Prop
  | some (_, c, channel, .drawing) => channel.sendSeq = 0 → s.queuedOn c = []
  | some (call, _, _, .encrypting _) => Fits marshal nonce call.value
  | some (_, c, _, .queueing _ _) => queue = true → ¬s.Stopped c
  | some (_, _, _, .leaving _) | none => True

instance decidableAllowed (marshal : Value → Option Bytes) (s : State Value) (nonce : Option Nonce)
    (queue : Bool) :
    (held : Option (Call Value × Nat × Channel × Phase)) → Decidable (Allowed marshal s nonce queue held)
  | some (_, c, channel, .drawing) => inferInstanceAs (Decidable (channel.sendSeq = 0 → s.queuedOn c = []))
  | some (call, _, _, .encrypting _) => decidableFits marshal nonce call.value
  | some (_, c, _, .queueing _ _) => inferInstanceAs (Decidable (queue = true → ¬s.Stopped c))
  | some (_, _, _, .leaving _) | none => isTrue trivial

/-- No step of a call goes where the packets lose count: the numbers do not start over, every value fits, and once a
call was stopped no other puts its packet into the queue. -/
def Sound (marshal : Value → Option Bytes) (s : State Value) : Label Value → Prop
  | .run k nonce queue => Allowed marshal s nonce queue (s.held k)
  | _ => True

instance decidableSound (marshal : Value → Option Bytes) (s : State Value) :
    (label : Label Value) → Decidable (Sound marshal s label)
  | .run k nonce queue => decidableAllowed marshal s nonce queue (s.held k)
  | .openChannel _ | .closeChannel _ | .cancel | .write | .other | .send _ _ => isTrue trivial

/-- The number that the holder of the lock has drawn and not put into the queue. -/
def Phase.drawn : Phase → Option UInt32
  | .encrypting sequence | .queueing sequence _ => some sequence
  | .drawing | .leaving _ => none

/-- `sendSeq` is the number of the next packet, of which there are `count` in the queue. -/
def Channel.Balanced (channel : Channel) (count : Nat) : Prop :=
  match channel.sendMu.bind fun holder => holder.phase.drawn with
  | some sequence => sequence.toNat = count ∧ channel.sendSeq = sequence + 1
  | none => channel.sendSeq = UInt32.ofNat count ∧ count ≤ 2 ^ 32

structure State.Steady (s : State Value) (c : Nat) (channel : Channel) : Prop where
  balanced : ¬s.Stopped c → (∀ k, channel.sendMu ≠ some ⟨k, .leaving (.stopped c)⟩) →
    channel.Balanced (s.queuedOn c).length
  carries : ∀ k sequence packet, channel.sendMu = some ⟨k, .queueing sequence packet⟩ →
    carried packet = some sequence.toNat
  own : ∀ k c', channel.sendMu = some ⟨k, .leaving (.stopped c')⟩ → c' = c
  unfailed : ∀ k c', channel.sendMu ≠ some ⟨k, .leaving (.failed c')⟩

/-- The packets of every channel carry the numbers from zero, and no call used a number up. -/
structure State.Ordered (s : State Value) : Prop where
  numbers : ∀ c, s.numbers c = (List.range (s.queuedOn c).length).map some
  steady : ∀ (c : Nat) (channel : Channel), s.channels[c]? = some channel → s.Steady c channel
  unfailed : ∀ call ∈ s.calls, ∀ c, call.pc ≠ .returned (.failed c)
  listed : ∀ entry ∈ s.outgoing, entry.channel < s.channels.length

theorem packet_size (bytes : Bytes) :
    (Cloud.rawURLEncode bytes).utf8ByteSize = (4 * bytes.length + 2) / 3 := by
  have letters := Cloud.length_rawURLEncode bytes
  have size := byteCount_toList (Cloud.rawURLEncode bytes)
  have plain := Relay.byteCount_plain (Relay.packet_chars bytes)
  omega

section

variable {aead : Aead Key} {marshal : Value → Option Bytes} {key : Key} {channelID : Bytes} {sequence : UInt32}
  {nonce : Option Nonce} {value : Value}

/-- A packet of a connector is as long as its plaintext makes it, and carries its number. -/
theorem encryptPacket_eq {packet : String}
    (h : Cloud.encryptPacket aead.encrypt marshal key channelID .connector sequence (randRead nonce) value =
      some packet) :
    carried packet = some sequence.toNat ∧ nonce.isSome ∧ ∃ plaintext, marshal value = some plaintext ∧
      packet.utf8ByteSize = (4 * (plaintext.length + 32) + 2) / 3 := by
  simp only [Cloud.encryptPacket, Option.bind_eq_bind, Option.bind_eq_some_iff] at h
  obtain ⟨plaintext, marshalled, iv, drawn, eq⟩ := h
  obtain ⟨nonce, rfl, rfl⟩ := Option.map_eq_some_iff.mp drawn
  cases Option.some.inj eq
  have length := Cloud.length_packetBytes aead key channelID .connector sequence nonce.val plaintext
  have twelve : nonce.val.length = 12 := nonce.property
  refine ⟨?_, rfl, plaintext, marshalled, ?_⟩
  · unfold carried
    rw [Cloud.rawURLDecode_rawURLEncode, Option.map_some]
    have front : (Cloud.packetBytes aead.encrypt key channelID .connector sequence nonce.val plaintext).take 4 =
        putUint32 sequence.toNat := by
      unfold Cloud.packetBytes
      simp only [List.append_assoc]
      exact List.take_left' (length_putUint32 _)
    rw [front, uint32_putUint32 sequence.toNat_lt]
  · rw [packet_size, length, twelve]
    congr 2
    omega

/-- A value that fits gets its number and goes on to the queue; another is given up. -/
theorem checkPacket_eq {c : Nat} :
    (Fits marshal nonce value ∧ ∃ packet,
        checkPacket c sequence (Cloud.encryptPacket aead.encrypt marshal key channelID .connector sequence
          (randRead nonce) value) = .queueing sequence packet ∧ carried packet = some sequence.toNat) ∨
      (¬Fits marshal nonce value ∧
        checkPacket c sequence (Cloud.encryptPacket aead.encrypt marshal key channelID .connector sequence
          (randRead nonce) value) = .leaving (.failed c)) := by
  cases encrypted : Cloud.encryptPacket aead.encrypt marshal key channelID .connector sequence
      (randRead nonce) value with
  | none =>
    refine Or.inr ⟨?_, rfl⟩
    rintro ⟨given, plaintext, marshalled, -⟩
    obtain ⟨nonce, rfl⟩ := Option.isSome_iff_exists.mp given
    rw [randRead, Option.map_some, PacketInterop.encryptPacket_connector marshalled] at encrypted
    cases encrypted
  | some packet =>
    obtain ⟨number, given, plaintext, marshalled, size⟩ := encryptPacket_eq encrypted
    have limit : maxEncryptedPacket = 5242880 := rfl
    by_cases large : packet.utf8ByteSize > maxEncryptedPacket
    · refine Or.inr ⟨?_, if_pos large⟩
      rintro ⟨-, plaintext', marshalled', bound⟩
      cases Option.some.inj (marshalled.symm.trans (Option.mem_def.mp marshalled'))
      omega
    · exact Or.inl ⟨⟨given, plaintext, marshalled, by omega⟩, packet, if_neg large, number⟩

end

section

variable {s t : State Value} {k c : Nat} {call : Call Value} {channel : Channel} {pc : Pc}

theorem State.Steady.mono (h : s.Steady c channel) (queued : t.queuedOn c = s.queuedOn c)
    (stopped : s.Stopped c → t.Stopped c) : t.Steady c channel := by
  refine ⟨?_, h.carries, h.own, h.unfailed⟩
  intro running phase
  rw [queued]
  exact h.balanced (fun was => running (stopped was)) phase

theorem numbers_mono (h : s.numbers c = (List.range (s.queuedOn c).length).map some)
    (queued : t.queuedOn c = s.queuedOn c) : t.numbers c = (List.range (t.queuedOn c).length).map some := by
  unfold State.numbers at h ⊢
  rw [queued]
  exact h

theorem stopped_setPc (here : s.calls[k]? = some call) (running : ∀ outcome, call.pc ≠ .returned outcome)
    (h : s.Stopped c) : (s.setPc k call pc).Stopped c := by
  obtain ⟨old, member, ended⟩ := h
  obtain ⟨j, there⟩ := List.mem_iff_getElem?.mp member
  have other : k ≠ j := by
    rintro rfl
    cases Option.some.inj (here.symm.trans there)
    exact running _ ended
  refine ⟨old, List.mem_iff_getElem?.mpr ⟨j, ?_⟩, ended⟩
  show (s.calls.set k { call with pc })[j]? = some old
  rw [List.getElem?_set_ne other, there]

theorem unfailed_setPc (h : ∀ call ∈ s.calls, ∀ c, call.pc ≠ .returned (.failed c))
    (ends : ∀ c, pc ≠ .returned (.failed c)) :
    ∀ other ∈ (s.setPc k call pc).calls, ∀ c, other.pc ≠ .returned (.failed c) := by
  intro other member
  rcases List.mem_or_eq_of_mem_set member with old | rfl
  · exact h other old
  · exact ends

/-- The channels and the queue stay as they are. -/
theorem ordered_keep (h : s.Ordered) (channels : t.channels = s.channels) (outgoing : t.outgoing = s.outgoing)
    (stopped : ∀ c, s.Stopped c → t.Stopped c)
    (unfailed : ∀ call ∈ t.calls, ∀ c, call.pc ≠ .returned (.failed c)) :
    t.Ordered := by
  have queued : ∀ c, t.queuedOn c = s.queuedOn c := fun c => by rw [State.queuedOn, outgoing, State.queuedOn]
  refine ⟨fun c => numbers_mono (h.numbers c) (queued c), ?_, unfailed, ?_⟩
  · intro c channel there
    rw [channels] at there
    exact (h.steady c channel there).mono (queued c) (stopped c)
  · rw [outgoing, channels]
    exact h.listed

/-- One channel changes, with the packets that are queued for it. -/
theorem ordered_move (h : s.Ordered) (there : s.channels[c]? = some channel) {after : Channel}
    (channels : t.channels = s.channels.set c after) (others : ∀ c', c' ≠ c → t.queuedOn c' = s.queuedOn c')
    (stopped : ∀ c', s.Stopped c' → t.Stopped c')
    (numbers : t.numbers c = (List.range (t.queuedOn c).length).map some) (steady : t.Steady c after)
    (unfailed : ∀ call ∈ t.calls, ∀ c, call.pc ≠ .returned (.failed c))
    (listed : ∀ entry ∈ t.outgoing, entry ∈ s.outgoing ∨ entry.channel = c) : t.Ordered := by
  have inside := (List.getElem?_eq_some_iff.mp there).1
  refine ⟨?_, ?_, unfailed, ?_⟩
  · intro c'
    by_cases same : c' = c
    · rw [same]
      exact numbers
    · exact numbers_mono (h.numbers c') (others c' same)
  · intro c' channel' there'
    rw [channels] at there'
    by_cases same : c' = c
    · rw [same, List.getElem?_set_self inside] at there'
      cases Option.some.inj there'
      rw [same]
      exact steady
    · rw [List.getElem?_set_ne (Ne.symm same)] at there'
      exact (h.steady c' channel' there').mono (others c' same) (stopped c')
  · intro entry member
    rw [channels, List.length_set]
    rcases listed entry member with old | rfl
    · exact h.listed entry old
    · exact inside

/-- The holder of the lock goes on, and nothing is queued. -/
theorem ordered_hold (h : s.Ordered) (there : s.channels[c]? = some channel) {after : Channel}
    (steady : (s.setChannel c after).Steady c after) : (s.setChannel c after).Ordered :=
  ordered_move h there rfl (fun _ _ => rfl) (fun _ was => was) (h.numbers c) steady h.unfailed
    fun _ member => Or.inl member

theorem ordered_draw (h : s.Ordered) (there : s.channels[c]? = some channel)
    (held : channel.sendMu = some ⟨k, .drawing⟩) (fresh : channel.sendSeq = 0 → s.queuedOn c = []) :
    (s.setChannel c ⟨some ⟨k, .encrypting channel.sendSeq⟩, channel.sendSeq + 1⟩).Ordered := by
  have steady := h.steady c channel there
  apply ordered_hold h there
  refine ⟨?_, nofun, nofun, nofun⟩
  intro running _
  have balanced := steady.balanced running (by simp [held])
  simp only [Channel.Balanced, held, Option.bind_some, Phase.drawn] at balanced
  obtain ⟨next, bound⟩ := balanced
  refine ⟨?_, rfl⟩
  show channel.sendSeq.toNat = (s.queuedOn c).length
  by_cases full : (s.queuedOn c).length = 2 ^ 32
  · have wrapped : channel.sendSeq = 0 := by
      rw [next, full]
      decide
    rw [fresh wrapped] at full
    cases full
  · rw [next, UInt32.toNat_ofNat']
    omega

theorem ordered_encrypt (h : s.Ordered) (there : s.channels[c]? = some channel) {sequence : UInt32}
    (held : channel.sendMu = some ⟨k, .encrypting sequence⟩) {packet : String}
    (number : carried packet = some sequence.toNat) :
    (s.setChannel c { channel with sendMu := some ⟨k, .queueing sequence packet⟩ }).Ordered := by
  have steady := h.steady c channel there
  apply ordered_hold h there
  refine ⟨?_, ?_, nofun, nofun⟩
  · intro running _
    have balanced := steady.balanced running (by simp [held])
    simp only [Channel.Balanced, held, Option.bind_some, Phase.drawn] at balanced
    exact balanced
  · intro k' sequence' packet' same
    simp only [Option.some.injEq, Holder.mk.injEq, Phase.queueing.injEq] at same
    obtain ⟨-, rfl, rfl⟩ := same
    exact number

theorem ordered_queue (h : s.Ordered) (there : s.channels[c]? = some channel) {sequence : UInt32}
    {packet : String} (held : channel.sendMu = some ⟨k, .queueing sequence packet⟩) (running : ¬s.Stopped c)
    (channelID : String) :
    State.Ordered { s.setChannel c { channel with sendMu := some ⟨k, .leaving .sent⟩ } with
      outgoing := s.outgoing ++ [⟨c, channelID, packet⟩], waiting := s.waiting + 1 } := by
  have steady := h.steady c channel there
  have number := steady.carries k sequence packet held
  have balanced := steady.balanced running (by simp [held])
  simp only [Channel.Balanced, held, Option.bind_some, Phase.drawn] at balanced
  obtain ⟨last, next⟩ := balanced
  have below := sequence.toNat_lt
  have queued : (s.outgoing ++ [(⟨c, channelID, packet⟩ : Outgoing)]).filter (fun entry => entry.channel = c) =
      s.queuedOn c ++ [⟨c, channelID, packet⟩] := by simp [State.queuedOn]
  apply ordered_move h there rfl
  · intro c' other
    simp [State.queuedOn, Ne.symm other]
  · exact fun _ was => was
  · have before := h.numbers c
    unfold State.numbers at before
    unfold State.numbers State.queuedOn
    rw [queued, List.map_append, before, List.length_append, List.length_singleton, List.range_succ,
      List.map_append, List.map_singleton, List.map_singleton, number, last]
  · refine ⟨?_, nofun, nofun, nofun⟩
    intro _ _
    simp only [Channel.Balanced, Option.bind_some, Phase.drawn, State.queuedOn]
    rw [queued, List.length_append, List.length_singleton, ← last]
    refine ⟨?_, by omega⟩
    rw [next]
    apply UInt32.toNat_inj.mp
    rw [UInt32.toNat_add, UInt32.toNat_ofNat']
    rfl
  · exact h.unfailed
  · intro entry member
    rcases List.mem_append.mp member with old | new
    · exact Or.inl old
    · rw [List.mem_singleton.mp new]
      exact Or.inr rfl

theorem ordered_stop (h : s.Ordered) (there : s.channels[c]? = some channel) :
    (s.setChannel c { channel with sendMu := some ⟨k, .leaving (.stopped c)⟩ }).Ordered := by
  apply ordered_hold h there
  refine ⟨?_, nofun, ?_, nofun⟩
  · intro _ phase
    exact absurd rfl (phase k)
  · intro k' c' same
    simp only [Option.some.injEq, Holder.mk.injEq, Phase.leaving.injEq, Outcome.stopped.injEq] at same
    exact same.2.symm

theorem ordered_lock (h : s.Ordered) (here : s.calls[k]? = some call) (at_pc : call.pc = .locking c)
    (there : s.channels[c]? = some channel) (free : channel.sendMu = none) :
    ((s.setChannel c { channel with sendMu := some ⟨k, .drawing⟩ }).setPc k call (.inside c)).Ordered := by
  have steady := h.steady c channel there
  have running : ∀ outcome, call.pc ≠ .returned outcome := by simp [at_pc]
  refine ordered_move h there rfl (fun _ _ => rfl) (fun _ was => stopped_setPc here running was) ?_ ?_ ?_ ?_
  · exact h.numbers c
  · refine ⟨?_, nofun, nofun, nofun⟩
    intro goes _
    have before : ¬s.Stopped c := fun was => goes (stopped_setPc here running was)
    have balanced := steady.balanced before (by simp [free])
    simp only [Channel.Balanced, free, Option.bind_none] at balanced
    exact balanced
  · exact unfailed_setPc h.unfailed (by simp)
  · exact fun _ member => Or.inl member

theorem ordered_leave (h : s.Ordered) (here : s.calls[k]? = some call) (at_pc : call.pc = .inside c)
    (there : s.channels[c]? = some channel) {outcome : Outcome}
    (held : channel.sendMu = some ⟨k, .leaving outcome⟩) :
    ((s.setChannel c { channel with sendMu := none }).setPc k call (.returned outcome)).Ordered := by
  have steady := h.steady c channel there
  have inside := (List.getElem?_eq_some_iff.mp here).1
  have running : ∀ outcome, call.pc ≠ .returned outcome := by simp [at_pc]
  refine ordered_move h there rfl (fun _ _ => rfl) (fun _ was => stopped_setPc here running was) ?_ ?_ ?_ ?_
  · exact h.numbers c
  · refine ⟨?_, nofun, nofun, nofun⟩
    intro goes _
    have own : outcome ≠ .stopped c := by
      rintro rfl
      exact goes ⟨_, List.mem_set inside _, rfl⟩
    have before : ¬s.Stopped c := fun was => goes (stopped_setPc here running was)
    have balanced := steady.balanced before (by simp [held, own])
    simp only [Channel.Balanced, held, Option.bind_some, Phase.drawn] at balanced
    exact balanced
  · apply unfailed_setPc h.unfailed
    rintro c' same
    cases same
    exact steady.unfailed k c' held
  · exact fun _ member => Or.inl member

theorem ordered_holderStep {aead : Aead Key} {marshal : Value → Option Bytes} {key : Key} {nonce : Option Nonce}
    {queue : Bool} {phase : Phase} (h : s.Ordered) (here : s.calls[k]? = some call)
    (at_pc : call.pc = .inside c)
    (there : s.channels[c]? = some channel) (held : channel.sendMu = some ⟨k, phase⟩)
    (allowed : Allowed marshal s nonce queue (some (call, c, channel, phase)))
    (ht : holderStep aead marshal key s k call c channel nonce queue phase = some t) : t.Ordered := by
  cases phase with
  | drawing =>
    cases ht
    exact ordered_draw h there held allowed
  | encrypting sequence =>
    cases ht
    rcases @checkPacket_eq _ _ aead marshal key (utf8 call.channelID) sequence nonce call.value
      c with ⟨-, packet, eq, number⟩ | ⟨large, -⟩
    · rw [eq]
      exact ordered_encrypt h there held number
    · exact absurd allowed large
  | queueing sequence packet =>
    simp only [holderStep] at ht
    split at ht
    next queued =>
      split at ht
      next =>
        cases ht
        exact ordered_queue h there held (allowed queued) call.channelID
      next => cases ht
    next =>
      split at ht
      next =>
        cases ht
        exact ordered_stop h there
      next => cases ht
  | leaving outcome =>
    cases ht
    exact ordered_leave h here at_pc there held

theorem ordered_callStep {aead : Aead Key} {marshal : Value → Option Bytes} {key : Key} {nonce : Option Nonce}
    {queue : Bool} (h : s.Ordered) (here : s.calls[k]? = some call)
    (allowed : Allowed marshal s nonce queue (s.held k))
    (ht : callStep aead marshal key s k call nonce queue call.pc = some t) : t.Ordered := by
  cases at_pc : call.pc with
  | looking =>
    have running : ∀ outcome, call.pc ≠ .returned outcome := by simp [at_pc]
    rw [at_pc] at ht
    simp only [callStep] at ht
    split at ht
    next c found =>
      cases ht
      exact ordered_keep h rfl rfl (fun _ was => stopped_setPc here running was)
        (unfailed_setPc h.unfailed (by simp))
    next =>
      cases ht
      exact ordered_keep h rfl rfl (fun _ was => stopped_setPc here running was)
        (unfailed_setPc h.unfailed (by simp))
  | locking c =>
    rw [at_pc] at ht
    simp only [callStep] at ht
    split at ht
    next channel there =>
      split at ht
      next free =>
        cases ht
        exact ordered_lock h here at_pc there free
      next => cases ht
    next => cases ht
  | inside c =>
    rw [at_pc] at ht
    simp only [callStep] at ht
    split at ht
    next channel there =>
      split at ht
      next holder locked =>
        split at ht
        next own =>
          obtain ⟨k', phase⟩ := holder
          have same : k' = k := own
          rw [same] at locked
          have held : s.held k = some (call, c, channel, phase) := by simp [State.held, here, at_pc, there, locked]
          rw [held] at allowed
          exact ordered_holderStep h here at_pc there locked allowed ht
        next => cases ht
      next => cases ht
    next => cases ht
  | returned outcome =>
    rw [at_pc] at ht
    cases ht

theorem ordered_open (h : s.Ordered) (id : String) :
    State.Ordered
      { s with channels := s.channels ++ [⟨none, 0⟩], table := s.table.insert id s.channels.length } := by
  refine ⟨h.numbers, ?_, h.unfailed, ?_⟩
  · intro c channel there
    by_cases old : c < s.channels.length
    · have there' : s.channels[c]? = some channel := by
        rw [← there]
        exact (List.getElem?_append_left old).symm
      exact (h.steady c channel there').mono rfl fun was => was
    · -- the queue has no packet of a channel that is new
      have empty : s.queuedOn c = [] := by
        unfold State.queuedOn
        apply List.filter_eq_nil_iff.mpr
        intro entry member
        have bound := h.listed entry member
        simp only [decide_eq_true_eq]
        omega
      have new : (s.channels ++ [(⟨none, 0⟩ : Channel)])[c]? = some channel := there
      rw [List.getElem?_append_right (by omega)] at new
      have last := List.mem_of_getElem? new
      rw [List.mem_singleton.mp last]
      refine ⟨?_, nofun, nofun, nofun⟩
      intro _ _
      show (0 : UInt32) = UInt32.ofNat (s.queuedOn c).length ∧ (s.queuedOn c).length ≤ 2 ^ 32
      rw [empty]
      exact ⟨rfl, Nat.zero_le _⟩
  · intro entry member
    have bound := h.listed entry member
    show entry.channel < (s.channels ++ [(⟨none, 0⟩ : Channel)]).length
    rw [List.length_append]
    omega

theorem ordered_step {aead : Aead Key} {marshal : Value → Option Bytes} {key : Key} {label : Label Value}
    (h : s.Ordered) (sound : Sound marshal s label) (ht : step aead marshal key s label = some t) :
    t.Ordered := by
  cases label with
  | openChannel id =>
    cases ht
    exact ordered_open h id
  | closeChannel id =>
    cases ht
    exact ordered_keep h rfl rfl (fun _ was => was) h.unfailed
  | cancel =>
    cases ht
    exact ordered_keep h rfl rfl (fun _ was => was) h.unfailed
  | write =>
    simp only [step] at ht
    split at ht
    next =>
      cases ht
      exact ordered_keep h rfl rfl (fun _ was => was) h.unfailed
    next => cases ht
  | other =>
    simp only [step] at ht
    split at ht
    next =>
      cases ht
      exact ordered_keep h rfl rfl (fun _ was => was) h.unfailed
    next => cases ht
  | send channelID value =>
    cases ht
    refine ordered_keep h rfl rfl ?_ ?_
    · rintro c ⟨call, member, ended⟩
      exact ⟨call, List.mem_append_left _ member, ended⟩
    · intro call member c
      rcases List.mem_append.mp member with old | new
      · exact h.unfailed call old c
      · rw [List.mem_singleton.mp new]
        simp
  | run k nonce queue =>
    simp only [step] at ht
    split at ht
    next call here => exact ordered_callStep h here sound ht
    next => cases ht

theorem ordered_initial : (State.initial : State Value).Ordered := by
  refine ⟨fun _ => rfl, ?_, ?_, ?_⟩
  · intro c channel there
    simp [State.initial] at there
  · simp [State.initial]
  · simp [State.initial]

end

/-- Whatever the callers are and however they interleave, while every value fits, no number comes twice and no call
goes on behind a stopped one, the packets of a channel carry 0, 1, 2 and so on in the order of the queue, no call
fails with its number used up, and a channel that no call is in has the next number ready. -/
theorem packets_in_order {aead : Aead Key} {marshal : Value → Option Bytes} {key : Key}
    {labels : List (Label Value)} {s : State Value}
    (ran : exec (step aead marshal key) State.initial labels = some s)
    (sound : Along (step aead marshal key) (Sound marshal) State.initial labels) :
    (∀ c, s.numbers c = (List.range (s.queuedOn c).length).map some) ∧
      (∀ call ∈ s.calls, ∀ c, call.pc ≠ .returned (.failed c)) ∧
      ∀ (c : Nat) (channel : Channel), s.channels[c]? = some channel → channel.sendMu = none → ¬s.Stopped c →
        channel.sendSeq = UInt32.ofNat (s.queuedOn c).length := by
  have ordered : s.Ordered := by
    refine exec_preserves ?_ ordered_initial ran sound
    intro s label t before allowed ht
    exact ordered_step before allowed ht
  refine ⟨ordered.numbers, ordered.unfailed, ?_⟩
  intro c channel there free running
  have balanced := (ordered.steady c channel there).balanced running (by simp [free])
  simp only [Channel.Balanced, free, Option.bind_none] at balanced
  exact balanced.1

def greetings : List (Label String) :=
  let nonce : Option Nonce := some ⟨List.replicate 12 7, rfl⟩
  [.openChannel "c1", .send "c1" "hello", .send "c1" "again"] ++
    [.run 1 none true, .run 0 none true, .run 1 none true, .run 1 none true, .run 1 nonce true, .run 1 none true,
      .run 1 none true, .run 0 none true, .run 0 none true, .run 0 nonce true, .run 0 none true, .run 0 none true]

theorem packets_in_order_greetings :
    ∃ s, exec (step (Aead.zeroTag Unit) (fun text => some (utf8 text)) ()) State.initial greetings = some s ∧
      s.numbers 0 = [some 0, some 1] := by
  have ends : (exec (step (Aead.zeroTag Unit) (fun text => some (utf8 text)) ()) State.initial greetings).map
      (fun s => (s.queuedOn 0).length) = some 2 := by decide
  obtain ⟨s, ran, two⟩ := Option.map_eq_some_iff.mp ends
  have numbers := (packets_in_order ran (by decide)).1 0
  rw [two] at numbers
  exact ⟨s, ran, numbers⟩

section

variable {aead : Aead Key} {marshal : Value → Option Bytes} {key : Key}

/-- A call whose value is given up, and a call after it. -/
def gapRun (channelID : String) (nonce : Option Nonce) (large small : Value) : List (Label Value) :=
  [.openChannel channelID, .send channelID large] ++ List.replicate 5 (.run 0 nonce true) ++
    [.send channelID small] ++ List.replicate 6 (.run 1 nonce true)

/-- The first call looks its channel up, takes the lock, draws, fails and leaves. -/
theorem exec_given_up {table : Table} {channelID : String} {nonce : Option Nonce} {large : Value}
    (opened : table.lookup channelID = some 0) (unfit : ¬Fits marshal nonce large) :
    exec (step aead marshal key) ⟨table, [⟨none, 0⟩], [⟨channelID, large, .looking⟩], [], 0, false⟩
        (List.replicate 5 (.run 0 nonce true)) =
      some ⟨table, [⟨none, 1⟩], [⟨channelID, large, .returned (.failed 0)⟩], [], 0, false⟩ := by
  obtain ⟨fits, -⟩ | ⟨-, given⟩ := @checkPacket_eq _ _ aead marshal key (utf8 channelID) 0 nonce large 0
  · exact absurd fits unfit
  · simp [exec, step, callStep, holderStep, State.setPc, State.setChannel, opened, given, List.replicate]

/-- The second call puts its packet into the queue. -/
theorem exec_queued {table : Table} {channelID : String} {nonce : Option Nonce}
    {failed : Call Value} {small : Value}
    (opened : table.lookup channelID = some 0) (fit : Fits marshal nonce small) :
    ∃ packet, carried packet = some 1 ∧
      exec (step aead marshal key) ⟨table, [⟨none, 1⟩], [failed, ⟨channelID, small, .looking⟩], [], 0, false⟩
          (List.replicate 6 (.run 1 nonce true)) =
        some ⟨table, [⟨none, 2⟩], [failed, ⟨channelID, small, .returned .sent⟩], [⟨0, channelID, packet⟩], 1,
          false⟩ := by
  obtain ⟨-, packet, queued, number⟩ | ⟨unfit, -⟩ := @checkPacket_eq _ _ aead marshal key
    (utf8 channelID) 1 nonce small 0
  · refine ⟨packet, number, ?_⟩
    simp [exec, step, callStep, holderStep, State.setPc, State.setChannel, opened, queued, queueSize, List.replicate]
  · exact absurd fit unfit

theorem gapRun_numbers (channelID : String) {nonce : Option Nonce} {large small : Value}
    (unfit : ¬Fits marshal nonce large) (fit : Fits marshal nonce small) :
    ∃ s, exec (step aead marshal key) State.initial (gapRun channelID nonce large small) = some s ∧
      s.table.lookup channelID = some 0 ∧ s.numbers 0 = [some 1] ∧
      s.calls.map Call.pc = [.returned (.failed 0), .returned .sent] := by
  have opened : ((∅ : Table).insert channelID 0).lookup channelID = some 0 := AList.lookup_insert _
  have first := @exec_given_up _ _ aead marshal key _ _ _ _ opened unfit
  obtain ⟨packet, number, second⟩ := @exec_queued _ _ aead marshal key _ _ _
    ⟨channelID, large, .returned (.failed 0)⟩ _ opened fit
  refine ⟨⟨(∅ : Table).insert channelID 0, [⟨none, 2⟩],
    [⟨channelID, large, .returned (.failed 0)⟩, ⟨channelID, small, .returned .sent⟩], [⟨0, channelID, packet⟩], 1,
    false⟩, ?_, opened, ?_, rfl⟩
  · unfold gapRun
    apply exec_append_iff.mpr
    refine ⟨_, ?_, second⟩
    apply exec_append_iff.mpr
    refine ⟨⟨_, [⟨none, 1⟩], [⟨channelID, large, .returned (.failed 0)⟩], [], 0, false⟩, ?_, rfl⟩
    apply exec_append_iff.mpr
    exact ⟨_, rfl, first⟩
  · simp [State.numbers, State.queuedOn, number]

end

/-- `httpResponseMessage`. -/
def httpResponseMessage (id : String) (status : Int) (body : String) : Json.Value :=
  .object ([("v", .number (Json.ofInt Connector.protocolVersion)), ("type", .string "http_response"),
    ("id", .string id), ("status", .number (Json.ofInt status))] ++
    if body = "" then [] else [("body", .string body)])

def marshalJSON (value : Json.Value) : Option Bytes := some (utf8 (Connector.marshal value))

theorem quote_angles (n : Nat) :
    byteCount (Json.quote Connector.htmlEscaped (String.ofList (List.replicate n '<'))) = 6 * n + 2 := by
  have each : byteCount (Json.escapeChar Connector.htmlEscaped '<') = 6 := by decide
  have mark : byteCount ['"'] = 1 := by decide
  have one : ('"' : Char).utf8Size = 1 := by decide
  have body : byteCount ((List.replicate n '<').flatMap (Json.escapeChar Connector.htmlEscaped)) = 6 * n := by
    induction n with
    | zero => rfl
    | succ n ih =>
      rw [List.replicate_succ, List.flatMap_cons, byteCount_append, ih, each]
      omega
  rw [Json.quote, String.toList_ofList, byteCount_cons, byteCount_append, body, mark, one]
  omega

/-- `json.Marshal` writes six characters for each of these. -/
theorem response_unfit (id : String) (status : Int) (nonce : Option Nonce) {n : Nat} (large : 655360 ≤ n) :
    ¬Fits marshalJSON nonce (httpResponseMessage id status (String.ofList (List.replicate n '<'))) := by
  rintro ⟨-, plaintext, marshalled, bound⟩
  cases Option.some.inj (Option.mem_def.mp marshalled)
  have filled : String.ofList (List.replicate n '<') ≠ "" := by
    intro empty
    have none := congrArg (fun text : String => text.toList.length) empty
    simp at none
    omega
  have body := quote_angles n
  have limit : maxEncryptedPacket = 5242880 := rfl
  rw [length_utf8, Connector.marshal, byteCount_ofList, httpResponseMessage, if_neg filled] at bound
  simp only [List.cons_append, List.nil_append, Json.render, Json.renderMembers, byteCount_cons, byteCount_append,
    body] at bound
  omega

theorem byteCount_replicate (n : Nat) (c : Char) : byteCount (List.replicate n c) = n * c.utf8Size := by
  induction n with
  | zero => rw [List.replicate_zero, Nat.zero_mul]; rfl
  | succ n ih =>
    rw [List.replicate_succ, byteCount_cons, ih, Nat.succ_mul]
    omega

/-- The largest response that the connector reads, of characters that are escaped. -/
def largeBody : String := String.ofList (List.replicate (2 ^ 21) '<')

def okBody : String := "[]"

/-- A response of the local portal uses a number up while its channel stays open. -/
theorem large_response_leaves_gap :
    byteLen largeBody = Connector.maxHTTPResponse ∧
    ∃ s, exec (step (Aead.zeroTag Unit) marshalJSON ()) State.initial
        (gapRun "5f0e2f2c-0000-4000-8000-000000000001" (some ⟨List.replicate 12 7, rfl⟩)
          (httpResponseMessage "5f0e2f2c-0000-4000-8000-0000000000aa" 200 largeBody)
          (httpResponseMessage "5f0e2f2c-0000-4000-8000-0000000000ab" 200 okBody)) = some s ∧
      s.table.lookup "5f0e2f2c-0000-4000-8000-000000000001" = some 0 ∧
      s.calls.map Call.pc = [.returned (.failed 0), .returned .sent] ∧
      s.numbers 0 ≠ (List.range (s.queuedOn 0).length).map some := by
  have size : byteLen largeBody = Connector.maxHTTPResponse := by
    have plain : ('<' : Char).utf8Size = 1 := by decide
    unfold byteLen largeBody Connector.maxHTTPResponse
    rw [byteCount_ofList, byteCount_replicate, plain]
    omega
  have fit : Fits marshalJSON (some ⟨List.replicate 12 7, rfl⟩)
      (httpResponseMessage "5f0e2f2c-0000-4000-8000-0000000000ab" 200 okBody) := by decide
  have many : 655360 ≤ 2 ^ 21 := by omega
  obtain ⟨s, ran, opened, numbers, ended⟩ := @gapRun_numbers _ _ (Aead.zeroTag Unit) marshalJSON ()
    "5f0e2f2c-0000-4000-8000-000000000001" _ _ _
    (response_unfit "5f0e2f2c-0000-4000-8000-0000000000aa" 200 _ many) fit
  refine ⟨size, s, ran, opened, ended, ?_⟩
  rw [numbers]
  intro same
  have one := congrArg List.length same
  simp only [List.length_cons, List.length_nil, List.length_map, List.length_range] at one
  rw [← one] at same
  cases same


end TermLinks.Sending
