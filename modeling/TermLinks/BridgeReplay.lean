import Mathlib.Data.List.Nodup
import TermLinks.BridgeRuns

namespace TermLinks.Bridge

open Cloud (Direction additionalData additionalData_injective)
open Connector (Accepted)
open E2E (textEncode)

variable {Key Record Value : Type}

/-- What `handleEncrypted` accepted is this packet: line ends in the text do not matter. -/
def Accepts (a : Accepted) (packet : Packet Key) : Prop :=
  packet.content.associated = additionalData (utf8 a.id) .browser (putUint32 a.sequence.toNat) ∧
    Cloud.rawURLDecode a.packet = Cloud.rawURLDecode packet.text

instance decidableAccepts (a : Accepted) (packet : Packet Key) : Decidable (Accepts a packet) :=
  inferInstanceAs (Decidable (_ ∧ _))

namespace State

/-- Everything the connector accepted, over all its connections. -/
def accepted (s : State Key) : List Accepted :=
  s.connections.flatMap fun connection => connection.receive.accepted

/-- How often a packet was accepted. -/
def acceptances (s : State Key) (packet : Packet Key) : Nat :=
  (s.accepted.filter fun a => Accepts a packet).length

def ids (s : State Key) : List String := s.connections.flatMap Connection.ids

end State

/-- The relay opens no channel under an id that it used before. -/
def Fresh (s : State Key) : Label Key Record Value → Prop
  | .connector _ (.channelOpen id) => id ∉ s.ids
  | _ => True

instance decidableFresh (s : State Key) : (label : Label Key Record Value) → Decidable (Fresh s label)
  | .connector _ (.channelOpen id) => inferInstanceAs (Decidable (id ∉ s.ids))
  | .connector _ (.fromBrowser _ _) | .connector _ (.channelClose _) | .connector _ (.authTimeout _)
  | .connector _ (.shutdown _) | .connector _ (.run _ _) => isTrue trivial
  | .join _ _ | .browserSend _ _ _ _ _ | .browserReceive _ _ | .connect | .connectorSend _ _ _ _ =>
    isTrue trivial

section

variable {aead : Aead Key} {key : Key} {channelID : Bytes} {direction : Direction} {number : Nat}
  {packet : Packet Key}

/-- An encryption of the log under given associated data comes from the packet with that number. -/
theorem Packet.Made.associated (h : packet.Made aead key channelID direction number) {key' : Key}
    {nonce plaintext ciphertext channelID' : Bytes} {direction' : Direction} {number' : Nat}
    (content : packet.content =
      ⟨key', nonce, additionalData channelID' direction' (putUint32 number'), plaintext, ciphertext⟩)
    (small : number < 2 ^ 32) (small' : number' < 2 ^ 32) :
    key' = key ∧ channelID' = channelID ∧ direction' = direction ∧ number' = number ∧
      Cloud.rawURLDecode packet.text = some (putUint32 number ++ nonce ++ ciphertext) := by
  obtain ⟨iv, plain, -, made, text⟩ := h
  rw [content] at text
  have same := content.symm.trans made
  simp only [Aead.seal, Sealed.mk.injEq] at same
  obtain ⟨own, rfl, associated, -, -⟩ := same
  obtain ⟨channel, side, bytes⟩ := additionalData_injective (length_putUint32 _) (length_putUint32 _) associated
  exact ⟨own, channel, side, putUint32_injective small' small bytes, text⟩

end

section

variable [DecidableEq Key] {codec : Codec Key Record Value} {s t : State Key} {connection : Connection Key}

/-- What was accepted is the packet of a browser with that key, channel and number. -/
theorem accepted_made (h : s.Honest codec) (member : connection ∈ s.connections) {a : Accepted}
    (accepted : a ∈ connection.receive.accepted) :
    a.sequence.toNat < 0xffffffff ∧ ∃ browser ∈ s.browsers, browser.key = codec.key ∧
      textEncode browser.channel = utf8 a.id ∧ ∃ packet, browser.sent[a.sequence.toNat]? = some packet ∧
        Accepts a packet ∧ packet.content.plaintext = a.plaintext := by
  have decrypted := ((h.numbered connection member).accepted a accepted).1
  obtain ⟨encoded, decoded, opened⟩ := Option.bind_eq_some_iff.mp decrypted
  obtain ⟨long, front, unsealed⟩ := Cloud.openPacket_eq_some opened
  have layout : encoded =
      putUint32 a.sequence.toNat ++ (encoded.drop 4).take Cloud.nonceSize ++ encoded.drop (4 + Cloud.nonceSize) := by
    rw [← front, List.append_assoc, ← List.drop_drop, List.take_append_drop, List.take_append_drop]
  rcases mem_log.mp (openSealed_eq_some unsealed) with ⟨browser, there, packet, sent, content⟩ |
    ⟨other, there, sender, sends, packet, sent, content⟩
  · obtain ⟨j, at_j⟩ := List.mem_iff_getElem?.mp sent
    obtain ⟨below, made⟩ := (h.browsers browser there).made j packet at_j
    obtain ⟨own, channel, -, number, text⟩ := made.associated content (by omega) a.sequence.toNat_lt
    rw [number]
    refine ⟨below, browser, there, own.symm, channel.symm, packet, at_j, ⟨?_, ?_⟩, ?_⟩
    · rw [content]
    · rw [decoded, text, ← number, ← layout]
    · rw [content]
  · -- the packets of the connector name the other direction
    obtain ⟨c, at_c⟩ := List.mem_iff_getElem?.mp sends
    have orderly := h.connections other there
    have inside := (List.getElem?_eq_some_iff.mp at_c).1
    rw [orderly.length] at inside
    obtain ⟨number, made⟩ := orderly.made c _ sender (List.getElem?_eq_getElem inside) at_c packet sent
    obtain ⟨-, -, wrong, -, -⟩ := made.associated content number.toNat_lt a.sequence.toNat_lt
    cases wrong

theorem acceptedOn_sequences (h : s.Honest codec) (member : connection ∈ s.connections) (c : Nat) :
    (connection.receive.acceptedOn c).map Accepted.sequence =
      (List.range (connection.receive.acceptedOn c).length).map UInt32.ofNat := by
  have numbered := h.numbered connection member
  cases there : connection.receive.links[c]? with
  | none =>
    have empty : connection.receive.acceptedOn c = [] := by
      unfold Connector.State.acceptedOn
      apply List.filter_eq_nil_iff.mpr
      intro a accepted
      simp only [decide_eq_true_eq]
      rintro rfl
      have known := (numbered.accepted a accepted).2
      unfold Connector.State.Known at known
      rw [there] at known
      cases known
    rw [empty]
    rfl
  | some link => exact (numbered.sequences c link there).1

/-- The browser's limit comes before the counter of the connector starts over. -/
theorem acceptedOn_few (h : s.Honest codec) (member : connection ∈ s.connections) (c : Nat) :
    (connection.receive.acceptedOn c).length ≤ 0xffffffff := by
  by_contra many
  have last := congrArg (fun numbers => numbers[0xffffffff]?) (acceptedOn_sequences h member c)
  rw [List.getElem?_map, List.getElem?_map, List.getElem?_range (by omega), Option.map_some] at last
  obtain ⟨a, at_last, number⟩ := Option.map_eq_some_iff.mp last
  have accepted := (List.mem_filter.mp (List.mem_of_getElem? at_last)).1
  have below := (accepted_made h member accepted).1
  rw [number, UInt32.toNat_ofNat'] at below
  omega

theorem acceptedOn_number (h : s.Honest codec) (member : connection ∈ s.connections) {c j : Nat} {a : Accepted}
    (there : (connection.receive.acceptedOn c)[j]? = some a) : a.sequence.toNat = j := by
  have few := acceptedOn_few h member c
  have inside := (List.getElem?_eq_some_iff.mp there).1
  have number := congrArg (fun numbers => numbers[j]?) (acceptedOn_sequences h member c)
  rw [List.getElem?_map, List.getElem?_map, there, List.getElem?_range inside, Option.map_some,
    Option.map_some] at number
  rw [Option.some.inj number, UInt32.toNat_ofNat']
  omega

/-- A channel accepts a number once. -/
theorem sequences_nodup (h : s.Honest codec) (member : connection ∈ s.connections) (c : Nat) :
    ((connection.receive.acceptedOn c).map Accepted.sequence).Nodup := by
  have few := acceptedOn_few h member c
  rw [acceptedOn_sequences h member c]
  apply List.Nodup.map_on _ List.nodup_range
  intro m hm n hn same
  have value := congrArg UInt32.toNat same
  rw [List.mem_range] at hm hn
  rw [UInt32.toNat_ofNat', UInt32.toNat_ofNat'] at value
  omega

theorem id_of_accepted (h : s.Honest codec) (member : connection ∈ s.connections) {a : Accepted}
    (accepted : a ∈ connection.receive.accepted) : connection.ids[a.channel]? = some a.id := by
  have known := ((h.numbered connection member).accepted a accepted).2
  unfold Connector.State.Known Connector.State.links at known
  rw [List.getElem?_map, Option.map_map] at known
  unfold Connection.ids
  rw [List.getElem?_map]
  exact known

/-- Within a connection whose ids differ, what was accepted differs by id and number. -/
theorem connection_nodup (h : s.Honest codec) (member : connection ∈ s.connections)
    (distinct : connection.ids.Nodup) :
    (connection.receive.accepted.map fun a => (a.id, a.sequence)).Nodup := by
  have classes : (connection.receive.accepted.map fun a => (a.channel, a.sequence)).Nodup :=
    nodup_map_of_classes fun c => sequences_nodup h member c
  unfold List.Nodup at classes ⊢
  rw [List.pairwise_map] at classes ⊢
  refine classes.imp_of_mem ?_
  intro a b ha hb apart same
  obtain ⟨id, sequence⟩ := Prod.mk.inj same
  have here := id_of_accepted h member ha
  have there := id_of_accepted h member hb
  rw [← id] at there
  have inside := (List.getElem?_eq_some_iff.mp here).1
  have channel := (List.getElem?_inj inside distinct).mp (here.trans there.symm)
  exact apart (by rw [channel, sequence])

theorem accepted_nodup (h : s.Honest codec) (distinct : s.ids.Nodup) :
    (s.accepted.map fun a => (a.id, a.sequence)).Nodup := by
  obtain ⟨each, apart⟩ := List.nodup_flatMap.mp distinct
  unfold State.accepted
  rw [List.map_flatMap, List.nodup_flatMap]
  refine ⟨fun connection member => connection_nodup h member (each connection member), ?_⟩
  refine apart.imp_of_mem ?_
  intro k k' member member' disjoint pair left right
  obtain ⟨a, ha, rfl⟩ := List.mem_map.mp left
  obtain ⟨b, hb, same⟩ := List.mem_map.mp right
  have id := (Prod.mk.inj same).1
  have here := List.mem_of_getElem? (id_of_accepted h member ha)
  have there := List.mem_of_getElem? (id_of_accepted h member' hb)
  rw [id] at there
  exact disjoint here there

theorem acceptances_le_one (h : s.Honest codec) (distinct : s.ids.Nodup) (packet : Packet Key) :
    s.acceptances packet ≤ 1 := by
  apply filter_length_le_one (accepted_nodup h distinct)
  intro a _ b _ takes takes'
  have first := (decide_eq_true_eq.mp takes).1
  have second := (decide_eq_true_eq.mp takes').1
  obtain ⟨id, -, bytes⟩ := additionalData_injective (length_putUint32 _) (length_putUint32 _) (first.symm.trans second)
  have number := putUint32_injective a.sequence.toNat_lt b.sequence.toNat_lt bytes
  rw [utf8_injective id, UInt32.toNat_inj.mp number]

end

section

variable {s t : State Key} {i : Nat} {connection after : Connection Key}

/-- The ids of the other connections stay. -/
theorem ids_setConnection (here : s.connections[i]? = some connection) : ∃ before behind : List String,
    s.ids = before ++ connection.ids ++ behind ∧ (s.setConnection i after).ids = before ++
      after.ids ++ behind := by
  obtain ⟨inside, value⟩ := List.getElem?_eq_some_iff.mp here
  obtain ⟨front, back, whole, -, changed⟩ := @List.exists_of_set _ _ after _ inside
  refine ⟨front.flatMap Connection.ids, back.flatMap Connection.ids, ?_, ?_⟩
  · unfold State.ids
    rw [whole, value]
    simp
  · show (s.connections.set i after).flatMap Connection.ids = _
    rw [changed]
    simp

variable [DecidableEq Key] {codec : Codec Key Record Value} {label : Label Key Record Value}

theorem ids_nodup_step (distinct : s.ids.Nodup) (fresh : Fresh s label) (ht : step codec s label = some t) :
    t.ids.Nodup := by
  cases label with
  | join key channel =>
    cases ht
    exact distinct
  | browserSend b isOpen posted iv value =>
    obtain ⟨browser, _, rfl⟩ := Option.map_eq_some_iff.mp ht
    exact distinct
  | browserReceive b packet =>
    obtain ⟨browser, _, rfl⟩ := Option.map_eq_some_iff.mp ht
    exact distinct
  | connect =>
    cases ht
    have same : State.ids { s with connections := s.connections ++ [⟨.initial, []⟩] } = s.ids := by
      simp [State.ids, Connection.ids, Connector.State.initial]
    rw [same]
    exact distinct
  | connector i label =>
    simp only [step] at ht
    split at ht
    next connection here =>
      obtain ⟨receive, moved, rfl⟩ := Option.map_eq_some_iff.mp ht
      obtain ⟨before, behind, whole, changed⟩ := @ids_setConnection _ _ _ _ (connection.adopt receive) here
      rcases ids_step moved with same | ⟨id, rfl, -, more⟩
      · have kept : (connection.adopt receive).ids = connection.ids := same
        rw [changed, kept, ← whole]
        exact distinct
      · have grown : (connection.adopt receive).ids = connection.ids ++ [id] := more
        have new : id ∉ s.ids := fresh
        rw [changed, grown]
        rw [whole] at new distinct
        have turned : (before ++ (connection.ids ++ [id]) ++ behind).Perm
            (id :: (before ++ connection.ids ++ behind)) := by
          rw [← List.append_assoc, List.append_assoc _ [id] behind]
          exact List.perm_middle
        exact turned.nodup_iff.mpr (List.nodup_cons.mpr ⟨new, distinct⟩)
    next => cases ht
  | connectorSend i c nonce value =>
    simp only [step] at ht
    split at ht
    next connection here =>
      split at ht
      next =>
        cases ht
        obtain ⟨before, behind, whole, changed⟩ := @ids_setConnection _ _ _ _ { connection with senders := _ } here
        rw [changed]
        rw [whole] at distinct
        exact distinct
      next => cases ht
    next => cases ht

/-- Whatever the relay sends, while it opens no id twice under a portal token, a packet of a browser is accepted
once at most, and only packets of browsers are. -/
theorem packets_accepted_once {labels : List (Label Key Record Value)}
    (ran : exec (step codec) State.initial labels = some s)
    (fresh : Along (step codec) Fresh State.initial labels) :
    (∀ browser ∈ s.browsers, ∀ packet ∈ browser.sent, s.acceptances packet ≤ 1) ∧
      ∀ a ∈ s.accepted, ∃ browser ∈ s.browsers, browser.key = codec.key ∧ ∃ packet ∈ browser.sent,
        Accepts a packet ∧ packet.content.plaintext = a.plaintext := by
  have honest := honest_run ran
  have none_open : (State.initial : State Key).ids.Nodup := List.nodup_nil
  have distinct : s.ids.Nodup := by
    refine @exec_preserves _ _ (step codec) Fresh (fun s => s.ids.Nodup) ?_ _ _ _ none_open ran fresh
    intro s label t distinct fresh ht
    exact ids_nodup_step distinct fresh ht
  refine ⟨fun browser _ packet _ => acceptances_le_one honest distinct packet, ?_⟩
  intro a accepted
  obtain ⟨connection, member, there⟩ := List.mem_flatMap.mp accepted
  obtain ⟨-, browser, joined, own, -, packet, sent, takes, plaintext⟩ := accepted_made honest member there
  exact ⟨browser, joined, own, packet, List.mem_of_getElem? sent, takes, plaintext⟩

end

/-- Every plaintext is a login. -/
def loginCodec : Codec Unit String String where
  aead := Aead.zeroTag Unit
  key := ()
  marshal := fun text => some (utf8 text)
  unmarshal :=
    ⟨fun _ => some (Connector.protocolVersion, "authenticate"),
      fun _ _ => some ⟨"", "0123456789abcdef", "", "", "", false, "", 0, 0, 0, false, "", 0, 0⟩⟩
  stringify := utf8
  parses := fun _ => true

def channelID : String := "5f0e2f2c-0000-4000-8000-000000000001"

def zeroNonce : Sending.Nonce := ⟨List.replicate 12 0, rfl⟩

/-- The first packet of a browser on the channel. -/
def loginPacket : String :=
  (((⟨(), E2E.units channelID, 0, false, 0, [], []⟩ : Browser Unit).encrypted loginCodec.aead loginCodec.stringify
    zeroNonce "authenticate").map Packet.text).getD ""

/-- A message of the relay, and the steps of its task. -/
def deliver (i : Nat) (label : Connector.Label) (task steps : Nat) : List (Label Unit String String) :=
  .connector i label :: List.replicate steps (.connector i (.run task true))

def loginRun : List (Label Unit String String) :=
  [.join () (E2E.units channelID), .browserSend 0 true true zeroNonce "authenticate", .connect] ++
    deliver 0 (.channelOpen channelID) 0 1 ++ deliver 0 (.fromBrowser channelID loginPacket) 1 7

theorem packets_accepted_once_login :
    ∃ s, exec (step loginCodec) State.initial loginRun = some s ∧ s.accepted.length = 1 ∧
      ∀ browser ∈ s.browsers, ∀ packet ∈ browser.sent, s.acceptances packet ≤ 1 := by
  have ends : (exec (step loginCodec) State.initial loginRun).map (fun s => s.accepted.length) = some 1 := by
    decide +kernel
  have fresh : Along (step loginCodec) Fresh State.initial loginRun := by decide +kernel
  obtain ⟨s, ran, one⟩ := Option.map_eq_some_iff.mp ends
  exact ⟨s, ran, one, (packets_accepted_once ran fresh).1⟩

/-- The relay opens the channel again, or opens it on the next connection, and sends what it kept. -/
theorem kept_packet_logs_in_again :
    (∃ s, exec (step loginCodec) State.initial
        (loginRun ++ deliver 0 (.channelOpen channelID) 2 5 ++ deliver 0
          (.fromBrowser channelID loginPacket) 3 7) =
          some s ∧
      (∃ browser ∈ s.browsers, ∃ packet ∈ browser.sent, s.acceptances packet = 2) ∧
      s.connections.map (fun connection => connection.receive.logins) = [[0, 1]]) ∧
    ∃ s, exec (step loginCodec) State.initial
        (loginRun ++ [.connect] ++ deliver 1 (.channelOpen channelID) 0 1 ++
          deliver 1 (.fromBrowser channelID loginPacket) 1 7) = some s ∧
      (∃ browser ∈ s.browsers, ∃ packet ∈ browser.sent, s.acceptances packet = 2) ∧
      s.connections.map (fun connection => connection.receive.logins) = [[0], [0]] := by
  constructor
  · have ends : (exec (step loginCodec) State.initial (loginRun ++ deliver 0 (.channelOpen channelID) 2 5 ++
        deliver 0 (.fromBrowser channelID loginPacket) 3 7)).map (fun s =>
          (decide (∃ browser ∈ s.browsers, ∃ packet ∈ browser.sent, s.acceptances packet = 2),
            s.connections.map fun connection => connection.receive.logins)) = some (true, [[0, 1]]) := by decide +kernel
    obtain ⟨s, ran, both⟩ := Option.map_eq_some_iff.mp ends
    obtain ⟨twice, logins⟩ := Prod.mk.inj both
    exact ⟨s, ran, of_decide_eq_true twice, logins⟩
  · have ends : (exec (step loginCodec) State.initial (loginRun ++ [.connect] ++
        deliver 1 (.channelOpen channelID) 0 1 ++ deliver 1 (.fromBrowser channelID loginPacket) 1 7)).map (fun s =>
          (decide (∃ browser ∈ s.browsers, ∃ packet ∈ browser.sent, s.acceptances packet = 2),
            s.connections.map fun connection => connection.receive.logins)) =
              some (true, [[0], [0]]) := by decide +kernel
    obtain ⟨s, ran, both⟩ := Option.map_eq_some_iff.mp ends
    obtain ⟨twice, logins⟩ := Prod.mk.inj both
    exact ⟨s, ran, of_decide_eq_true twice, logins⟩

end TermLinks.Bridge
