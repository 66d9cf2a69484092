import TermLinks.BridgeLog

namespace TermLinks.Bridge

open E2E (textEncode)
open Connector (validMessageID)

variable {Key Record Value : Type}

/-- The ids of the channels that a connection opened, in their order. -/
def Connection.ids (connection : Connection Key) : List String :=
  connection.receive.channels.map Connector.BrowserChannel.id

section

variable {decrypt : String → UInt32 → String → Option Bytes} {unmarshal : Connector.Unmarshal}
  {r u : Connector.State} {label : Connector.Label}

theorem ids_of_links (h : u.links = r.links) :
    u.channels.map Connector.BrowserChannel.id = r.channels.map Connector.BrowserChannel.id := by
  have same := congrArg (List.map Prod.fst) h
  unfold Connector.State.links at same
  rw [List.map_map, List.map_map] at same
  exact same

theorem ids_of_links_set {c : Nat} {channel : Connector.BrowserChannel} {flag : Bool} {sequence : UInt32}
    (here : r.channels[c]? = some channel) (h : u.links = r.links.set c (channel.id, flag, sequence)) :
    u.channels.map Connector.BrowserChannel.id = r.channels.map Connector.BrowserChannel.id := by
  have same := congrArg (List.map Prod.fst) h
  unfold Connector.State.links at same
  rw [List.map_map, List.map_set, List.map_map] at same
  have known : (r.channels.map Connector.BrowserChannel.id)[c]? = some channel.id := by
    rw [List.getElem?_map, here, Option.map_some]
  obtain ⟨inside, value⟩ := List.getElem?_eq_some_iff.mp known
  have kept : (r.channels.map Connector.BrowserChannel.id).set c channel.id =
      r.channels.map Connector.BrowserChannel.id := by
    rw [← value]
    exact List.set_getElem_self inside
  rw [← kept]
  exact same

/-- A step of a connection opens one channel at most, and under a valid id. -/
theorem ids_step (ht : Connector.step decrypt unmarshal r label = some u) :
    u.channels.map Connector.BrowserChannel.id = r.channels.map Connector.BrowserChannel.id ∨
      ∃ id, label = .channelOpen id ∧ validMessageID id = true ∧
        u.channels.map Connector.BrowserChannel.id = r.channels.map Connector.BrowserChannel.id ++ [id] := by
  cases label with
  | channelOpen id =>
    simp only [Connector.step] at ht
    split at ht
    next valid =>
      obtain ⟨_, rfl⟩ := Connector.startReader_eq ht
      refine Or.inr ⟨id, rfl, valid, ?_⟩
      show (r.channels ++ [Connector.BrowserChannel.new id]).map Connector.BrowserChannel.id = _
      rw [List.map_append, List.map_singleton]
      rfl
    next => cases ht
  | fromBrowser id packet =>
    simp only [Connector.step] at ht
    split at ht
    next =>
      obtain ⟨_, rfl⟩ := Connector.startReader_eq ht
      exact Or.inl rfl
    next => cases ht
  | channelClose id =>
    simp only [Connector.step] at ht
    split at ht
    next =>
      obtain ⟨_, rfl⟩ := Connector.startReader_eq ht
      exact Or.inl rfl
    next => cases ht
  | authTimeout c =>
    simp only [Connector.step] at ht
    split at ht
    next =>
      split at ht
      next => cases ht
      next =>
        cases ht
        exact Or.inl rfl
    next => cases ht
  | shutdown id =>
    cases ht
    exact Or.inl rfl
  | run k ok =>
    simp only [Connector.step] at ht
    split at ht
    next task here =>
      rcases Connector.links_taskStep ht with ⟨links, _⟩ | ⟨_, _, _, c, channel, _, there, _, links⟩ |
        ⟨_, c, channel, _, there, _, links⟩
      · exact Or.inl (ids_of_links links)
      · exact Or.inl (ids_of_links_set there links)
      · exact Or.inl (ids_of_links_set there links)
    next => cases ht

end

/-- What holds whatever the relay does. -/
structure State.Honest [DecidableEq Key] (codec : Codec Key Record Value) (s : State Key) : Prop where
  browsers : ∀ browser ∈ s.browsers, browser.Orderly codec.aead
  supplied : ∀ browser ∈ s.browsers, browser.Supplied s.log
  connections : ∀ connection ∈ s.connections, connection.Orderly codec.aead codec.key
  named : ∀ connection ∈ s.connections, connection.receive.Named (s.decrypt codec.key)
  numbered : ∀ connection ∈ s.connections, connection.receive.Numbered (s.decrypt codec.key)

section

variable {aead : Aead Key} {key : Key} {connection : Connection Key}

/-- After a step of a connection a channel is one it had, with the same id, or a new one on which nothing was sent. -/
theorem adopt_cases (length : connection.senders.length = connection.receive.channels.length)
    {decrypt : String → UInt32 → String → Option Bytes} {unmarshal : Connector.Unmarshal}
    {label : Connector.Label} {receive : Connector.State}
    (ht : Connector.step decrypt unmarshal connection.receive label = some receive) :
    (connection.adopt receive).senders.length = receive.channels.length ∧
      ∀ (c : Nat) (channel : Connector.BrowserChannel), receive.channels[c]? = some channel →
        (∃ before, connection.receive.channels[c]? = some before ∧ before.id = channel.id ∧
          (connection.adopt receive).senders[c]? = connection.senders[c]?) ∨
        (validMessageID channel.id = true ∧ (connection.adopt receive).senders[c]? = some ⟨0, []⟩) := by
  rcases ids_step ht with same | ⟨id, -, valid, more⟩
  · have count := congrArg List.length same
    rw [List.length_map, List.length_map] at count
    have none_new : receive.channels.length - connection.senders.length = 0 := by omega
    have old : (connection.adopt receive).senders = connection.senders := by
      unfold Connection.adopt
      rw [none_new]
      exact List.append_nil _
    refine ⟨?_, ?_⟩
    · rw [old, length]
      exact count.symm
    intro c channel there
    have named := congrArg (fun ids => ids[c]?) same
    rw [List.getElem?_map, List.getElem?_map, there, Option.map_some] at named
    obtain ⟨before, there', own⟩ := Option.map_eq_some_iff.mp named.symm
    exact Or.inl ⟨before, there', own, by rw [old]⟩
  · have count := congrArg List.length more
    rw [List.length_append, List.length_map, List.length_map, List.length_singleton] at count
    have one_new : receive.channels.length - connection.senders.length = 1 := by omega
    have grown : (connection.adopt receive).senders = connection.senders ++ [⟨0, []⟩] := by
      unfold Connection.adopt
      rw [one_new]
      rfl
    refine ⟨?_, ?_⟩
    · rw [grown, List.length_append, List.length_singleton]
      omega
    · intro c channel there
      have named := congrArg (fun ids => ids[c]?) more
      rw [List.getElem?_map, there, Option.map_some] at named
      by_cases old : c < connection.receive.channels.length
      · rw [List.getElem?_append_left (by rw [List.length_map]; exact old), List.getElem?_map] at named
        obtain ⟨before, there', own⟩ := Option.map_eq_some_iff.mp named.symm
        refine Or.inl ⟨before, there', own, ?_⟩
        rw [grown, List.getElem?_append_left (by omega)]
      · rw [List.getElem?_append_right (by rw [List.length_map]; omega), List.length_map] at named
        have last := List.mem_singleton.mp (List.mem_of_getElem? named.symm)
        have bound := (List.getElem?_eq_some_iff.mp named.symm).1
        rw [List.length_singleton] at bound
        have place : c = connection.senders.length := by omega
        refine Or.inr ⟨?_, ?_⟩
        · rw [last]
          exact valid
        · rw [grown, place, List.getElem?_concat_length]

theorem adopt_orderly (h : connection.Orderly aead key) {decrypt : String → UInt32 → String → Option Bytes}
    {unmarshal : Connector.Unmarshal} {label : Connector.Label} {receive : Connector.State}
    (ht : Connector.step decrypt unmarshal connection.receive label = some receive) :
    (connection.adopt receive).Orderly aead key := by
  obtain ⟨length, cases⟩ := adopt_cases h.length ht
  refine ⟨length, ?_, ?_⟩
  · intro c channel sender there at_c packet sent
    rcases cases c channel there with ⟨before, there', own, senders⟩ | ⟨-, new⟩
    · rw [senders] at at_c
      rw [← own]
      exact h.made c before sender there' at_c packet sent
    · rw [new] at at_c
      cases Option.some.inj at_c
      cases sent
  · intro channel member
    obtain ⟨c, there⟩ := List.mem_iff_getElem?.mp member
    rcases cases c channel there with ⟨before, there', own, -⟩ | ⟨valid, -⟩
    · rw [← own]
      exact h.valid before (List.mem_of_getElem? there')
    · exact valid

theorem adopt_sent (receive : Connector.State) : ∀ sender ∈ connection.senders, ∀ packet ∈ sender.sent,
    ∃ later ∈ (connection.adopt receive).senders, packet ∈ later.sent :=
  fun sender member _ sent => ⟨sender, List.mem_append_left _ member, sent⟩

/-- One more packet on a channel, or a number that is lost. -/
theorem send_orderly (h : connection.Orderly aead key) {c : Nat} {channel : Connector.BrowserChannel}
    {sender after : Sender Key} (there : connection.receive.channels[c]? = some channel)
    (at_c : connection.senders[c]? = some sender)
    (made : ∀ packet ∈ after.sent, packet ∈ sender.sent ∨
      packet.Made aead key (utf8 channel.id) .connector sender.sendSeq.toNat) :
    Connection.Orderly aead key { connection with senders := connection.senders.set c after } := by
  refine ⟨?_, ?_, h.valid⟩
  · show (connection.senders.set c after).length = connection.receive.channels.length
    rw [List.length_set]
    exact h.length
  · intro d channel' sender' there' at_d packet sent
    have inside := (List.getElem?_eq_some_iff.mp at_c).1
    by_cases same : c = d
    · have at_d : (connection.senders.set c after)[d]? = some sender' := at_d
      rw [← same, List.getElem?_set_self inside] at at_d
      cases Option.some.inj at_d
      have there' : connection.receive.channels[d]? = some channel' := there'
      rw [← same, there] at there'
      cases Option.some.inj there'
      rcases made packet sent with old | new
      · exact h.made c channel sender there at_c packet old
      · exact ⟨sender.sendSeq, new⟩
    · have at_d : (connection.senders.set c after)[d]? = some sender' := at_d
      rw [List.getElem?_set_ne same] at at_d
      exact h.made d channel' sender' there' at_d packet sent

theorem sender_sent {aead : Aead Key} {marshal : Value → Option Bytes} {key : Key} {channelID : String}
    {sender : Sender Key} {nonce : Option Sending.Nonce} {value : Value} :
    ∀ packet ∈ (sender.sendEncrypted aead marshal key channelID nonce value).sent, packet ∈ sender.sent ∨
      packet.Made aead key (utf8 channelID) .connector sender.sendSeq.toNat := by
  intro packet member
  rcases List.mem_append.mp member with old | new
  · exact Or.inl old
  · exact Or.inr (Sender.encrypted_eq (Option.mem_toList.mp new))

end

section

variable [DecidableEq Key] {codec : Codec Key Record Value} {s t : State Key}

theorem State.Honest.genuine (h : s.Honest codec) : ∀ e ∈ s.log, e.Genuine codec.aead :=
  genuine_log h.browsers h.connections

theorem honest_setBrowser (h : s.Honest codec) {b : Nat} {browser after : Browser Key}
    (here : s.browsers[b]? = some browser) (sent : browser.sent <+: after.sent)
    (orderly : after.Orderly codec.aead)
    (supplied : after.Supplied s.log) : (s.setBrowser b after).Honest codec := by
  have grows := log_setBrowser here fun packet member => sent.subset member
  have browsers : ∀ other ∈ (s.setBrowser b after).browsers, other.Orderly codec.aead := by
    intro other member
    rcases List.mem_or_eq_of_mem_set member with old | rfl
    · exact h.browsers other old
    · exact orderly
  have opens := fun id sequence packet plaintext => @decrypt_mono Key _ s (s.setBrowser b after) codec.aead codec.key
    (genuine_log browsers h.connections) grows id packet sequence plaintext
  refine ⟨browsers, ?_, h.connections, ?_, ?_⟩
  · intro other member
    rcases List.mem_or_eq_of_mem_set member with old | rfl
    · exact (h.supplied other old).mono grows
    · exact supplied.mono grows
  · exact fun connection member => named_mono opens (h.named connection member)
  · exact fun connection member => numbered_mono opens (h.numbered connection member)

theorem honest_setConnection (h : s.Honest codec) {i : Nat} {connection after : Connection Key}
    (here : s.connections[i]? = some connection) (sent : ∀ sender ∈ connection.senders, ∀ packet ∈ sender.sent,
      ∃ later ∈ after.senders, packet ∈ later.sent)
    (orderly : after.Orderly codec.aead codec.key) (named : after.receive.Named (s.decrypt codec.key))
    (numbered : after.receive.Numbered (s.decrypt codec.key)) : (s.setConnection i after).Honest codec := by
  have grows := log_setConnection here sent
  have connections : ∀ other ∈ (s.setConnection i after).connections, other.Orderly codec.aead codec.key := by
    intro other member
    rcases List.mem_or_eq_of_mem_set member with old | rfl
    · exact h.connections other old
    · exact orderly
  have opens := fun id sequence packet plaintext => @decrypt_mono Key _ s (s.setConnection i after) codec.aead codec.key
    (genuine_log h.browsers connections) grows id packet sequence plaintext
  refine ⟨h.browsers, fun browser member => (h.supplied browser member).mono grows, connections, ?_, ?_⟩
  · intro other member
    rcases List.mem_or_eq_of_mem_set member with old | rfl
    · exact named_mono opens (h.named other old)
    · exact named_mono opens named
  · intro other member
    rcases List.mem_or_eq_of_mem_set member with old | rfl
    · exact numbered_mono opens (h.numbered other old)
    · exact numbered_mono opens numbered

theorem named_initial (decrypt : String → UInt32 → String → Option Bytes) :
    Connector.State.initial.Named decrypt ∧ Connector.State.initial.Numbered decrypt := by
  refine ⟨⟨?_, ?_, ?_, ?_⟩, ?_, ?_⟩
  all_goals simp [Connector.State.initial, Connector.State.links]

theorem honest_join (h : s.Honest codec) (key : Key) (channel : Utf16.Units) :
    State.Honest codec { s with browsers := s.browsers ++ [⟨key, channel, 0, false, 0, [], []⟩] } := by
  have same : State.log { s with browsers := s.browsers ++ [⟨key, channel, 0, false, 0, [], []⟩] } = s.log := by
    simp [State.log]
  refine ⟨?_, ?_, h.connections, ?_, ?_⟩
  · intro browser member
    rcases List.mem_append.mp member with old | new
    · exact h.browsers browser old
    · rw [List.mem_singleton.mp new]
      exact ⟨(by rintro _ _ ⟨⟩), fun _ => rfl⟩
  · intro browser member
    rw [same]
    rcases List.mem_append.mp member with old | new
    · exact h.supplied browser old
    · rw [List.mem_singleton.mp new]
      exact ⟨(by rintro _ _ ⟨⟩), rfl⟩
  · unfold State.decrypt
    rw [same]
    exact h.named
  · unfold State.decrypt
    rw [same]
    exact h.numbered

theorem honest_connect (h : s.Honest codec) :
    State.Honest codec { s with connections := s.connections ++ [⟨.initial, []⟩] } := by
  have same : State.log { s with connections := s.connections ++ [⟨.initial, []⟩] } = s.log := by
    simp [State.log]
  refine ⟨h.browsers, ?_, ?_, ?_, ?_⟩
  · rw [same]
    exact h.supplied
  · intro connection member
    rcases List.mem_append.mp member with old | new
    · exact h.connections connection old
    · rw [List.mem_singleton.mp new]
      exact ⟨rfl, (by rintro _ _ _ ⟨⟩), (by rintro _ ⟨⟩)⟩
  · unfold State.decrypt
    rw [same]
    intro connection member
    rcases List.mem_append.mp member with old | new
    · exact h.named connection old
    · rw [List.mem_singleton.mp new]
      exact (named_initial _).1
  · unfold State.decrypt
    rw [same]
    intro connection member
    rcases List.mem_append.mp member with old | new
    · exact h.numbered connection old
    · rw [List.mem_singleton.mp new]
      exact (named_initial _).2

theorem honest_step {label : Label Key Record Value} (h : s.Honest codec) (ht : step codec s label = some t) :
    t.Honest codec := by
  cases label with
  | join key channel =>
    cases ht
    exact honest_join h key channel
  | browserSend b isOpen posted iv value =>
    obtain ⟨browser, here, rfl⟩ := Option.map_eq_some_iff.mp ht
    have member := List.mem_of_getElem? here
    obtain ⟨key, channel, received, receiveSequence⟩ := @side_sendEncrypted Key Record codec.aead browser
      codec.stringify iv isOpen posted value
    have supplied := h.supplied browser member
    apply honest_setBrowser h here sent_sendEncrypted (sendEncrypted_orderly (h.browsers browser member))
    refine ⟨?_, ?_⟩
    · rw [key, channel, received]
      exact supplied.sealed
    · rw [received, receiveSequence]
      exact supplied.next
  | browserReceive b packet =>
    obtain ⟨browser, here, rfl⟩ := Option.map_eq_some_iff.mp ht
    have member := List.mem_of_getElem? here
    obtain ⟨key, channel, sent, rejected, sendSequence⟩ := @receive_side Key _ browser s.log codec.parses packet
    have orderly := h.browsers browser member
    refine honest_setBrowser h here ?_ ?_ (receive_supplied (h.supplied browser member))
    · rw [sent]
    · refine ⟨?_, ?_⟩
      · rw [key, channel, sent]
        exact orderly.made
      · rw [rejected, sendSequence, sent]
        exact orderly.next
  | connect =>
    cases ht
    exact honest_connect h
  | connector i label =>
    simp only [step] at ht
    split at ht
    next connection here =>
      obtain ⟨receive, moved, rfl⟩ := Option.map_eq_some_iff.mp ht
      have member := List.mem_of_getElem? here
      have named := h.named connection member
      exact honest_setConnection h here (adopt_sent receive) (adopt_orderly (h.connections connection member) moved)
        (Connector.named_step named moved) (Connector.numbered_step (h.numbered connection member) named moved)
    next => cases ht
  | connectorSend i c nonce value =>
    simp only [step] at ht
    split at ht
    next connection here =>
      split at ht
      next channel sender there at_c =>
        cases ht
        have member := List.mem_of_getElem? here
        refine honest_setConnection h here ?_ (send_orderly (h.connections connection member) there at_c sender_sent)
          (h.named connection member) (h.numbered connection member)
        intro other sends packet sent
        obtain ⟨d, at_d⟩ := List.mem_iff_getElem?.mp sends
        have inside := (List.getElem?_eq_some_iff.mp at_c).1
        by_cases same : c = d
        · rw [← same, at_c] at at_d
          cases Option.some.inj at_d
          exact ⟨_, List.mem_set inside _, List.mem_append_left _ sent⟩
        · refine ⟨other, List.mem_iff_getElem?.mpr ⟨d, ?_⟩, sent⟩
          show (connection.senders.set c _)[d]? = some other
          rw [List.getElem?_set_ne same, at_d]
      next => cases ht
    next => cases ht

theorem honest_run {labels : List (Label Key Record Value)}
    (ran : exec (step codec) State.initial labels = some s) :
    s.Honest codec := by
  refine exec_invariant ?_ ?_ ran
  · intro s label t h ht
    exact honest_step h ht
  · refine ⟨nofun, nofun, nofun, nofun, nofun⟩

end

end TermLinks.Bridge
