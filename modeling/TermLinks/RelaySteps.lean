import Mathlib.Data.List.Forall2
import TermLinks.Relay

namespace TermLinks.Relay

/-- What may happen to a socket in one event: it does not open again. -/
structure Softer (s s' : Socket) : Prop where
  attachment : s'.attachment = s.attachment
  opened : s'.isOpen → s.isOpen ∧ s'.listed = s.listed
  listed : s'.listed → s.listed

theorem softer_refl (s : Socket) : Softer s s := ⟨rfl, fun h => ⟨h, rfl⟩, fun h => h⟩

theorem softer_trans {a b c : Socket} (first : Softer a b) (second : Softer b c) : Softer a c := by
  refine ⟨second.attachment.trans first.attachment, ?_, fun h => first.listed (second.listed h)⟩
  intro h
  obtain ⟨open_b, listed_c⟩ := second.opened h
  obtain ⟨open_a, listed_b⟩ := first.opened open_b
  exact ⟨open_a, listed_c.trans listed_b⟩

theorem close_not_open (code : Int) (reason : String) (s : Socket) :
    (s.close code reason).isOpen = false := by
  unfold Socket.close
  split
  next => simp [Socket.isOpen]
  next closed => simpa using closed

theorem softer_close (code : Int) (reason : String) (s : Socket) : Softer s (s.close code reason) := by
  have shut := close_not_open code reason s
  refine ⟨?_, fun h => absurd h (by simp [shut]), ?_⟩
  · unfold Socket.close
    split <;> rfl
  · intro h
    unfold Socket.close at h
    split at h <;> exact h

theorem softer_lost (s : Socket) : Softer s { s with lost := true } :=
  ⟨rfl, fun h => absurd h (by simp [Socket.isOpen]), fun h => h⟩

theorem softer_forgotten (s : Socket) : Softer s { s with lost := true, listed := false } :=
  ⟨rfl, fun h => absurd h (by simp [Socket.isOpen]), fun h => absurd h (by simp)⟩

abbrev AllSofter (before after : List Socket) : Prop := List.Forall₂ Softer before after

theorem allSofter_refl (sockets : List Socket) : AllSofter sockets sockets := by
  induction sockets with
  | nil => exact .nil
  | cons s rest ih => exact .cons (softer_refl s) ih

theorem allSofter_trans {a b c : List Socket} (first : AllSofter a b) (second : AllSofter b c) :
    AllSofter a c := by
  induction first generalizing c with
  | nil => exact second
  | cons head _ ih =>
    cases second with
    | cons head' tail => exact .cons (softer_trans head head') (ih tail)

theorem allSofter_map {f : Socket → Socket} (h : ∀ s, Softer s (f s)) (sockets : List Socket) :
    AllSofter sockets (sockets.map f) := by
  induction sockets with
  | nil => exact .nil
  | cons s rest ih => exact .cons (h s) ih

theorem allSofter_modify {f : Socket → Socket} (h : ∀ s, Softer s (f s)) (sockets : List Socket) (i : Nat) :
    AllSofter sockets (sockets.modify i f) := by
  induction sockets generalizing i with
  | nil => simp
  | cons s rest ih =>
    cases i with
    | zero => exact .cons (h s) (allSofter_refl rest)
    | succ i => exact .cons (softer_refl s) (ih i)

theorem AllSofter.getElem? {before after : List Socket} (h : AllSofter before after) {i : Nat} {s' : Socket}
    (here : after[i]? = some s') : ∃ s, before[i]? = some s ∧ Softer s s' := by
  induction h generalizing i with
  | nil => simp at here
  | cons head _ ih =>
    cases i with
    | zero =>
      cases Option.some.inj here
      exact ⟨_, rfl, head⟩
    | succ i => exact ih here

theorem AllSofter.stays {before after : List Socket} (h : AllSofter before after) {i : Nat} {s : Socket}
    (here : before[i]? = some s) : ∃ s', after[i]? = some s' ∧ Softer s s' := by
  induction h generalizing i with
  | nil => simp at here
  | cons head _ ih =>
    cases i with
    | zero =>
      cases Option.some.inj here
      exact ⟨_, rfl, head⟩
    | succ i => exact ih here

theorem find_eq_some {σ : State} {attachment : Attachment} {i : Nat} (h : σ.find attachment = some i) :
    ∃ s, σ.sockets[i]? = some s ∧ s.listed ∧ s.attachment = attachment ∧ s.isOpen := by
  obtain ⟨bound, here, -⟩ := List.findIdx?_eq_some_iff_getElem.mp h
  simp only [Bool.and_eq_true, decide_eq_true_eq] at here
  exact ⟨_, List.getElem?_eq_getElem bound, here.1.1, here.1.2, here.2⟩

theorem send_eq_some {σ σ' : State} {throws : List Nat} {i : Nat} {frame : Frame}
    (h : σ.send throws i frame = some σ') :
    ∃ s, σ.sockets[i]? = some s ∧ σ' = { σ with trace := σ.trace ++ [.sent i s.attachment frame] } := by
  unfold State.send at h
  split at h
  next s here =>
    split at h
    next => simp at h
    next => exact ⟨s, here, (Option.some.inj h).symm⟩
  next => simp at h

/-- What `e2e_to_browser` message a connector sent. -/
def relayed (data : String) : Option ConnectorToBrowser :=
  match Json.parse data with
  | some (.object members) =>
    if stringMember "type" members = some "e2e_to_browser" then parseConnectorToBrowser members else none
  | _ => none

/-- What the relay checks, or makes sure of, before it sends a message to a connector. -/
def Message.Proper : Message → Prop
  | .connected => True
  | .pong => True
  | .bridgeReady id => isUUID id
  | .channelOpen id => isUUID id
  | .fromBrowser id data => isUUID id ∧ length data ≠ 0 ∧ length data ≤ maxEncryptedPacket ∧ isBase64URL data
  | .channelClose id code reason => isUUID id ∧ 1000 ≤ code ∧ code ≤ 4999 ∧ reason.utf8ByteSize ≤ 122

/-- What one event on accepted sockets adds to the trace. -/
inductive Block (σ : State) : List Happening → Prop
  | nothing : Block σ []
  | heard {i : Nat} {s : Socket} (here : σ.sockets[i]? = some s) (message : Incoming) :
    Block σ [.arrived i s.attachment message]
  | forwarded {i k : Nat} {s : Socket} {channel : String} (here : σ.sockets[i]? = some s)
    (role : s.attachment = .browser channel) (connector : σ.connector = some k) {data : String}
    (proper : (Message.fromBrowser channel data).Proper) :
    Block σ [.arrived i (.browser channel) (.text data), .sent k .connector
      (.json (.fromBrowser channel data))]
  | delivered {i b : Nat} {s : Socket} {data : String} {message : ConnectorToBrowser}
    (here : σ.sockets[i]? = some s) (role : s.attachment = .connector) (parsed : relayed data = some message)
    (browser : σ.browser message.id = some b) :
    Block σ [.arrived i .connector (.text data), .sent b (.browser message.id) (.text message.data)]
  | pong {i : Nat} {s : Socket} (here : σ.sockets[i]? = some s) (role : s.attachment = .connector)
      (data : String) :
    Block σ [.arrived i .connector (.text data), .sent i .connector (.json .pong)]
  | notified {k : Nat} (connector : σ.connector = some k) {channel : String} {code : Int} {reason : String}
    (proper : (Message.channelClose channel code reason).Proper) :
    Block σ [.sent k .connector (.json (.channelClose channel code reason))]

def Socket.ofBrowser (s : Socket) : Bool := s.listed && s.attachment.isBrowser

/-- What an event makes of the state. -/
inductive Advance (σ : State) : State → Prop
  | handled {sockets : List Socket} {block : List Happening} (softer : AllSofter σ.sockets sockets)
    (shape : Block σ block) : Advance σ ⟨sockets, σ.trace ++ block⟩
  | connected {sockets : List Socket} {block : List Happening} (softer : AllSofter σ.sockets sockets)
    (shut : ∀ s ∈ sockets, s.listed → s.isOpen = false)
    (shape : block = [] ∨ block = [.sent σ.sockets.length .connector (.json .connected)]) :
    Advance σ ⟨sockets ++ [⟨.connector, true, none, false⟩], σ.trace ++ block⟩
  | greeted {k : Nat} (connector : σ.connector = some k)
    (room : (σ.sockets.filter Socket.ofBrowser).length < maxBrowserSockets) {channel : String}
    (valid : isUUID channel) :
    Advance σ ⟨σ.sockets ++ [⟨.browser channel, true, none, false⟩],
      σ.trace ++ [.sent k .connector (.json (.channelOpen channel)),
        .sent σ.sockets.length (.browser channel) (.json (.bridgeReady channel))]⟩
  | refused {k : Nat} {s : Socket} {block : List Happening} (connector : σ.connector = some k)
    (room : (σ.sockets.filter Socket.ofBrowser).length < maxBrowserSockets) {channel : String}
    (valid : isUUID channel) (role : s.attachment = .browser channel) (shut : s.isOpen = false)
    (shape : block = [] ∨ block = [.sent k .connector (.json (.channelOpen channel))]) :
    Advance σ ⟨σ.sockets ++ [s], σ.trace ++ block⟩

structure Quiet (σ σ' : State) : Prop where
  softer : AllSofter σ.sockets σ'.sockets
  trace : σ'.trace = σ.trace

theorem quiet_refl (σ : State) : Quiet σ σ := ⟨allSofter_refl _, rfl⟩

theorem quiet_close (i : Nat) (code : Int) (reason : String) (σ : State) : Quiet σ (σ.close i code reason) :=
  ⟨allSofter_modify (softer_close code reason) _ i, rfl⟩

theorem quiet_closeAll (role : Attachment → Bool) (code : Int) (reason : String) (σ : State) :
    Quiet σ (σ.closeAll role code reason) := by
  refine ⟨allSofter_map ?_ _, rfl⟩
  intro s
  split
  next => exact softer_close code reason s
  next => exact softer_refl s

theorem quiet_disconnectBrowsers (code : Int) (reason : String) (σ : State) :
    Quiet σ (disconnectBrowsers code reason σ) := quiet_closeAll _ _ _ σ

theorem quiet_closeBrowser (channel : String) (code : Int) (reason : String) (σ : State) :
    Quiet σ (closeBrowser channel code reason σ) := by
  unfold closeBrowser
  split
  next => exact quiet_close _ _ _ σ
  next => exact quiet_refl σ

theorem sendToConnector_cases (throws : List Nat) (message : Message) (σ : State) :
    sendToConnector throws message σ = (false, σ) ∨ ∃ k, σ.connector = some k ∧
      sendToConnector throws message σ =
        (true, { σ with trace := σ.trace ++ [.sent k .connector (.json message)] }) := by
  unfold sendToConnector
  split
  next k connector =>
    split
    next σ' sent =>
      obtain ⟨s, here, rfl⟩ := send_eq_some sent
      obtain ⟨s', here', -, role, -⟩ := find_eq_some connector
      have same := Option.some.inj (here.symm.trans here')
      refine Or.inr ⟨k, connector, ?_⟩
      rw [same, role]
    next => exact Or.inl rfl
  next => exact Or.inl rfl

theorem forwardCiphertext_cases (throws : List Nat) {channel : String} (valid : isUUID channel)
    (message : Incoming) (σ : State) :
    Quiet σ (forwardCiphertext throws channel message σ) ∨ ∃ data k, message = .text data ∧
      (Message.fromBrowser channel data).Proper ∧ σ.connector = some k ∧
      forwardCiphertext throws channel message σ =
        { σ with trace := σ.trace ++ [.sent k .connector (.json (.fromBrowser channel data))] } := by
  unfold forwardCiphertext
  split
  next => exact Or.inl (quiet_closeBrowser _ _ _ σ)
  next data =>
    split
    next => exact Or.inl (quiet_closeBrowser _ _ _ σ)
    next admitted =>
      simp only [not_or, Nat.not_lt, Bool.not_eq_true, Bool.not_eq_false'] at admitted
      rcases sendToConnector_cases throws (.fromBrowser channel data) σ with failed | ⟨k, connector, sent⟩
      · rw [failed]
        exact Or.inl (quiet_closeBrowser _ _ _ σ)
      · rw [sent]
        exact Or.inr ⟨data, k, rfl, ⟨valid, admitted⟩, connector, rfl⟩

theorem handleConnectorMessage_cases (throws : List Nat) {socket : Nat} {s : Socket} {σ : State}
    (here : σ.sockets[socket]? = some s) (value : Json.Value) :
    Quiet σ (handleConnectorMessage throws socket value σ) ∨
      (∃ members message b, value = .object members ∧ stringMember "type" members = some "e2e_to_browser" ∧
        parseConnectorToBrowser members = some message ∧ σ.browser message.id = some b ∧
        handleConnectorMessage throws socket value σ =
          { σ with trace := σ.trace ++ [.sent b (.browser message.id) (.text message.data)] }) ∨
      handleConnectorMessage throws socket value σ =
        { σ with trace := σ.trace ++ [.sent socket s.attachment (.json .pong)] } := by
  unfold handleConnectorMessage
  split
  next members =>
    split
    next => exact Or.inl (quiet_close _ _ _ σ)
    next kind type =>
      split
      next same =>
        subst same
        split
        next => exact Or.inl (quiet_close _ _ _ σ)
        next message parsed =>
          split
          next => exact Or.inl (quiet_refl σ)
          next b browser =>
            split
            next σ' sent =>
              obtain ⟨t, there, rfl⟩ := send_eq_some sent
              obtain ⟨t', there', -, role, -⟩ := find_eq_some browser
              have same := Option.some.inj (there.symm.trans there')
              refine Or.inr (Or.inl ⟨members, message, b, rfl, type, parsed, browser, ?_⟩)
              rw [same, role]
            next => exact Or.inl (quiet_close _ _ _ σ)
      next =>
        split
        next =>
          split
          next => exact Or.inl (quiet_close _ _ _ σ)
          next => exact Or.inl (quiet_closeBrowser _ _ _ σ)
        next =>
          split
          next =>
            cases sent : σ.send throws socket (.json .pong) with
            | none => exact Or.inl (quiet_refl σ)
            | some σ' =>
              obtain ⟨t, there, rfl⟩ := send_eq_some sent
              cases Option.some.inj (there.symm.trans here)
              exact Or.inr (Or.inr rfl)
          next =>
            split
            next => exact Or.inl (quiet_refl σ)
            next => exact Or.inl (quiet_close _ _ _ σ)
  next => exact Or.inl (quiet_close _ _ _ σ)

theorem Quiet.handled {σ σ' : State} (h : Quiet σ σ') : Advance σ σ' := by
  obtain ⟨softer, trace⟩ := h
  obtain ⟨sockets, _⟩ := σ'
  cases trace
  have moved := Advance.handled softer Block.nothing
  rwa [List.append_nil] at moved

/-- A message that leads to no send. -/
theorem Quiet.heard {σ σ' : State} {i : Nat} {s : Socket} (here : σ.sockets[i]? = some s) (message : Incoming)
    (h : Quiet { σ with trace := σ.trace ++ [.arrived i s.attachment message] } σ') : Advance σ σ' := by
  obtain ⟨softer, trace⟩ := h
  obtain ⟨sockets, _⟩ := σ'
  cases trace
  exact Advance.handled softer (Block.heard here message)

theorem socketAttachment_browser {attachment : Attachment} {channel : String}
    (h : socketAttachment attachment = some (.browser channel)) :
    attachment = .browser channel ∧ isUUID channel := by
  unfold socketAttachment at h
  split at h
  next => simp at h
  next c =>
    split at h
    next valid =>
      cases Option.some.inj h
      exact ⟨rfl, valid⟩
    next => simp at h

theorem webSocketMessage_advance (throws : List Nat) {σ : State} {i : Nat} {s : Socket}
    (here : σ.sockets[i]? = some s) (message : Incoming) :
    Advance σ (webSocketMessage throws i s.attachment message
      { σ with trace := σ.trace ++ [.arrived i s.attachment message] }) := by
  unfold webSocketMessage
  split
  next => exact Quiet.heard here message (quiet_close _ _ _ _)
  next channel role =>
    obtain ⟨attachment, valid⟩ := socketAttachment_browser role
    rcases forwardCiphertext_cases throws valid message
      { σ with trace := σ.trace ++ [.arrived i s.attachment message] } with
      quiet | ⟨data, k, rfl, proper, connector, eq⟩
    · exact Quiet.heard here message quiet
    · rw [eq, attachment]
      have moved := Advance.handled (allSofter_refl σ.sockets) (Block.forwarded here attachment connector proper)
      simpa using moved
  next role =>
    have attachment : s.attachment = .connector := by
      unfold socketAttachment at role
      split at role
      next same => exact same
      next => split at role <;> simp at role
    split
    next => exact Quiet.heard here _ (quiet_close _ _ _ _)
    next data =>
      split
      next => exact Quiet.heard here _ (quiet_close _ _ _ _)
      next =>
        split
        next => exact Quiet.heard here _ (quiet_close _ _ _ _)
        next value parsed =>
          have there : ({ σ with trace := σ.trace ++ [.arrived i s.attachment (.text data)] } : State).sockets[i]? =
            some s := here
          rcases handleConnectorMessage_cases throws there value with
            quiet | ⟨members, message, b, rfl, type, text, browser, eq⟩ | eq
          · exact Quiet.heard here _ quiet
          · rw [eq, attachment]
            have known : relayed data = some message := by
              simp only [relayed, parsed, type, if_true, text]
            have moved := Advance.handled (allSofter_refl σ.sockets) (Block.delivered here attachment known browser)
            simpa using moved
          · rw [eq, attachment]
            have moved := Advance.handled (allSofter_refl σ.sockets) (Block.pong here attachment data)
            simpa using moved

theorem normalizeCloseCode_range (code : Int) :
    1000 ≤ normalizeCloseCode code ∧ normalizeCloseCode code ≤ 4999 := by
  unfold normalizeCloseCode
  split
  next valid => exact ⟨valid.1, valid.2.1⟩
  next => decide

theorem decodePrefix_size (n : Nat) (cs : List Char) : byteCount (decodePrefix n cs) ≤ n + 2 := by
  induction cs generalizing n with
  | nil => simp [decodePrefix, byteCount]
  | cons c rest ih =>
    unfold decodePrefix
    split
    next fits =>
      have tail := ih (n - c.utf8Size)
      simp only [byteCount, List.map_cons, List.sum_cons] at tail ⊢
      omega
    next cut =>
      split
      next => simp [byteCount]
      next positive =>
        have size : byteCount ['\ufffd'] = 3 := by decide
        omega

theorem boundedReason_size (reason : String) : (boundedReason reason).utf8ByteSize ≤ 122 := by
  have bound := decodePrefix_size 120 reason.toList
  unfold boundedReason
  split
  next => omega
  next =>
    split
    next rest eq =>
      rw [eq] at bound
      rw [byteCount_ofList]
      simp only [byteCount, List.map_cons, List.sum_cons] at bound ⊢
      omega
    next =>
      rw [byteCount_ofList]
      exact bound

theorem sendToConnector_advance (throws : List Nat) {channel : String} {code : Int} {reason : String}
    (proper : (Message.channelClose channel code reason).Proper) (σ : State) :
    Advance σ (sendToConnector throws (.channelClose channel code reason) σ).2 := by
  rcases sendToConnector_cases throws (.channelClose channel code reason) σ with failed | ⟨k, connector, sent⟩
  · rw [failed]
    exact (quiet_refl σ).handled
  · rw [sent]
    exact Advance.handled (allSofter_refl σ.sockets) (Block.notified connector proper)

theorem webSocketClose_advance (throws : List Nat) (i : Nat) (attachment : Attachment) (code : Int)
    (reason : String) (σ : State) : Advance σ (webSocketClose throws i attachment code reason σ) := by
  unfold webSocketClose
  split
  next => exact (quiet_refl σ).handled
  next =>
    split
    next => exact (quiet_refl σ).handled
    next => exact (quiet_disconnectBrowsers _ _ σ).handled
  next channel role =>
    have range := normalizeCloseCode_range code
    exact sendToConnector_advance throws
      ⟨(socketAttachment_browser role).2, range.1, range.2, boundedReason_size reason⟩ σ

theorem webSocketError_advance (throws : List Nat) (i : Nat) (attachment : Attachment) (σ : State) :
    Advance σ (webSocketError throws i attachment σ) := by
  unfold webSocketError
  split
  next => exact (quiet_refl σ).handled
  next =>
    split
    next => exact (quiet_refl σ).handled
    next => exact (quiet_disconnectBrowsers _ _ σ).handled
  next channel role =>
    exact sendToConnector_advance throws ⟨(socketAttachment_browser role).2, by decide, by decide, by decide⟩ σ

theorem closeAll_shut {role : Attachment → Bool} {code : Int} {reason : String} {σ : State} {s : Socket}
    (mem : s ∈ (σ.closeAll role code reason).sockets) (listed : s.listed) (theirs : role s.attachment) :
    s.isOpen = false := by
  obtain ⟨t, _, eq⟩ := List.mem_map.mp mem
  split at eq
  next =>
    rw [← eq]
    exact close_not_open _ _ _
  next other =>
    subst eq
    simp [listed, theirs] at other

/-- After both rounds of `close`, no listed socket is open. -/
theorem replaced_shut (σ : State) (s : Socket)
    (mem : s ∈ (disconnectBrowsers 1012 "Computer reconnected"
      (σ.closeAll Attachment.isConnector 1012 "Replaced by a new connector")).sockets)
    (listed : s.listed) : s.isOpen = false := by
  cases role : s.attachment with
  | browser channel => exact closeAll_shut mem listed (by rw [role]; rfl)
  | connector =>
    have soft := (quiet_disconnectBrowsers 1012 "Computer reconnected"
      (σ.closeAll Attachment.isConnector 1012 "Replaced by a new connector")).softer
    obtain ⟨i, here⟩ := List.mem_iff_getElem?.mp mem
    obtain ⟨t, before, softer⟩ := soft.getElem? here
    have same := softer.attachment.symm.trans role
    have shut := closeAll_shut (List.mem_of_getElem? before) (softer.listed listed) (by rw [same]; rfl)
    by_contra opened
    have back := (softer.opened (by simpa using opened)).1
    rw [shut] at back
    exact absurd back (by simp)

theorem acceptConnector_advance (throws : List Nat) (request : Request) (σ : State) :
    Advance σ (acceptConnector throws request σ).2 := by
  unfold acceptConnector
  split
  next => exact (quiet_refl σ).handled
  next =>
    have first := quiet_closeAll Attachment.isConnector 1012 "Replaced by a new connector" σ
    have second := quiet_disconnectBrowsers 1012 "Computer reconnected"
      (σ.closeAll Attachment.isConnector 1012 "Replaced by a new connector")
    have softer := allSofter_trans first.softer second.softer
    have shut := replaced_shut σ
    have size := softer.length_eq
    dsimp only
    split
    next σ' sent =>
      obtain ⟨s, here, rfl⟩ := send_eq_some sent
      have added : s = ⟨.connector, true, none, false⟩ := by
        simp only [State.accept, size, List.getElem?_append_right (Nat.le_refl _), Nat.sub_self,
          List.getElem?_cons_zero] at here
        exact (Option.some.inj here).symm
      subst added
      exact Advance.connected softer shut (Or.inr rfl)
    next =>
      have moved := Advance.connected softer shut (Or.inl rfl)
      rwa [List.append_nil] at moved

theorem modify_concat {α : Type} (l : List α) (a : α) (f : α → α) :
    (l ++ [a]).modify l.length f = l ++ [f a] := by
  induction l with
  | nil => rfl
  | cons b l ih =>
    have tail := congrArg (b :: ·) ih
    exact tail

theorem acceptBrowser_advance (throws : List Nat) (request : Request) (channel : UUID) (σ : State) :
    Advance σ (acceptBrowser throws request channel σ).2 := by
  unfold acceptBrowser
  split
  next => exact (quiet_refl σ).handled
  next k connector =>
    split
    next => exact (quiet_refl σ).handled
    next =>
      split
      next => exact (quiet_refl σ).handled
      next full =>
        have room : (σ.sockets.filter Socket.ofBrowser).length < maxBrowserSockets := Nat.not_le.mp full
        obtain ⟨s, here, -, role, -⟩ := find_eq_some connector
        have bound : k < σ.sockets.length := (List.getElem?_eq_some_iff.mp here).1
        have front : (σ.accept (.browser channel.text)).sockets[k]? = some s := by
          simp only [State.accept, List.getElem?_append_left bound, here]
        have back : (σ.accept (.browser channel.text)).sockets[σ.sockets.length]? =
            some ⟨.browser channel.text, true, none, false⟩ := by
          simp only [State.accept, List.getElem?_concat_length]
        have shut := close_not_open 1012 "Your computer is offline" ⟨.browser channel.text, true, none, false⟩
        have closed := modify_concat σ.sockets ⟨.browser channel.text, true, none, false⟩
          (Socket.close 1012 "Your computer is offline")
        dsimp only
        split
        next =>
          have moved := Advance.refused connector room channel.valid rfl shut (Or.inl rfl)
          rw [List.append_nil] at moved
          unfold State.close State.accept
          rwa [closed]
        next announced first =>
          obtain ⟨t, there, rfl⟩ := send_eq_some first
          cases Option.some.inj (there.symm.trans front)
          rw [role]
          split
          next =>
            have moved := Advance.refused connector room channel.valid rfl shut (Or.inr rfl)
            unfold State.close State.accept
            rwa [closed]
          next greeted second =>
            obtain ⟨t, there, rfl⟩ := send_eq_some second
            cases Option.some.inj (there.symm.trans back)
            have moved := Advance.greeted connector room channel.valid
            simpa [State.accept] using moved

theorem fetch_advance (throws : List Nat) (request : Request) (channel : UUID) (σ : State) :
    Advance σ (fetch throws request channel σ).2 := by
  unfold fetch
  split
  next => exact acceptConnector_advance throws request σ
  next =>
    split
    next => exact (quiet_refl σ).handled
    next =>
      split
      next => exact acceptBrowser_advance throws request channel σ
      next => exact (quiet_refl σ).handled

theorem step_advance {σ σ' : State} {label : Label} (h : step σ label = some σ') : Advance σ σ' := by
  obtain ⟨throws, event⟩ := label
  cases event with
  | fetch request channel =>
    cases Option.some.inj h
    exact fetch_advance throws request channel σ
  | message socket message =>
    obtain ⟨s, here, rfl⟩ := Option.map_eq_some_iff.mp h
    exact webSocketMessage_advance throws here message
  | close socket code reason =>
    obtain ⟨s, _, rfl⟩ := Option.map_eq_some_iff.mp h
    exact webSocketClose_advance throws socket s.attachment code reason σ
  | error socket =>
    obtain ⟨s, _, rfl⟩ := Option.map_eq_some_iff.mp h
    exact webSocketError_advance throws socket s.attachment σ
  | lost socket =>
    cases Option.some.inj h
    exact Quiet.handled ⟨allSofter_modify softer_lost _ socket, rfl⟩
  | forgotten socket =>
    cases Option.some.inj h
    exact Quiet.handled ⟨allSofter_modify softer_forgotten _ socket, rfl⟩

end TermLinks.Relay
