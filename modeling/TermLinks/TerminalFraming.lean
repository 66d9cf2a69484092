import TermLinks.RelayWire
import TermLinks.TerminalHandler
import TermLinks.TerminalReconnect

namespace TermLinks.TerminalReconnect

open SessionStream TerminalHandler TerminalStreamReconciler

/-- What reaches the browser; the socket itself answers pings. -/
inductive Message
  | text (data : String)
  | binary (data : Bytes)
deriving DecidableEq

/-- `terminalSnapshotControl` as JSON; `bytes` is left out when it is nil. -/
def terminalSnapshotControl (type : String) (bytes : Option Nat) : Json.Value :=
  .object (("type", .string type) :: (bytes.map fun n : Nat => ("bytes", Json.Value.number (Json.ofInt n))).toList)

/-- `WriteJSON`: the encoder puts a line feed behind the value. -/
def writeJSON (value : Json.Value) : Message := .text (Connector.marshal value ++ "\n")

/-- The payload of `writeTerminalStatus`, a map and so in the order of its keys. -/
def terminalStatus (running : Bool) (exitCode : Option Int) (signal : String)
    (alreadyExited : Bool) : Json.Value :=
  .object [("alreadyExited", .bool alreadyExited),
    ("exitCode", (exitCode.map fun code => Json.Value.number (Json.ofInt code)).getD .null),
    ("running", .bool running), ("signal", .string signal), ("type", .string "status")]

def frameMessage : Frame → Option Message
  | .snapshotStart bytes => some (writeJSON (terminalSnapshotControl "terminal_snapshot_start" (some bytes)))
  | .snapshotEnd => some (writeJSON (terminalSnapshotControl "terminal_snapshot_end" none))
  | .binary data => some (.binary data)
  | .ping => none
  | .status running exitCode signal alreadyExited =>
    some (.text (Connector.marshal (terminalStatus running exitCode signal alreadyExited)))

def terminalStreamControl : Json.Value → Option TerminalStreamControl
  | .object members =>
    match Relay.member "type" members, Relay.member "bytes" members with
    | some (.string type), bytes =>
      match type, bytes with
      | "terminal_snapshot_start", some (.number bytes) => some (.snapshotStart bytes.toDouble)
      | "terminal_snapshot_end", _ => some .snapshotEnd
      | _, _ => none
    | _, _ => none
  | _ => none

/-- `received`: what the message is for the reconciler, if `JSON.parse` gets through it. -/
def messageEvent : Message → Except String (Option Event)
  | .binary data => .ok (some (.binary data))
  | .text data =>
    match Json.parse data with
    | none => .error "SyntaxError"
    | some value => .ok ((terminalStreamControl value).map .control)

def feedMessages (r : TerminalStreamReconciler) :
    List Message → Except String (TerminalStreamReconciler × List TerminalStreamAction)
  | [] => .ok (r, [])
  | message :: messages =>
    match messageEvent message with
    | .error e => .error e
    | .ok none => feedMessages r messages
    | .ok (some event) => do
      let (r, action) ← receive r event
      let (r, actions) ← feedMessages r messages
      return (r, action.toList ++ actions)

/-- The frames of a handler that serves a scrollback and then these chunks. -/
def servedFrames (initial : Bytes) (live : List Bytes) : List Frame :=
  .snapshotStart initial.length :: ((snapshotFrames initial).map .binary ++ .snapshotEnd :: live.map .binary)

/-- The same stream as messages, its snapshot in any pieces. -/
def servedMessages (chunks live : List Bytes) : List Message :=
  writeJSON (terminalSnapshotControl "terminal_snapshot_start" (some chunks.flatten.length)) ::
    (chunks.map .binary ++ writeJSON (terminalSnapshotControl "terminal_snapshot_end" none) :: live.map .binary)

theorem parse_writeJSON (value : Json.Value) : Json.parse (Connector.marshal value ++ "\n") = some value := by
  have stops : Json.Stops ['\n'] := by
    intro c hc
    cases hc
    decide
  have text : Connector.marshal value ++ "\n" =
      String.ofList (Json.render Connector.htmlEscaped value ++ ['\n']) := by
    rw [String.ofList_append]
    rfl
  rw [text]
  exact Json.parse_render_space Connector.basic_html value stops rfl

theorem messageEvent_start {bytes : Nat} (small : bytes ≤ maxTerminalSnapshotBytes) :
    messageEvent (writeJSON (terminalSnapshotControl "terminal_snapshot_start" (some bytes))) =
      .ok (some (startEvent bytes)) := by
  have limit : maxTerminalSnapshotBytes = 2097152 := rfl
  have exact : (Json.ofInt (bytes : ℤ)).toDouble = .finite ((bytes : ℤ) : ℚ) := by
    apply toDouble_ofInt
    rw [abs_of_nonneg (Int.natCast_nonneg bytes)]
    omega
  simp only [messageEvent, writeJSON, parse_writeJSON, terminalSnapshotControl, Option.map_some,
    Option.toList_some, terminalStreamControl, Relay.member, List.reverse_cons, List.reverse_nil, List.nil_append,
    List.cons_append, List.find?_cons, decide_true, decide_false, String.reduceEq, startEvent, exact]

theorem messageEvent_end :
    messageEvent (writeJSON (terminalSnapshotControl "terminal_snapshot_end" none)) =
      .ok (some endEvent) := by
  simp only [messageEvent, writeJSON, parse_writeJSON, terminalSnapshotControl, Option.map_none,
    Option.toList_none, terminalStreamControl, Relay.member, List.reverse_cons, List.reverse_nil, List.nil_append,
    List.find?_cons, decide_true, decide_false, String.reduceEq, List.find?_nil, Option.map_some, endEvent]

/-- The status at the end of a session is no control of the stream. -/
theorem messageEvent_status (running : Bool) (exitCode : Option Int) (signal : String) (alreadyExited : Bool)
    {message : Message} (h : frameMessage (.status running exitCode signal alreadyExited) = some message) :
    messageEvent message = .ok none := by
  cases h
  simp only [messageEvent, Connector.parse_marshal, terminalStatus, terminalStreamControl, Relay.member,
    List.reverse_cons, List.reverse_nil, List.nil_append, List.cons_append, List.find?_cons, decide_true,
    Option.map_some]
  rfl

theorem feedMessages_eq_feed {messages : List Message} {events : List Event}
    (h : List.Forall₂ (fun message event => messageEvent message = .ok (some event)) messages events)
    (r : TerminalStreamReconciler) : feedMessages r messages = feed r events := by
  induction h generalizing r with
  | nil => rfl
  | cons first _ ih =>
    rw [feedMessages, first, feed]
    simp only [ih]

theorem forall₂_binary (chunks : List Bytes) :
    List.Forall₂ (fun message event => messageEvent message = .ok (some event))
      (chunks.map Message.binary) (chunks.map Event.binary) := by
  induction chunks with
  | nil => exact .nil
  | cons chunk chunks ih => exact .cons rfl ih

/-- In whatever pieces the snapshot arrives, it becomes one action before the live ones. -/
theorem feed_servedMessages {chunks : List Bytes} (bound : chunks.flatten.length ≤ maxTerminalSnapshotBytes)
    (live : List Bytes) : feedMessages new (servedMessages chunks live) =
      .ok (⟨.live, chunks.flatten.length, chunks.flatten.length, []⟩,
        .snapshot chunks.flatten :: live.map .live) := by
  have events : List.Forall₂ (fun message event => messageEvent message = .ok (some event))
      (servedMessages chunks live)
      (startEvent chunks.flatten.length :: (chunks.map .binary ++ endEvent :: live.map .binary)) :=
    .cons (messageEvent_start bound)
      (List.rel_append (forall₂_binary chunks) (.cons messageEvent_end (forall₂_binary live)))
  rw [feedMessages_eq_feed events]
  exact feed_new.mpr (Or.inr (Or.inr (Or.inl ⟨chunks, live, bound, rfl, rfl, rfl⟩)))

/-- A frame of the stream; pings and the status are not. -/
def streamed : Frame → Bool
  | .snapshotStart _ | .snapshotEnd | .binary _ => true
  | .ping | .status _ _ _ _ => false

/-- The stream frames written so far, by where the handler stands. -/
def Sent (initial : Bytes) (taken : List Bytes) (sent : List Frame) : HandlerPc → Prop
  | .snapshotStart => taken = [] ∧ sent = []
  | .snapshot => taken = [] ∧ sent = [.snapshotStart initial.length] ∧ initial.length > 0
  | .snapshotEnd => taken = [] ∧ sent = .snapshotStart initial.length :: (snapshotFrames initial).map .binary
  | .checkRunning => taken = [] ∧ sent = servedFrames initial []
  | .select | .ping | .status _ => sent = servedFrames initial taken
  | .update data => ∃ before, taken = before ++ [data] ∧ sent = servedFrames initial before
  | .unsubscribe | .returned => sent <+: servedFrames initial taken

theorem servedFrames_snoc (initial : Bytes) (live : List Bytes) (data : Bytes) :
    servedFrames initial (live ++ [data]) = servedFrames initial live ++ [.binary data] := by
  simp [servedFrames]

/-- At every point the frames are the beginning of what the handler serves. -/
theorem sent_prefix {initial : Bytes} {taken : List Bytes} {sent : List Frame} {pc : HandlerPc}
    (h : Sent initial taken sent pc) : sent <+: servedFrames initial taken := by
  cases pc with
  | snapshotStart => rw [h.2]; exact List.nil_prefix
  | snapshot => rw [h.2.1]; exact ⟨_, rfl⟩
  | snapshotEnd => rw [h.2]; exact ⟨.snapshotEnd :: taken.map .binary, by simp [servedFrames]⟩
  | checkRunning => rw [h.1, h.2]
  | select => exact h ▸ List.prefix_rfl
  | ping => exact h ▸ List.prefix_rfl
  | status alreadyExited => exact h ▸ List.prefix_rfl
  | update data =>
    obtain ⟨before, rfl, rfl⟩ := h
    rw [servedFrames_snoc]
    exact List.prefix_append _ _
  | unsubscribe => exact h
  | returned => exact h

theorem filter_snoc (frames : List Frame) (frame : Frame) :
    (frames ++ [frame]).filter streamed = frames.filter streamed ++ if streamed frame then [frame]
      else [] := by
  simp [List.filter_append, List.filter_singleton]

/-- An accepted write keeps account of the stream. -/
theorem sent_write {s : Session} {initial : Bytes} {taken : List Bytes} {frames : List Frame}
    {pc next : HandlerPc} {frame : Frame} (h : Sent initial taken (frames.filter streamed) pc)
    (hp : pending s initial pc = some (frame, next)) :
    Sent initial taken ((frames ++ [frame]).filter streamed) next := by
  rw [filter_snoc]
  cases pc with
  | snapshotStart =>
    obtain ⟨none, sent⟩ := h
    cases Option.some.inj hp
    rw [sent]
    by_cases some : initial.length > 0
    · rw [if_pos some]
      exact ⟨none, rfl, some⟩
    · have no : snapshotFrames initial = [] := if_neg some
      rw [if_neg some]
      exact ⟨none, by rw [no]; rfl⟩
  | snapshot =>
    obtain ⟨none, sent, some⟩ := h
    cases Option.some.inj hp
    have one : snapshotFrames initial = [initial] := if_pos some
    exact ⟨none, by rw [sent, one]; rfl⟩
  | snapshotEnd =>
    obtain ⟨none, sent⟩ := h
    cases Option.some.inj hp
    exact ⟨none, by rw [sent]; rfl⟩
  | update data =>
    obtain ⟨before, taken, sent⟩ := h
    cases Option.some.inj hp
    show _ = _
    rw [sent, taken, servedFrames_snoc]
    rfl
  | ping =>
    cases Option.some.inj hp
    exact (List.append_nil _).trans h
  | status alreadyExited =>
    cases Option.some.inj hp
    show _ <+: _
    rw [show streamed (.status s.running s.exitCode s.signal alreadyExited) = false from rfl]
    exact (List.append_nil _).trans h ▸ List.prefix_rfl
  | checkRunning => cases hp
  | select => cases hp
  | unsubscribe => cases hp
  | returned => cases hp

/-- A handler keeps account of the stream in its own moves. -/
theorem sent_move {s t : Session} {id : Nat} {c : Channel} {h g : Handler} {move : Move}
    (hm : h.move s id move = some (t, g)) (hc : s.channels[id]? = some c)
    (hs : Sent c.initial c.box.taken (h.frames.filter streamed) h.pc) :
    ∃ d, t.channels[id]? = some d ∧ Sent d.initial d.box.taken (g.frames.filter streamed) g.pc := by
  cases move with
  | write accepted =>
    obtain ⟨b, hb, hm⟩ := Option.bind_eq_some_iff.mp hm
    cases Option.some.inj (hb.symm.trans hc)
    obtain ⟨⟨frame, next⟩, hp, hm⟩ := Option.bind_eq_some_iff.mp hm
    cases Option.some.inj hm
    refine ⟨c, hc, ?_⟩
    cases accepted with
    | true => exact sent_write hs hp
    | false => exact sent_prefix hs
  | check =>
    simp only [Handler.move] at hm
    split at hm
    next pc =>
      cases Option.some.inj hm
      rw [pc] at hs
      obtain ⟨none, sent⟩ := hs
      have all : h.frames.filter streamed = servedFrames c.initial c.box.taken := by rw [sent, none]
      refine ⟨c, hc, ?_⟩
      cases s.running with
      | true => exact all
      | false => exact all
    next => cases hm
  | update =>
    simp only [Handler.move] at hm
    split at hm
    next pc =>
      obtain ⟨⟨data, u⟩, hr, hm⟩ := Option.map_eq_some_iff.mp hm
      cases hm
      obtain ⟨b, box, hb, hbox, hu⟩ := receive_eq_some hr
      cases Option.some.inj (hb.symm.trans hc)
      subst hu
      obtain ⟨_, taken⟩ := Mailbox.receive_eq_some hbox
      rw [pc] at hs
      have hlt := (List.getElem?_eq_some_iff.mp hc).1
      exact ⟨{ c with box }, by simp [hlt], c.box.taken, taken, hs⟩
    next => cases hm
  | done =>
    simp only [Handler.move] at hm
    split at hm
    next pc =>
      cases Option.some.inj hm
      rw [pc.1] at hs
      exact ⟨c, hc, hs⟩
    next => cases hm
  | ping =>
    simp only [Handler.move] at hm
    split at hm
    next pc =>
      cases Option.some.inj hm
      rw [pc] at hs
      exact ⟨c, hc, hs⟩
    next => cases hm
  | gone =>
    simp only [Handler.move] at hm
    split at hm
    next pc => cases Option.some.inj hm; exact ⟨c, hc, sent_prefix hs⟩
    next => cases hm
  | unsubscribe =>
    simp only [Handler.move] at hm
    split at hm
    next pc =>
      cases Option.some.inj hm
      exact ⟨c.cancel, by simp [Session.cancel, hc], sent_prefix hs⟩
    next => cases hm

/-- Only the holder of a channel takes chunks from it. -/
theorem same_channel {s t : Session} {a : Action} {id : Nat} {c : Channel} (ht : s.step a = some t)
    (hc : s.channels[id]? = some c) (hr : a ≠ .receive id) :
    ∃ d, t.channels[id]? = some d ∧ d.initial = c.initial ∧ d.box.taken = c.box.taken := by
  obtain ⟨d, hd, next⟩ := channel_step ht hc
  refine ⟨d, hd, (next_fields next).1, ?_⟩
  cases next with
  | publish =>
    unfold Channel.publish
    split
    next => exact Mailbox.taken_offer _ _ _
    next => rfl
  | cancel => rfl
  | receive he => exact absurd he hr
  | same => rfl

/-- Each handler has its own channel, and the handler with this one has kept account. -/
structure Streams (id : Nat) (s : State) : Prop where
  paired : s.handlers.length = s.session.channels.length
  sent : ∀ h c, s.handlers[id]? = some h → s.session.channels[id]? = some c →
    Sent c.initial c.box.taken (h.frames.filter streamed) h.pc

theorem sent_session {s : State} {t : Session} {a : Action} {id : Nat} {h : Handler} {d : Channel}
    (hs : Streams id s) (ht : s.session.step a = some t) (hr : a ≠ .receive id) (hh : s.handlers[id]? = some h)
    (hd : t.channels[id]? = some d) : Sent d.initial d.box.taken (h.frames.filter streamed) h.pc := by
  have hlt : id < s.session.channels.length := hs.paired ▸ (List.getElem?_eq_some_iff.mp hh).1
  have hc := List.getElem?_eq_getElem hlt
  obtain ⟨e, he, initial, taken⟩ := same_channel ht hc hr
  cases Option.some.inj (he.symm.trans hd)
  rw [initial, taken]
  exact hs.sent h _ hh hc

theorem streams_capture {s t : State} {a : Action} {id : Nat} (hs : Streams id s) (ht : s.capture a = some t)
    (ha : a ≠ .subscribe) (hr : a ≠ .receive id) : Streams id t := by
  obtain ⟨session, hu, rfl⟩ := Option.map_eq_some_iff.mp ht
  constructor
  · rcases channels_step hu with same | ⟨he, _⟩
    · exact hs.paired.trans same.symm
    · exact absurd he ha
  · exact fun h c hh hc => sent_session hs hu hr hh hc

theorem streams_connect {s : State} {id : Nat} (hs : Streams id s) :
    Streams id ⟨s.session.subscribe, s.handlers ++ [⟨.snapshotStart, []⟩]⟩ := by
  constructor
  · simp [Session.subscribe, hs.paired]
  · intro h c hh hc
    by_cases hlt : id < s.handlers.length
    · rw [List.getElem?_append_left hlt] at hh
      exact @sent_session _ _ .subscribe _ _ _ hs rfl (by rintro ⟨⟩) hh hc
    · have last : id = s.handlers.length := by
        have bound := (List.getElem?_eq_some_iff.mp hh).1
        rw [List.length_append, List.length_singleton] at bound
        omega
      subst last
      rw [List.getElem?_concat_length] at hh
      cases Option.some.inj hh
      rw [hs.paired] at hc
      cases Option.some.inj (hc.symm.trans (subscribe_channel s.session))
      exact ⟨rfl, rfl⟩

theorem streams_handler {s t : State} {id other : Nat} {move : Move} (hs : Streams id s)
    (ht : step s (.handler other move) = some t) : Streams id t := by
  have session := step_session ht
  obtain ⟨g, hg, ht⟩ := Option.bind_eq_some_iff.mp ht
  obtain ⟨⟨u, k⟩, hm, ht⟩ := Option.bind_eq_some_iff.mp ht
  cases Option.some.inj ht
  simp only [Label.action] at session
  constructor
  · show (s.handlers.set other k).length = u.channels.length
    rw [List.length_set, hs.paired]
    cases ha : move.action other with
    | none => rw [ha] at session; rw [session]
    | some a =>
      rw [ha] at session
      rcases channels_step session with same | ⟨he, _⟩
      · exact same.symm
      · exact absurd he (move_action id ha).2.1
  · intro h c hh hc
    by_cases he : other = id
    · subst he
      have hlt := (List.getElem?_eq_some_iff.mp hg).1
      rw [List.getElem?_set_self hlt] at hh
      cases Option.some.inj hh
      have own := List.getElem?_eq_getElem (hs.paired ▸ hlt)
      obtain ⟨d, hd, sent⟩ := sent_move hm own (hs.sent g _ hg own)
      cases Option.some.inj (hd.symm.trans hc)
      exact sent
    · rw [List.getElem?_set_ne he] at hh
      cases ha : move.action other with
      | none =>
        rw [ha] at session
        cases session
        exact hs.sent h c hh hc
      | some a =>
        rw [ha] at session
        obtain ⟨_, _, away⟩ := move_action id ha
        exact sent_session hs session (away he).1 hh hc

theorem streams_step {s t : State} {l : Label} {id : Nat} (hs : Streams id s) (ht : step s l = some t) :
    Streams id t := by
  cases l with
  | publish data => exact streams_capture hs ht nofun nofun
  | readError => exact streams_capture hs ht nofun nofun
  | finish exitCode signal => exact streams_capture hs ht nofun nofun
  | connect => cases Option.some.inj ht; exact streams_connect hs
  | handler other move => exact streams_handler hs ht

theorem tailed_session {s t : State} {l : Label} (h : Tailed s.session) (ht : step s l = some t) :
    Tailed t.session := by
  have session := step_session ht
  cases ha : l.action with
  | none =>
    rw [ha] at session
    exact session ▸ h
  | some a =>
    rw [ha] at session
    exact tailed_step h session

/-- What a handler has written is the beginning of the stream it serves, whose snapshot `publish` has bounded. -/
theorem handler_streams {labels : List Label} {s : State} {id : Nat} {h : Handler} {c : Channel}
    (run : exec step TerminalHandler.initial labels = some s) (hh : s.handlers[id]? = some h)
    (hc : s.session.channels[id]? = some c) :
    c.initial.length ≤ maxScrollback ∧ h.frames.filter streamed <+: servedFrames c.initial c.box.taken := by
  have preserve : ∀ (s : State) (l : Label) (t : State), Streams id s ∧ Tailed s.session → step s l = some t →
      Streams id t ∧ Tailed t.session := by
    intro s l t ⟨streams, tailed⟩ ht
    exact ⟨streams_step streams ht, tailed_session tailed ht⟩
  have start : Streams id TerminalHandler.initial ∧ Tailed TerminalHandler.initial.session :=
    ⟨⟨rfl, nofun⟩, tailed_start⟩
  obtain ⟨streams, tailed⟩ := exec_invariant preserve start run
  refine ⟨?_, sent_prefix (streams.sent h c hh hc)⟩
  obtain ⟨_, snapshot⟩ := tailed.snapshots c (List.mem_of_getElem? hc)
  rw [snapshot, length_keepLast]
  exact Nat.min_le_left _ _

theorem servedFrames_messages (scrollback : Bytes) (live : List Bytes) :
    (servedFrames scrollback live).filterMap frameMessage = servedMessages
    (snapshotFrames scrollback) live := by
  have data : ∀ chunks : List Bytes, (chunks.map Frame.binary).filterMap frameMessage = chunks.map Message.binary := by
    intro chunks
    induction chunks with
    | nil => rfl
    | cons chunk chunks ih => exact congrArg (Message.binary chunk :: ·) ih
  have length : (snapshotFrames scrollback).flatten.length = scrollback.length := by
    unfold snapshotFrames
    split
    next => simp
    next empty =>
      simp only [List.flatten_nil, List.length_nil]
      omega
  simp only [servedFrames, servedMessages, length, List.filterMap_cons, List.filterMap_append, data, frameMessage]

theorem ignored_frame {frame : Frame} (other : streamed frame = false) {message : Message}
    (h : frameMessage frame = some message) : messageEvent message = .ok none := by
  cases frame with
  | snapshotStart bytes => cases other
  | snapshotEnd => cases other
  | binary data => cases other
  | ping => cases h
  | status running exitCode signal alreadyExited => exact messageEvent_status running exitCode signal alreadyExited h

/-- The reconciler fails at an event exactly when that is the first to leave the protocol. -/
theorem fails_first_iff (events : List Event) (event : Event) :
    ((∃ out, feed new events = .ok out) ∧ ∃ e, feed new (events ++ [event]) = .error e) ↔
      (∃ rest, Protocol (events ++ rest)) ∧ ¬ ∃ rest, Protocol (events ++ event :: rest) := by
  have next : (∃ out, feed new (events ++ [event]) = .ok out) ↔ ∃ rest, Protocol (events ++ event :: rest) := by
    rw [feed_ok_iff_front]
    simp only [List.append_assoc, List.singleton_append]
  rw [← feed_ok_iff_front, ← next]
  refine and_congr_right fun _ => ?_
  cases feed new (events ++ [event]) with
  | error e => simp
  | ok out => simp

end TermLinks.TerminalReconnect
