import TermLinks.SessionStream

namespace TermLinks.TerminalHandler

open SessionStream

/-- What the `terminal` handler writes to its socket. -/
inductive Frame
  | snapshotStart (bytes : Nat)
  | snapshotEnd
  | binary (data : Bytes)
  | ping
  | status (running : Bool) (exitCode : Option Int) (signal : String) (alreadyExited : Bool)
deriving DecidableEq

/-- Where a handler stands after `Subscribe`; at each of the first three and at `update`, `ping` and
`status` it is about to write. -/
inductive HandlerPc
  | snapshotStart | snapshot | snapshotEnd
  | checkRunning
  | select
  | update (data : Bytes)
  | ping
  | status (alreadyExited : Bool)
  | unsubscribe
  | returned
deriving DecidableEq

structure Handler where
  pc : HandlerPc
  frames : List Frame
deriving DecidableEq

/-- The frame a handler is about to write, and where it goes on once the socket accepts it. -/
def pending (s : Session) (initial : Bytes) : HandlerPc → Option (Frame × HandlerPc)
  | .snapshotStart => some
    (.snapshotStart initial.length, if initial.length > 0 then .snapshot else .snapshotEnd)
  | .snapshot => some (.binary initial, .snapshotEnd)
  | .snapshotEnd => some (.snapshotEnd, .checkRunning)
  | .update data => some (.binary data, .select)
  | .ping => some (.ping, .select)
  | .status alreadyExited => some (.status s.running s.exitCode s.signal alreadyExited, .unsubscribe)
  | _ => none

/-- The steps of a handler; `update`, `done`, `ping` and `gone` are the cases of its select, the last
for a read error or a cancelled request. -/
inductive Move
  | write (accepted : Bool)
  | check
  | update
  | done
  | ping
  | gone
  | unsubscribe
deriving DecidableEq

def Handler.move (s : Session) (id : Nat) (h : Handler) : Move → Option (Session × Handler)
  | .write accepted => do
    let c ← s.channels[id]?
    let (frame, next) ← pending s c.initial h.pc
    return (s, if accepted then ⟨next, h.frames ++ [frame]⟩ else ⟨.unsubscribe, h.frames⟩)
  | .check =>
    if h.pc = .checkRunning then some (s, ⟨if s.running then .select else .status true, h.frames⟩) else none
  | .update =>
    if h.pc = .select then (s.receive id).map fun (data, s) => (s, ⟨.update data, h.frames⟩) else none
  | .done => if h.pc = .select ∧ s.done then some (s, ⟨.status false, h.frames⟩) else none
  | .ping => if h.pc = .select then some (s, ⟨.ping, h.frames⟩) else none
  | .gone => if h.pc = .select then some (s, ⟨.unsubscribe, h.frames⟩) else none
  | .unsubscribe => if h.pc = .unsubscribe then some (s.cancel id, ⟨.returned, h.frames⟩) else none

/-- A session with the handlers attached to it, by their subscription. -/
structure State where
  session : Session
  handlers : List Handler
deriving DecidableEq

def initial : State := ⟨start, []⟩

inductive Label
  | publish (data : Bytes)
  | readError
  | finish (exitCode : Int) (signal : String)
  | connect
  | handler (id : Nat) (move : Move)
deriving DecidableEq

def State.capture (s : State) (a : Action) : Option State :=
  (s.session.step a).map fun session => { s with session }

def step (s : State) : Label → Option State
  | .publish data => s.capture (.publish data)
  | .readError => s.capture .readError
  | .finish exitCode signal => s.capture (.finish exitCode signal)
  | .connect => some ⟨s.session.subscribe, s.handlers ++ [⟨.snapshotStart, []⟩]⟩
  | .handler id move => do
    let h ← s.handlers[id]?
    let (session, h) ← h.move s.session id move
    return ⟨session, s.handlers.set id h⟩

def Frame.data : Frame → Option Bytes
  | .binary data => some data
  | _ => none

/-- The binary frames among those written. -/
def binaries (frames : List Frame) : List Bytes := frames.filterMap Frame.data

/-- The binary frames of a snapshot: none for an empty one. -/
def snapshotFrames (initial : Bytes) : List Bytes := if initial.length > 0 then [initial] else []

/-- The binary frames written so far, by where the handler stands. -/
def Written (initial : Bytes) (taken sent : List Bytes) : HandlerPc → Prop
  | .snapshotStart => taken = [] ∧ sent = []
  | .snapshot => taken = [] ∧ sent = [] ∧ initial.length > 0
  | .snapshotEnd | .checkRunning => taken = [] ∧ sent = snapshotFrames initial
  | .select | .ping | .status _ => sent = snapshotFrames initial ++ taken
  | .update data => ∃ before, taken = before ++ [data] ∧ sent = snapshotFrames initial ++ before
  | .unsubscribe | .returned => True

theorem binaries_snoc (frames : List Frame) (frame : Frame) :
    binaries (frames ++ [frame]) = binaries frames ++ frame.data.toList := by
  simp only [binaries, List.filterMap_append]
  congr 1

/-- An accepted write keeps account of the binary frames. -/
theorem written_write {s : Session} {initial : Bytes} {taken : List Bytes} {frames : List Frame}
    {pc next : HandlerPc} {frame : Frame} (h : Written initial taken (binaries frames) pc)
    (hp : pending s initial pc = some (frame, next)) :
    Written initial taken (binaries (frames ++ [frame])) next := by
  rw [binaries_snoc]
  cases pc with
  | snapshotStart =>
    obtain ⟨ht, hs⟩ := h
    cases Option.some.inj hp
    split
    next hl => exact ⟨ht, by simp [hs, Frame.data], hl⟩
    next hl => exact ⟨ht, by simp [hs, Frame.data, snapshotFrames, hl]⟩
  | snapshot =>
    obtain ⟨ht, hs, hl⟩ := h
    cases Option.some.inj hp
    exact ⟨ht, by simp [hs, Frame.data, snapshotFrames, hl]⟩
  | snapshotEnd =>
    obtain ⟨ht, hs⟩ := h
    cases Option.some.inj hp
    exact ⟨ht, by simp [hs, Frame.data]⟩
  | update data =>
    obtain ⟨before, ht, hs⟩ := h
    cases Option.some.inj hp
    show _ = _
    rw [hs, ht, Frame.data, Option.toList_some, List.append_assoc]
  | ping =>
    cases Option.some.inj hp
    exact (List.append_nil _).trans h
  | status alreadyExited => cases Option.some.inj hp; trivial
  | checkRunning => cases hp
  | select => cases hp
  | unsubscribe => cases hp
  | returned => cases hp

/-- How a handler stands to its channel. -/
structure Attached (published : List Bytes) (c : Channel) (h : Handler) : Prop where
  written : Written c.initial c.box.taken (binaries h.frames) h.pc
  contiguous : Contiguous published c
  subscribed : h.pc ≠ .returned → c.subscribed = true

/-- What the session does in a step of a handler. -/
def Move.action (id : Nat) : Move → Option Action
  | .update => some (.receive id)
  | .unsubscribe => some (.cancel id)
  | _ => none

/-- What the session does in a step. -/
def Label.action : Label → Option Action
  | .publish data => some (.publish data)
  | .readError => some .readError
  | .finish exitCode signal => some (.finish exitCode signal)
  | .connect => some .subscribe
  | .handler id move => move.action id

theorem move_session {s t : Session} {id : Nat} {h g : Handler} {move : Move}
    (hm : h.move s id move = some (t, g)) :
    match move.action id with
    | none => t = s
    | some a => s.step a = some t := by
  cases move with
  | write accepted =>
    obtain ⟨c, _, hm⟩ := Option.bind_eq_some_iff.mp hm
    obtain ⟨⟨frame, next⟩, _, hm⟩ := Option.bind_eq_some_iff.mp hm
    cases Option.some.inj hm
    rfl
  | check =>
    simp only [Handler.move] at hm
    split at hm
    next => cases Option.some.inj hm; rfl
    next => cases hm
  | update =>
    simp only [Handler.move] at hm
    split at hm
    next =>
      obtain ⟨⟨data, u⟩, hr, hm⟩ := Option.map_eq_some_iff.mp hm
      cases hm
      exact Option.map_eq_some_iff.mpr ⟨_, hr, rfl⟩
    next => cases hm
  | done =>
    simp only [Handler.move] at hm
    split at hm
    next => cases Option.some.inj hm; rfl
    next => cases hm
  | ping =>
    simp only [Handler.move] at hm
    split at hm
    next => cases Option.some.inj hm; rfl
    next => cases hm
  | gone =>
    simp only [Handler.move] at hm
    split at hm
    next => cases Option.some.inj hm; rfl
    next => cases hm
  | unsubscribe =>
    simp only [Handler.move] at hm
    split at hm
    next => cases Option.some.inj hm; rfl
    next => cases hm

theorem step_session {s t : State} {l : Label} (h : step s l = some t) :
    match l.action with
    | none => t.session = s.session
    | some a => s.session.step a = some t.session := by
  cases l with
  | publish data => obtain ⟨u, hu, rfl⟩ := Option.map_eq_some_iff.mp h; exact hu
  | readError => obtain ⟨u, hu, rfl⟩ := Option.map_eq_some_iff.mp h; exact hu
  | finish exitCode signal => obtain ⟨u, hu, rfl⟩ := Option.map_eq_some_iff.mp h; exact hu
  | connect => cases Option.some.inj h; rfl
  | handler id move =>
    obtain ⟨g, _, h⟩ := Option.bind_eq_some_iff.mp h
    obtain ⟨⟨u, k⟩, hm, h⟩ := Option.bind_eq_some_iff.mp h
    cases Option.some.inj h
    exact move_session hm

/-- No publish of the step finds the subscriber's channel full. -/
def Roomy (id : Nat) (s : State) (l : Label) : Prop :=
  ∀ a, l.action = some a → FindsRoom id s.session a

theorem attached_other {s t : Session} {a : Action} {id : Nat} {c : Channel} {h : Handler}
    (ht : s.step a = some t) (room : FindsRoom id s a) (hc : s.channels[id]? = some c)
    (hr : a ≠ .receive id) (hn : a ≠ .cancel id) (ha : Attached s.published c h) :
    ∃ d, t.channels[id]? = some d ∧ Attached t.published d h := by
  obtain ⟨d, hd, next⟩ := channel_step ht hc
  have contiguous := contiguous_step ht room hc next ha.contiguous
  have same : d.initial = c.initial ∧ d.box.taken = c.box.taken ∧ d.subscribed = c.subscribed := by
    cases next with
    | publish =>
      unfold Channel.publish
      split
      next => exact ⟨rfl, Mailbox.taken_offer _ _ _, rfl⟩
      next => exact ⟨rfl, rfl, rfl⟩
    | cancel he => exact absurd he hn
    | receive he => exact absurd he hr
    | same => exact ⟨rfl, rfl, rfl⟩
  obtain ⟨initial, taken, subscribed⟩ := same
  refine ⟨d, hd, ?_, contiguous, ?_⟩
  · rw [initial, taken]
    exact ha.written
  · rw [subscribed]
    exact ha.subscribed

theorem attached_move {s t : Session} {id : Nat} {c : Channel} {h g : Handler} {move : Move}
    (hm : h.move s id move = some (t, g)) (hc : s.channels[id]? = some c)
    (ha : Attached s.published c h) : ∃ d, t.channels[id]? = some d ∧ Attached t.published d g := by
  cases move with
  | write accepted =>
    obtain ⟨b, hb, hm⟩ := Option.bind_eq_some_iff.mp hm
    cases Option.some.inj (hb.symm.trans hc)
    obtain ⟨⟨frame, next⟩, hp, hm⟩ := Option.bind_eq_some_iff.mp hm
    cases Option.some.inj hm
    have live : c.subscribed = true := ha.subscribed (by intro he; simp [he, pending] at hp)
    refine ⟨c, hc, ?_, ha.contiguous, fun _ => live⟩
    cases accepted with
    | true => exact written_write ha.written hp
    | false => trivial
  | check =>
    simp only [Handler.move] at hm
    split at hm
    next he =>
      cases Option.some.inj hm
      have live : c.subscribed = true := ha.subscribed (by simp [he])
      have written := ha.written
      rw [he] at written
      obtain ⟨taken, sent⟩ := written
      refine ⟨c, hc, ?_, ha.contiguous, fun _ => live⟩
      have all : binaries h.frames = snapshotFrames c.initial ++ c.box.taken := by simp [taken, sent]
      cases s.running with
      | true => exact all
      | false => exact all
    next => cases hm
  | update =>
    simp only [Handler.move] at hm
    split at hm
    next he =>
      obtain ⟨⟨data, u⟩, hr, hm⟩ := Option.map_eq_some_iff.mp hm
      cases hm
      obtain ⟨b, box, hb, hbox, hu⟩ := receive_eq_some hr
      cases Option.some.inj (hb.symm.trans hc)
      subst hu
      obtain ⟨contents, taken⟩ := Mailbox.receive_eq_some hbox
      have written := ha.written
      rw [he] at written
      have hlt := (List.getElem?_eq_some_iff.mp hc).1
      refine ⟨{ c with box }, by simp [hlt], ⟨c.box.taken, taken, written⟩, ?_, fun _ => ha.subscribed (by simp [he])⟩
      exact ⟨ha.contiguous.since, contents ▸ ha.contiguous.contents, fun live => contents ▸ ha.contiguous.live live⟩
    next => cases hm
  | done =>
    simp only [Handler.move] at hm
    split at hm
    next he =>
      cases Option.some.inj hm
      have written := ha.written
      rw [he.1] at written
      exact ⟨c, hc, written, ha.contiguous, fun _ => ha.subscribed (by simp [he.1])⟩
    next => cases hm
  | ping =>
    simp only [Handler.move] at hm
    split at hm
    next he =>
      cases Option.some.inj hm
      have written := ha.written
      rw [he] at written
      exact ⟨c, hc, written, ha.contiguous, fun _ => ha.subscribed (by simp [he])⟩
    next => cases hm
  | gone =>
    simp only [Handler.move] at hm
    split at hm
    next he =>
      cases Option.some.inj hm
      exact ⟨c, hc, trivial, ha.contiguous, fun _ => ha.subscribed (by simp [he])⟩
    next => cases hm
  | unsubscribe =>
    simp only [Handler.move] at hm
    split at hm
    next he =>
      cases Option.some.inj hm
      refine ⟨c.cancel, by simp [Session.cancel, hc], trivial, ?_, fun hn => absurd rfl hn⟩
      exact ⟨ha.contiguous.since, ha.contiguous.contents, (by rintro ⟨⟩)⟩
    next => cases hm

/-- Each handler has its own channel, and the handler with this one is attached to it. -/
structure Serves (id : Nat) (s : State) : Prop where
  paired : s.handlers.length = s.session.channels.length
  attached : ∀ h c, s.handlers[id]? = some h → s.session.channels[id]? = some c →
    Attached s.session.published c h

/-- A step of the session itself, or of another handler. -/
theorem attached_session {s : State} {t : Session} {a : Action} {id : Nat} {h : Handler} {d : Channel}
    (hs : Serves id s) (ht : s.session.step a = some t) (room : FindsRoom id s.session a)
    (hr : a ≠ .receive id) (hn : a ≠ .cancel id) (hh : s.handlers[id]? = some h)
    (hd : t.channels[id]? = some d) : Attached t.published d h := by
  have hlt : id < s.session.channels.length := hs.paired ▸ (List.getElem?_eq_some_iff.mp hh).1
  have hc := List.getElem?_eq_getElem hlt
  obtain ⟨e, he, attached⟩ := attached_other ht room hc hr hn (hs.attached h _ hh hc)
  cases Option.some.inj (he.symm.trans hd)
  exact attached

theorem serves_capture {s t : State} {a : Action} {id : Nat} (hs : Serves id s) (ht : s.capture a = some t)
    (room : FindsRoom id s.session a) (ha : a ≠ .subscribe) (hr : a ≠ .receive id) (hn : a ≠ .cancel id) :
    Serves id t := by
  obtain ⟨session, hu, rfl⟩ := Option.map_eq_some_iff.mp ht
  constructor
  · rcases channels_step hu with same | ⟨he, _⟩
    · exact hs.paired.trans same.symm
    · exact absurd he ha
  · intro h c hh hc
    exact attached_session hs hu room hr hn hh hc

theorem serves_connect {s : State} {id : Nat} (hs : Serves id s) :
    Serves id ⟨s.session.subscribe, s.handlers ++ [⟨.snapshotStart, []⟩]⟩ := by
  constructor
  · simp [Session.subscribe, hs.paired]
  · intro h c hh hc
    by_cases hlt : id < s.handlers.length
    · rw [List.getElem?_append_left hlt] at hh
      exact attached_session hs (a := .subscribe) rfl (fun chunk => absurd rfl chunk)
        (by rintro ⟨⟩) (by rintro ⟨⟩) hh hc
    · have last : id = s.handlers.length := by
        have bound := (List.getElem?_eq_some_iff.mp hh).1
        rw [List.length_append, List.length_singleton] at bound
        omega
      subst last
      rw [List.getElem?_concat_length] at hh
      cases Option.some.inj hh
      rw [hs.paired] at hc
      cases Option.some.inj (hc.symm.trans (subscribe_channel s.session))
      exact ⟨⟨rfl, rfl⟩, contiguous_subscribe s.session, fun _ => rfl⟩

theorem move_action (id : Nat) {other : Nat} {move : Move} {a : Action} (h : move.action other = some a) :
    a.chunk = none ∧ a ≠ .subscribe ∧ (other ≠ id → a ≠ .receive id ∧ a ≠ .cancel id) := by
  cases move with
  | update => cases h; exact ⟨rfl, nofun, fun hn => ⟨fun he => hn (Action.receive.inj he), nofun⟩⟩
  | unsubscribe => cases h; exact ⟨rfl, nofun, fun hn => ⟨nofun, fun he => hn (Action.cancel.inj he)⟩⟩
  | write accepted => cases h
  | check => cases h
  | done => cases h
  | ping => cases h
  | gone => cases h

theorem serves_handler {s t : State} {id other : Nat} {move : Move} (hs : Serves id s)
    (ht : step s (.handler other move) = some t) : Serves id t := by
  have session := step_session ht
  obtain ⟨g, hg, ht⟩ := Option.bind_eq_some_iff.mp ht
  obtain ⟨⟨u, k⟩, hm, ht⟩ := Option.bind_eq_some_iff.mp ht
  cases Option.some.inj ht
  simp only [Label.action] at session
  constructor
  · show (s.handlers.set other k).length = u.channels.length
    rw [List.length_set, hs.paired]
    cases ha : move.action other with
    | none => rw [ha] at session; rw [session]
    | some a =>
      rw [ha] at session
      rcases channels_step session with same | ⟨he, _⟩
      · exact same.symm
      · exact absurd he (move_action id ha).2.1
  · intro h c hh hc
    by_cases he : other = id
    · subst he
      have hlt := (List.getElem?_eq_some_iff.mp hg).1
      rw [List.getElem?_set_self hlt] at hh
      cases Option.some.inj hh
      have own := List.getElem?_eq_getElem (hs.paired ▸ hlt)
      obtain ⟨d, hd, attached⟩ := attached_move hm own (hs.attached g _ hg own)
      cases Option.some.inj (hd.symm.trans hc)
      exact attached
    · rw [List.getElem?_set_ne he] at hh
      cases ha : move.action other with
      | none =>
        rw [ha] at session
        cases session
        exact hs.attached h c hh hc
      | some a =>
        rw [ha] at session
        obtain ⟨chunk, _, away⟩ := move_action id ha
        exact attached_session hs session (fun hn => absurd chunk hn) (away he).1 (away he).2 hh hc

theorem serves_step {s t : State} {l : Label} {id : Nat} (hs : Serves id s) (room : Roomy id s l)
    (ht : step s l = some t) : Serves id t := by
  cases l with
  | publish data => exact serves_capture hs ht (room _ rfl) nofun nofun nofun
  | readError => exact serves_capture hs ht (room _ rfl) nofun nofun nofun
  | finish exitCode signal => exact serves_capture hs ht (room _ rfl) nofun nofun nofun
  | connect => cases Option.some.inj ht; exact serves_connect hs
  | handler other move => exact serves_handler hs ht

theorem serves_initial (id : Nat) : Serves id initial := ⟨rfl, nofun⟩

/-- In every run without overflow, the frames before a status frame are the snapshot and then every
chunk published since exactly when the status frame is written with nothing left in the channel. -/
theorem status_follows_output_iff {labels : List Label} {s t : State} {id : Nat} {h : Handler} {c : Channel}
    {alreadyExited : Bool} (run : exec step initial labels = some s)
    (room : Along step (Roomy id) initial labels) (hh : s.handlers[id]? = some h)
    (hc : s.session.channels[id]? = some c) (pc : h.pc = .status alreadyExited)
    (ht : step s (.handler id (.write true)) = some t) :
    ∃ g, t.handlers[id]? = some g ∧
      g.frames = h.frames ++
        [.status s.session.running s.session.exitCode s.session.signal alreadyExited] ∧
      (binaries g.frames = snapshotFrames c.initial ++ s.session.published.drop c.since ↔
        c.box.buffer = []) := by
  have serves := exec_preserves (fun s l t hi hg ht => serves_step hi hg ht) (serves_initial id) run room
  have attached := serves.attached h c hh hc
  have written := attached.written
  rw [pc] at written
  have live := attached.contiguous.live (attached.subscribed (by simp [pc]))
  have hlt := (List.getElem?_eq_some_iff.mp hh).1
  simp only [step, hh, hc, Handler.move, pending, pc, Option.bind_eq_bind, Option.bind_some, if_true] at ht
  cases Option.some.inj ht
  refine ⟨_, List.getElem?_set_self hlt, rfl, ?_⟩
  have sent : ∀ running exitCode signal, binaries (h.frames ++ [.status running exitCode signal alreadyExited]) =
      binaries h.frames := by
    intro running exitCode signal
    rw [binaries_snoc]
    exact List.append_nil _
  rw [sent, written, ← live, Mailbox.buffer_eq_nil_iff]
  exact List.append_right_inj _

/-- A viewer that attaches to a running command and reads its output `a`. -/
def attaching : List Label :=
  [.connect, .handler 0 (.write true), .handler 0 (.write true), .handler 0 .check, .publish [97],
    .handler 0 .update, .handler 0 (.write true)]

def exiting : List Label := [.readError, .finish 0 "", .handler 0 .done]

theorem roomy_of_short {id : Nat} {s : State} {labels : List Label}
    (h : Along step (fun s _ => ∀ c ∈ s.session.channels, c.box.buffer.length < updateCapacity) s labels) :
    Along step (Roomy id) s labels :=
  along_mono (fun _ _ hs _ _ _ c hc _ => hs c (List.mem_of_getElem? hc)) h

theorem status_follows_output_iff_attached : ∃ s t g c, exec step initial (attaching ++ exiting) = some s ∧
    step s (.handler 0 (.write true)) = some t ∧ t.handlers[0]? = some g ∧ s.session.channels[0]? = some c ∧
    binaries g.frames = snapshotFrames c.initial ++ s.session.published.drop c.since := by
  obtain ⟨s, t, h, c, run, hh, hc, pc, empty, ht⟩ : ∃ s t h c,
      exec step initial (attaching ++ exiting) = some s ∧ s.handlers[0]? = some h ∧
      s.session.channels[0]? = some c ∧ h.pc = .status false ∧ c.box.buffer = [] ∧
      step s (.handler 0 (.write true)) = some t :=
    ⟨_, _, _, _, rfl, rfl, rfl, rfl, rfl, rfl⟩
  have room := @roomy_of_short 0 initial (attaching ++ exiting) (by decide)
  obtain ⟨g, hg, _, all⟩ := status_follows_output_iff run room hh hc pc ht
  exact ⟨s, t, g, c, run, ht, hg, hc, all.mpr empty⟩

/-- The select may take the end of the session while the last chunk is still in the channel. -/
theorem status_before_last_chunk :
    ¬ ∀ (labels : List Label) (s : State) (h : Handler) (c : Channel) (alreadyExited : Bool),
      exec step initial labels = some s → Along step (Roomy 0) initial labels →
      s.handlers[0]? = some h → s.session.channels[0]? = some c → h.pc = .status alreadyExited →
      binaries h.frames = snapshotFrames c.initial ++ s.session.published.drop c.since := by
  intro h
  have room := @roomy_of_short 0 initial (attaching ++ .publish [98] :: exiting) (by decide)
  have all := h (attaching ++ .publish [98] :: exiting) _ _ _ false rfl room rfl rfl rfl
  exact absurd all (by decide)

end TermLinks.TerminalHandler
