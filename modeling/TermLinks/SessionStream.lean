import TermLinks.Exec
import TermLinks.Mailbox
import TermLinks.Octets

namespace TermLinks.SessionStream

def maxScrollback : Nat := 2 * 1024 * 1024

/-- The capacity of a subscriber's channel. -/
def updateCapacity : Nat := 256

/-- A channel made by `Subscribe`: the snapshot returned with it, how many chunks had been published
before, and whether it is still among `subscribers`. -/
structure Channel where
  subscribed : Bool
  initial : Bytes
  since : Nat
  box : Mailbox Bytes
deriving DecidableEq

/-- Where the `capture` goroutine stands. -/
inductive CapturePc
  | reading | waiting | ended
deriving DecidableEq

/-- A session; `channels` by subscription id, `published` every chunk so far. -/
structure Session where
  capture : CapturePc
  running : Bool
  exitCode : Option Int
  signal : String
  done : Bool
  scrollback : Bytes
  channels : List Channel
  published : List Bytes
deriving DecidableEq

def start : Session where
  capture := .reading
  running := true
  exitCode := none
  signal := ""
  done := false
  scrollback := []
  channels := []
  published := []

/-- The non-blocking send of a chunk to one subscriber. -/
def Channel.publish (chunk : Bytes) (channel : Channel) : Channel :=
  if channel.subscribed then { channel with box := channel.box.offer updateCapacity chunk } else channel

def Channel.cancel (channel : Channel) : Channel := { channel with subscribed := false }

namespace Session

def publish (s : Session) (data : Bytes) : Session :=
  let scrollback := s.scrollback ++ data
  { s with
    scrollback := if scrollback.length > maxScrollback then keepLast maxScrollback scrollback else scrollback
    channels := s.channels.map (Channel.publish data)
    published := s.published ++ [data] }

def subscribe (s : Session) : Session :=
  { s with channels := s.channels ++ [⟨true, s.scrollback, s.published.length, .empty⟩] }

/-- The function that `Subscribe` returns. -/
def cancel (s : Session) (id : Nat) : Session := { s with channels := s.channels.modify id Channel.cancel }

/-- `<-updates` by the holder of the channel. -/
def receive (s : Session) (id : Nat) : Option (Bytes × Session) := do
  let channel ← s.channels[id]?
  let (chunk, box) ← channel.box.receive
  return (chunk, { s with channels := s.channels.set id { channel with box } })

/-- The critical section at the end of `capture`. -/
def finish (s : Session) (exitCode : Int) (signal : String) : Session :=
  { s with capture := .ended, running := false, exitCode := some exitCode, signal, done := true }

end Session

/-- What the capture goroutine and the subscribers do. -/
inductive Action
  | publish (data : Bytes)
  | readError
  | finish (exitCode : Int) (signal : String)
  | subscribe
  | cancel (id : Nat)
  | receive (id : Nat)
deriving DecidableEq

def Session.step (s : Session) : Action → Option Session
  | .publish data => if s.capture = .reading then some (s.publish data) else none
  | .readError => if s.capture = .reading then some { s with capture := .waiting } else none
  | .finish exitCode signal => if s.capture = .waiting then some (s.finish exitCode signal) else none
  | .subscribe => some s.subscribe
  | .cancel id => some (s.cancel id)
  | .receive id => (s.receive id).map Prod.snd

/-- The chunk a step publishes. -/
def Action.chunk : Action → Option Bytes
  | .publish data => some data
  | _ => none

theorem receive_eq_some {s t : Session} {id : Nat} {chunk : Bytes} (h : s.receive id = some (chunk, t)) :
    ∃ channel box, s.channels[id]? = some channel ∧ channel.box.receive = some (chunk, box) ∧
      t = { s with channels := s.channels.set id { channel with box } } := by
  obtain ⟨channel, hc, h⟩ := Option.bind_eq_some_iff.mp h
  obtain ⟨⟨taken, box⟩, hb, h⟩ := Option.bind_eq_some_iff.mp h
  cases Option.some.inj h
  exact ⟨channel, box, hc, hb, rfl⟩

/-- What a step makes of a channel. -/
inductive Channel.Next (a : Action) (id : Nat) (c : Channel) : Channel → Prop
  | publish {data : Bytes} (h : a = .publish data) : Next a id c (c.publish data)
  | cancel (h : a = .cancel id) : Next a id c c.cancel
  | receive {chunk : Bytes} {box : Mailbox Bytes} (h : a = .receive id)
      (taken : c.box.receive = some (chunk, box)) : Next a id c { c with box }
  | same (h : a.chunk = none) : Next a id c c

theorem channel_step {s t : Session} {a : Action} {id : Nat} {c : Channel} (h : s.step a = some t)
    (hc : s.channels[id]? = some c) : ∃ d, t.channels[id]? = some d ∧ Channel.Next a id c d := by
  cases a with
  | publish data =>
    simp only [Session.step] at h
    split at h
    next =>
      cases Option.some.inj h
      exact ⟨c.publish data, by simp [Session.publish, hc], .publish rfl⟩
    next => cases h
  | readError =>
    simp only [Session.step] at h
    split at h
    next => cases Option.some.inj h; exact ⟨c, hc, .same rfl⟩
    next => cases h
  | finish exitCode signal =>
    simp only [Session.step] at h
    split at h
    next => cases Option.some.inj h; exact ⟨c, hc, .same rfl⟩
    next => cases h
  | subscribe =>
    cases Option.some.inj h
    have hlt := (List.getElem?_eq_some_iff.mp hc).1
    exact ⟨c, by simp [Session.subscribe, List.getElem?_append_left hlt, hc], .same rfl⟩
  | cancel other =>
    cases Option.some.inj h
    by_cases he : other = id
    · subst he
      exact ⟨c.cancel, by simp [Session.cancel, hc], .cancel rfl⟩
    · exact ⟨c, by simp [Session.cancel, he, hc], .same rfl⟩
  | receive other =>
    obtain ⟨⟨chunk, u⟩, hr, ht⟩ := Option.map_eq_some_iff.mp h
    obtain ⟨channel, box, ho, hb, hu⟩ := receive_eq_some hr
    subst ht
    subst hu
    by_cases he : other = id
    · subst he
      cases Option.some.inj (ho.symm.trans hc)
      have hlt := (List.getElem?_eq_some_iff.mp hc).1
      exact ⟨{ c with box }, by simp [hlt], .receive rfl hb⟩
    · exact ⟨c, by simp [List.getElem?_set_ne he, hc], .same rfl⟩

/-- A publish would put its chunk into the channel. -/
def Channel.accepts (c : Channel) : Bool := c.subscribed && c.box.buffer.length < updateCapacity

theorem contents_next {a : Action} {id : Nat} {c d : Channel} (h : Channel.Next a id c d) :
    d.box.contents = c.box.contents ++ if c.accepts then a.chunk.toList else [] := by
  cases h with
  | publish h =>
    subst h
    unfold Channel.publish
    cases hs : c.subscribed with
    | false => simp [Channel.accepts, hs]
    | true =>
      by_cases room : c.box.buffer.length < updateCapacity
      · simp [Channel.accepts, hs, room, Mailbox.contents_offer, Action.chunk]
      · simp [Channel.accepts, hs, room, Mailbox.offer_of_full]
  | cancel h => subst h; simp [Channel.cancel, Action.chunk]
  | receive h taken =>
    subst h
    simp [(Mailbox.receive_eq_some taken).1, Action.chunk]
  | same h => simp [h]

/-- The chunks of a run that were published while the channel had room for them. -/
def accepted (id : Nat) : Session → List Action → List Bytes
  | _, [] => []
  | s, a :: as =>
    (if s.channels[id]?.any Channel.accepts then a.chunk.toList else []) ++
      match s.step a with
      | none => []
      | some t => accepted id t as

/-- A channel holds, whole and in order, the chunks it had room for. -/
theorem contents_run {actions : List Action} {s t : Session} {id : Nat} {c : Channel}
    (run : exec Session.step s actions = some t) (hc : s.channels[id]? = some c) :
    ∃ d, t.channels[id]? = some d ∧ d.box.contents = c.box.contents ++ accepted id s actions := by
  induction actions generalizing s c with
  | nil =>
    cases Option.some.inj run
    exact ⟨c, hc, by simp [accepted]⟩
  | cons a actions ih =>
    obtain ⟨u, hu, run⟩ := exec_cons_iff.mp run
    obtain ⟨d, hd, next⟩ := channel_step hu hc
    obtain ⟨e, he, contents⟩ := ih run hd
    refine ⟨e, he, ?_⟩
    rw [contents, contents_next next]
    simp [accepted, hc, hu]

/-- The chunks that a run publishes. -/
def publishedBy (actions : List Action) : List Bytes := actions.filterMap Action.chunk

/-- Only a publish changes the stream. -/
theorem step_stream {s t : Session} {a : Action} (h : s.step a = some t) :
    (∃ data, a = .publish data ∧ s.capture = .reading ∧ t = s.publish data) ∨
    (a.chunk = none ∧ t.published = s.published ∧ t.scrollback = s.scrollback) := by
  cases a with
  | publish data =>
    simp only [Session.step] at h
    split at h
    next hr => cases Option.some.inj h; exact Or.inl ⟨data, rfl, hr, rfl⟩
    next => cases h
  | readError =>
    simp only [Session.step] at h
    split at h
    next => cases Option.some.inj h; exact Or.inr ⟨rfl, rfl, rfl⟩
    next => cases h
  | finish exitCode signal =>
    simp only [Session.step] at h
    split at h
    next => cases Option.some.inj h; exact Or.inr ⟨rfl, rfl, rfl⟩
    next => cases h
  | subscribe => cases Option.some.inj h; exact Or.inr ⟨rfl, rfl, rfl⟩
  | cancel id => cases Option.some.inj h; exact Or.inr ⟨rfl, rfl, rfl⟩
  | receive id =>
    obtain ⟨⟨chunk, u⟩, hr, ht⟩ := Option.map_eq_some_iff.mp h
    obtain ⟨channel, box, ho, hb, hu⟩ := receive_eq_some hr
    subst ht
    subst hu
    exact Or.inr ⟨rfl, rfl, rfl⟩

theorem published_step {s t : Session} {a : Action} (h : s.step a = some t) :
    t.published = s.published ++ a.chunk.toList := by
  rcases step_stream h with ⟨data, rfl, _, rfl⟩ | ⟨hc, hp, _⟩
  · rfl
  · rw [hp, hc, Option.toList_none, List.append_nil]

theorem published_run {actions : List Action} {s t : Session} (run : exec Session.step s actions = some t) :
    t.published = s.published ++ publishedBy actions := by
  induction actions generalizing s with
  | nil =>
    cases Option.some.inj run
    simp [publishedBy]
  | cons a actions ih =>
    obtain ⟨u, hu, run⟩ := exec_cons_iff.mp run
    rw [ih run, published_step hu]
    cases ha : a.chunk with
    | none => simp [publishedBy, ha]
    | some data => simp [publishedBy, ha]

/-- The scrollback is the tail of the stream, and so was every snapshot. -/
structure Tailed (s : Session) : Prop where
  scrollback : s.scrollback = keepLast maxScrollback s.published.flatten
  snapshots : ∀ c ∈ s.channels, c.since ≤ s.published.length ∧
    c.initial = keepLast maxScrollback (s.published.take c.since).flatten

theorem next_fields {a : Action} {id : Nat} {c d : Channel} (h : Channel.Next a id c d) :
    d.initial = c.initial ∧ d.since = c.since ∧ (d.subscribed = true → c.subscribed = true) := by
  cases h with
  | publish h =>
    unfold Channel.publish
    split
    next => exact ⟨rfl, rfl, fun hs => hs⟩
    next => exact ⟨rfl, rfl, fun hs => hs⟩
  | cancel h => exact ⟨rfl, rfl, nofun⟩
  | receive h taken => exact ⟨rfl, rfl, fun hs => hs⟩
  | same h => exact ⟨rfl, rfl, fun hs => hs⟩

theorem channels_step {s t : Session} {a : Action} (h : s.step a = some t) :
    t.channels.length = s.channels.length ∨ (a = .subscribe ∧ t = s.subscribe) := by
  cases a with
  | publish data =>
    simp only [Session.step] at h
    split at h
    next => cases Option.some.inj h; exact Or.inl (by simp [Session.publish])
    next => cases h
  | readError =>
    simp only [Session.step] at h
    split at h
    next => cases Option.some.inj h; exact Or.inl rfl
    next => cases h
  | finish exitCode signal =>
    simp only [Session.step] at h
    split at h
    next => cases Option.some.inj h; exact Or.inl rfl
    next => cases h
  | subscribe => exact Or.inr ⟨rfl, (Option.some.inj h).symm⟩
  | cancel id => cases Option.some.inj h; exact Or.inl (by simp [Session.cancel])
  | receive id =>
    obtain ⟨⟨chunk, u⟩, hr, ht⟩ := Option.map_eq_some_iff.mp h
    obtain ⟨channel, box, ho, hb, hu⟩ := receive_eq_some hr
    subst ht
    subst hu
    exact Or.inl (by simp)

theorem tailed_start : Tailed start := ⟨rfl, nofun⟩

theorem scrollback_publish {s : Session} (data : Bytes) :
    (s.publish data).scrollback = keepLast maxScrollback (s.scrollback ++ data) := by
  show (if (s.scrollback ++ data).length > maxScrollback then _ else _) = _
  split
  next => rfl
  next hle => rw [keepLast_of_length_le (Nat.le_of_not_lt hle)]

theorem tailed_step {s t : Session} {a : Action} (h : Tailed s) (ht : s.step a = some t) : Tailed t := by
  have grown := published_step ht
  constructor
  · rcases step_stream ht with ⟨data, rfl, _, rfl⟩ | ⟨_, hp, hs⟩
    · rw [scrollback_publish, h.scrollback, keepLast_append]
      simp [Session.publish]
    · rw [hs, hp]
      exact h.scrollback
  · intro d hd
    rcases channels_step ht with same | ⟨rfl, rfl⟩
    · obtain ⟨i, hi⟩ := List.mem_iff_getElem?.mp hd
      have hlt : i < s.channels.length := same ▸ (List.getElem?_eq_some_iff.mp hi).1
      have hc := List.getElem?_eq_getElem hlt
      obtain ⟨e, he, next⟩ := channel_step ht hc
      cases Option.some.inj (hi.symm.trans he)
      obtain ⟨initial, since, _⟩ := next_fields next
      obtain ⟨bound, snapshot⟩ := h.snapshots _ (List.mem_of_getElem? hc)
      rw [initial, since, grown]
      refine ⟨?_, ?_⟩
      · rw [List.length_append]
        omega
      · rw [List.take_append_of_le_length bound]
        exact snapshot
    · rcases List.mem_append.mp hd with hd | hd
      · exact h.snapshots d hd
      · cases List.mem_singleton.mp hd
        refine ⟨Nat.le_refl _, ?_⟩
        show s.scrollback = keepLast maxScrollback (s.published.take s.published.length).flatten
        rw [List.take_length]
        exact h.scrollback

theorem tailed_run {actions : List Action} {s : Session} (run : exec Session.step start actions = some s) :
    Tailed s := exec_invariant (fun _ _ _ hs ht => tailed_step hs ht) tailed_start run

/-- The step does not publish into a full channel of this subscriber. -/
def FindsRoom (id : Nat) (s : Session) (a : Action) : Prop :=
  a.chunk ≠ none → ∀ c, s.channels[id]? = some c → c.subscribed = true → c.box.buffer.length < updateCapacity

/-- The channel holds the stream since it was made, up to where it was cancelled. -/
structure Contiguous (published : List Bytes) (c : Channel) : Prop where
  since : c.since ≤ published.length
  contents : c.box.contents <+: published.drop c.since
  live : c.subscribed = true → c.box.contents = published.drop c.since

theorem contiguous_step {s t : Session} {a : Action} {id : Nat} {c d : Channel} (ht : s.step a = some t)
    (room : FindsRoom id s a) (hc : s.channels[id]? = some c) (next : Channel.Next a id c d)
    (h : Contiguous s.published c) : Contiguous t.published d := by
  have grown := published_step ht
  have contents := contents_next next
  obtain ⟨_, since, kept⟩ := next_fields next
  have drop : t.published.drop d.since = s.published.drop c.since ++ a.chunk.toList := by
    rw [since, grown, List.drop_append_of_le_length h.since]
  have all : c.subscribed = true → d.box.contents = s.published.drop c.since ++ a.chunk.toList := by
    intro live
    rw [contents, h.live live]
    cases ha : a.chunk with
    | none => simp
    | some data =>
      have accepts : c.accepts = true := by
        simpa [Channel.accepts, live] using room (by simp [ha]) c hc live
      simp [accepts]
  constructor
  · rw [since, grown, List.length_append]
    exact Nat.le_add_right_of_le h.since
  · rw [drop]
    cases live : c.subscribed with
    | true => rw [all live]
    | false =>
      rw [contents]
      simpa [Channel.accepts, live] using h.contents.trans (List.prefix_append _ _)
  · intro live
    rw [drop]
    exact all (kept live)

theorem contiguous_run {actions : List Action} {s t : Session} {id : Nat} {c : Channel}
    (run : exec Session.step s actions = some t) (room : Along Session.step (FindsRoom id) s actions)
    (hc : s.channels[id]? = some c) (h : Contiguous s.published c) :
    ∃ d, t.channels[id]? = some d ∧ d.initial = c.initial ∧ d.since = c.since ∧
      Contiguous t.published d := by
  induction actions generalizing s c with
  | nil =>
    cases Option.some.inj run
    exact ⟨c, hc, rfl, rfl, h⟩
  | cons a actions ih =>
    obtain ⟨u, hu, run⟩ := exec_cons_iff.mp run
    obtain ⟨d, hd, next⟩ := channel_step hu hc
    obtain ⟨initial, since, _⟩ := next_fields next
    obtain ⟨e, he, hi, hs, contiguous⟩ := ih run (room.2 u hu) hd (contiguous_step hu room.1 hc next h)
    exact ⟨e, he, hi.trans initial, hs.trans since, contiguous⟩

theorem subscribe_channel (s : Session) :
    s.subscribe.channels[s.channels.length]? = some ⟨true, s.scrollback, s.published.length, .empty⟩ := by
  simp [Session.subscribe]

theorem contiguous_subscribe (s : Session) :
    Contiguous s.subscribe.published ⟨true, s.scrollback, s.published.length, .empty⟩ := by
  have none : s.published.drop s.published.length = [] := List.drop_length
  exact ⟨Nat.le_refl _, List.nil_prefix, fun _ => none.symm⟩

/-- Snapshot and received chunks are a piece of the stream while the channel holds it without holes. -/
theorem contiguous_infix {s : Session} {c : Channel} (tailed : Tailed s) (hc : c ∈ s.channels)
    (h : Contiguous s.published c) : c.initial ++ c.box.taken.flatten <:+: s.published.flatten := by
  obtain ⟨older, ho⟩ := keepLast_suffix maxScrollback (s.published.take c.since).flatten
  obtain ⟨rest, hr⟩ := (Mailbox.taken_prefix c.box).trans h.contents
  rw [(tailed.snapshots c hc).2]
  refine ⟨older, rest.flatten, ?_⟩
  calc older ++ (keepLast maxScrollback (s.published.take c.since).flatten ++ c.box.taken.flatten) ++
        rest.flatten
      = (older ++ keepLast maxScrollback (s.published.take c.since).flatten) ++
          (c.box.taken ++ rest).flatten := by simp only [List.flatten_append, List.append_assoc]
    _ = (s.published.take c.since).flatten ++ (s.published.drop c.since).flatten := by rw [ho, hr]
    _ = s.published.flatten := by rw [← List.flatten_append, List.take_append_drop]

/-- What a subscriber has received and what waits for it are, whole and in order, the chunks published
since it subscribed that its channel had room for. As long as a publish finds room, it has received a
prefix of the stream since it subscribed, which continues its snapshot. -/
theorem subscriber_receives_accepted {before after : List Action} {s t : Session}
    (run : exec Session.step start before = some s)
    (later : exec Session.step s.subscribe after = some t) :
    ∃ c, t.channels[s.channels.length]? = some c ∧
      c.box.taken ++ c.box.buffer = accepted s.channels.length s.subscribe after ∧
      (Along Session.step (FindsRoom s.channels.length) s.subscribe after →
        c.box.taken.flatten <+: (publishedBy after).flatten ∧
        c.initial ++ c.box.taken.flatten <:+: t.published.flatten) := by
  obtain ⟨c, hc, contents⟩ := contents_run later (subscribe_channel s)
  refine ⟨c, hc, contents, ?_⟩
  intro room
  obtain ⟨d, hd, _, since, contiguous⟩ :=
    contiguous_run later room (subscribe_channel s) (contiguous_subscribe s)
  cases Option.some.inj (hc.symm.trans hd)
  have subscribed : exec Session.step start (before ++ .subscribe :: after) = some t :=
    exec_append_iff.mpr ⟨s, run, exec_cons_iff.mpr ⟨_, rfl, later⟩⟩
  refine ⟨?_, contiguous_infix (tailed_run subscribed) (List.mem_of_getElem? hc) contiguous⟩
  have fresh : t.published.drop c.since = publishedBy after := by
    rw [since, published_run later]
    exact List.drop_left
  have received := (Mailbox.taken_prefix c.box).trans contiguous.contents
  rw [fresh] at received
  obtain ⟨rest, hr⟩ := received
  exact ⟨rest.flatten, by rw [← hr, List.flatten_append]⟩

/-- A subscriber that falls 257 chunks behind and then resumes. -/
def stalled : List Action :=
  List.replicate 257 (.publish [97]) ++ List.replicate 256 (.receive 0) ++ [.publish [98], .receive 0]

theorem subscriber_receives_accepted_stalled : ∃ t c, exec Session.step start.subscribe stalled = some t ∧
    t.channels[0]? = some c ∧ c.box.taken ++ c.box.buffer = List.replicate 256 [97] ++ [[98]] := by
  have run : (exec Session.step start.subscribe stalled).isSome := by decide +kernel
  obtain ⟨t, later⟩ := Option.isSome_iff_exists.mp run
  have fits : accepted 0 start.subscribe stalled = List.replicate 256 [97] ++ [[98]] := by decide +kernel
  obtain ⟨c, hc, contents, _⟩ := @subscriber_receives_accepted [] stalled start t rfl later
  exact ⟨t, c, later, hc, contents.trans fits⟩

/-- `publish` skips a subscriber whose channel is full, so the chunks received around it do not join. -/
theorem stalled_subscriber_misses_chunk :
    ¬ ∀ (before after : List Action) (s t : Session) (c : Channel),
      exec Session.step start before = some s → exec Session.step s.subscribe after = some t →
      t.channels[s.channels.length]? = some c → c.box.taken.flatten <+: (publishedBy after).flatten := by
  intro h
  have run : (exec Session.step start.subscribe stalled).any (fun t =>
      t.channels[0]?.any fun c => decide (¬ c.box.taken.flatten <+: (publishedBy stalled).flatten)) = true := by
    decide +kernel
  obtain ⟨t, later, hc⟩ := (Option.any_eq_true _ _).mp run
  obtain ⟨c, hc, hole⟩ := (Option.any_eq_true _ _).mp hc
  simp only [decide_eq_true_eq] at hole
  exact hole (h [] stalled start t c rfl later hc)

end TermLinks.SessionStream
