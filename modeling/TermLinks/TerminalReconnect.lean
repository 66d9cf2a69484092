import TermLinks.Double
import TermLinks.SessionStream

namespace TermLinks.TerminalReconnect

def maxTerminalSnapshotBytes : Nat := 2 * 1024 * 1024

inductive TerminalStreamControl
  | snapshotStart (bytes : Double)
  | snapshotEnd
deriving DecidableEq

inductive TerminalStreamAction
  | snapshot (data : Bytes)
  | live (data : Bytes)
deriving DecidableEq

inductive StreamPhase
  | awaiting | snapshot | live
deriving DecidableEq

structure TerminalStreamReconciler where
  phase : StreamPhase
  expectedBytes : Int
  receivedBytes : Nat
  chunks : List Bytes
deriving DecidableEq

namespace TerminalStreamReconciler

def new : TerminalStreamReconciler := ⟨.awaiting, 0, 0, []⟩

def receiveControl (r : TerminalStreamReconciler) :
    TerminalStreamControl → Except String (TerminalStreamReconciler × Option TerminalStreamAction)
  | .snapshotStart bytes =>
    if r.phase ≠ .awaiting then .error "Unexpected terminal snapshot start"
    else match bytes.safeInteger with
      | none => .error "Invalid terminal snapshot size"
      | some bytes =>
        if bytes < 0 ∨ bytes > maxTerminalSnapshotBytes then .error "Invalid terminal snapshot size"
        else .ok (⟨.snapshot, bytes, 0, []⟩, none)
  | .snapshotEnd =>
    if r.phase ≠ .snapshot then .error "Unexpected terminal snapshot end"
    else if r.receivedBytes ≠ r.expectedBytes then .error "Incomplete terminal snapshot"
    else .ok ({ r with phase := .live, chunks := [] }, some (.snapshot r.chunks.flatten))

def receiveBinary (r : TerminalStreamReconciler) (data : Bytes) :
    Except String (TerminalStreamReconciler × Option TerminalStreamAction) :=
  match r.phase with
  | .awaiting => .ok ({ r with phase := .live }, some (.snapshot data))
  | .snapshot =>
    if r.receivedBytes + data.length > r.expectedBytes ∨ r.receivedBytes + data.length > maxTerminalSnapshotBytes then
      .error "Terminal snapshot exceeded its declared size"
    else .ok ({ r with receivedBytes := r.receivedBytes + data.length, chunks := r.chunks ++ [data] }, none)
  | .live => .ok (r, some (.live data))

end TerminalStreamReconciler

/-- What a reconciler is given. -/
inductive Event
  | control (control : TerminalStreamControl)
  | binary (data : Bytes)
deriving DecidableEq

open TerminalStreamReconciler

def receive (r : TerminalStreamReconciler) :
    Event → Except String (TerminalStreamReconciler × Option TerminalStreamAction)
  | .control control => r.receiveControl control
  | .binary data => r.receiveBinary data

/-- The actions up to the end of the events; an error ends the stream. -/
def feed (r : TerminalStreamReconciler) :
    List Event → Except String (TerminalStreamReconciler × List TerminalStreamAction)
  | [] => .ok (r, [])
  | event :: events => do
    let (r, action) ← receive r event
    let (r, actions) ← feed r events
    return (r, action.toList ++ actions)

abbrev startEvent (bytes : Nat) : Event := .control (.snapshotStart (.finite (bytes : ℤ)))

abbrev endEvent : Event := .control .snapshotEnd

/-- The streams of the protocol: `start(n) binary* end binary*` with `n` bytes between the two, and the
`binary+` of older daemons. -/
inductive Protocol : List Event → Prop
  | framed (chunks live : List Bytes) (bound : chunks.flatten.length ≤ maxTerminalSnapshotBytes) :
      Protocol (startEvent chunks.flatten.length :: (chunks.map .binary ++ endEvent :: live.map .binary))
  | legacy (first : Bytes) (live : List Bytes) : Protocol (.binary first :: live.map .binary)

theorem feed_cons_ok {r s : TerminalStreamReconciler} {event : Event} {events : List Event}
    {actions : List TerminalStreamAction} :
    feed r (event :: events) = .ok (s, actions) ↔ ∃ t action more, receive r event = .ok (t, action) ∧
      feed t events = .ok (s, more) ∧ actions = action.toList ++ more := by
  rw [feed]
  cases receive r event with
  | error e => simp [bind, Except.bind]
  | ok first =>
    obtain ⟨t, action⟩ := first
    cases hf : feed t events with
    | error e => simp [bind, Except.bind, hf]
    | ok rest =>
      obtain ⟨u, more⟩ := rest
      simp only [bind, Except.bind, hf, pure, Except.pure]
      constructor
      · intro h
        cases h
        exact ⟨t, action, more, rfl, hf, rfl⟩
      · rintro ⟨t', action', more', first, second, rfl⟩
        cases first
        cases hf.symm.trans second
        rfl

/-- Past the snapshot only binary events pass, one live action each. -/
theorem feed_live {r s : TerminalStreamReconciler} {events : List Event} {actions : List TerminalStreamAction}
    (live : r.phase = .live) : feed r events = .ok (s, actions) ↔
      s = r ∧ ∃ chunks : List Bytes, events = chunks.map .binary ∧ actions = chunks.map .live := by
  induction events generalizing actions with
  | nil =>
    rw [feed]
    constructor
    · intro h
      cases h
      exact ⟨rfl, [], rfl, rfl⟩
    · rintro ⟨rfl, chunks, empty, rfl⟩
      rw [List.map_eq_nil_iff.mp empty.symm]
      rfl
  | cons event events ih =>
    rw [feed_cons_ok]
    cases event with
    | control control =>
      constructor
      · rintro ⟨t, action, more, first, _⟩
        cases control with
        | snapshotStart bytes => simp [receive, receiveControl, live] at first
        | snapshotEnd => simp [receive, receiveControl, live] at first
      · rintro ⟨_, chunks, shape, _⟩
        cases chunks with
        | nil => cases shape
        | cons chunk chunks => cases shape
    | binary data =>
      have step : receive r (.binary data) = .ok (r, some (.live data)) := by
        simp [receive, receiveBinary, live]
      constructor
      · rintro ⟨t, action, more, first, rest, rfl⟩
        cases step.symm.trans first
        obtain ⟨same, chunks, rfl, rfl⟩ := ih.mp rest
        exact ⟨same, data :: chunks, rfl, rfl⟩
      · rintro ⟨same, chunks, shape, rfl⟩
        cases chunks with
        | nil => cases shape
        | cons chunk chunks =>
          cases shape
          exact ⟨r, _, chunks.map .live, step, ih.mpr ⟨same, chunks, rfl, rfl⟩, rfl⟩

/-- A reconciler that has these chunks of a snapshot of so many bytes. -/
def collecting (bytes : Nat) (chunks : List Bytes) : TerminalStreamReconciler :=
  ⟨.snapshot, bytes, chunks.flatten.length, chunks⟩

theorem receive_collecting {bytes : Nat} {chunks : List Bytes} {data : Bytes}
    (bound : bytes ≤ maxTerminalSnapshotBytes) :
    receive (collecting bytes chunks) (.binary data) =
      if (chunks ++ [data]).flatten.length ≤ bytes then .ok (collecting bytes (chunks ++ [data]), none)
      else .error "Terminal snapshot exceeded its declared size" := by
  have length : (chunks ++ [data]).flatten.length = chunks.flatten.length + data.length := by simp
  have step : receive (collecting bytes chunks) (.binary data) =
      if ((chunks.flatten.length : Nat) : Int) + data.length > bytes ∨
          chunks.flatten.length + data.length > maxTerminalSnapshotBytes then
        .error "Terminal snapshot exceeded its declared size"
      else .ok (⟨.snapshot, bytes, chunks.flatten.length + data.length, chunks ++ [data]⟩, none) := rfl
  rw [step, collecting, length]
  split
  next exceeds =>
    have exceeds : ¬ chunks.flatten.length + data.length ≤ bytes := by omega
    rw [if_neg exceeds]
  next inside =>
    have inside : chunks.flatten.length + data.length ≤ bytes := by omega
    rw [if_pos inside]

theorem receive_end {bytes : Nat} {chunks : List Bytes} : receive (collecting bytes chunks) endEvent =
    if chunks.flatten.length = bytes then
      .ok (⟨.live, bytes, chunks.flatten.length, []⟩, some (.snapshot chunks.flatten))
    else .error "Incomplete terminal snapshot" := by
  simp only [receive, receiveControl, collecting]
  by_cases complete : chunks.flatten.length = bytes
  · simp [complete]
  · simp [complete, -List.length_flatten]

/-- Inside a snapshot: more of it, or all of it and then live output. -/
theorem feed_collecting {bytes : Nat} (bound : bytes ≤ maxTerminalSnapshotBytes) {chunks : List Bytes}
    (fits : chunks.flatten.length ≤ bytes) {s : TerminalStreamReconciler} {events : List Event}
    {actions : List TerminalStreamAction} : feed (collecting bytes chunks) events = .ok (s, actions) ↔
      (∃ more : List Bytes, events = more.map .binary ∧ (chunks ++ more).flatten.length ≤ bytes ∧
        s = collecting bytes (chunks ++ more) ∧ actions = []) ∨
      (∃ more live : List Bytes, events = more.map .binary ++ endEvent :: live.map .binary ∧
        (chunks ++ more).flatten.length = bytes ∧ s = ⟨.live, bytes, bytes, []⟩ ∧
        actions = .snapshot (chunks ++ more).flatten :: live.map .live) := by
  induction events generalizing chunks actions with
  | nil =>
    rw [feed]
    constructor
    · intro h
      cases h
      exact Or.inl ⟨[], rfl, by simpa using fits, by simp, rfl⟩
    · rintro (⟨more, empty, _, rfl, rfl⟩ | ⟨more, live, empty, _⟩)
      · rw [List.map_eq_nil_iff.mp empty.symm, List.append_nil]
      · simp at empty
  | cons event events ih =>
    rw [feed_cons_ok]
    cases event with
    | binary data =>
      rw [receive_collecting bound]
      constructor
      · rintro ⟨t, action, rest, first, second, rfl⟩
        split at first
        next inside =>
          cases first
          rcases (ih inside).mp second with ⟨more, rfl, within, rfl, rfl⟩ | ⟨more, live, rfl, total, rfl, rfl⟩
          · exact Or.inl ⟨data :: more, rfl, by simpa using within, by simp, rfl⟩
          · have same : chunks ++ data :: more = chunks ++ [data] ++ more := by simp
            exact Or.inr ⟨data :: more, live, rfl, by rwa [same], rfl, by rw [same]; rfl⟩
        next => cases first
      · rintro (⟨more, shape, within, rfl, rfl⟩ | ⟨more, live, shape, total, rfl, rfl⟩)
        · cases more with
          | nil => cases shape
          | cons chunk more =>
            cases shape
            have inside : (chunks ++ [data]).flatten.length ≤ bytes := by
              simp only [List.flatten_append, List.flatten_cons, List.length_append, List.flatten_nil,
                List.length_nil] at within ⊢
              omega
            rw [if_pos inside]
            refine ⟨_, none, [], rfl, (ih inside).mpr (Or.inl ⟨more, rfl, ?_, ?_, rfl⟩), rfl⟩
            · simpa using within
            · simp
        · cases more with
          | nil => cases shape
          | cons chunk more =>
            cases shape
            have inside : (chunks ++ [data]).flatten.length ≤ bytes := by
              simp only [List.flatten_append, List.flatten_cons, List.length_append, List.flatten_nil,
                List.length_nil] at total ⊢
              omega
            rw [if_pos inside]
            have regroup : chunks ++ data :: more = chunks ++ [data] ++ more := by simp
            have second := (ih inside).mpr (Or.inr ⟨more, live, rfl, by rwa [← regroup], rfl, rfl⟩)
            rw [regroup]
            exact ⟨_, none, _, rfl, second, rfl⟩
    | control control =>
      cases control with
      | snapshotStart start =>
        constructor
        · rintro ⟨t, action, rest, first, _⟩
          simp [receive, receiveControl, collecting] at first
        · rintro (⟨more, shape, _⟩ | ⟨more, live, shape, _⟩)
          · cases more with
            | nil => cases shape
            | cons chunk more => cases shape
          · cases more with
            | nil => cases shape
            | cons chunk more => cases shape
      | snapshotEnd =>
        rw [receive_end]
        constructor
        · rintro ⟨t, action, rest, first, second, rfl⟩
          split at first
          next total =>
            cases first
            obtain ⟨rfl, live, rfl, rfl⟩ := (feed_live rfl).mp second
            exact Or.inr ⟨[], live, rfl, by simpa using total, by rw [total], by simp⟩
          next => cases first
        · rintro (⟨more, shape, _⟩ | ⟨more, live, shape, total, rfl, rfl⟩)
          · cases more with
            | nil => cases shape
            | cons chunk more => cases shape
          · cases more with
            | nil =>
              rw [List.append_nil] at total ⊢
              cases shape
              rw [if_pos total]
              refine ⟨_, _, _, rfl, (feed_live rfl).mpr ⟨?_, live, rfl, rfl⟩, rfl⟩
              rw [total]
            | cons chunk more => cases shape

theorem receive_start {bytes : Double} {s : TerminalStreamReconciler} {action : Option TerminalStreamAction} :
    receive new (.control (.snapshotStart bytes)) = .ok (s, action) ↔
      ∃ n : Nat, bytes = .finite (n : ℤ) ∧ n ≤ maxTerminalSnapshotBytes ∧ s = collecting n [] ∧
      action = none := by
  have limit : maxTerminalSnapshotBytes = 2097152 := rfl
  have step : receive new (.control (.snapshotStart bytes)) =
      match bytes.safeInteger with
      | none => .error "Invalid terminal snapshot size"
      | some bytes =>
        if bytes < 0 ∨ bytes > maxTerminalSnapshotBytes then .error "Invalid terminal snapshot size"
        else .ok (⟨.snapshot, bytes, 0, []⟩, none) := rfl
  rw [step]
  constructor
  · intro h
    split at h
    next => cases h
    next n safe =>
      split at h
      next => cases h
      next inside =>
        cases h
        obtain ⟨value, _⟩ := safeInteger_eq_some.mp safe
        obtain ⟨k, rfl⟩ := Int.eq_ofNat_of_zero_le (a := n) (by omega)
        exact ⟨k, value, by omega, rfl, rfl⟩
  · rintro ⟨n, rfl, bound, rfl, rfl⟩
    have small : |(n : ℤ)| ≤ 2 ^ 53 - 1 := by
      rw [abs_of_nonneg (Int.natCast_nonneg n)]
      omega
    have inside : ¬ ((n : ℤ) < 0 ∨ (n : ℤ) > maxTerminalSnapshotBytes) := by omega
    rw [safeInteger_eq_some.mpr ⟨rfl, small⟩]
    exact if_neg inside

/-- All the streams the reconciler takes to the end, with what it makes of them. -/
theorem feed_new {s : TerminalStreamReconciler} {events : List Event} {actions : List TerminalStreamAction} :
    feed new events = .ok (s, actions) ↔
      (events = [] ∧ s = new ∧ actions = []) ∨
      (∃ n, ∃ chunks : List Bytes, n ≤ maxTerminalSnapshotBytes ∧ chunks.flatten.length ≤ n ∧
        events = startEvent n :: chunks.map .binary ∧ s = collecting n chunks ∧ actions = []) ∨
      (∃ chunks live : List Bytes, chunks.flatten.length ≤ maxTerminalSnapshotBytes ∧
        events = startEvent chunks.flatten.length :: (chunks.map .binary ++ endEvent :: live.map .binary) ∧
        s = ⟨.live, chunks.flatten.length, chunks.flatten.length, []⟩ ∧
        actions = .snapshot chunks.flatten :: live.map .live) ∨
      ∃ (first : Bytes) (live : List Bytes), events = .binary first :: live.map .binary ∧
        s = { new with phase := .live } ∧ actions = .snapshot first :: live.map .live := by
  cases events with
  | nil =>
    rw [feed]
    constructor
    · intro h
      cases h
      exact Or.inl ⟨rfl, rfl, rfl⟩
    · rintro (⟨_, rfl, rfl⟩ | ⟨_, _, _, _, shape, _⟩ | ⟨_, _, _, shape, _⟩ | ⟨_, _, shape, _⟩)
      · rfl
      · cases shape
      · cases shape
      · cases shape
  | cons event events =>
    rw [feed_cons_ok]
    cases event with
    | control control =>
      cases control with
      | snapshotEnd =>
        constructor
        · rintro ⟨t, action, more, first, _⟩
          cases first
        · rintro (⟨shape, _⟩ | ⟨_, _, _, _, shape, _⟩ | ⟨_, _, _, shape, _⟩ | ⟨_, _, shape, _⟩)
          · cases shape
          · cases shape
          · cases shape
          · cases shape
      | snapshotStart bytes =>
        constructor
        · rintro ⟨t, action, more, first, second, rfl⟩
          obtain ⟨n, rfl, bound, rfl, rfl⟩ := receive_start.mp first
          rcases (@feed_collecting n bound [] (Nat.zero_le n) _ _ _).mp second with
            ⟨chunks, rfl, within, rfl, rfl⟩ | ⟨chunks, live, rfl, total, rfl, rfl⟩
          · exact Or.inr (Or.inl ⟨n, chunks, bound, within, rfl, rfl, rfl⟩)
          · have total : chunks.flatten.length = n := total
            subst total
            exact Or.inr (Or.inr (Or.inl ⟨chunks, live, bound, rfl, rfl, rfl⟩))
        · rintro (⟨shape, _⟩ | ⟨n, chunks, bound, within, shape, rfl, rfl⟩ |
            ⟨chunks, live, bound, shape, rfl, rfl⟩ | ⟨_, _, shape, _⟩)
          · cases shape
          · cases shape
            exact ⟨_, none, [], receive_start.mpr ⟨n, rfl, bound, rfl, rfl⟩,
              (@feed_collecting n bound [] (Nat.zero_le n) _ _ _).mpr (Or.inl ⟨chunks, rfl, within, rfl, rfl⟩), rfl⟩
          · cases shape
            exact ⟨_, none, _, receive_start.mpr ⟨_, rfl, bound, rfl, rfl⟩,
              (@feed_collecting _ bound [] (Nat.zero_le _) _ _ _).mpr (Or.inr ⟨chunks, live, rfl, rfl, rfl, rfl⟩), rfl⟩
          · cases shape
    | binary data =>
      constructor
      · rintro ⟨t, action, more, first, second, rfl⟩
        cases first
        obtain ⟨rfl, live, rfl, rfl⟩ := (feed_live rfl).mp second
        exact Or.inr (Or.inr (Or.inr ⟨data, live, rfl, rfl, rfl⟩))
      · rintro (⟨shape, _⟩ | ⟨_, _, _, _, shape, _⟩ | ⟨_, _, _, shape, _⟩ | ⟨first, live, shape, rfl, rfl⟩)
        · cases shape
        · cases shape
        · cases shape
        · cases shape
          exact ⟨_, _, live.map .live, rfl, (feed_live rfl).mpr ⟨rfl, live, rfl, rfl⟩, rfl⟩

theorem feed_of_append {r : TerminalStreamReconciler} {events more : List Event}
    (h : ∃ out, feed r (events ++ more) = .ok out) : ∃ out, feed r events = .ok out := by
  induction events generalizing r with
  | nil => exact ⟨(r, []), rfl⟩
  | cons event events ih =>
    obtain ⟨⟨s, actions⟩, h⟩ := h
    obtain ⟨t, action, rest, first, second, _⟩ := feed_cons_ok.mp h
    obtain ⟨⟨u, taken⟩, early⟩ := ih ⟨_, second⟩
    exact ⟨_, feed_cons_ok.mpr ⟨t, action, taken, first, early, rfl⟩⟩

/-- The reconciler gets through exactly the beginnings of streams of the protocol. -/
theorem feed_ok_iff_front (events : List Event) :
    (∃ out, feed new events = .ok out) ↔ ∃ rest, Protocol (events ++ rest) := by
  constructor
  · rintro ⟨⟨s, actions⟩, h⟩
    rcases feed_new.mp h with ⟨rfl, _⟩ | ⟨n, chunks, bound, within, rfl, _⟩ | ⟨chunks, live, bound, rfl, _⟩ |
      ⟨first, live, rfl, _⟩
    · exact ⟨_, .legacy [] []⟩
    · -- the missing bytes, and the end
      have total : (chunks ++ [List.replicate (n - chunks.flatten.length) (0 : UInt8)]).flatten.length = n := by
        simp only [List.flatten_append, List.flatten_cons, List.flatten_nil, List.append_nil, List.length_append,
          List.length_replicate]
        omega
      have full := Protocol.framed (chunks ++ [List.replicate (n - chunks.flatten.length) 0]) [] (by omega)
      rw [total, List.map_append, List.append_assoc] at full
      exact ⟨_, full⟩
    · exact ⟨[], by rw [List.append_nil]; exact .framed chunks live bound⟩
    · exact ⟨[], by rw [List.append_nil]; exact .legacy first live⟩
  · rintro ⟨rest, protocol⟩
    refine @feed_of_append _ _ rest ?_
    generalize events ++ rest = whole at protocol ⊢
    cases protocol with
    | framed chunks live bound =>
      exact ⟨_, feed_new.mpr (Or.inr (Or.inr (Or.inl ⟨chunks, live, bound, rfl, rfl, rfl⟩)))⟩
    | legacy first live => exact ⟨_, feed_new.mpr (Or.inr (Or.inr (Or.inr ⟨first, live, rfl, rfl, rfl⟩)))⟩

end TermLinks.TerminalReconnect
