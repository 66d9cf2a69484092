import TermLinks.CoordinatorBookkeeping

namespace TermLinks.Coordinator

/-- What a runner is about: no session of its own, a session it has started and not yet seen the end of, or
the way from a turn that failed to the release. -/
inductive Errand
  | idle
  | holds (sessionID : String)
  | leaving
deriving DecidableEq

def RunnerPc.errand : RunnerPc → Errand
  | .publish _ _ _ sessionID | .startStage _ _ _ sessionID | .announce _ _ _ sessionID | .write _ _
    _ sessionID
  | .await _ _ sessionID | .drain _ _ sessionID => .holds sessionID
  | .finishStage _ _ _ _ _ _ | .announceFailure _ _ _ | .stageError | .setFailed | .cleanup |
    .done => .leaving
  | _ => .idle

structure Post where
  workspace : String
  errand : Errand

def Runner.post (R : Runner) : Post := ⟨R.workspace, R.pc.errand⟩

/-- The session the input reports as started. -/
def RunnerInput.starts : RunnerInput → Option String
  | .started sessionID => some sessionID
  | _ => none

/-- The session `runStage` stops without waiting for its end: `StartStage` fails, or the prompt is not
delivered. -/
def RunnerPc.abandons : RunnerPc → RunnerInput → Option String
  | .startStage _ _ _ sessionID, .fail => some sessionID
  | .write _ _ _ sessionID, .promptLost => some sessionID
  | _, _ => none

namespace State

def stillRunning (s : State) (sessionID : String) : Bool :=
  (findRow AgentSession.id sessionID s.sessions).any fun session => session.ended.isNone

/-- The session a step starts, with the workspace of its runner. -/
def startedBy (s : State) : Label → Option (String × String)
  | .runner r input => s.runners[r]?.bind fun R => input.starts.map fun sessionID => (sessionID, R.workspace)
  | _ => none

def abandonedBy (s : State) : Label → Option (String × String)
  | .runner r input => s.runners[r]?.bind fun R => (R.pc.abandons input).map fun sessionID =>
    (sessionID, R.workspace)
  | _ => none

/-- The workspace the call gives to a new runner when it succeeds. -/
def hands (s : State) : Label → Option String
  | .reserve _ _ workspace =>
    if s.workspaces.lookup workspace = none ∧ s.running.entries.length < maxRunning then some workspace else none
  | .sendAgent call _ workspace true =>
    match s.calls[call]? with
    | some (.sendAgent W _ _) =>
      if s.running.lookup W = none ∧ (s.workspaces.lookup workspace).all (· = W) ∧
          s.running.entries.length < maxRunning then some workspace
      else none
    | _ => none
  | _ => none

end State

/-- The runners with their sessions, and the processes that exist. -/
@[ext] structure Floor where
  post : Nat → Option Post
  running : String → Prop
  known : String → Prop

def State.floor (s : State) : Floor where
  post := slots (s.runners.map Runner.post)
  running sessionID := s.stillRunning sessionID = true
  known sessionID := findRow AgentSession.id sessionID s.sessions ≠ none

namespace Floor

def setPost (b : Floor) (r : Nat) (p : Post) : Floor := { b with post := Function.update b.post r (some p) }

/-- A runner between two points that neither starts nor abandons a session. -/
inductive Moves (running : String → Prop) : Errand → Errand → Prop
  | same (e : Errand) : Moves running e e
  | leave : Moves running .idle .leaving
  | seen {sessionID : String} (concluded : ¬running sessionID) : Moves running (.holds sessionID) .idle

theorem Moves.mono {running running' : String → Prop} (h : ∀ x, running' x → running x) {e e' : Errand}
    (moves : Moves running e e') : Moves running' e e' := by
  cases moves with
  | same => exact .same _
  | leave => exact .leave
  | seen concluded => exact .seen fun hx => concluded (h _ hx)

/-- The steps of the coordinator, with the session they start and the one they abandon. -/
inductive Step (b : Floor) (hands : Option String) :
    Option (String × String) → Option (String × String) → Floor → Prop
  | kept {b' : Floor} (post : b'.post = b.post) (running : ∀ x, b'.running x → b.running x)
      (known : b'.known = b.known) : Step b hands none none b'
  | taken {n : Nat} {workspace : String} (unused : b.post n = none) (handed : hands = some workspace) :
      Step b hands none none (b.setPost n ⟨workspace, .idle⟩)
  | moved {r : Nat} {p : Post} {errand : Errand} (here : b.post r = some p)
      (moves : Moves b.running p.errand errand) :
      Step b hands none none (b.setPost r ⟨p.workspace, errand⟩)
  | started {r : Nat} {p : Post} {sessionID : String} (here : b.post r = some p) (idle : p.errand = .idle)
      (fresh : ¬b.known sessionID) :
      Step b hands (some (sessionID, p.workspace)) none
        { b.setPost r ⟨p.workspace, .holds sessionID⟩ with
          running := fun x => x = sessionID ∨ b.running x
          known := fun x => x = sessionID ∨ b.known x }
  | abandoned {r : Nat} {p : Post} {sessionID : String} (here : b.post r = some p)
      (holds : p.errand = .holds sessionID) :
      Step b hands none (some (sessionID, p.workspace)) (b.setPost r ⟨p.workspace, .leaving⟩)

end Floor

/-- A step outside the lock, as the runner's errand and the sessions see it. -/
inductive Errands (sessions : List AgentSession) (pc : RunnerPc) (input : RunnerInput) (pc' : RunnerPc) :
    List AgentSession → Prop
  | moved (starts : input.starts = none) (abandons : pc.abandons input = none)
      (moves : Floor.Moves (fun x => sessionEnded sessions x = none) pc.errand pc'.errand) :
      Errands sessions pc input pc' sessions
  | stopped {sessionID : String} (starts : input.starts = none) (abandons : pc.abandons input = none)
      (same : pc'.errand = pc.errand) : Errands sessions pc input pc' (stopSession sessions sessionID)
  | started {sessionID : String} (starts : input.starts = some sessionID)
      (abandons : pc.abandons input = none)
      (idle : pc.errand = .idle) (next : pc'.errand = .holds sessionID)
      (fresh : ∀ session ∈ sessions, session.id ≠ sessionID) :
      Errands sessions pc input pc' (sessions ++ [⟨sessionID, false, none⟩])
  | abandoned {sessionID : String} (starts : input.starts = none)
      (abandons : pc.abandons input = some sessionID)
      (holds : pc.errand = .holds sessionID) (next : pc'.errand = .leaving) (sessions' : List AgentSession)
      (stopped : sessions' = stopSession sessions sessionID) : Errands sessions pc input pc' sessions'

section

variable {host : Host} {store store' : Store} {sessions sessions' : List AgentSession} {now : Time} {R : Runner}
  {pc pc' : RunnerPc} {input : RunnerInput}

theorem Errands.same (starts : input.starts = none) (abandons : pc.abandons input = none)
    (h : pc'.errand = pc.errand) : Errands sessions pc input pc' sessions :=
  .moved starts abandons (by rw [h]; exact .same _)

theorem Errands.leaves (starts : input.starts = none) (abandons : pc.abandons input = none)
    (idle : pc.errand = .idle) (next : pc'.errand = .leaving) : Errands sessions pc input pc' sessions :=
  .moved starts abandons (by rw [idle, next]; exact .leave)

theorem Errands.awaited {sessionID : String} (starts : input.starts = none)
    (abandons : pc.abandons input = none) (holds : pc.errand = .holds sessionID) (next : pc'.errand = .idle)
    (concluded : (sessionEnded sessions sessionID).isSome) : Errands sessions pc input pc' sessions := by
  refine .moved starts abandons ?_
  rw [holds, next]
  refine .seen ?_
  intro h
  rw [h] at concluded
  cases concluded

theorem errands_of_advance (h : advance host store sessions now R pc input = some (pc', store', sessions')) :
    Errands sessions pc input pc' sessions' := by
  unfold advance at h
  split at h
  next =>
    cases h
    cases R.cancelled with
    | true => exact .leaves rfl rfl rfl rfl
    | false => exact .same rfl rfl rfl
  next =>
    split at h
    next => cases h
    next =>
      split at h
      next => cases h
      next =>
        split at h
        next => cases h; exact .same rfl rfl rfl
        next => cases h; exact .same rfl rfl rfl
  next => cases h; exact .leaves rfl rfl rfl rfl
  next =>
    split at h
    next => cases h
    next =>
      split at h
      next =>
        split at h
        next => cases h; exact .same rfl rfl rfl
        next => cases h; exact .leaves rfl rfl rfl rfl
      next => cases h; exact .leaves rfl rfl rfl rfl
  next => cases h; exact .leaves rfl rfl rfl rfl
  next =>
    split at h
    next => cases h
    next =>
      split at h
      next => cases h; exact .leaves rfl rfl rfl rfl
      next =>
        split at h
        next => cases h; exact .leaves rfl rfl rfl rfl
        next => cases h; exact .same rfl rfl rfl
  next => cases h; exact .leaves rfl rfl rfl rfl
  next =>
    split at h
    next => cases h
    next fresh =>
      cases h
      refine .started rfl rfl rfl rfl ?_
      intro session hs same
      apply fresh
      exact List.any_eq_true.mpr ⟨session, hs, by simpa using same⟩
  next => cases h; exact .leaves rfl rfl rfl rfl
  next =>
    split at h
    next => cases h
    next => cases h; exact .same rfl rfl rfl
  next => cases h; exact .abandoned rfl rfl rfl rfl _ rfl
  next =>
    split at h
    next => cases h
    next => cases h; exact .same rfl rfl rfl
  next => cases h; exact .same rfl rfl rfl
  next => cases h; exact .same rfl rfl rfl
  next => cases h; exact .abandoned rfl rfl rfl rfl _ rfl
  next =>
    split at h
    next => cases h; exact .stopped rfl rfl rfl
    next => cases h
  next =>
    split at h
    next concluded => cases h; exact .awaited rfl rfl rfl rfl concluded
    next => cases h
  next =>
    split at h
    next concluded => cases h; exact .awaited rfl rfl rfl rfl concluded
    next => cases h
  next =>
    split at h
    next => cases h; exact .leaves rfl rfl rfl rfl
    next =>
      split at h
      next => cases h; exact .leaves rfl rfl rfl rfl
      next =>
        split at h
        next => cases h; exact .same rfl rfl rfl
        next => cases h; exact .leaves rfl rfl rfl rfl
  next =>
    split at h
    next => cases h; exact .same rfl rfl rfl
    next =>
      split at h
      next => cases h
      next => cases h; exact .same rfl rfl rfl
  next => cases h; exact .same rfl rfl rfl
  next =>
    split at h
    next => cases h
    next => cases h; exact .same rfl rfl rfl
  next => cases h; exact .leaves rfl rfl rfl rfl
  next announced =>
    split at h
    next => cases h
    next => cases h; refine .same rfl rfl ?_; split <;> rfl
  next => cases h; refine .same rfl rfl ?_; split <;> rfl
  next =>
    split at h
    next => cases h
    next => cases h; exact .same rfl rfl rfl
  next => cases h; exact .same rfl rfl rfl
  next => cases h; refine .same rfl rfl ?_; split <;> rfl
  next =>
    split at h
    next => cases h
    next => cases h; exact .same rfl rfl rfl
  next => cases h; exact .same rfl rfl rfl
  next => cases h

end

section

variable {s t : State} {hands : Option String}

theorem floor_post {r : Nat} {R : Runner} (h : s.runners[r]? = some R) : s.floor.post r = some R.post :=
  slots_map h _

theorem floor_free (s : State) : s.floor.post s.runners.length = none := by
  have h := slots_length (s.runners.map Runner.post)
  rwa [List.length_map] at h

theorem floor_setRunner {r : Nat} {R : Runner} (h : s.runners[r]? = some R) (Q : Runner) :
    (s.setRunner r Q).floor = s.floor.setPost r Q.post := by
  have hm : (s.runners.map Runner.post)[r]? = some R.post := by simp [h]
  ext1
  case post =>
    simp only [State.floor, State.setRunner, List.map_set]
    exact slots_set hm Q.post
  all_goals rfl

theorem floor_setRunner_same {r : Nat} {R Q : Runner} (h : s.runners[r]? = some R) (same : Q.post = R.post) :
    (s.setRunner r Q).floor = s.floor := by
  rw [floor_setRunner h, same]
  ext1
  case post => exact Function.update_eq_self_iff.mpr (floor_post h).symm
  all_goals rfl

theorem floor_register (s : State) (W workspace : String) (pc : RunnerPc) :
    (s.register W workspace pc).floor = s.floor.setPost s.runners.length ⟨workspace, pc.errand⟩ := by
  have ha := slots_append (s.runners.map Runner.post) (⟨W, workspace, false, none, pc⟩ : Runner).post
  rw [List.length_map] at ha
  ext1
  case post =>
    simp only [State.floor, State.register, List.map_append, List.map_cons, List.map_nil]
    exact ha
  all_goals rfl

theorem floor_release (s : State) (r : Nat) (R : Runner) : (s.release r R).floor = s.floor := by
  unfold State.release
  split
  · rfl
  · rfl

theorem floor_noteSession (s : State) (id sessionID : String) :
    (s.noteSession id sessionID).floor = s.floor := by
  unfold State.noteSession
  split
  next => rfl
  next =>
    split
    next => rfl
    next R hR => exact floor_setRunner_same hR rfl

/-- A stop leaves every process as it is: it only asks for the end. -/
theorem find_stopSession (sessions : List AgentSession) (id x : String) :
    findRow AgentSession.id x (stopSession sessions id) =
      (findRow AgentSession.id x sessions).map fun session =>
        if session.id = id then { session with stopping := true } else session := by
  have find := @findRow_updateWhere _ _ _ AgentSession.id x sessions
    (fun session => session.id = id) (fun session => { session with stopping := true }) fun _ => rfl
  simpa [stopSession] using find

theorem floor_stopSession (s : State) (id : String) :
    { s with sessions := stopSession s.sessions id }.floor = s.floor := by
  ext1
  case post => rfl
  case running =>
    funext x
    simp only [State.floor, State.stillRunning, find_stopSession]
    cases findRow AgentSession.id x s.sessions with
    | none => rfl
    | some session =>
      simp only [Option.map_some, Option.any_some]
      split
      next => rfl
      next => rfl
  case known =>
    funext x
    simp only [State.floor, find_stopSession, ne_eq, Option.map_eq_none_iff]

theorem floor_cancelRunner (s : State) (id : String) : (s.cancelRunner id).floor = s.floor := by
  unfold State.cancelRunner
  split
  next => rfl
  next r h =>
    split
    next => rfl
    next R hR =>
      have same := floor_setRunner_same (Q := { R with cancelled := true }) hR rfl
      split
      next => exact same
      next current _ =>
        have stopped := floor_stopSession (s.setRunner r { R with cancelled := true }) current
        exact stopped.trans same

theorem floor_kept (h : t.floor = s.floor) : s.floor.Step hands none none t.floor :=
  .kept (congrArg Floor.post h) (fun x hx => by rwa [h] at hx) (congrArg Floor.known h)

theorem floor_launch {i : Nat} {W workspace : String} {c : Call} {store : Store} {issued : List String}
    (handed : s.running.lookup W = none → hands = some workspace) :
    s.floor.Step hands none none
      (({ s with store, issued }.launchUnlessRunning W workspace).setCall i c).floor := by
  unfold State.launchUnlessRunning
  split
  next idle =>
    have idle : s.running.lookup W = none := by simpa using idle
    have registered := floor_register { s with store, issued } W workspace .loop
    have step := Floor.Step.taken (floor_free s) (handed idle)
    exact cast (congrArg _ registered.symm) step
  next => exact floor_kept rfl

theorem floor_sendAgent {call : Nat} {W agentID : String} {message : RoomMessage} {stageID workspace : String}
    (pending : s.calls[call]? = some (.sendAgent W agentID message))
    (h : sendAgentSection s call W agentID message stageID workspace = some t) :
    s.floor.Step (s.hands (.sendAgent call stageID workspace true)) none none t.floor := by
  unfold sendAgentSection at h
  split at h
  next => cases h
  next workflow read =>
    have own : workflow.id = W := (Store.workflow_id read).1
    dsimp only at h
    rw [own] at h
    split at h
    next => cases h; exact floor_kept rfl
    next free =>
      split at h
      next => cases h; exact floor_kept rfl
      next room =>
        have handed : s.running.lookup W = none →
            s.hands (.sendAgent call stageID workspace true) = some workspace := by
          intro idle
          simp only [idle, Option.isNone_none, true_and, Nat.not_le] at free room
          have mine : (s.workspaces.lookup workspace).all (· = W) = true := by
            cases hl : s.workspaces.lookup workspace with
            | none => rfl
            | some owner => simpa [hl] using free
          simp only [State.hands, pending]
          rw [if_pos ⟨idle, mine, room⟩]
        split at h
        next =>
          split at h
          next => cases h
          next => cases h; exact @floor_launch _ _ _ _ _ _ _ s.issued handed
        next =>
          split at h
          next => cases h
          next =>
            split at h
            next => cases h
            next => cases h; exact @floor_launch _ _ _ _ _ _ _ (stageID :: s.issued) handed

theorem floor_reserve {call : Nat} {draft : Draft} {id workspace : String}
    (h : reserveSection s call draft id workspace = some t) :
    s.floor.Step (s.hands (.reserve call id workspace)) none none t.floor := by
  unfold reserveSection at h
  split at h
  next => cases h
  next =>
    dsimp only at h
    split at h
    next => cases h; exact floor_kept rfl
    next free =>
      split at h
      next => cases h; exact floor_kept rfl
      next room =>
        cases h
        change ¬(s.workspaces.lookup workspace).isSome at free
        rw [Bool.not_eq_true, Option.isSome_eq_false_iff, Option.isNone_iff_eq_none] at free
        have handed : s.hands (.reserve call id workspace) = some workspace := by
          simp only [State.hands]
          rw [if_pos ⟨free, Nat.lt_of_not_ge room⟩]
        have registered := floor_register (s.issue id) id workspace .pending
        have step := Floor.Step.taken (floor_free s) handed
        exact cast (congrArg _ registered.symm) step

theorem floor_createCall {resolved : Except String String} {request : String} {ids : List String}
    (h : createCall s resolved request ids = some t) : t.floor = s.floor := by
  unfold createCall at h
  split at h
  next => cases h; rfl
  next =>
    split at h
    next => cases h
    next =>
      split at h
      next => cases h; rfl
      next =>
        dsimp only at h
        split at h
        next => cases h; rfl
        next => cases h

theorem floor_sendCall {workflowID : String} {input : MessageInput} {ok : Bool}
    (h : sendCall s workflowID input ok = some t) : t.floor = s.floor := by
  unfold sendCall at h
  split at h
  next => cases h; rfl
  next =>
    split at h
    next => cases h; rfl
    next =>
      split at h
      next => cases h; rfl
      next =>
        split at h
        next => cases h
        next =>
          dsimp only at h
          split at h
          next => cases h; rfl
          next =>
            split at h
            next => cases h; rfl
            next => cases h; rfl

theorem floor_cancelCall {id : String} {ok : Bool} (h : cancelCall s id ok = some t) : t.floor = s.floor := by
  unfold cancelCall at h
  split at h
  next => cases h; rfl
  next =>
    split at h
    next => cases h
    next =>
      split at h
      next => cases h; rfl
      next => cases h; rfl

/-- The runner of a reservation has not begun. -/
theorem errand_of_reservation (b : Balanced s.ledger) {call r : Nat} {c : Call} {held : Reservation}
    {R : Runner}
    (pending : s.calls[call]? = some c) (holds : c.reservation = some held) (mine : held.runner = r)
    (runner : s.runners[r]? = some R) : R.pc.errand = .idle := by
  have entry := b.held call held ((reservation_of_call pending).trans holds)
  rw [mine, ledger_entry runner] at entry
  have standing : R.pc.standing = .pending := congrArg Entry.standing (Option.some.inj entry)
  cases hp : R.pc
  case pending => rfl
  all_goals simp [hp, RunnerPc.standing] at standing

theorem floor_callStep {call : Nat} {c : Call} {label : Label} (b : Balanced s.ledger)
    (named : label.call? = some call) (pending : s.calls[call]? = some c)
    (h : callStep s call c label = some t) :
    s.floor.Step (s.hands label) (s.startedBy label) (s.abandonedBy label) t.floor := by
  unfold callStep at h
  split at h
  next => cases named; exact floor_reserve h
  next workflow workspace r _ ok =>
    split at h
    next =>
      split at h
      next store R write runner =>
        cases h
        have idle := errand_of_reservation b pending rfl rfl runner
        refine floor_kept ?_
        exact floor_setRunner_same (s := { s with store }) runner (congrArg (Post.mk R.workspace) idle.symm)
      next => cases h
    next => cases h; exact floor_kept rfl
  next id workspace r _ =>
    split at h
    next => cases h
    next R runner =>
      cases h
      have idle := errand_of_reservation b pending rfl rfl runner
      have moved := floor_setRunner
        (s := { s with running := s.running.erase id, workspaces := s.workspaces.erase workspace }) runner
        { R with cancelled := true, pc := .done }
      have leaves : Floor.Moves s.floor.running R.post.errand .leaving := by
        rw [show R.post.errand = .idle from idle]
        exact .leave
      exact cast (congrArg _ moved.symm) (Floor.Step.moved (floor_post runner) leaves)
  next =>
    split at h
    next =>
      split at h
      next => cases h
      next => cases h; exact floor_kept rfl
    next => cases h; exact floor_kept rfl
  next =>
    cases named
    split at h
    next ok =>
      subst ok
      exact floor_sendAgent pending h
    next => cases h; exact floor_kept rfl
  next id _ =>
    cases h
    exact floor_kept (floor_cancelRunner s id)
  next =>
    split at h
    next => cases h; exact floor_kept rfl
    next => cases h; exact floor_kept rfl
  next =>
    split at h
    next =>
      split at h
      next => cases h
      next => cases h; exact floor_kept rfl
    next => cases h; exact floor_kept rfl
  next => cases h

theorem running_iff {x : String} : s.floor.running x ↔
    s.floor.known x ∧ sessionEnded s.sessions x = none := by
  simp only [State.floor, State.stillRunning, sessionEnded]
  cases findRow AgentSession.id x s.sessions with
  | none => simp
  | some session => simp

theorem floor_advance {host : Host} {r : Nat} {R : Runner} {input : RunnerInput} {pc : RunnerPc}
    {store : Store} {sessions : List AgentSession} (runner : s.runners[r]? = some R)
    (h : advance host s.store s.sessions s.now R R.pc input = some (pc, store, sessions)) :
    s.floor.Step hands (s.startedBy (.runner r input)) (s.abandonedBy (.runner r input))
      { s with store, sessions, runners := s.runners.set r { R with pc } }.floor := by
  have written : ∀ sessions, { s with store, sessions, runners := s.runners.set r { R with pc } }.floor =
      { s with sessions }.floor.setPost r ⟨R.workspace, pc.errand⟩ := fun sessions =>
    floor_setRunner (s := { s with store, sessions }) runner { R with pc }
  have kept : ∀ id, { s with sessions := stopSession s.sessions id }.floor = s.floor := floor_stopSession s
  simp only [State.startedBy, State.abandonedBy, runner, Option.bind_some]
  cases errands_of_advance h with
  | moved starts abandons moves =>
    rw [starts, abandons, written]
    exact .moved (floor_post runner) (moves.mono fun x running => (running_iff.mp running).2)
  | stopped starts abandons same =>
    rw [starts, abandons, written, kept, same]
    exact .moved (floor_post runner) (.same _)
  | @started sessionID starts abandons idle next fresh =>
    rw [starts, abandons, written, next]
    have unknown : ¬s.floor.known sessionID := by
      intro known
      exact known (findRow_eq_none_iff.mpr fresh)
    have find : ∀ x, findRow AgentSession.id x (s.sessions ++ [⟨sessionID, false, none⟩]) =
        (findRow AgentSession.id x s.sessions).or (if sessionID = x then some ⟨sessionID, false, none⟩ else none) :=
      fun x => findRow_append _
    have step := @Floor.Step.started _ hands _ _ _ (floor_post runner) idle unknown
    refine cast (congrArg _ ?_) step
    ext1
    case post => rfl
    case running =>
      funext x
      refine propext ?_
      by_cases hx : x = sessionID
      · subst hx
        have absent : findRow AgentSession.id x s.sessions = none := by
          by_contra known
          exact unknown known
        simp [Floor.setPost, State.floor, State.stillRunning, find, absent]
      · simp [Floor.setPost, State.floor, State.stillRunning, find, hx, Ne.symm hx]
    case known =>
      funext x
      refine propext ?_
      by_cases hx : x = sessionID
      · subst hx
        simp [Floor.setPost, State.floor, find]
      · simp [Floor.setPost, State.floor, find, hx, Ne.symm hx]
  | abandoned starts abandons holds next sessions' stopped =>
    subst stopped
    rw [starts, abandons, written, kept, next]
    exact .abandoned (floor_post runner) holds

theorem floor_runnerStep {host : Host} {r : Nat} {R : Runner} {input : RunnerInput}
    (runner : s.runners[r]? = some R) (h : runnerStep host s r R input = some t) :
    s.floor.Step hands (s.startedBy (.runner r input)) (s.abandonedBy (.runner r input)) t.floor := by
  -- a step of the runner that leaves the processes alone
  have quiet : ∀ (pc' : RunnerPc) (u : State), input.starts = none → R.pc.abandons input = none →
      u.floor = s.floor → u.runners = s.runners → Floor.Moves s.floor.running R.pc.errand pc'.errand →
      s.floor.Step hands (s.startedBy (.runner r input)) (s.abandonedBy (.runner r input))
        (u.setRunner r { R with pc := pc' }).floor := by
    intro pc' u starts abandons same runners moves
    have there : u.runners[r]? = some R := by rw [runners]; exact runner
    simp only [State.startedBy, State.abandonedBy, runner, Option.bind_some, starts, abandons, Option.map_none]
    rw [floor_setRunner there, same]
    exact .moved (floor_post runner) moves
  have finishing : ∀ written, R.pc = .finish → (input = .ok ∨ input = .writeFail) →
      finishSection s r R written = some t →
      s.floor.Step hands (s.startedBy (.runner r input)) (s.abandonedBy (.runner r input)) t.floor := by
    intro written at_finish input_is h
    have starts : input.starts = none := by rcases input_is with rfl | rfl <;> rfl
    have abandons : R.pc.abandons input = none := by rw [at_finish]; rfl
    unfold finishSection at h
    split at h
    next => cases h
    next =>
      split at h
      next =>
        cases h
        exact quiet .loop s starts abandons rfl rfl (by rw [at_finish]; exact .same _)
      next =>
        cases h
        exact quiet .cleanup _ starts abandons (floor_release _ r R) (release_runners _ r R)
          (by rw [at_finish]; exact .leave)
  unfold runnerStep at h
  split at h
  next at_finish => exact finishing true at_finish (Or.inl rfl) h
  next at_finish => exact finishing false at_finish (Or.inr rfl) h
  next at_finish =>
    cases h
    exact quiet .cleanup s rfl (by rw [at_finish]; rfl) rfl rfl (by rw [at_finish]; exact .leave)
  next at_publish =>
    cases h
    rw [floor_noteSession]
    exact quiet _ s rfl (by rw [at_publish]; rfl) rfl rfl (by rw [at_publish]; exact .same _)
  next at_cleanup =>
    cases h
    exact quiet .done _ rfl (by rw [at_cleanup]; rfl) (floor_release s r R) (release_runners s r R)
      (by rw [at_cleanup]; exact .same _)
  next =>
    obtain ⟨⟨pc, store, sessions⟩, advanced, ht⟩ := Option.map_eq_some_iff.mp h
    cases ht
    exact floor_advance runner advanced

/-- Every step of the coordinator is a step of the floor. -/
theorem floor_step {host : Host} {label : Label} (b : Balanced s.ledger) (h : step host s label = some t) :
    s.floor.Step (s.hands label) (s.startedBy label) (s.abandonedBy label) t.floor := by
  unfold step at h
  split at h
  next => exact floor_kept (floor_createCall h)
  next => exact floor_kept (floor_sendCall h)
  next => exact floor_kept (floor_cancelCall h)
  next =>
    obtain ⟨R, runner, h⟩ := Option.bind_eq_some_iff.mp h
    exact floor_runnerStep runner h
  next sessionID code =>
    split at h
    next =>
      cases h
      have find : ∀ x, findRow AgentSession.id x (updateWhere (fun session => session.id = sessionID)
          (fun session => { session with ended := some code }) s.sessions) = _ := fun x =>
        findRow_updateWhere fun _ => rfl
      refine .kept rfl ?_ ?_
      · intro x running
        simp only [State.floor, State.stillRunning, find] at running ⊢
        cases hf : findRow AgentSession.id x s.sessions with
        | none => simp [hf] at running
        | some session =>
          simp only [hf, Option.map_some, Option.any_some] at running ⊢
          split at running
          next => cases running
          next => exact running
      · funext x
        simp only [State.floor, find, ne_eq, Option.map_eq_none_iff]
    next => cases h
  next => cases h; exact floor_kept rfl
  next => cases h; exact floor_kept rfl
  next =>
    obtain ⟨call, named, h⟩ := Option.bind_eq_some_iff.mp h
    obtain ⟨c, pending, h⟩ := Option.bind_eq_some_iff.mp h
    exact floor_callStep b named pending h

end

end TermLinks.Coordinator
