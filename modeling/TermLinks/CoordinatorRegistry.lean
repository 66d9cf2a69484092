import TermLinks.CoordinatorMoves

namespace TermLinks.Coordinator

/-- Runners, calls and the registry agree on who owns a workflow. -/
structure Registry (b : Board) : Prop where
  seated : ∀ W r, b.running W = some r → b.seat r ≠ none
  registered : ∀ W r q, b.running W = some r → b.seat r = some q → q.workflowID = W ∧ q.pc ≠ .done
  live : ∀ r q, b.seat r = some q → q.pc ≠ .cleanup → q.pc ≠ .done → b.running q.workflowID = some r
  turns : ∀ r q workflow stage, b.seat r = some q → q.pc.turn = some (workflow, stage) →
    workflow.id = q.workflowID
  owned : ∀ r q, b.seat r = some q → b.issued q.workflowID
  known : ∀ W, b.status W ≠ none → b.issued W
  creating : ∀ i workflow workspace r, b.call i = some (.createStore workflow workspace r) →
    b.seat r = some ⟨workflow.id, false, .pending⟩ ∧ b.status workflow.id = none ∧
      workflow.status = .queued
  once : ∀ i j workflow workspace workflow' workspace' r,
    b.call i = some (.createStore workflow workspace r) →
    b.call j = some (.createStore workflow' workspace' r) → i = j
  committed : ∀ i id workspace r, b.call i ≠ some (.createRollback id workspace r)
  sending : ∀ i W agentID message, b.call i = some (.sendAgent W agentID message) → message.workflowID = W
  cancelling : ∀ i id, b.call i = some (.cancelSignal id) → b.status id ≠ none

/-- Calls that the registry has a clause about. -/
def Call.early : Call → Bool
  | .createStore _ _ _ | .createRollback _ _ _ | .sendAgent _ _ _ | .cancelSignal _ => true
  | _ => false

namespace Registry

variable {b : Board}

theorem setCall (h : Registry b) {i : Nat} {c : Call} (hc : c.early = false) : Registry (b.setCall i c) := by
  obtain ⟨seated, registered, live, turns, owned, known, creating, once, committed, sending, cancelling⟩ := h
  have old : ∀ j d, d.early = true → (b.setCall i c).call j = some d → b.call j = some d := by
    intro j d hd hj
    by_cases hi : j = i
    · subst hi
      simp only [Board.setCall, Function.update_self, Option.some.injEq] at hj
      subst hj
      rw [hc] at hd
      cases hd
    · simpa [Board.setCall, hi] using hj
  exact ⟨seated, registered, live, turns, owned, known,
    fun j workflow workspace r hj => creating j workflow workspace r (old j _ rfl hj),
    fun j k _ _ _ _ r hj hk => once j k _ _ _ _ r (old j _ rfl hj) (old k _ rfl hk),
    fun j id workspace r hj => committed j id workspace r (old j _ rfl hj),
    fun j W agentID message hj => sending j W agentID message (old j _ rfl hj),
    fun j id hj => cancelling j id (old j _ rfl hj)⟩

/-- The registry says nothing about stages. -/
theorem withStage (h : Registry b) (stage : String → String → StageStatus → Prop) :
    Registry { b with stage } :=
  ⟨h.seated, h.registered, h.live, h.turns, h.owned, h.known, h.creating, h.once, h.committed, h.sending,
    h.cancelling⟩

theorem setStage (h : Registry b) (W x : String) (status : StageStatus) : Registry (b.setStage W x status) :=
  h.withStage _

theorem addStage (h : Registry b) (W x : String) : Registry (b.addStage W x) := h.withStage _

theorem cancelStages (h : Registry b) (W : String) : Registry (b.cancelStages W) := h.withStage _

theorem setStatus (h : Registry b) {W : String} {status : WorkflowStatus} (exist : b.status W ≠ none) :
    Registry (b.setStatus W status) := by
  have none_iff : ∀ V, (b.setStatus W status).status V = none ↔ b.status V = none := by
    intro V
    by_cases hV : V = W
    · subst hV
      simp [Board.setStatus, exist]
    · simp [Board.setStatus, hV]
  refine ⟨h.seated, h.registered, h.live, h.turns, h.owned, fun V hV => ?_, fun i workflow workspace r hi => ?_,
    h.once, h.committed, h.sending, fun i id hi => ?_⟩
  · exact h.known V (mt (none_iff V).mpr hV)
  · obtain ⟨seat, absent, queued⟩ := h.creating i workflow workspace r hi
    exact ⟨seat, (none_iff _).mpr absent, queued⟩
  · exact mt (none_iff id).mp (h.cancelling i id hi)

theorem issue (h : Registry b) (id : String) : Registry (b.issue id) :=
  ⟨h.seated, h.registered, h.live, h.turns, fun r q hq => .inr (h.owned r q hq),
    fun W hW => .inr (h.known W hW), h.creating, h.once, h.committed, h.sending, h.cancelling⟩

/-- A runner that was not pending moves to another point of the same workflow. -/
theorem setSeat (h : Registry b) {r : Nat} {q : Seat} {pc : RunnerPc} (seat : b.seat r = some q)
    (running : q.pc ≠ .pending ∧ q.pc ≠ .cleanup ∧ q.pc ≠ .done) (alive : pc ≠ .done)
    (turn : ∀ workflow stage, pc.turn = some (workflow, stage) → workflow.id = q.workflowID) :
    Registry (b.setSeat r { q with pc }) := by
  obtain ⟨seated, registered, live, turns, owned, known, creating, once, committed, sending, cancelling⟩ := h
  constructor
  case once => exact once
  case committed => exact committed
  case sending => exact sending
  case cancelling => exact cancelling
  case known => exact known
  all_goals simp only [Board.setSeat, Function.update_apply]
  all_goals grind

theorem setSeat_idle (h : Registry b) {r : Nat} {q : Seat} {pc : RunnerPc} (seat : b.seat r = some q)
    (running : q.pc ≠ .pending ∧ q.pc ≠ .cleanup ∧ q.pc ≠ .done) (alive : pc ≠ .done)
    (idle : pc.turn = none) : Registry (b.setSeat r { q with pc }) := by
  refine h.setSeat seat running alive fun workflow stage turn => ?_
  rw [idle] at turn
  cases turn

theorem register (h : Registry b) {W : String} {n : Nat} {pc : RunnerPc} (free : b.seat n = none)
    (alone : b.running W = none) (known : b.issued W) (turn : pc.turn = none) (alive : pc ≠ .done) :
    Registry (b.register W n pc) := by
  obtain ⟨seated, registered, live, turns, owned, known, creating, once, committed, sending, cancelling⟩ := h
  constructor
  case once => exact once
  case committed => exact committed
  case sending => exact sending
  case cancelling => exact cancelling
  case known => exact known
  all_goals simp only [Board.register, Function.update_apply]
  all_goals grind

theorem launchUnlessRunning (h : Registry b) {W : String} {n : Nat} (free : b.seat n = none)
    (known : b.issued W) : Registry (b.launchUnlessRunning W n) := by
  unfold Board.launchUnlessRunning
  split
  next alone => exact h.register free alone known rfl nofun
  next => exact h

theorem cancelSeat (h : Registry b) {W : String} (exist : b.status W ≠ none) : Registry (b.cancelSeat W) := by
  obtain ⟨seated, registered, live, turns, owned, known, creating, once, committed, sending, cancelling⟩ := h
  constructor
  case once => exact once
  case committed => exact committed
  case sending => exact sending
  case cancelling => exact cancelling
  case known => exact known
  all_goals simp only [Board.cancelSeat]
  all_goals grind [Option.map_eq_some_iff, Option.map_eq_none_iff]

/-- The last section of a runner: it leaves the registry when it stands in it. -/
theorem release (h : Registry b) {r : Nat} {q : Seat} (seat : b.seat r = some q) (at_end : q.pc = .cleanup) :
    Registry (b.release q.workflowID r) := by
  obtain ⟨seated, registered, live, turns, owned, known, creating, once, committed, sending, cancelling⟩ := h
  unfold Board.release
  split
  next =>
    constructor
    case once => exact once
    case committed => exact committed
    case sending => exact sending
    case cancelling => exact cancelling
    case known => exact known
    all_goals simp only [Function.update_apply]
    all_goals grind
  next =>
    exact ⟨seated, registered, live, turns, owned, known, creating, once, committed, sending, cancelling⟩

theorem setDone (h : Registry b) {r : Nat} {q : Seat} (seat : b.seat r = some q) (at_end : q.pc = .cleanup)
    (gone : b.running q.workflowID ≠ some r) : Registry (b.setSeat r { q with pc := .done }) := by
  obtain ⟨seated, registered, live, turns, owned, known, creating, once, committed, sending, cancelling⟩ := h
  constructor
  case once => exact once
  case committed => exact committed
  case sending => exact sending
  case cancelling => exact cancelling
  case known => exact known
  all_goals simp only [Board.setSeat, Function.update_apply]
  all_goals grind [RunnerPc.turn]

/-- `Create` stores its workflow and starts the runner it had entered. -/
theorem create (h : Registry b) {i r : Nat} {workflow : Workflow} {workspace : String} {q : Seat}
    {reply : Reply} (pending : b.call i = some (.createStore workflow workspace r)) (seat : b.seat r = some q) :
    Registry (((b.setStatus workflow.id workflow.status).setSeat r { q with pc := .loop }).setCall i
      (.returned reply)) := by
  obtain ⟨seated, registered, live, turns, owned, known, creating, once, committed, sending, cancelling⟩ := h
  obtain ⟨mine, absent, -⟩ := creating i workflow workspace r pending
  cases seat.symm.trans mine
  have registered_r := live r _ mine nofun nofun
  -- a second `Create` of this workflow would hold this runner
  have alone : ∀ j workflow' workspace' r', j ≠ i →
      b.call j = some (.createStore workflow' workspace' r') → workflow'.id ≠ workflow.id ∧ r' ≠ r := by
    intro j workflow' workspace' r' hj hc
    have other : r' ≠ r := fun hr => hj (once j i _ _ _ _ r (hr ▸ hc) pending)
    refine ⟨fun hid => other ?_, other⟩
    have registered_r' := live r' _ (creating j _ _ _ hc).1 nofun nofun
    rw [hid] at registered_r'
    exact Option.some.inj (registered_r'.symm.trans registered_r)
  constructor
  all_goals simp only [Board.setCall, Board.setSeat, Board.setStatus, Function.update_apply]
  all_goals grind [RunnerPc.turn]

theorem enlist (h : Registry b) {i n : Nat} {draft : Draft} {id workspace : String} {now : Time}
    (fresh : ¬b.issued id) (free : b.seat n = none) :
    Registry (((b.issue id).register id n .pending).setCall i
      (.createStore (newWorkflow draft id now) workspace n)) := by
  have alone : b.running id = none := by
    by_contra hr
    obtain ⟨r, hr⟩ := Option.ne_none_iff_exists'.mp hr
    obtain ⟨q, hq⟩ := Option.ne_none_iff_exists'.mp (h.seated id r hr)
    exact fresh ((h.registered id r q hr hq).1 ▸ h.owned r q hq)
  have absent : b.status id = none := by
    by_contra hs
    exact fresh (h.known id hs)
  have base : Registry ((b.issue id).register id n .pending) :=
    (h.issue id).register free alone (.inl rfl) rfl nofun
  obtain ⟨seated, registered, live, turns, owned, known, creating, once, committed, sending, cancelling⟩ := base
  -- no earlier `Create` holds the seat, which was free
  have other : ∀ j workflow' workspace', b.call j ≠ some (.createStore workflow' workspace' n) := by
    intro j workflow' workspace' hc
    rw [(h.creating j _ _ _ hc).1] at free
    cases free
  refine ⟨seated, registered, live, turns, owned, known, ?_, ?_, ?_, ?_, ?_⟩
  all_goals simp only [Board.setCall, Board.register, Board.issue, Function.update_apply] at *
  all_goals grind [newWorkflow]

theorem setCall_sent (h : Registry b) {n : Nat} {workflowID agentID : String} {message : RoomMessage}
    (room : message.workflowID = workflowID) :
    Registry (b.setCall n (.sendAgent workflowID agentID message)) := by
  obtain ⟨seated, registered, live, turns, owned, known, creating, once, committed, sending, cancelling⟩ := h
  refine ⟨seated, registered, live, turns, owned, known, ?_, ?_, ?_, ?_, ?_⟩
  all_goals simp only [Board.setCall, Function.update_apply]
  all_goals grind

theorem setCall_requested (h : Registry b) {n : Nat} {id : String} (exist : b.status id ≠ none) :
    Registry (b.setCall n (.cancelSignal id)) := by
  obtain ⟨seated, registered, live, turns, owned, known, creating, once, committed, sending, cancelling⟩ := h
  refine ⟨seated, registered, live, turns, owned, known, ?_, ?_, ?_, ?_, ?_⟩
  all_goals simp only [Board.setCall, Function.update_apply]
  all_goals grind

end Registry

theorem hop_from {cancelled : Bool} {W : String} {pc pc' : RunnerPc} {input : RunnerInput}
    (h : Hop cancelled W pc input pc') : pc ≠ .pending ∧ pc ≠ .cleanup ∧ pc ≠ .done := by
  cases h with
  | prepared live reads => refine ⟨?_, ?_, ?_⟩ <;> rintro rfl <;> cases reads
  | launched launching => refine ⟨?_, ?_, ?_⟩ <;> rintro rfl <;> cases launching
  | attended attending => refine ⟨?_, ?_, ?_⟩ <;> rintro rfl <;> cases attending
  | broken held => refine ⟨?_, ?_, ?_⟩ <;> rintro rfl <;> exact held rfl
  | _ => exact ⟨nofun, nofun, nofun⟩

theorem hop_alive {cancelled : Bool} {W : String} {pc pc' : RunnerPc} {input : RunnerInput}
    (h : Hop cancelled W pc input pc') : pc' ≠ .done := by
  cases h with
  | checked => split <;> exact nofun
  | prepared live reads held turn => rintro rfl; exact held turn.symm
  | launched launching turn next => rintro rfl; rcases next with h | h <;> cases h
  | attended attending turn next => rintro rfl; rcases next with h | h <;> cases h
  | unrecorded => split <;> exact nofun
  | judged => split <;> exact nofun
  | _ => exact nofun

theorem hop_turn {cancelled : Bool} {W : String} {pc pc' : RunnerPc} {input : RunnerInput}
    (h : Hop cancelled W pc input pc') {workflow : Workflow} {stage : Stage}
    (turn : pc'.turn = some (workflow, stage)) : pc.turn = some (workflow, stage) ∨ workflow.id = W := by
  cases h with
  | checked => split at turn <;> cases turn
  | picked live own => cases turn; exact .inr own
  | prepared live reads held same => exact .inl (same ▸ turn)
  | launched launching same => exact .inl (same ▸ turn)
  | attended attending same => exact .inl (same ▸ turn)
  | unrecorded =>
    split at turn
    next => cases turn; exact .inl rfl
    next => cases turn
  | judged => split at turn <;> cases turn
  | _ => cases turn

/-- Every step of the board keeps the registry. -/
theorem registry_step {hasTurn : Nat → Prop} {b b' : Board} {label : Label} (h : Registry b)
    (step : b.Step hasTurn label b') :
    Registry b' := by
  cases step with
  | idle running seat status stage issued old kept =>
    refine ⟨?_, ?_, ?_, ?_, ?_, ?_, ?_, ?_, ?_, ?_, ?_⟩
    · rw [running, seat]; exact h.seated
    · rw [running, seat]; exact h.registered
    · rw [running, seat]; exact h.live
    · rw [seat]; exact h.turns
    · rw [seat]; exact fun r q hq => issued _ (h.owned r q hq)
    · rw [status]; exact fun W hW => issued W (h.known W hW)
    · rw [seat, status]; exact fun i _ _ r hi => h.creating i _ _ r (old i _ rfl hi)
    · exact fun i j _ _ _ _ r hi hj => h.once i j _ _ _ _ r (old i _ rfl hi) (old j _ rfl hj)
    · exact fun i _ _ _ hi => h.committed i _ _ _ (old i _ rfl hi)
    · exact fun i _ _ _ hi => h.sending i _ _ _ (old i _ rfl hi)
    · rw [status]; exact fun i id hi => h.cancelling i id (old i _ rfl hi)
  | reserved pending fresh free => exact h.enlist fresh free
  | created pending seat absent written stage =>
    rw [written]
    exact (h.create pending seat).withStage _
  | rolledBack pending => exact absurd pending (h.committed _ _ _ _)
  | sent fresh room => exact h.setCall_sent room
  | followedUp pending new fresh unused exist free =>
    have room := h.sending _ _ _ _ pending
    have here := ne_of_eq_of_ne exist (Option.some_ne_none _)
    refine Registry.setCall ?_ rfl
    refine Registry.launchUnlessRunning ?_ free (.inr (h.known _ (room ▸ here)))
    exact ((h.addStage _ _).setStatus here).issue _
  | nudged pending queued exist free => exact (h.launchUnlessRunning free (h.known _ exist)).setCall rfl
  | requested fresh exist => exact h.setCall_requested exist
  | signalled pending => exact (h.cancelSeat (h.cancelling _ _ pending)).setCall rfl
  | marked pending => exact (h.cancelStages _).setCall rfl
  | cancelled pending exist => exact (h.setStatus exist).setCall rfl
  | hopped seat ok hop =>
    refine h.setSeat seat (hop_from hop) (hop_alive hop) fun workflow stage turn => ?_
    rcases hop_turn hop turn with held | own
    · exact h.turns _ _ _ _ seat held
    · exact own
  | @started r q workflow stage prompt sessionID seat at_start exist =>
    refine ((h.setStatus exist).setStage _ _ _).setSeat seat ?_ nofun fun workflow stage turn => ?_
    · rw [at_start]; exact ⟨nofun, nofun, nofun⟩
    · exact h.turns _ _ _ _ seat (by rw [at_start]; exact turn)
  | completed seat at_end =>
    refine (h.setStage _ _ _).setSeat_idle seat ?_ nofun rfl
    rw [at_end]; exact ⟨nofun, nofun, nofun⟩
  | gaveUp seat at_end =>
    refine (h.setStage _ _ _).setSeat seat ?_ ?_ fun workflow stage turn => ?_
    · rw [at_end]; exact ⟨nofun, nofun, nofun⟩
    · split <;> exact nofun
    · split at turn
      next => exact h.turns _ _ _ _ seat (by rw [at_end]; exact turn)
      next => cases turn
  | failed seat at_failure exist =>
    refine (h.setStatus exist).setSeat_idle seat ?_ nofun rfl
    rw [at_failure]; exact ⟨nofun, nofun, nofun⟩
  | @finished r q seat at_finish exist empty =>
    have kept : Registry ((b.setStatus q.workflowID .completed).setSeat r { q with pc := .cleanup }) := by
      refine (h.setStatus exist).setSeat_idle seat ?_ nofun rfl
      rw [at_finish]; exact ⟨nofun, nofun, nofun⟩
    exact kept.release (q := { q with pc := .cleanup }) (Function.update_self ..) rfl
  | @retired r q seat at_cleanup =>
    have seat' : (b.release q.workflowID r).seat r = some q := by rwa [Board.release_seat]
    exact (h.release seat at_cleanup).setDone seat' at_cleanup (Board.release_running _ _ _)

theorem registry_initial (agents : List Agent) (now : Time) : Registry (State.initial agents now).board := by
  refine ⟨?_, ?_, ?_, ?_, ?_, ?_, ?_, ?_, ?_, ?_, ?_⟩
  all_goals simp [State.board, State.initial, slots, Store.statusOf, Store.empty, findRow]

end TermLinks.Coordinator
