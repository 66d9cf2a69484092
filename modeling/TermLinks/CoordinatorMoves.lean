import TermLinks.CoordinatorBoard

namespace TermLinks.Coordinator

section

variable {s : State} {store : Store}

theorem board_sameProgress (h : Store.SameProgress s.store store) : { s with store }.board = s.board := by
  ext1
  case status => exact funext h.workflows
  case stage =>
    funext W x status
    exact propext h.hasStage
  all_goals rfl

theorem update_of_status {f g : String → Option WorkflowStatus} {W : String} {status : WorkflowStatus}
    (hW : g W = some status) (other : ∀ V, V ≠ W → g V = f V) :
    g = Function.update f W (some status) := by
  funext V
  by_cases hV : V = W
  · subst hV
    rw [Function.update_self, hW]
  · rw [Function.update_of_ne hV, other V hV]

theorem board_setWorkflowStatus {id : String} {status : WorkflowStatus} {now : Time}
    (h : s.store.setWorkflowStatus id status now = .ok store) :
    { s with store }.board = s.board.setStatus id status := by
  obtain ⟨hid, other, same⟩ := Store.setWorkflowStatus_eq h
  ext1
  case status => exact update_of_status hid other
  case stage =>
    funext W x status
    simp only [State.board, Board.setStatus, Store.hasStage, same]
  all_goals rfl

theorem board_startStage {W x sessionID : String} {now : Time}
    (h : s.store.startStage W x sessionID now = .ok store) :
    { s with store }.board = (s.board.setStatus W .running).setStage W x .running := by
  obtain ⟨hid, other, stages⟩ := Store.startStage_eq h
  ext1
  case status => exact update_of_status hid other
  case stage =>
    funext W' x' status
    exact propext (stages W' x' status)
  all_goals rfl

theorem board_finishStage {W x output message : String} {status : StageStatus} {now : Time}
    (h : s.store.finishStage W x status output message now = .ok store) :
    { s with store }.board = s.board.setStage W x status := by
  obtain ⟨same, stages⟩ := Store.finishStage_eq h
  ext1
  case status => exact funext same
  case stage =>
    funext W' x' status'
    exact propext (stages W' x' status')
  all_goals rfl

theorem board_cancelQueuedStages (s : State) (id : String) (now : Time) :
    { s with store := s.store.cancelQueuedStages id now }.board = s.board.cancelStages id := by
  ext1
  case stage =>
    funext W x status
    exact propext Store.hasStage_cancelQueuedStages
  all_goals rfl

theorem board_followUp {message stored : RoomMessage} {stage : Stage} {now : Time}
    (h : s.store.addMessageWithStage message stage now = .ok (store, stored)) :
    ∃ was, s.board.status message.workflowID = some was ∧
      { s with store }.board =
        (s.board.addStage message.workflowID stage.id).setStatus message.workflowID (requeue was) := by
  obtain ⟨hid, other, stages⟩ := Store.addMessageWithStage_eq h
  obtain ⟨was, hw⟩ := Option.ne_none_iff_exists'.mp (Store.addMessageWithStage_exists h)
  refine ⟨was, hw, ?_⟩
  ext1
  case status =>
    rw [hw] at hid
    exact update_of_status hid other
  case stage =>
    funext W x status
    exact propext (stages W x status)
  all_goals rfl

theorem queued_of_read {W : String} {workflow : Workflow} {x : String}
    (h : s.store.workflow W = .ok workflow) :
    s.board.stage W x .queued ↔ ∃ stage ∈ workflow.stages, stage.id = x ∧ stage.status = .queued := by
  unfold Store.workflow at h
  split at h
  next => cases h
  next =>
    cases h
    simp only [State.board, Store.hasStage, Store.stagesOf, List.mem_insertionSort, List.mem_filter,
      decide_eq_true_eq, and_assoc]

end

/-- The agent of the call has a queued turn. -/
def State.hasTurn (s : State) (call : Nat) : Prop :=
  ∃ workflowID agentID message workflow, s.calls[call]? = some (.sendAgent workflowID agentID message) ∧
    s.store.workflow workflowID = .ok workflow ∧ hasQueuedTurn workflow agentID = true

theorem idle_of_board {hasTurn : Nat → Prop} {b b' : Board} {label : Label} (h : b' = b) :
    b.Step hasTurn label b' := by
  subst h
  exact .idle rfl rfl rfl rfl (fun _ h => h) (fun _ _ _ h => h) fun _ _ _ h => h

/-- A call that no invariant speaks about takes a place where no `Cancel` stood. -/
theorem idle_setCall {hasTurn : Nat → Prop} {b : Board} {label : Label} {i : Nat} {now : Call}
    {issued : String → Prop} (hi : ∀ was, b.call i = some was → was.cancelling = false) (hn : now.busy = false)
    (hs : ∀ id, b.issued id → issued id) : b.Step hasTurn label { b.setCall i now with issued } := by
  refine .idle rfl rfl rfl rfl hs (fun j c hc h => ?_) fun j c hc h => ?_
  · by_cases hj : j = i
    · subst hj
      simp only [Board.setCall, Function.update_self, Option.some.injEq] at h
      subst h
      rw [hn] at hc
      cases hc
    · simpa [Board.setCall, hj] using h
  · by_cases hj : j = i
    · subst hj
      rw [hi c h] at hc
      cases hc
    · simpa [Board.setCall, hj] using h

theorem board_call_fresh (s : State) : s.board.call s.calls.length = none := slots_length _

theorem idle_addCall {s : State} {label : Label} {c : Call} (hc : c.busy = false) :
    s.board.Step s.hasTurn label (s.addCall c).board := by
  rw [board_addCall]
  refine idle_setCall (fun was h => ?_) hc fun _ h => h
  rw [board_call_fresh] at h
  cases h

theorem idle_returned {s : State} {label : Label} {i : Nat} {was now : Call} (hi : s.calls[i]? = some was)
    (hw : was.cancelling = false) (hn : now.busy = false) :
    s.board.Step s.hasTurn label (s.setCall i now).board := by
  rw [board_setCall hi]
  refine idle_setCall (fun c h => ?_) hn fun _ h => h
  cases hi.symm.trans h
  exact hw

section

variable {host : Host} {s t : State}

theorem board_createCall {resolved : Except String String} {request : String} {ids : List String}
    (h : createCall s resolved request ids = some t) :
    s.board.Step s.hasTurn (.create resolved request ids) t.board := by
  unfold createCall at h
  split at h
  next => cases h; exact idle_addCall rfl
  next =>
    split at h
    next => cases h
    next =>
      split at h
      next => cases h; exact idle_addCall rfl
      next =>
        dsimp only at h
        split at h
        next =>
          cases h
          rw [board_addCall]
          refine idle_setCall (fun was h => ?_) rfl fun _ h => List.mem_append_right _ h
          rw [board_call_fresh] at h
          cases h
        next => cases h

theorem board_reserve {call : Nat} {draft : Draft} {id workspace : String}
    (pending : s.calls[call]? = some (.createReserve draft))
    (h : reserveSection s call draft id workspace = some t) :
    s.board.Step s.hasTurn (.reserve call id workspace) t.board := by
  have refused : ∀ error,
      s.board.Step s.hasTurn (.reserve call id workspace) ((s.issue id).setCall call (.failed error)).board := by
    intro error
    rw [board_setCall, board_issue]
    · refine idle_setCall (fun was h => ?_) rfl fun _ h => .inr h
      cases pending.symm.trans h
      rfl
    · exact pending
  unfold reserveSection at h
  split at h
  next => cases h
  next fresh =>
    dsimp only at h
    split at h
    next => cases h; exact refused _
    next =>
      split at h
      next => cases h; exact refused _
      next =>
        cases h
        rw [board_setCall, board_register, board_issue]
        · exact .reserved pending fresh (board_free s)
        · exact pending

theorem board_send {workflowID : String} {input : MessageInput}
    (h : sendCall s workflowID input true = some t) :
    s.board.Step s.hasTurn (.send workflowID input true) t.board := by
  unfold sendCall at h
  split at h
  next => cases h; exact idle_addCall rfl
  next =>
    split at h
    next => cases h; exact idle_addCall rfl
    next =>
      simp only [Bool.not_true, Bool.false_eq_true, if_false] at h
      split at h
      next => cases h
      next =>
        split at h
        next =>
          cases h
          rw [board_addCall]
          exact .sent (board_call_fresh s) rfl
        next =>
          split at h
          next => cases h; exact idle_addCall rfl
          next => cases h; exact idle_addCall rfl

theorem board_sendAgent {call : Nat} {workflowID agentID : String}
    {message : RoomMessage} {stageID workspace : String}
    (pending : s.calls[call]? = some (.sendAgent workflowID agentID message))
    (h : sendAgentSection s call workflowID agentID message stageID workspace = some t) :
    s.board.Step s.hasTurn (.sendAgent call stageID workspace true) t.board := by
  unfold sendAgentSection at h
  split at h
  next => cases h
  next workflow read =>
    obtain ⟨hid, exist⟩ := Store.workflow_id read
    dsimp only at h
    split at h
    next => cases h; exact idle_returned pending rfl rfl
    next =>
      split at h
      next => cases h; exact idle_returned pending rfl rfl
      next =>
        split at h
        next turn =>
          split at h
          next => cases h
          next store stored write =>
            cases h
            obtain ⟨stage, hm, hq⟩ := List.any_eq_true.mp turn
            simp only [State.isStageQueued, Bool.and_eq_true, decide_eq_true_eq] at hq
            have queued : s.board.stage workflowID stage.id .queued :=
              (queued_of_read read).mpr ⟨stage, hm, rfl, hq.2⟩
            rw [board_setCall, board_launchUnlessRunning, hid,
              board_sameProgress (Store.sameProgress_addMessage write)]
            · exact .nudged pending queued (ne_of_eq_of_ne exist (Option.some_ne_none _)) (board_free s)
            · unfold State.launchUnlessRunning
              split <;> exact pending
        next turn =>
          have new : ¬s.hasTurn call := by
            rintro ⟨_, _, _, _, hc, hr, ht⟩
            cases pending.symm.trans hc
            cases read.symm.trans hr
            exact turn ht
          split at h
          next => cases h
          next fresh =>
            split at h
            next => cases h
            next store stored write =>
              cases h
              obtain ⟨was, present, hb⟩ := board_followUp write
              rw [board_setCall, board_launchUnlessRunning, hid, board_issue, hb]
              · exact .followedUp pending new fresh (Store.addMessageWithStage_unused write) present (board_free s)
              · unfold State.launchUnlessRunning
                split <;> exact pending

theorem board_callStep {call : Nat} {c : Call} {label : Label}
    (pending : s.calls[call]? = some c) (hl : label.call? = some call)
    (h : callStep s call c label = some t) (ok : s.storeSucceeds label) :
    s.board.Step s.hasTurn label t.board := by
  unfold callStep at h
  split at h
  next => cases hl; exact board_reserve pending h
  next =>
    cases hl
    cases ok
    simp only [if_true] at h
    split at h
    next write runner =>
      cases h
      obtain ⟨absent, present, other, stages⟩ := Store.createWorkflow_eq write
      rw [board_setCall, board_setRunner]
      · refine .created pending (board_seat runner) absent ?_ ?_
        · ext1
          case status => exact update_of_status present other
          all_goals rfl
        · intro W x status hW
          refine (stages W x status).trans ?_
          simp only [hW, false_and, or_false]
          rfl
      · exact runner
      · exact pending
    next => cases h
  next => cases hl; exact .rolledBack pending
  next =>
    cases hl
    cases ok
    simp only [if_true] at h
    split at h
    next => cases h
    next posted =>
      cases h
      rw [board_setCall, board_sameProgress (Store.sameProgress_addMessage posted)]
      · refine idle_setCall (fun was h => ?_) rfl fun _ h => h
        cases pending.symm.trans h
        rfl
      · exact pending
  next =>
    cases hl
    cases ok
    exact board_sendAgent pending (by simpa using h)
  next =>
    cases hl
    cases h
    rw [board_setCall, board_cancelRunner]
    · exact .signalled pending
    · unfold State.cancelRunner
      split
      next => exact pending
      next => split <;> exact pending
  next =>
    cases hl
    cases ok
    cases h
    rw [board_setCall, board_cancelQueuedStages]
    · exact .marked pending
    · exact pending
  next =>
    cases hl
    cases ok
    simp only [if_true] at h
    split at h
    next => cases h
    next write =>
      cases h
      rw [board_setCall, board_setWorkflowStatus write]
      · exact .cancelled pending (Store.setWorkflowStatus_exists write)
      · exact pending
  next => cases h

theorem release_runners (s : State) (r : Nat) (R : Runner) : (s.release r R).runners = s.runners := by
  unfold State.release
  split <;> rfl

theorem board_ran {r : Nat} {R : Runner} {pc : RunnerPc} {store : Store} {sessions : List AgentSession}
    (runner : s.runners[r]? = some R) :
    { s with store, sessions, runners := s.runners.set r { R with pc } }.board =
      ({ s with store }.board).setSeat r ⟨R.workflowID, R.cancelled, pc⟩ :=
  board_setRunner (s := { s with store }) runner { R with pc }

theorem board_progress {r : Nat} {R : Runner} {input : RunnerInput} {pc : RunnerPc} {store : Store}
    {sessions : List AgentSession} (runner : s.runners[r]? = some R)
    (ok : s.storeSucceeds (.runner r input)) (progress : Progress s.store s.now R R.pc input pc store) :
    s.board.Step s.hasTurn (.runner r input)
      { s with store, sessions, runners := s.runners.set r { R with pc } }.board := by
  have seat := board_seat runner
  rw [board_ran runner]
  cases progress with
  | hop hop same =>
    rw [board_sameProgress same]
    refine .hopped seat (fun hf => ?_) hop
    subst hf
    obtain ⟨Q, hq, live, reads⟩ := ok
    cases runner.symm.trans hq
    exact ⟨live, reads⟩
  | write hin write =>
    subst hin
    generalize hpc : R.pc = was at write
    cases write with
    | started write =>
      rw [board_startStage write]
      exact .started seat hpc (Store.startStage_exists write)
    | completed write =>
      rw [board_finishStage write]
      exact .completed seat hpc
    | gaveUp write =>
      rw [board_finishStage write]
      exact .gaveUp seat hpc
    | failed write =>
      rw [board_setWorkflowStatus write]
      exact .failed seat hpc (Store.setWorkflowStatus_exists write)

theorem board_runnerStep {r : Nat} {R : Runner} {input : RunnerInput}
    (runner : s.runners[r]? = some R) (h : runnerStep host s r R input = some t)
    (ok : s.storeSucceeds (.runner r input)) : s.board.Step s.hasTurn (.runner r input) t.board := by
  have seat := board_seat runner
  unfold runnerStep at h
  split at h
  next at_finish =>
    unfold finishSection at h
    split at h
    next => cases h
    next read =>
      split at h
      next =>
        cases h
        rw [board_setRunner runner]
        exact .hopped seat nofun (by rw [show R.seat.pc = .finish from at_finish]; exact .resumed)
      next empty =>
        cases h
        obtain ⟨store, written⟩ := Store.setWorkflowStatus_of_read .completed s.now read
        simp only [if_true, written, ignoreError]
        rw [board_setRunner (R := R), board_release, board_setWorkflowStatus written, Board.release_setSeat]
        · refine .finished seat at_finish (Store.setWorkflowStatus_exists written) fun x hx => ?_
          obtain ⟨stage, hm, -, hq⟩ := (queued_of_read read).mp hx
          exact empty (List.any_eq_true.mpr ⟨stage, hm, decide_eq_true hq⟩)
        · rw [release_runners]
          exact runner
  next => exact ok.elim
  next at_finish =>
    obtain ⟨Q, hq, -, reads⟩ := ok
    rw [runner] at hq
    cases hq
    rw [at_finish] at reads
    cases reads
  next at_publish =>
    cases h
    rw [board_noteSession, board_setRunner runner]
    refine .hopped seat nofun ?_
    rw [show R.seat.pc = _ from at_publish]
    exact .launched rfl rfl (.inl rfl)
  next at_cleanup =>
    cases h
    rw [board_setRunner (R := R), board_release]
    · exact .retired seat at_cleanup
    · rw [release_runners]
      exact runner
  next =>
    obtain ⟨⟨pc, store, sessions⟩, advanced, ht⟩ := Option.map_eq_some_iff.mp h
    cases ht
    exact board_progress runner ok (progress_of_advance advanced)

/-- Every step whose store call succeeds is a step of the board. -/
theorem board_step {label : Label} (h : step host s label = some t) (ok : s.storeSucceeds label) :
    s.board.Step s.hasTurn label t.board := by
  unfold step at h
  split at h
  next => exact board_createCall h
  next =>
    cases ok
    exact board_send h
  next =>
    cases ok
    simp only [cancelCall, Bool.not_true, Bool.false_eq_true, if_false] at h
    split at h
    next => cases h
    next read =>
      split at h
      next =>
        cases h
        rw [board_addCall]
        refine .requested (board_call_fresh s) ?_
        simp [State.board, (Store.workflow_id read).2]
      next => cases h; exact idle_addCall rfl
  next =>
    obtain ⟨R, runner, h⟩ := Option.bind_eq_some_iff.mp h
    exact board_runnerStep runner h ok
  next =>
    split at h
    next => cases h; exact idle_of_board rfl
    next => cases h
  next => cases h; exact idle_of_board rfl
  next => cases h; exact idle_of_board rfl
  next =>
    obtain ⟨call, hl, h⟩ := Option.bind_eq_some_iff.mp h
    obtain ⟨c, pending, h⟩ := Option.bind_eq_some_iff.mp h
    exact board_callStep pending hl h ok

end

end TermLinks.Coordinator
