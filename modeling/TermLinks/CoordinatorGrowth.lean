import TermLinks.CoordinatorRows
import TermLinks.CoordinatorLedger

namespace TermLinks.Coordinator

open Store (Numbered)

theorem compileStage_numbered {installed available : List Agent} {newID : Nat → String} {index : Nat}
    {mention text : String} {stage : Stage}
    (h : compileStage installed available newID index mention text = .ok stage) :
    stage.position = index ∧ stage.status = .queued := by
  unfold compileStage at h
  dsimp only at h
  split at h
  next => cases h
  next =>
    split at h
    next => cases h
    next =>
      split at h
      next => cases h
      next => cases h; exact ⟨rfl, rfl⟩

theorem compileStages_numbered {installed available : List Agent} {newID : Nat → String} {index : Nat}
    {found : List (String × String)} {stages : List Stage}
    (h : compileStages installed available newID index found = .ok stages) :
    stages.map Stage.position = List.range' index stages.length ∧
      ∀ stage ∈ stages, stage.status = .queued := by
  induction found generalizing index stages with
  | nil =>
    cases h
    exact ⟨rfl, nofun⟩
  | cons mention found ih =>
    unfold compileStages at h
    obtain ⟨stage, first, h⟩ := bind_ok_iff.mp h
    obtain ⟨rest, later, h⟩ := bind_ok_iff.mp h
    cases h
    obtain ⟨position, queued⟩ := compileStage_numbered first
    obtain ⟨positions, others⟩ := ih later
    refine ⟨?_, ?_⟩
    · rw [List.map_cons, position, positions, List.length_cons, List.range'_succ]
    · intro other ho
      rcases List.mem_cons.mp ho with rfl | ho
      · exact queued
      · exact others other ho

theorem compile_numbered {request cwd : String} {agents : List Agent} {newID : Nat → String} {draft : Draft}
    (h : compile request cwd agents newID = .ok draft) : Numbered draft.stages := by
  unfold compile at h
  dsimp only at h
  split at h
  next => cases h
  next =>
    split at h
    next => cases h
    next =>
      split at h
      next => cases h
      next =>
        obtain ⟨stages, compiled, h⟩ := bind_ok_iff.mp h
        split at h
        next =>
          cases h
          have numbered := compileStages_numbered compiled
          rwa [← List.range_eq_range'] at numbered
        next =>
          split at h
          next => cases h
          next =>
            cases h
            refine ⟨rfl, ?_⟩
            intro stage hs
            cases List.mem_singleton.mp hs
            rfl

/-- What a call of `Create` holds between its sections is numbered. -/
def Call.drafted : Call → Prop
  | .createReserve draft => Numbered draft.stages
  | .createStore workflow _ _ => Numbered workflow.stages
  | _ => True

def State.Drafted (s : State) : Prop := ∀ c ∈ s.calls, c.drafted

/-- A step that keeps the table of stages laid out and the drafts numbered. -/
structure State.Grows (s t : State) : Prop where
  rows : s.store.Grows t.store
  drafted : t.Drafted

section

variable {host : Host} {s t : State}

theorem drafted_set (h : s.Drafted) {i : Nat} {c : Call} (calls : t.calls = s.calls.set i c) (hc : c.drafted) :
    t.Drafted := by
  intro d hd
  rw [calls] at hd
  rcases List.mem_or_eq_of_mem_set hd with old | rfl
  · exact h d old
  · exact hc

theorem drafted_addCall (h : s.Drafted) {c : Call} (hc : c.drafted) : (s.addCall c).Drafted := by
  intro d hd
  rcases List.mem_append.mp hd with old | new
  · exact h d old
  · rw [List.mem_singleton.mp new]
    exact hc

theorem grows_setCall (h : s.Drafted) {i : Nat} {c : Call} (hc : c.drafted) : s.Grows (s.setCall i c) :=
  ⟨.refl _, drafted_set h rfl hc⟩

theorem grows_addCall (h : s.Drafted) {c : Call} (hc : c.drafted) : s.Grows (s.addCall c) :=
  ⟨.refl _, drafted_addCall h hc⟩

/-- A call that writes the store and goes on. -/
theorem grows_write (h : s.Drafted) {store : Store} (write : s.store.Grows store) {i : Nat} {c : Call}
    (hc : c.drafted) : s.Grows ({ s with store }.setCall i c) :=
  ⟨write, drafted_set h rfl hc⟩

theorem grows_createCall {resolved : Except String String} {request : String} {ids : List String}
    (d : s.Drafted) (h : createCall s resolved request ids = some t) : s.Grows t := by
  unfold createCall at h
  split at h
  next => cases h; exact grows_addCall d trivial
  next =>
    split at h
    next => cases h
    next =>
      split at h
      next => cases h; exact grows_addCall d trivial
      next draft compiled =>
        dsimp only at h
        split at h
        next =>
          cases h
          exact ⟨.refl _, drafted_addCall (s := { s with issued := _ }) d (compile_numbered compiled)⟩
        next => cases h

theorem grows_reserve {call : Nat} {draft : Draft} {id workspace : String} (d : s.Drafted)
    (numbered : Numbered draft.stages) (h : reserveSection s call draft id workspace = some t) :
    s.Grows t := by
  unfold reserveSection at h
  split at h
  next => cases h
  next =>
    dsimp only at h
    split at h
    next => cases h; exact ⟨.refl _, drafted_set d rfl trivial⟩
    next =>
      split at h
      next => cases h; exact ⟨.refl _, drafted_set d rfl trivial⟩
      next =>
        cases h
        refine ⟨.refl _, drafted_set d rfl ⟨?_, ?_⟩⟩
        · simp only [newWorkflow, List.map_map, List.length_map]
          exact numbered.1
        · intro stage hs
          obtain ⟨old, ho, rfl⟩ := List.mem_map.mp hs
          exact numbered.2 old ho

theorem grows_send {workflowID : String} {input : MessageInput} {ok : Bool} (d : s.Drafted)
    (h : sendCall s workflowID input ok = some t) : s.Grows t := by
  unfold sendCall at h
  split at h
  next => cases h; exact grows_addCall d trivial
  next =>
    split at h
    next => cases h; exact grows_addCall d trivial
    next =>
      split at h
      next => cases h; exact grows_addCall d trivial
      next =>
        split at h
        next => cases h
        next =>
          dsimp only at h
          split at h
          next => cases h; exact grows_addCall d trivial
          next =>
            split at h
            next => cases h; exact grows_addCall d trivial
            next => cases h; exact grows_addCall d trivial

theorem grows_launch (d : s.Drafted) {store : Store} (write : s.store.Grows store) {issued : List String}
    {W workspace : String} {i : Nat} {c : Call} (hc : c.drafted) :
    s.Grows (({ s with store, issued }.launchUnlessRunning W workspace).setCall i c) := by
  unfold State.launchUnlessRunning
  split
  next => exact ⟨write, drafted_set d rfl hc⟩
  next => exact ⟨write, drafted_set d rfl hc⟩

theorem grows_sendAgent {call : Nat} {workflowID agentID : String} {message : RoomMessage}
    {stageID workspace : String} (d : s.Drafted)
    (h : sendAgentSection s call workflowID agentID message stageID workspace = some t) : s.Grows t := by
  unfold sendAgentSection at h
  split at h
  next => cases h
  next =>
    dsimp only at h
    split at h
    next => cases h; exact grows_setCall d trivial
    next =>
      split at h
      next => cases h; exact grows_setCall d trivial
      next =>
        split at h
        next =>
          split at h
          next => cases h
          next posted =>
            cases h
            exact @grows_launch _ d _
              (Store.grows_of_sameProgress (Store.sameProgress_addMessage posted)) s.issued _ _ _ _
              trivial
        next =>
          split at h
          next => cases h
          next =>
            split at h
            next => cases h
            next queued =>
              cases h
              exact @grows_launch _ d _ (Store.grows_addMessageWithStage queued) (stageID :: s.issued) _ _ _ _ trivial

theorem grows_callStep {call : Nat} {c : Call} {label : Label} (d : s.Drafted)
    (pending : s.calls[call]? = some c) (h : callStep s call c label = some t) : s.Grows t := by
  have numbered := d c (List.mem_of_getElem? pending)
  unfold callStep at h
  split at h
  next => exact grows_reserve d numbered h
  next =>
    split at h
    next =>
      split at h
      next write _ =>
        cases h
        exact ⟨Store.grows_createWorkflow numbered write, drafted_set d rfl trivial⟩
      next => cases h
    next => cases h; exact grows_setCall d trivial
  next =>
    split at h
    next => cases h
    next =>
      cases h
      exact ⟨.refl _, drafted_set d rfl trivial⟩
  next =>
    split at h
    next =>
      split at h
      next => cases h
      next posted =>
        cases h
        exact grows_write d (Store.grows_of_sameProgress (Store.sameProgress_addMessage posted)) trivial
    next => cases h; exact grows_setCall d trivial
  next =>
    split at h
    next => exact grows_sendAgent d h
    next => cases h; exact grows_setCall d trivial
  next id _ =>
    cases h
    unfold State.cancelRunner
    split
    next => exact grows_setCall d trivial
    next =>
      split
      next => exact grows_setCall d trivial
      next => exact ⟨.refl _, drafted_set d rfl trivial⟩
  next =>
    split at h
    next => cases h; exact grows_write d (Store.grows_cancelQueuedStages _ _ _) trivial
    next => cases h; exact grows_setCall d trivial
  next =>
    split at h
    next =>
      split at h
      next => cases h
      next write => cases h; exact grows_write d (Store.grows_setWorkflowStatus write) trivial
    next => cases h; exact grows_setCall d trivial
  next => cases h

theorem grows_progress {store store' : Store} {now : Time} {R : Runner} {pc pc' : RunnerPc}
    {input : RunnerInput} (h : Progress store now R pc input pc' store') : store.Grows store' := by
  cases h with
  | hop hop same => exact Store.grows_of_sameProgress same
  | write ok write =>
    cases write with
    | started write => exact Store.grows_startStage write
    | completed write => exact Store.grows_finishStage write
    | gaveUp write => exact Store.grows_finishStage write
    | failed write => exact Store.grows_setWorkflowStatus write

theorem release_calls (s : State) (r : Nat) (R : Runner) : (s.release r R).calls = s.calls := by
  unfold State.release
  split <;> rfl

theorem release_store (s : State) (r : Nat) (R : Runner) : (s.release r R).store = s.store := by
  unfold State.release
  split <;> rfl

theorem noteSession_kept (s : State) (id sessionID : String) :
    (s.noteSession id sessionID).store = s.store ∧ (s.noteSession id sessionID).calls = s.calls := by
  unfold State.noteSession
  split
  next => exact ⟨rfl, rfl⟩
  next => split <;> exact ⟨rfl, rfl⟩

theorem grows_runnerStep {r : Nat} {R : Runner} {input : RunnerInput} (d : s.Drafted)
    (h : runnerStep host s r R input = some t) : s.Grows t := by
  have finishing : ∀ written, finishSection s r R written = some t → s.Grows t := by
    intro written h
    unfold finishSection at h
    split at h
    next => cases h
    next read =>
      split at h
      next => cases h; exact ⟨.refl _, d⟩
      next =>
        cases h
        obtain ⟨store, write⟩ := Store.setWorkflowStatus_of_read .completed s.now read
        refine ⟨?_, ?_⟩
        · simp only [State.setRunner, release_store, write, ignoreError]
          split
          next => exact Store.grows_setWorkflowStatus write
          next => exact .refl _
        · unfold State.Drafted
          simp only [State.setRunner, release_calls]
          exact d
  unfold runnerStep at h
  split at h
  next => exact finishing true h
  next => exact finishing false h
  next => cases h; exact ⟨.refl _, d⟩
  next workflow _ _ sessionID _ =>
    cases h
    obtain ⟨store, calls⟩ := noteSession_kept (s.setRunner r _) workflow.id sessionID
    refine ⟨?_, ?_⟩
    · rw [store]
      exact .refl _
    · unfold State.Drafted
      rw [calls]
      exact d
  next =>
    cases h
    refine ⟨?_, ?_⟩
    · simp only [State.setRunner, release_store]
      exact .refl _
    · unfold State.Drafted
      simp only [State.setRunner, release_calls]
      exact d
  next =>
    obtain ⟨⟨pc, store, sessions⟩, advanced, ht⟩ := Option.map_eq_some_iff.mp h
    cases ht
    exact ⟨grows_progress (progress_of_advance advanced), d⟩

/-- Every step of the coordinator adds stages only behind those that are there. -/
theorem grows_step {label : Label} (d : s.Drafted) (h : step host s label = some t) : s.Grows t := by
  unfold step at h
  split at h
  next => exact grows_createCall d h
  next => exact grows_send d h
  next =>
    unfold cancelCall at h
    split at h
    next => cases h; exact grows_addCall d trivial
    next =>
      split at h
      next => cases h
      next =>
        split at h
        next => cases h; exact grows_addCall d trivial
        next => cases h; exact grows_addCall d trivial
  next =>
    obtain ⟨R, -, h⟩ := Option.bind_eq_some_iff.mp h
    exact grows_runnerStep d h
  next =>
    split at h
    next => cases h; exact ⟨.refl _, d⟩
    next => cases h
  next => cases h; exact ⟨Store.grows_of_stages rfl fun _ h => h, d⟩
  next => cases h; exact ⟨.refl _, d⟩
  next =>
    obtain ⟨call, -, h⟩ := Option.bind_eq_some_iff.mp h
    obtain ⟨c, pending, h⟩ := Option.bind_eq_some_iff.mp h
    exact grows_callStep d pending h

theorem grows_lifeStep {label : LifeLabel} (d : s.Drafted) (h : lifeStep host s label = some t) :
    s.Grows t := by
  cases label with
  | step label => exact grows_step d h
  | restart now =>
    cases h
    exact ⟨Store.grows_markInterrupted _ _, fun c hc => absurd hc List.not_mem_nil⟩

end

end TermLinks.Coordinator
