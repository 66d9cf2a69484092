import TermLinks.CoordinatorManager
import TermLinks.CoordinatorStatus

namespace TermLinks.Coordinator

namespace RunnerPc

/-- The workflow and the stage that `runStage` works on. -/
def turn : RunnerPc → Option (Workflow × Stage)
  | .agents workflow stage | .messages workflow stage _ | .start workflow stage _ _ _
  | .publish workflow stage _ _ | .startStage workflow stage _ _ | .announce workflow stage _ _
  | .write workflow stage _ _ | .await workflow stage _ | .drain workflow stage _
  | .collect workflow stage _ | .post workflow stage _ | .complete workflow stage _
  | .finishStage workflow stage _ _ _ _ | .announceFailure workflow stage _ => some (workflow, stage)
  | .pending | .loop | .load | .finish | .stageError | .setFailed | .cleanup | .done => none

/-- Past the reads of `runStage`, with the stage not yet started. -/
def launching : RunnerPc → Bool
  | .start _ _ _ _ _ | .publish _ _ _ _ | .startStage _ _ _ _ => true
  | _ => false

/-- The stage is started and not yet finished. -/
def attending : RunnerPc → Bool
  | .announce _ _ _ _ | .write _ _ _ _ | .await _ _ _ | .drain _ _ _ | .collect _ _ _
  | .post _ _ _ | .complete _ _ _ => true
  | _ => false

/-- About to record that the turn did not complete. -/
def givingUp : RunnerPc → Bool
  | .finishStage _ _ _ _ _ _ => true
  | _ => false

/-- On the way from a turn that failed to the release of the runner. -/
def failing : RunnerPc → Bool
  | .finishStage _ _ _ _ _ _ | .announceFailure _ _ _ | .stageError | .setFailed => true
  | _ => false

end RunnerPc

/-- The steps of a runner of workflow `W` that write no status. -/
inductive Hop (cancelled : Bool) (W : String) : RunnerPc → RunnerInput → RunnerPc → Prop
  | checked : Hop cancelled W .loop .ok (if cancelled then .cleanup else .load)
  | drained (live : cancelled = false) : Hop cancelled W .load .ok .finish
  | picked {workflow : Workflow} {stage : Stage} (live : cancelled = false) (own : workflow.id = W) :
      Hop cancelled W .load .ok (.agents workflow stage)
  | unloaded : Hop cancelled W .load .fail .cleanup
  | prepared {pc pc' : RunnerPc} (live : cancelled = false) (reads : pc.reads = true)
      (held : pc.turn ≠ none) (turn : pc'.turn = pc.turn)
      (next : pc'.reads = true ∨ pc'.launching = true ∨ pc'.givingUp = true) :
      Hop cancelled W pc .ok pc'
  | launched {pc pc' : RunnerPc} {input : RunnerInput} (launching : pc.launching = true)
      (turn : pc'.turn = pc.turn) (next : pc'.launching = true ∨ pc'.givingUp = true) :
      Hop cancelled W pc input pc'
  | attended {pc pc' : RunnerPc} {input : RunnerInput} (attending : pc.attending = true)
      (turn : pc'.turn = pc.turn) (next : pc'.attending = true ∨ pc'.givingUp = true) :
      Hop cancelled W pc input pc'
  | unrecorded {workflow : Workflow} {stage : Stage} {how : TurnEnd} {output message : String}
      {announced : Bool} :
      Hop cancelled W (.finishStage workflow stage how output message announced) .fail
        (if announced then .announceFailure workflow stage message else .stageError)
  | broken {pc : RunnerPc} (held : pc.turn ≠ none) : Hop cancelled W pc .fail .stageError
  | told {workflow : Workflow} {stage : Stage} {message : String} :
      Hop cancelled W (.announceFailure workflow stage message) .ok .stageError
  | judged : Hop cancelled W .stageError .ok (if cancelled then .cleanup else .setFailed)
  | unfailed : Hop cancelled W .setFailed .fail .cleanup
  | resumed : Hop cancelled W .finish .ok .loop

/-- The steps of a runner that write a status. -/
inductive Write (store : Store) (now : Time) (W : String) : RunnerPc → RunnerPc → Store → Prop
  | started {workflow : Workflow} {stage : Stage} {prompt sessionID : String} {store' : Store}
      (write : store.startStage workflow.id stage.id sessionID now = .ok store') :
      Write store now W (.startStage workflow stage prompt sessionID)
        (.announce workflow stage prompt sessionID) store'
  | completed {workflow : Workflow} {stage : Stage} {output : String} {store' : Store}
      (write : store.finishStage workflow.id stage.id .completed output "Agent stage completed" now =
        .ok store') :
      Write store now W (.complete workflow stage output) .loop store'
  | gaveUp {workflow : Workflow} {stage : Stage} {how : TurnEnd} {output message : String}
      {announced : Bool} {store' : Store}
      (write : store.finishStage workflow.id stage.id how.status output message now = .ok store') :
      Write store now W (.finishStage workflow stage how output message announced)
        (if announced then .announceFailure workflow stage message else .stageError) store'
  | failed {store' : Store} (write : store.setWorkflowStatus W .failed now = .ok store') :
      Write store now W .setFailed .cleanup store'

/-- A step of a runner outside the lock. -/
inductive Progress (store : Store) (now : Time) (R : Runner) (pc : RunnerPc) (input : RunnerInput)
    (pc' : RunnerPc) (store' : Store) : Prop
  | hop (hop : Hop R.cancelled R.workflowID pc input pc') (same : Store.SameProgress store store')
  | write (ok : input = .ok) (write : Write store now R.workflowID pc pc' store')

theorem progress_of_advance {host : Host} {store store' : Store} {sessions sessions' : List AgentSession}
    {now : Time} {R : Runner} {pc pc' : RunnerPc} {input : RunnerInput}
    (h : advance host store sessions now R pc input = some (pc', store', sessions')) :
    Progress store now R pc input pc' store' := by
  unfold advance at h
  split at h
  next => cases h; exact .hop .checked (.refl _)
  next =>
    split at h
    next => cases h
    next live =>
      split at h
      next => cases h
      next workflow read =>
        split at h
        next hn => cases h; exact .hop (.drained (by simpa using live)) (.refl _)
        next stage hn => cases h; exact .hop (.picked (by simpa using live) (Store.workflow_id read).1) (.refl _)
  next => cases h; exact .hop .unloaded (.refl _)
  next =>
    split at h
    next => cases h
    next live =>
      split at h
      next =>
        split at h
        next => cases h; exact .hop (.prepared (by simpa using live) rfl (by rintro ⟨⟩) rfl (.inl rfl)) (.refl _)
        next => cases h; exact .hop (.prepared (by simpa using live) rfl (by rintro ⟨⟩) rfl (.inr (.inr rfl))) (.refl _)
      next => cases h; exact .hop (.prepared (by simpa using live) rfl (by rintro ⟨⟩) rfl (.inr (.inr rfl))) (.refl _)
  next => cases h; exact .hop (.broken (by rintro ⟨⟩)) (.refl _)
  next =>
    split at h
    next => cases h
    next live =>
      split at h
      next => cases h; exact .hop (.prepared (by simpa using live) rfl (by rintro ⟨⟩) rfl (.inr (.inr rfl))) (.refl _)
      next =>
        split at h
        next => cases h; exact .hop (.prepared (by simpa using live) rfl (by rintro ⟨⟩) rfl (.inr (.inr rfl))) (.refl _)
        next => cases h; exact .hop (.prepared (by simpa using live) rfl (by rintro ⟨⟩) rfl (.inr (.inl rfl))) (.refl _)
  next => cases h; exact .hop (.broken (by rintro ⟨⟩)) (.refl _)
  next =>
    split at h
    next => cases h
    next => cases h; exact .hop (.launched rfl rfl (.inl rfl)) (.refl _)
  next => cases h; exact .hop (.launched rfl rfl (.inr rfl)) (.refl _)
  next =>
    split at h
    next => cases h
    next write => cases h; exact .write rfl (.started write)
  next => cases h; exact .hop (.broken (by rintro ⟨⟩)) (.refl _)
  next =>
    split at h
    next => cases h
    next posted =>
      cases h
      exact .hop (.attended rfl rfl (.inl rfl)) (Store.sameProgress_addMessage posted)
  next => cases h; exact .hop (.attended rfl rfl (.inl rfl)) (.refl _)
  next => cases h; exact .hop (.attended rfl rfl (.inl rfl)) (.refl _)
  next => cases h; exact .hop (.attended rfl rfl (.inr rfl)) (.refl _)
  next =>
    split at h
    next => cases h; exact .hop (.attended rfl rfl (.inl rfl)) (.refl _)
    next => cases h
  next =>
    split at h
    next => cases h; exact .hop (.attended rfl rfl (.inl rfl)) (.refl _)
    next => cases h
  next =>
    split at h
    next => cases h; exact .hop (.attended rfl rfl (.inl rfl)) (.refl _)
    next => cases h
  next =>
    split at h
    next => cases h; exact .hop (.attended rfl rfl (.inr rfl)) (.refl _)
    next =>
      split at h
      next => cases h; exact .hop (.attended rfl rfl (.inr rfl)) (.refl _)
      next =>
        split at h
        next => cases h; exact .hop (.attended rfl rfl (.inl rfl)) (.refl _)
        next => cases h; exact .hop (.attended rfl rfl (.inr rfl)) (.refl _)
  next =>
    split at h
    next => cases h; exact .hop (.attended rfl rfl (.inl rfl)) (.refl _)
    next =>
      split at h
      next => cases h
      next posted =>
        cases h
        exact .hop (.attended rfl rfl (.inl rfl)) (Store.sameProgress_addMessage posted)
  next => cases h; exact .hop (.attended rfl rfl (.inl rfl)) (.refl _)
  next =>
    split at h
    next => cases h
    next write => cases h; exact .write rfl (.completed write)
  next => cases h; exact .hop (.broken (by rintro ⟨⟩)) (.refl _)
  next =>
    split at h
    next => cases h
    next write => cases h; exact .write rfl (.gaveUp write)
  next => cases h; exact .hop .unrecorded (.refl _)
  next =>
    split at h
    next => cases h
    next posted => cases h; exact .hop .told (Store.sameProgress_addMessage posted)
  next => cases h; exact .hop (.broken (by rintro ⟨⟩)) (.refl _)
  next => cases h; exact .hop .judged (.refl _)
  next =>
    split at h
    next => cases h
    next write => cases h; exact .write rfl (.failed write)
  next => cases h; exact .hop .unfailed (.refl _)
  next => cases h

namespace Call

/-- Calls that an invariant speaks about. -/
def busy : Call → Bool
  | .createStore _ _ _ | .createRollback _ _ _ | .sendAgent _ _ _ | .cancelSignal _ | .cancelStages _
  | .cancelStatus _ => true
  | .createReserve _ | .sendTeam _ | .failed _ | .returned _ => false

def cancelling : Call → Bool
  | .cancelSignal _ | .cancelStages _ | .cancelStatus _ => true
  | _ => false

end Call

end TermLinks.Coordinator
