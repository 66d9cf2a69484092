import TermLinks.CoordinatorStore
import TermLinks.GoError

namespace TermLinks.Coordinator.Store

def statusOf (s : Store) (id : String) : Option WorkflowStatus :=
  (findRow WorkflowRow.id id s.workflows).map (·.status)

/-- Some row of the table has these values. -/
def hasStage (s : Store) (workflowID id : String) (status : StageStatus) : Prop :=
  ∃ row ∈ s.stages, row.workflowID = workflowID ∧ row.id = id ∧ row.status = status

/-- The two stores agree on every status. -/
structure SameProgress (s t : Store) : Prop where
  workflows : ∀ id, t.statusOf id = s.statusOf id
  stages : t.stages = s.stages

theorem SameProgress.refl (s : Store) : SameProgress s s := ⟨fun _ => rfl, rfl⟩

theorem SameProgress.trans {s t u : Store} (h : SameProgress s t) (h' : SameProgress t u) :
    SameProgress s u :=
  ⟨fun id => (h'.workflows id).trans (h.workflows id), h'.stages.trans h.stages⟩

theorem SameProgress.hasStage {s t : Store} (h : SameProgress s t) {W x : String}
    {status : StageStatus} : t.hasStage W x status ↔ s.hasStage W x status := by
  simp only [Store.hasStage, h.stages]

theorem workflowExists_iff {s : Store} {id : String} :
    s.workflowExists id ↔ s.statusOf id ≠ none := by
  simp [workflowExists, statusOf, findRow]

theorem statusOf_updateWorkflow_same {s : Store} {id : String} {f : WorkflowRow → WorkflowRow}
    (hf : ∀ row, (f row).id = row.id) :
    (s.updateWorkflow id f).statusOf id =
      (findRow WorkflowRow.id id s.workflows).map fun row => (f row).status := by
  simp only [statusOf, updateWorkflow]
  rw [findRow_updateWhere_same hf, Option.map_map]
  rfl

theorem statusOf_updateWorkflow_other {s : Store} {id other : String}
    {f : WorkflowRow → WorkflowRow} (hf : ∀ row, (f row).id = row.id) (ho : other ≠ id) :
    (s.updateWorkflow id f).statusOf other = s.statusOf other := by
  simp only [statusOf, updateWorkflow]
  rw [findRow_updateWhere_other hf ho]

theorem sameProgress_touched (s : Store) (id : String) (now : Time) :
    SameProgress s (s.updateWorkflow id (WorkflowRow.touched now)) := by
  refine ⟨fun other => ?_, rfl⟩
  by_cases ho : other = id
  · subst ho
    rw [statusOf_updateWorkflow_same (f := WorkflowRow.touched now) fun _ => rfl]
    rfl
  · exact statusOf_updateWorkflow_other (fun _ => rfl) ho

/-- A write that sets the status of one stage. -/
theorem hasStage_updateStage {s : Store} {workflowID id W x : String} {f : Stage → Stage}
    {status status' : StageStatus} (hw : ∀ row, (f row).workflowID = row.workflowID)
    (hf : ∀ row, (f row).id = row.id) (hs : ∀ row, (f row).status = status) :
    (s.updateStage workflowID id f).hasStage W x status' ↔
      if W = workflowID ∧ x = id then status' = status ∧ ∃ was, s.hasStage W x was
      else s.hasStage W x status' := by
  have key : ∀ row : Stage, row.workflowID = W → row.id = x →
      ((row.id = id ∧ row.workflowID = workflowID) ↔ (W = workflowID ∧ x = id)) := by
    rintro row rfl rfl
    exact and_comm
  unfold hasStage updateStage
  simp only [mem_updateWhere]
  constructor
  · rintro ⟨_, ⟨old, hold, rfl⟩, hW, hx, hst⟩
    by_cases hk : old.id = id ∧ old.workflowID = workflowID
    · simp only [hk, and_self, decide_true, if_true, hw, hf, hs] at hW hx hst
      have hk' : W = workflowID ∧ x = id := ⟨hW.symm, hx.symm⟩
      rw [if_pos hk']
      exact ⟨hst.symm, old.status, old, hold, hk.2.trans hW, hk.1.trans hx, rfl⟩
    · simp only [hk, decide_false, Bool.false_eq_true, if_false] at hW hx hst
      rw [if_neg (mt (key old hW hx).mpr hk)]
      exact ⟨old, hold, hW, hx, hst⟩
  · intro h
    split at h
    next hk =>
      obtain ⟨rfl, was, old, hold, hW, hx, -⟩ := h
      have hk' := (key old hW hx).mpr hk
      refine ⟨f old, ⟨old, hold, ?_⟩, (hw old).trans hW, (hf old).trans hx, hs old⟩
      simp [hk']
    next hk =>
      obtain ⟨old, hold, hW, hx, hst⟩ := h
      have hk' := mt (key old hW hx).mp hk
      refine ⟨old, ⟨old, hold, ?_⟩, hW, hx, hst⟩
      simp [hk']

theorem hasStage_append {s : Store} {stages : List Stage} {W x : String} {status : StageStatus} :
    ({ s with stages := s.stages ++ stages } : Store).hasStage W x status ↔
      s.hasStage W x status ∨
        ∃ row ∈ stages, row.workflowID = W ∧ row.id = x ∧ row.status = status := by
  simp only [hasStage, List.mem_append, or_and_right, exists_or]

theorem sameProgress_insertEvent {s t : Store} {workflowID stageID type message : String} {now : Time}
    (h : s.insertEvent workflowID stageID type message now = .ok t) : SameProgress s t := by
  unfold insertEvent at h
  split at h
  next => cases h; exact ⟨fun _ => rfl, rfl⟩
  next => cases h

theorem sameProgress_insertMessage {s t : Store} {message stored : RoomMessage} {created : Time}
    (h : s.insertMessage message created = .ok (t, stored)) : SameProgress s t := by
  unfold insertMessage at h
  split at h
  next => cases h; exact ⟨fun _ => rfl, rfl⟩
  next => cases h

theorem sameProgress_addMessage {s t : Store} {message stored : RoomMessage} {now : Time}
    (h : s.addMessage message now = .ok (t, stored)) : SameProgress s t := by
  unfold addMessage at h
  obtain ⟨_, -, h⟩ := bind_ok_iff.mp h
  obtain ⟨⟨inserted, _⟩, hi, h⟩ := bind_ok_iff.mp h
  cases h
  exact (sameProgress_insertMessage hi).trans (sameProgress_touched _ _ _)

theorem insertStage_eq {s t : Store} {workflowID : String} {stage : Stage}
    (h : insertStage workflowID s stage = .ok t) :
    t = { s with stages := s.stages ++ [stage.inserted workflowID] } := by
  unfold insertStage at h
  split at h
  next => cases h
  next => cases h; rfl

theorem insertStages_eq {s t : Store} {workflowID : String} {stages : List Stage}
    (h : stages.foldlM (insertStage workflowID) s = .ok t) :
    t = { s with stages := s.stages ++ stages.map (Stage.inserted workflowID) } := by
  induction stages generalizing s with
  | nil => cases h; simp
  | cons stage stages ih =>
    rw [List.foldlM_cons] at h
    obtain ⟨inserted, hi, h⟩ := bind_ok_iff.mp h
    cases insertStage_eq hi
    simpa using ih h

theorem statusOf_withStatus {s : Store} {id : String} {status : WorkflowStatus} {now : Time}
    (he : s.workflowExists id) :
    (s.updateWorkflow id (WorkflowRow.withStatus status now)).statusOf id = some status := by
  have hs := workflowExists_iff.mp he
  simp only [statusOf, ne_eq, Option.map_eq_none_iff] at hs
  obtain ⟨row, hr⟩ := Option.ne_none_iff_exists'.mp hs
  rw [statusOf_updateWorkflow_same (f := WorkflowRow.withStatus status now) fun _ => rfl, hr]
  rfl

theorem setWorkflowStatus_eq {s t : Store} {id : String} {status : WorkflowStatus} {now : Time}
    (h : s.setWorkflowStatus id status now = .ok t) :
    t.statusOf id = some status ∧ (∀ W, W ≠ id → t.statusOf W = s.statusOf W) ∧
      t.stages = s.stages := by
  unfold setWorkflowStatus at h
  split at h
  next he =>
    cases h
    exact ⟨statusOf_withStatus he, fun W hW => statusOf_updateWorkflow_other (fun _ => rfl) hW, rfl⟩
  next => cases h

theorem setWorkflowStatus_exists {s t : Store} {id : String} {status : WorkflowStatus} {now : Time}
    (h : s.setWorkflowStatus id status now = .ok t) : s.statusOf id ≠ none := by
  unfold setWorkflowStatus at h
  split at h
  next he => exact workflowExists_iff.mp he
  next => cases h

theorem insertEvent_exists {s t : Store} {workflowID stageID type message : String} {now : Time}
    (h : s.insertEvent workflowID stageID type message now = .ok t) : s.workflowExists workflowID := by
  unfold insertEvent at h
  split at h
  next he => exact he
  next => cases h

theorem startStage_exists {s t : Store} {workflowID id sessionID : String} {now : Time}
    (h : s.startStage workflowID id sessionID now = .ok t) : s.statusOf workflowID ≠ none := by
  unfold startStage at h
  have kept := workflowExists_iff.mp (insertEvent_exists h)
  change (s.updateWorkflow workflowID _).statusOf workflowID ≠ none at kept
  rw [statusOf_updateWorkflow_same (f := WorkflowRow.withStatus .running now) fun _ => rfl] at kept
  simpa [statusOf] using kept

theorem startStage_eq {s t : Store} {workflowID id sessionID : String} {now : Time}
    (h : s.startStage workflowID id sessionID now = .ok t) :
    t.statusOf workflowID = some .running ∧ (∀ W, W ≠ workflowID → t.statusOf W = s.statusOf W) ∧
      ∀ W x status, t.hasStage W x status ↔
        if W = workflowID ∧ x = id then status = .running ∧ ∃ was, s.hasStage W x was
        else s.hasStage W x status := by
  have he := workflowExists_iff.mpr (startStage_exists h)
  unfold startStage at h
  have same := sameProgress_insertEvent h
  refine ⟨?_, fun W hW => ?_, fun W x status => ?_⟩
  · exact (same.workflows _).trans (statusOf_withStatus he)
  · exact (same.workflows _).trans (statusOf_updateWorkflow_other (fun _ => rfl) hW)
  · exact same.hasStage.trans (hasStage_updateStage (fun _ => rfl) (fun _ => rfl) fun _ => rfl)

theorem finishStage_eq {s t : Store} {workflowID id output message : String} {status : StageStatus}
    {now : Time} (h : s.finishStage workflowID id status output message now = .ok t) :
    (∀ W, t.statusOf W = s.statusOf W) ∧
      ∀ W x status', t.hasStage W x status' ↔
        if W = workflowID ∧ x = id then status' = status ∧ ∃ was, s.hasStage W x was
        else s.hasStage W x status' := by
  unfold finishStage at h
  obtain ⟨marked, hm, h⟩ := bind_ok_iff.mp h
  cases h
  have same := (sameProgress_insertEvent hm).trans (sameProgress_touched _ workflowID now)
  exact ⟨fun W => same.workflows W, fun W x status' =>
    same.hasStage.trans (hasStage_updateStage (fun _ => rfl) (fun _ => rfl) fun _ => rfl)⟩

theorem hasStage_cancelQueuedStages {s : Store} {id W x : String} {now : Time} {status : StageStatus} :
    (s.cancelQueuedStages id now).hasStage W x status ↔
      if W = id then s.hasStage W x status ∧ status ≠ .queued ∨ status = .cancelled ∧ s.hasStage W x .queued
      else s.hasStage W x status := by
  unfold hasStage cancelQueuedStages
  simp only [mem_updateWhere]
  constructor
  · rintro ⟨_, ⟨old, hold, rfl⟩, hW, hx, hst⟩
    by_cases hq : old.workflowID = id ∧ old.status = .queued
    · simp only [hq, and_self, decide_true, if_true, Stage.finished] at hW hx hst
      rw [if_pos (hW.symm)]
      exact .inr ⟨hst.symm, old, hold, hq.1.trans hW, hx, hq.2⟩
    · simp only [hq, decide_false, Bool.false_eq_true, if_false] at hW hx hst
      split
      next he =>
        refine .inl ⟨⟨old, hold, hW, hx, hst⟩, fun h => hq ⟨hW.trans he, hst.trans h⟩⟩
      next => exact ⟨old, hold, hW, hx, hst⟩
  · intro h
    split at h
    next he =>
      rcases h with ⟨⟨old, hold, hW, hx, hst⟩, hn⟩ | ⟨rfl, old, hold, hW, hx, hst⟩
      · have hq : ¬(old.workflowID = id ∧ old.status = .queued) := fun hq => hn (hst ▸ hq.2)
        exact ⟨old, ⟨old, hold, by simp [hq]⟩, hW, hx, hst⟩
      · exact ⟨_, ⟨old, hold, rfl⟩, by simp [hW, hx, hst, he, Stage.finished]⟩
    next he =>
      obtain ⟨old, hold, hW, hx, hst⟩ := h
      have hq : ¬(old.workflowID = id ∧ old.status = .queued) := fun hq => he (hW ▸ hq.1)
      exact ⟨old, ⟨old, hold, by simp [hq]⟩, hW, hx, hst⟩

theorem insertMessage_exists {s t : Store} {message stored : RoomMessage} {created : Time}
    (h : s.insertMessage message created = .ok (t, stored)) : s.workflowExists message.workflowID := by
  unfold insertMessage at h
  split at h
  next he => exact he
  next => cases h

theorem addMessageWithStage_exists {s t : Store} {message stored : RoomMessage} {stage : Stage} {now : Time}
    (h : s.addMessageWithStage message stage now = .ok (t, stored)) :
    s.statusOf message.workflowID ≠ none := by
  unfold addMessageWithStage at h
  obtain ⟨_, -, h⟩ := bind_ok_iff.mp h
  obtain ⟨⟨posted, _⟩, hp, -⟩ := bind_ok_iff.mp h
  exact workflowExists_iff.mp (insertMessage_exists hp)

theorem insertStage_unused {s t : Store} {workflowID : String} {stage : Stage}
    (h : insertStage workflowID s stage = .ok t) (W : String) (status : StageStatus) :
    ¬s.hasStage W stage.id status := by
  unfold insertStage at h
  split at h
  next => cases h
  next free =>
    rintro ⟨row, hm, -, hid, -⟩
    exact free (.inl (List.any_eq_true.mpr ⟨row, hm, by simp [hid]⟩))

theorem addMessageWithStage_unused {s t : Store} {message stored : RoomMessage} {stage : Stage} {now : Time}
    (h : s.addMessageWithStage message stage now = .ok (t, stored)) (W : String) (status : StageStatus) :
    ¬s.hasStage W stage.id status := by
  unfold addMessageWithStage at h
  obtain ⟨_, -, h⟩ := bind_ok_iff.mp h
  obtain ⟨⟨posted, _⟩, hp, h⟩ := bind_ok_iff.mp h
  obtain ⟨inserted, hi, -⟩ := bind_ok_iff.mp h
  rw [← (sameProgress_insertMessage hp).hasStage]
  exact insertStage_unused hi W status

/-- A follow-up queues its stage, and queues a workflow that had ended. -/
theorem addMessageWithStage_eq {s t : Store} {message stored : RoomMessage} {stage : Stage} {now : Time}
    (h : s.addMessageWithStage message stage now = .ok (t, stored)) :
    t.statusOf message.workflowID = (s.statusOf message.workflowID).map requeue ∧
      (∀ W, W ≠ message.workflowID → t.statusOf W = s.statusOf W) ∧
      ∀ W x status, t.hasStage W x status ↔ s.hasStage W x status ∨
        W = message.workflowID ∧ x = stage.id ∧ status = .queued := by
  unfold addMessageWithStage at h
  obtain ⟨_, -, h⟩ := bind_ok_iff.mp h
  obtain ⟨⟨posted, _⟩, hp, h⟩ := bind_ok_iff.mp h
  obtain ⟨inserted, hi, h⟩ := bind_ok_iff.mp h
  obtain ⟨logged, hl, h⟩ := bind_ok_iff.mp h
  have hposted := sameProgress_insertMessage hp
  have hlogged := sameProgress_insertEvent hl
  cases h
  cases insertStage_eq hi
  have before : ∀ W, logged.statusOf W = s.statusOf W := fun W =>
    (hlogged.workflows W).trans (hposted.workflows W)
  refine ⟨?_, fun W hW => ?_, fun W x status => ?_⟩
  · rw [← before]
    rw [statusOf_updateWorkflow_same (f := WorkflowRow.requeued _) fun _ => rfl]
    simp only [statusOf, Option.map_map]
    rfl
  · rw [← before]
    exact statusOf_updateWorkflow_other (fun _ => rfl) hW
  · change logged.hasStage W x status ↔ _
    rw [hlogged.hasStage, hasStage_append, hposted.hasStage]
    simp [Stage.inserted, eq_comm]

/-- A stored workflow brings its stages, behind those that are there. -/
theorem createWorkflow_stages {s t : Store} {workflow : Workflow} (h : s.createWorkflow workflow = .ok t) :
    t.stages = s.stages ++ workflow.stages.map (Stage.inserted workflow.id) := by
  unfold createWorkflow at h
  split at h
  next => cases h
  next =>
    obtain ⟨staged, hs, h⟩ := bind_ok_iff.mp h
    obtain ⟨logged, hl, h⟩ := bind_ok_iff.mp h
    obtain ⟨⟨posted, _⟩, hp, h⟩ := bind_ok_iff.mp h
    cases h
    rw [((sameProgress_insertEvent hl).trans (sameProgress_insertMessage hp)).stages, insertStages_eq hs]
    unfold upsertProject
    split <;> rfl

theorem createWorkflow_eq {s t : Store} {workflow : Workflow} (h : s.createWorkflow workflow = .ok t) :
    s.statusOf workflow.id = none ∧ t.statusOf workflow.id = some workflow.status ∧
      (∀ W, W ≠ workflow.id → t.statusOf W = s.statusOf W) ∧
      ∀ W x status, t.hasStage W x status ↔ s.hasStage W x status ∨
        W = workflow.id ∧ ∃ stage ∈ workflow.stages, stage.id = x ∧ stage.status = status := by
  have upserted := createWorkflow_stages h
  unfold createWorkflow at h
  split at h
  next => cases h
  next hn =>
    obtain ⟨staged, hs, h⟩ := bind_ok_iff.mp h
    obtain ⟨logged, hl, h⟩ := bind_ok_iff.mp h
    obtain ⟨⟨posted, _⟩, hp, h⟩ := bind_ok_iff.mp h
    cases h
    have same := (sameProgress_insertEvent hl).trans (sameProgress_insertMessage hp)
    have absent : s.statusOf workflow.id = none := by simpa [workflowExists_iff] using hn
    cases insertStages_eq hs
    have inserted : ∀ W, t.statusOf W = ((findRow WorkflowRow.id W s.workflows).or
        (if workflow.id = W then some workflow.toWorkflowRow else none)).map (·.status) := by
      intro W
      rw [same.workflows]
      unfold upsertProject
      split <;> exact congrArg _ (findRow_append _)
    refine ⟨absent, ?_, fun W hW => ?_, fun W x status => ?_⟩
    · rw [inserted, Option.map_eq_none_iff.mp absent]
      simp
    · rw [inserted, if_neg (Ne.symm hW), Option.or_none]
      rfl
    · simp only [hasStage, upserted, List.mem_append, or_and_right, exists_or, List.mem_map]
      refine or_congr_right ⟨?_, ?_⟩
      · rintro ⟨_, ⟨stage, hm, rfl⟩, hW, hx, hst⟩
        exact ⟨hW.symm, stage, hm, hx, hst⟩
      · rintro ⟨rfl, stage, hm, hx, hst⟩
        exact ⟨_, ⟨stage, hm, rfl⟩, rfl, hx, hst⟩

theorem workflow_id {s : Store} {id : String} {workflow : Workflow} (h : s.workflow id = .ok workflow) :
    workflow.id = id ∧ s.statusOf id = some workflow.status := by
  unfold Store.workflow at h
  split at h
  next => cases h
  next row hr =>
    cases h
    exact ⟨(findRow_mem hr).2, by simp [statusOf, hr]⟩

theorem setWorkflowStatus_of_read {s : Store} {id : String} {workflow : Workflow} (status : WorkflowStatus)
    (now : Time) (h : s.workflow id = .ok workflow) : ∃ t, s.setWorkflowStatus id status now = .ok t := by
  have he : s.workflowExists id := by
    rw [workflowExists_iff, (workflow_id h).2]
    exact nofun
  exact ⟨_, if_pos he⟩

end TermLinks.Coordinator.Store
