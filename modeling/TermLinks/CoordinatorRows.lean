import Mathlib.Data.List.Range
import TermLinks.CoordinatorLife
import TermLinks.CoordinatorProgress

namespace TermLinks.Coordinator

namespace Store

/-- The rows of the workflow in the `stages` table. -/
def rowsOf (s : Store) (W : String) : List Stage := s.stages.filter fun row => row.workflowID = W

/-- Every stage has its own key and belongs to a stored workflow, and the stages of a workflow are numbered
from zero in the order they were inserted. -/
structure Laid (s : Store) : Prop where
  owned : ∀ row ∈ s.stages, s.statusOf row.workflowID ≠ none
  keyed : (s.stages.map Stage.id).Nodup
  numbered : ∀ W, (s.rowsOf W).map Stage.position = List.range (s.rowsOf W).length

/-- A write that keeps the table laid out and adds stages only behind those that are there. -/
structure Grows (s t : Store) : Prop where
  laid : s.Laid → t.Laid
  behind : ∀ W, (s.rowsOf W).map Stage.id <+: (t.rowsOf W).map Stage.id
  arrived : ∀ W x status, t.hasStage W x status → status = .queued ∨ ∃ was, s.hasStage W x was

theorem Grows.refl (s : Store) : s.Grows s :=
  ⟨id, fun _ => List.prefix_refl _, fun _ _ status h => Or.inr ⟨status, h⟩⟩

/-- A write that only rewrites statuses, sessions, outputs, errors and times. -/
theorem grows_rewritten {s t : Store} {f : Stage → Stage} (stages : t.stages = s.stages.map f)
    (id : ∀ row, (f row).id = row.id) (owner : ∀ row, (f row).workflowID = row.workflowID)
    (position : ∀ row, (f row).position = row.position)
    (status : ∀ W, s.statusOf W ≠ none → t.statusOf W ≠ none) : s.Grows t := by
  have rows : ∀ W, t.rowsOf W = (s.rowsOf W).map f := by
    intro W
    simp only [rowsOf, stages, List.filter_map]
    congr 2
    funext row
    simp only [Function.comp, owner]
  have ids : Stage.id ∘ f = Stage.id := funext id
  have positions : Stage.position ∘ f = Stage.position := funext position
  refine ⟨fun h => ⟨?_, ?_, ?_⟩, ?_, ?_⟩
  · intro row hr
    rw [stages] at hr
    obtain ⟨old, hold, rfl⟩ := List.mem_map.mp hr
    rw [owner]
    exact status _ (h.owned old hold)
  · rw [stages, List.map_map, ids]
    exact h.keyed
  · intro W
    rw [rows, List.map_map, positions, List.length_map]
    exact h.numbered W
  · intro W
    rw [rows, List.map_map, ids]
  · rintro W x _ ⟨row, hr, hW, hx, -⟩
    rw [stages] at hr
    obtain ⟨old, hold, rfl⟩ := List.mem_map.mp hr
    exact Or.inr ⟨old.status, old, hold, (owner old).symm.trans hW, (id old).symm.trans hx, rfl⟩

theorem grows_of_stages {s t : Store} (stages : t.stages = s.stages)
    (status : ∀ W, s.statusOf W ≠ none → t.statusOf W ≠ none) : s.Grows t := by
  refine grows_rewritten (f := id) ?_ (fun _ => rfl) (fun _ => rfl) (fun _ => rfl) status
  rw [stages, List.map_id]

theorem grows_of_sameProgress {s t : Store} (h : SameProgress s t) : s.Grows t :=
  grows_of_stages h.stages fun W hW => by rwa [h.workflows]

/-- A write that inserts the next stages of one workflow. -/
theorem grows_appended {s t : Store} {W : String} {new : List Stage} (stages : t.stages = s.stages ++ new)
    (owner : ∀ row ∈ new, row.workflowID = W) (queued : ∀ row ∈ new, row.status = .queued)
    (keyed : s.Laid → (t.stages.map Stage.id).Nodup)
    (next : s.Laid → new.map Stage.position = List.range' (s.rowsOf W).length new.length)
    (status : ∀ V, s.statusOf V ≠ none → t.statusOf V ≠ none) (exist : t.statusOf W ≠ none) : s.Grows t := by
  have mine : t.rowsOf W = s.rowsOf W ++ new := by
    have all : new.filter (fun row => row.workflowID = W) = new :=
      List.filter_eq_self.mpr fun row hr => decide_eq_true (owner row hr)
    rw [rowsOf, stages, List.filter_append, all]
    rfl
  have other : ∀ V, V ≠ W → t.rowsOf V = s.rowsOf V := by
    intro V hV
    have nothing : new.filter (fun row => row.workflowID = V) = [] := by
      refine List.filter_eq_nil_iff.mpr fun row hr => ?_
      rw [owner row hr]
      simpa using hV.symm
    rw [rowsOf, stages, List.filter_append, nothing, List.append_nil]
    rfl
  refine ⟨fun h => ⟨?_, keyed h, ?_⟩, ?_, ?_⟩
  · intro row hr
    rw [stages] at hr
    rcases List.mem_append.mp hr with old | added
    · exact status _ (h.owned row old)
    · rw [owner row added]
      exact exist
  · intro V
    by_cases hV : V = W
    · subst hV
      have joined := List.range'_append_1 (s := 0) (m := (s.rowsOf V).length) (n := new.length)
      rw [mine, List.map_append, h.numbered, next h, List.length_append, List.range_eq_range',
        List.range_eq_range', ← joined, Nat.zero_add]
    · rw [other V hV]
      exact h.numbered V
  · intro V
    by_cases hV : V = W
    · subst hV
      rw [mine, List.map_append]
      exact List.prefix_append _ _
    · rw [other V hV]
  · rintro V x _ ⟨row, hr, hV, hx, hs⟩
    rw [stages] at hr
    rcases List.mem_append.mp hr with old | added
    · exact Or.inr ⟨row.status, row, old, hV, hx, rfl⟩
    · exact Or.inl (hs.symm.trans (queued row added))

theorem keyed_insertStage {s t : Store} {W : String} {stage : Stage} (h : insertStage W s stage = .ok t)
    (keyed : (s.stages.map Stage.id).Nodup) : (t.stages.map Stage.id).Nodup := by
  rw [insertStage_eq h, List.map_append]
  refine List.Nodup.append keyed (List.nodup_singleton _) ?_
  intro id used same
  obtain ⟨row, hr, rfl⟩ := List.mem_map.mp used
  obtain hid : row.id = stage.id := by simpa [Stage.inserted] using same
  exact insertStage_unused h row.workflowID row.status ⟨row, hr, rfl, hid, rfl⟩

theorem keyed_insertStages {s t : Store} {W : String} {stages : List Stage}
    (h : stages.foldlM (insertStage W) s = .ok t) (keyed : (s.stages.map Stage.id).Nodup) :
    (t.stages.map Stage.id).Nodup := by
  induction stages generalizing s with
  | nil => cases h; exact keyed
  | cons stage stages ih =>
    rw [List.foldlM_cons] at h
    obtain ⟨inserted, hi, h⟩ := bind_ok_iff.mp h
    exact ih h (keyed_insertStage hi keyed)

theorem nextPosition_of_laid {s : Store} (h : s.Laid) (W : String) :
    s.nextPosition W = (s.rowsOf W).length := by
  have counted : ∀ n, (List.range n).foldl (fun next position => max next (position + 1)) 0 = n := by
    intro n
    induction n with
    | zero => rfl
    | succ n ih =>
      rw [List.range_succ, List.foldl_append, ih]
      simp
  have read := counted (s.rowsOf W).length
  rw [← h.numbered W, List.foldl_map] at read
  exact read

theorem statusOf_kept {s t : Store} {W : String} {status : WorkflowStatus} (same : t.statusOf W = some status)
    (other : ∀ V, V ≠ W → t.statusOf V = s.statusOf V) (V : String) (hV : s.statusOf V ≠ none) :
    t.statusOf V ≠ none := by
  by_cases hW : V = W
  · subst hW
    rw [same]
    exact nofun
  · rwa [other V hW]

theorem grows_setWorkflowStatus {s t : Store} {id : String} {status : WorkflowStatus} {now : Time}
    (h : s.setWorkflowStatus id status now = .ok t) : s.Grows t := by
  obtain ⟨same, other, stages⟩ := setWorkflowStatus_eq h
  exact grows_of_stages stages (statusOf_kept same other)

theorem grows_updateStage {s t : Store} {W x : String} {f : Stage → Stage}
    (stages : t.stages = (s.updateStage W x f).stages) (id : ∀ row, (f row).id = row.id)
    (owner : ∀ row, (f row).workflowID = row.workflowID) (position : ∀ row, (f row).position = row.position)
    (status : ∀ W, s.statusOf W ≠ none → t.statusOf W ≠ none) : s.Grows t :=
  grows_rewritten stages (updateWhere_key id) (updateWhere_key owner) (updateWhere_key position) status

theorem grows_startStage {s t : Store} {W x sessionID : String} {now : Time}
    (h : s.startStage W x sessionID now = .ok t) : s.Grows t := by
  obtain ⟨same, other, -⟩ := startStage_eq h
  unfold startStage at h
  refine grows_updateStage (sameProgress_insertEvent h).stages ?_ ?_ ?_ (statusOf_kept same other)
  all_goals exact fun _ => rfl

theorem grows_finishStage {s t : Store} {W x output message : String} {status : StageStatus} {now : Time}
    (h : s.finishStage W x status output message now = .ok t) : s.Grows t := by
  have kept := (finishStage_eq h).1
  unfold finishStage at h
  obtain ⟨marked, hm, h⟩ := bind_ok_iff.mp h
  cases h
  refine grows_updateStage (sameProgress_insertEvent hm).stages ?_ ?_ ?_ fun V hV => by rwa [kept]
  all_goals exact fun _ => rfl

theorem grows_cancelQueuedStages (s : Store) (W : String) (now : Time) :
    s.Grows (s.cancelQueuedStages W now) := by
  refine grows_rewritten rfl (updateWhere_key ?_) (updateWhere_key ?_) (updateWhere_key ?_) fun _ h => h
  all_goals exact fun _ => rfl

theorem grows_addMessageWithStage {s t : Store} {message stored : RoomMessage} {stage : Stage} {now : Time}
    (h : s.addMessageWithStage message stage now = .ok (t, stored)) : s.Grows t := by
  obtain ⟨same, other, -⟩ := addMessageWithStage_eq h
  have exist := addMessageWithStage_exists h
  obtain ⟨was, hw⟩ := Option.ne_none_iff_exists'.mp exist
  rw [hw] at same
  unfold addMessageWithStage at h
  obtain ⟨_, -, h⟩ := bind_ok_iff.mp h
  obtain ⟨⟨posted, _⟩, hp, h⟩ := bind_ok_iff.mp h
  obtain ⟨inserted, hi, h⟩ := bind_ok_iff.mp h
  obtain ⟨logged, hl, h⟩ := bind_ok_iff.mp h
  cases h
  have posting := (sameProgress_insertMessage hp).stages
  have logging := (sameProgress_insertEvent hl).stages
  have next : posted.nextPosition message.workflowID = s.nextPosition message.workflowID := by
    simp only [nextPosition, posting]
  refine grows_appended (W := message.workflowID) (logging.trans (congrArg Store.stages (insertStage_eq hi))
    |>.trans (congrArg (· ++ _) posting)) ?_ ?_ ?_ ?_ (statusOf_kept same other) (by rw [same]; exact nofun)
  · intro row hr
    cases List.mem_singleton.mp hr
    rfl
  · intro row hr
    cases List.mem_singleton.mp hr
    rfl
  · intro laid
    change (logged.stages.map Stage.id).Nodup
    rw [logging]
    exact keyed_insertStage hi (by rw [posting]; exact laid.keyed)
  · intro laid
    simp [Stage.inserted, next, nextPosition_of_laid laid]

theorem createWorkflow_keyed {s t : Store} {workflow : Workflow} (h : s.createWorkflow workflow = .ok t)
    (keyed : (s.stages.map Stage.id).Nodup) : (t.stages.map Stage.id).Nodup := by
  have stages := createWorkflow_stages h
  unfold createWorkflow at h
  split at h
  next => cases h
  next =>
    obtain ⟨staged, hs, -⟩ := bind_ok_iff.mp h
    have inserted := keyed_insertStages hs keyed
    rw [insertStages_eq hs] at inserted
    rw [stages]
    exact inserted

/-- What `Compile` makes of a request: queued stages numbered from zero. -/
def Numbered (stages : List Stage) : Prop :=
  stages.map Stage.position = List.range stages.length ∧ ∀ stage ∈ stages, stage.status = .queued

theorem grows_createWorkflow {s t : Store} {workflow : Workflow} (numbered : Numbered workflow.stages)
    (h : s.createWorkflow workflow = .ok t) : s.Grows t := by
  obtain ⟨absent, same, other, -⟩ := createWorkflow_eq h
  have stages := createWorkflow_stages h
  have empty : s.Laid → s.rowsOf workflow.id = [] := by
    intro laid
    refine List.filter_eq_nil_iff.mpr fun row hr owner => laid.owned row hr ?_
    rw [of_decide_eq_true owner]
    exact absent
  refine grows_appended (W := workflow.id) stages ?_ ?_ ?_ ?_ (statusOf_kept same other) (by rw [same]; exact nofun)
  · intro row hr
    obtain ⟨stage, -, rfl⟩ := List.mem_map.mp hr
    rfl
  · intro row hr
    obtain ⟨stage, hs, rfl⟩ := List.mem_map.mp hr
    exact numbered.2 stage hs
  · intro laid
    exact createWorkflow_keyed h laid.keyed
  · intro laid
    rw [empty laid, List.map_map, List.length_map, List.length_nil, ← List.range_eq_range']
    exact numbered.1

theorem grows_markInterrupted (s : Store) (now : Time) : s.Grows (s.markInterrupted now) := by
  refine grows_rewritten rfl (updateWhere_key ?_) (updateWhere_key ?_) (updateWhere_key ?_) fun W hW absent => hW ?_
  · exact fun _ => rfl
  · exact fun _ => rfl
  · exact fun _ => rfl
  · unfold statusOf markInterrupted at absent
    have keyed : ∀ row : WorkflowRow, (row.withStatus .interrupted now).id = row.id := fun _ => rfl
    rw [findRow_updateWhere keyed, Option.map_map, Option.map_eq_none_iff] at absent
    exact Option.map_eq_none_iff.mpr absent

end Store

end TermLinks.Coordinator
