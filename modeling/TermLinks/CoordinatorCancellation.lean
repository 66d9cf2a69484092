import TermLinks.CoordinatorStranding

namespace TermLinks.Coordinator

/-- From here a cancelled runner checks its context again before it writes anything but the end of a
stage that `Cancel` has not marked. -/
def RunnerPc.harmless (marked : String → Prop) : RunnerPc → Prop
  | .loop | .load | .agents _ _ | .messages _ _ _ | .announceFailure _ _ _ | .stageError => True
  | .announce _ stage _ _ | .write _ stage _ _ | .await _ stage _ | .drain _ stage _ | .collect _ stage _
  | .post _ stage _ | .complete _ stage _ | .finishStage _ stage _ _ _ _ => ¬marked stage.id
  | .pending | .finish | .start _ _ _ _ _ | .publish _ _ _ _ | .startStage _ _ _ _ | .setFailed
  | .cleanup | .done => False

namespace Board

/-- No stage of the workflow waits and each of its runners has left or will leave without a write. -/
structure Quiescent (b : Board) (W : String) (marked : String → Prop) : Prop where
  empty : ∀ x, ¬b.stage W x .queued
  spent : ∀ r q, b.seat r = some q → q.workflowID = W →
    q.pc = .cleanup ∨ q.pc = .done ∨ q.cancelled = true ∧ q.pc.harmless marked

/-- A new stage of the workflow. -/
def Appended (b b' : Board) (W : String) : Prop :=
  ∃ x, (∀ status, ¬b.stage W x status) ∧ b'.stage W x .queued

/-- The step is a `StartStage` of the workflow. -/
def Starts (b : Board) (label : Label) (W : String) : Prop :=
  ∃ r q workflow stage prompt sessionID, label = .runner r .ok ∧ b.seat r = some q ∧
    q.pc = .startStage workflow stage prompt sessionID ∧ workflow.id = W

end Board

/-- What `Cancel` leaves behind, from the board at its return on. -/
structure Cancelled (b₀ b : Board) (W : String) (marked : String → Prop) : Prop where
  status : b.status W = some .cancelled
  quiet : b.Quiescent W marked
  kept : ∀ x status, marked x → (b.stage W x status ↔ b₀.stage W x status)

theorem harmless_turn {marked : String → Prop} {pc pc' : RunnerPc} (turn : pc'.turn = pc.turn)
    (was : pc.attending = true) (next : pc'.attending = true ∨ pc'.givingUp = true)
    (h : pc.harmless marked) : pc'.harmless marked := by
  cases pc <;> cases was
  all_goals
    rcases next with next | next
    all_goals
      cases pc' <;> cases next
      all_goals
        cases turn
        exact h

theorem harmless_hop {marked : String → Prop} {W : String} {pc pc' : RunnerPc} {input : RunnerInput}
    (hop : Hop true W pc input pc') (ok : input = .fail → pc.reads = true) (h : pc.harmless marked) :
    pc' = .cleanup ∨ pc'.harmless marked := by
  cases hop with
  | checked => exact .inl rfl
  | drained live => cases live
  | picked live => cases live
  | unloaded => exact .inl rfl
  | prepared live => cases live
  | launched launching => cases pc <;> first | exact h.elim | cases launching
  | attended attending turn next => exact .inr (harmless_turn turn attending next h)
  | unrecorded => cases ok rfl
  | broken held => exact .inr trivial
  | told => exact .inr trivial
  | judged => exact .inl rfl
  | unfailed => exact h.elim
  | resumed => exact h.elim

section

variable {hasTurn : Nat → Prop} {b₀ b b' : Board} {label : Label} {W : String} {marked : String → Prop}

theorem cancelled_setSeat (h : Cancelled b₀ b W marked) {r : Nat} {q : Seat} {pc : RunnerPc}
    (next : q.workflowID = W → pc = .cleanup ∨ pc = .done ∨ q.cancelled = true ∧ pc.harmless marked) :
    Cancelled b₀ (b.setSeat r { q with pc }) W marked := by
  refine ⟨h.status, ⟨h.quiet.empty, fun i p hp hW => ?_⟩, h.kept⟩
  by_cases hi : i = r
  · subst hi
    simp only [Board.setSeat, Function.update_self, Option.some.injEq] at hp
    subst hp
    exact next hW
  · simp only [Board.setSeat, Function.update_of_ne hi] at hp
    exact h.quiet.spent i p hp hW

theorem cancelled_setCall (h : Cancelled b₀ b W marked) (i : Nat) (c : Call) :
    Cancelled b₀ (b.setCall i c) W marked :=
  ⟨h.status, ⟨h.quiet.empty, h.quiet.spent⟩, h.kept⟩

theorem cancelled_issue (h : Cancelled b₀ b W marked) (id : String) : Cancelled b₀ (b.issue id) W marked :=
  ⟨h.status, ⟨h.quiet.empty, h.quiet.spent⟩, h.kept⟩

theorem cancelled_register (h : Cancelled b₀ b W marked) {V : String} {n : Nat} {pc : RunnerPc}
    (other : V ≠ W) : Cancelled b₀ (b.register V n pc) W marked := by
  refine ⟨h.status, ⟨h.quiet.empty, fun i p hp hW => ?_⟩, h.kept⟩
  by_cases hi : i = n
  · subst hi
    simp only [Board.register, Function.update_self, Option.some.injEq] at hp
    subst hp
    exact absurd hW other
  · simp only [Board.register, Function.update_of_ne hi] at hp
    exact h.quiet.spent i p hp hW

theorem cancelled_launch (h : Cancelled b₀ b W marked) {V : String} {n : Nat} (other : V ≠ W) :
    Cancelled b₀ (b.launchUnlessRunning V n) W marked := by
  unfold Board.launchUnlessRunning
  split
  next => exact cancelled_register h other
  next => exact h

theorem cancelled_release (h : Cancelled b₀ b W marked) (V : String) (r : Nat) :
    Cancelled b₀ (b.release V r) W marked := by
  unfold Board.release
  split
  next => exact ⟨h.status, ⟨h.quiet.empty, h.quiet.spent⟩, h.kept⟩
  next => exact h

theorem cancelled_cancelSeat (h : Cancelled b₀ b W marked) (V : String) :
    Cancelled b₀ (b.cancelSeat V) W marked := by
  refine ⟨h.status, ⟨h.quiet.empty, fun i p hp hW => ?_⟩, h.kept⟩
  simp only [Board.cancelSeat] at hp
  split at hp
  next =>
    obtain ⟨q, hq, rfl⟩ := Option.map_eq_some_iff.mp hp
    rcases h.quiet.spent i q hq hW with hc | hd | ⟨-, harmless⟩
    · exact .inl hc
    · exact .inr (.inl hd)
    · exact .inr (.inr ⟨rfl, harmless⟩)
  next => exact h.quiet.spent i p hp hW

theorem cancelled_setStatus (h : Cancelled b₀ b W marked) {V : String} {status : WorkflowStatus}
    (other : V ≠ W ∨ status = .cancelled) : Cancelled b₀ (b.setStatus V status) W marked := by
  refine ⟨?_, ⟨h.quiet.empty, h.quiet.spent⟩, h.kept⟩
  by_cases hV : W = V
  · rcases other with other | rfl
    · exact absurd hV.symm other
    · simp [Board.setStatus, hV]
  · exact (Function.update_of_ne hV ..).trans h.status

/-- A runner writes the end of a stage: it is another workflow's, or a stage without a mark. -/
theorem cancelled_setStage (h : Cancelled b₀ b W marked) {V x : String} {status : StageStatus}
    (unmarked : V ≠ W ∨ status ≠ .queued ∧ ¬marked x) : Cancelled b₀ (b.setStage V x status) W marked := by
  have away : ∀ y st, V ≠ W → ((b.setStage V x status).stage W y st ↔ b.stage W y st) := by
    intro y st hV
    simp [Board.setStage, hV.symm]
  refine ⟨h.status, ⟨fun y hy => ?_, h.quiet.spent⟩, fun y st hm => ?_⟩
  · rcases unmarked with hV | ⟨ended, -⟩
    · exact h.quiet.empty y ((away y _ hV).mp hy)
    · exact h.quiet.empty y (queued_of_setStage hy ended)
  · rcases unmarked with hV | ⟨-, hx⟩
    · exact (away y st hV).trans (h.kept y st hm)
    · have other : ¬(W = V ∧ y = x) := by
        rintro ⟨-, rfl⟩
        exact hx hm
      simp only [Board.setStage, if_neg other]
      exact h.kept y st hm

theorem cancelled_addStage (h : Cancelled b₀ b W marked) {V x : String} (other : V ≠ W) :
    Cancelled b₀ (b.addStage V x) W marked := by
  have away : ∀ y st, (b.addStage V x).stage W y st ↔ b.stage W y st := by
    intro y st
    simp [Board.addStage, other.symm]
  exact ⟨h.status, ⟨fun y hy => h.quiet.empty y ((away y _).mp hy), h.quiet.spent⟩,
    fun y st hm => (away y st).trans (h.kept y st hm)⟩

theorem cancelled_requeue (h : Cancelled b₀ b W marked) {V : String} (x : String) (status : WorkflowStatus)
    (other : V ≠ W) : Cancelled b₀ ((b.addStage V x).setStatus V status) W marked :=
  cancelled_setStatus (cancelled_addStage h other) (.inl other)

/-- Another `Cancel` finds no queued stage to mark. -/
theorem cancelled_cancelStages (h : Cancelled b₀ b W marked) (V : String) :
    Cancelled b₀ (b.cancelStages V) W marked := by
  have same : ∀ y st, (b.cancelStages V).stage W y st ↔ b.stage W y st := by
    intro y st
    by_cases hV : W = V
    · subst hV
      simp only [Board.cancelStages, if_true, h.quiet.empty y, and_false, or_false, and_iff_left_iff_imp]
      rintro hs rfl
      exact h.quiet.empty y hs
    · simp [Board.cancelStages, hV]
  exact ⟨h.status, ⟨fun y hy => h.quiet.empty y ((same y _).mp hy), h.quiet.spent⟩,
    fun y st hm => (same y st).trans (h.kept y st hm)⟩

/-- A runner that is not about to leave is cancelled and at a harmless point. -/
theorem spent_runner {r : Nat} {q : Seat} (h : b.Quiescent W marked) (seat : b.seat r = some q)
    (own : q.workflowID = W) (live : q.pc ≠ .cleanup ∧ q.pc ≠ .done) :
    q.cancelled = true ∧ q.pc.harmless marked :=
  ((h.spent r q seat own).resolve_left live.1).resolve_left live.2

/-- As long as no stage of the workflow is appended, nothing of it changes. -/
theorem cancelled_step (reg : Registry b) (h : Cancelled b₀ b W marked) (step : b.Step hasTurn label b')
    (closed : ¬b.Appended b' W) : Cancelled b₀ b' W marked := by
  have exist : b.status W ≠ none := ne_of_eq_of_ne h.status (Option.some_ne_none _)
  cases step with
  | idle running seat status stage issued old kept =>
    refine ⟨by rw [status]; exact h.status, ⟨by rw [stage]; exact h.quiet.empty, ?_⟩, ?_⟩
    · rw [seat]; exact h.quiet.spent
    · rw [stage]; exact h.kept
  | @reserved i n draft id _ _ pending fresh free =>
    have other : id ≠ W := by
      rintro rfl
      exact fresh (reg.known _ exist)
    exact cancelled_setCall (cancelled_register (cancelled_issue h id) other) _ _
  | @created i r workflow _ q _ pending seat absent written stage =>
    have other : workflow.id ≠ W := by
      rintro rfl
      exact exist absent
    obtain ⟨mine, -⟩ := reg.creating _ _ _ _ pending
    cases seat.symm.trans mine
    have base : Cancelled b₀ ((b.setStatus workflow.id workflow.status).setSeat r ⟨workflow.id, false, .loop⟩) W
        marked :=
      cancelled_setSeat (q := ⟨workflow.id, false, .pending⟩) (cancelled_setStatus h (.inl other))
        fun own => absurd own other
    have same := fun x status => stage W x status other.symm
    rw [written]
    exact ⟨base.status, ⟨fun x hx => h.quiet.empty x ((same x _).mp hx), base.quiet.spent⟩,
      fun x status hm => (same x status).trans (h.kept x status hm)⟩
  | rolledBack pending => exact absurd pending (reg.committed _ _ _ _)
  | sent fresh room => exact cancelled_setCall h _ _
  | @followedUp i n V _ stageID _ message _ was pending new fresh unused here free =>
    have room := reg.sending _ _ _ _ pending
    have other : V ≠ W := by
      rintro rfl
      refine closed ⟨stageID, unused V, ?_⟩
      unfold Board.launchUnlessRunning
      split <;> exact .inr ⟨room.symm, rfl, rfl⟩
    rw [room]
    have added := cancelled_requeue h stageID (requeue was) other
    exact cancelled_setCall (cancelled_launch (cancelled_issue added stageID) other) _ _
  | @nudged i n V _ _ _ x _ _ pending queued here free =>
    have other : V ≠ W := by
      rintro rfl
      exact h.quiet.empty x queued
    exact cancelled_setCall (cancelled_launch h other) _ _
  | requested fresh here => exact cancelled_setCall h _ _
  | signalled pending => exact cancelled_setCall (cancelled_cancelSeat h _) _ _
  | marked pending => exact cancelled_setCall (cancelled_cancelStages h _) _ _
  | cancelled pending here => exact cancelled_setCall (cancelled_setStatus h (.inr rfl)) _ _
  | @hopped r q input pc seat ok hop =>
    refine cancelled_setSeat h fun own => ?_
    obtain ⟨live, harmless⟩ := spent_runner h.quiet seat own (hop_from hop).2
    rw [live] at hop
    exact (harmless_hop hop (fun hf => (ok hf).2) harmless).imp id fun h => .inr ⟨live, h⟩
  | @started r q workflow stage prompt sessionID seat at_start here =>
    have turn := reg.turns r q workflow stage seat (by rw [at_start]; rfl)
    have other : q.workflowID ≠ W := by
      intro own
      have h := (spent_runner h.quiet seat own (by rw [at_start]; exact ⟨nofun, nofun⟩)).2
      rw [at_start] at h
      exact h
    have started : Cancelled b₀ (b.setStatus workflow.id .running) W marked :=
      cancelled_setStatus h (.inl (turn ▸ other))
    refine cancelled_setSeat (cancelled_setStage started ?_) fun own => absurd own other
    exact .inl (turn ▸ other)
  | @completed r q workflow stage output seat at_end =>
    have turn := reg.turns r q workflow stage seat (by rw [at_end]; rfl)
    have spent := fun own => spent_runner h.quiet seat own (by rw [at_end]; exact ⟨nofun, nofun⟩)
    rw [at_end] at spent
    refine cancelled_setSeat (cancelled_setStage h ?_) fun own => .inr (.inr ⟨(spent own).1, trivial⟩)
    by_cases own : workflow.id = W
    · exact .inr ⟨nofun, (spent (turn ▸ own)).2⟩
    · exact .inl own
  | @gaveUp r q workflow stage how output message announced seat at_end =>
    have turn := reg.turns r q workflow stage seat (by rw [at_end]; rfl)
    have spent := fun own => spent_runner h.quiet seat own (by rw [at_end]; exact ⟨nofun, nofun⟩)
    rw [at_end] at spent
    refine cancelled_setSeat (cancelled_setStage h ?_) fun own => .inr (.inr ⟨(spent own).1, ?_⟩)
    · by_cases own : workflow.id = W
      · exact .inr ⟨by cases how <;> exact nofun, (spent (turn ▸ own)).2⟩
      · exact .inl own
    · split <;> trivial
  | @failed r q seat at_failure here =>
    have other : q.workflowID ≠ W := by
      intro own
      have h := (spent_runner h.quiet seat own (by rw [at_failure]; exact ⟨nofun, nofun⟩)).2
      rw [at_failure] at h
      exact h
    exact cancelled_setSeat (cancelled_setStatus h (.inl other)) fun own => absurd own other
  | @finished r q seat at_finish here empty =>
    have other : q.workflowID ≠ W := by
      intro own
      have h := (spent_runner h.quiet seat own (by rw [at_finish]; exact ⟨nofun, nofun⟩)).2
      rw [at_finish] at h
      exact h
    refine cancelled_release (cancelled_setSeat (cancelled_setStatus h (.inl other)) ?_) _ _
    exact fun own => absurd own other
  | retired seat at_cleanup => exact cancelled_setSeat (cancelled_release h _ _) fun _ => .inr (.inl rfl)

/-- No `StartStage` of the workflow takes effect. -/
theorem cancelled_unstarted (reg : Registry b) (h : b.Quiescent W marked) : ¬b.Starts label W := by
  rintro ⟨r, q, workflow, stage, prompt, sessionID, -, seat, at_start, own⟩
  have turn := reg.turns r q workflow stage seat (by rw [at_start]; rfl)
  have spent := (spent_runner h seat (turn ▸ own) (by rw [at_start]; exact ⟨nofun, nofun⟩)).2
  rw [at_start] at spent
  exact spent

end

theorem registry_run {host : Host} {s t : State} {labels : List Label} (reg : Registry s.board)
    (run : exec (step host) s labels = some t) (ok : Along (step host) State.storeSucceeds s labels) :
    Registry t.board :=
  @exec_preserves _ _ _ _ (fun u => Registry u.board)
    (fun _ _ _ hu hg hv => registry_step hu (board_step hv hg)) _ _ _ reg run ok

theorem cancelled_run {host : Host} {s t : State} {b₀ : Board} {labels : List Label} {W : String}
    {marked : String → Prop} (reg : Registry s.board) (h : Cancelled b₀ s.board W marked)
    (run : exec (step host) s labels = some t) (ok : Along (step host) State.storeSucceeds s labels)
    (closed : Along (step host) (fun u label => ∀ v, step host u label = some v → ¬u.board.Appended v.board W)
      s labels) :
    Cancelled b₀ t.board W marked ∧ Along (step host) (fun u label => ¬u.board.Starts label W) s labels := by
  induction labels generalizing s with
  | nil => cases Option.some.inj run; exact ⟨h, trivial⟩
  | cons label labels ih =>
    obtain ⟨u, hu, run⟩ := exec_cons_iff.mp run
    have moved := board_step hu ok.1
    have next := ih (registry_step reg moved) (cancelled_step reg h moved (closed.1 u hu)) run (ok.2 u hu)
      (closed.2 u hu)
    refine ⟨next.1, cancelled_unstarted reg h.quiet, fun v hv => ?_⟩
    cases hu.symm.trans hv
    exact next.2

theorem board_cancelStatus {host : Host} {s t : State} {call : Nat} {W : String}
    (pending : s.calls[call]? = some (.cancelStatus W)) (h : step host s (.cancelStatus call true) = some t) :
    t.board = (s.board.setStatus W .cancelled).setCall call (.returned (.cancelled W)) := by
  simp only [step, Label.call?, Option.bind_some, pending, callStep, if_true] at h
  split at h
  next => cases h
  next write =>
    cases h
    rw [board_setCall, board_setWorkflowStatus write]
    exact pending

/-- Once `Cancel` has returned over a quiescent workflow, the workflow stays cancelled, starts nothing
and keeps its marked stages until a message appends a stage. -/
theorem cancel_over_quiescent_is_final {host : Host} {agents : List Agent} {now : Time}
    {before between later : List Label} {call : Nat} {W : String} {s₀ s₁ s₂ s₃ s₄ : State}
    (run₀ : exec (step host) (State.initial agents now) before = some s₀)
    (marking : step host s₀ (.cancelStages call true) = some s₁)
    (run₁ : exec (step host) s₁ between = some s₂)
    (pending : s₂.calls[call]? = some (.cancelStatus W))
    (returned : step host s₂ (.cancelStatus call true) = some s₃)
    (run₃ : exec (step host) s₃ later = some s₄)
    (ok : Along (step host) State.storeSucceeds (State.initial agents now)
      (before ++ .cancelStages call true :: between ++ .cancelStatus call true :: later))
    (quiescent : s₂.board.Quiescent W fun x => s₀.store.hasStage W x .queued)
    (closed : Along (step host) (fun u label => ∀ v, step host u label = some v → ¬u.board.Appended v.board W)
      s₃ later) :
    s₄.store.statusOf W = some .cancelled ∧
      (∀ x, s₀.store.hasStage W x .queued →
        ∀ status, s₄.store.hasStage W x status ↔ s₃.store.hasStage W x status) ∧
      Along (step host) (fun u label => ¬u.board.Starts label W) s₃ later := by
  have run₂ : exec (step host) (State.initial agents now) (before ++ .cancelStages call true :: between) =
      some s₂ := exec_append_iff.mpr ⟨s₀, run₀, exec_cons_iff.mpr ⟨s₁, marking, run₁⟩⟩
  have ok₂ := along_append ok run₂
  have reg₂ := registry_run (registry_initial agents now) run₂ (along_front ok)
  have ok₃ := ok₂.2 s₃ returned
  have start : Cancelled s₃.board s₃.board W fun x => s₀.store.hasStage W x .queued := by
    have h := board_cancelStatus pending returned
    refine ⟨by rw [h]; exact Function.update_self .., ?_, fun _ _ _ => Iff.rfl⟩
    rw [h]
    exact ⟨quiescent.empty, quiescent.spent⟩
  have final := cancelled_run (registry_step reg₂ (board_step returned ok₂.1)) start run₃ ok₃ closed
  exact ⟨final.1.status, fun x hx status => final.1.kept x status hx, final.2⟩

def requestRun : List Label := [.cancel "w" true, .cancelSignal 1]

theorem roomRun_succeeds {label : Label} (h : label ∈ roomRun) (s : State) : s.storeSucceeds label := by
  simp only [roomRun, List.mem_cons, List.not_mem_nil, or_false] at h
  rcases h with rfl | rfl | rfl <;> first | exact trivial | exact (rfl : true = true)

theorem cancel_over_quiescent_is_final_room : ∃ s₃ s₄,
    exec (step exampleHost) (State.initial [codexAgent] noon)
        (roomRun ++ requestRun ++ [.cancelStages 1 true, .cancelStatus 1 true]) = some s₃ ∧
      step exampleHost s₃ (.runner 0 .ok) = some s₄ ∧ s₄.store.statusOf "w" = some .cancelled := by
  have run : (exec (step exampleHost) (State.initial [codexAgent] noon) (roomRun ++ requestRun)).any (fun s₀ =>
      (step exampleHost s₀ (.cancelStages 1 true)).any fun s₂ =>
        s₂.calls[1]? = some (.cancelStatus "w") ∧
          s₂.store.stages.all (fun row => row.status ≠ .queued) ∧
          s₂.runners.all (fun R => R.cancelled ∧ R.pc = .loop) ∧
          (step exampleHost s₂ (.cancelStatus 1 true)).any fun s₃ =>
            (step exampleHost s₃ (.runner 0 .ok)).any fun s₄ => s₄.store = s₃.store) = true := by
    decide
  obtain ⟨s₀, run₀, h⟩ := (Option.any_eq_true _ _).mp run
  simp only [Option.any_eq_true, decide_eq_true_eq, List.all_eq_true] at h
  obtain ⟨s₂, marking, pending, unqueued, runners, s₃, returned, s₄, left, same⟩ := h
  have quiescent : s₂.board.Quiescent "w" fun x => s₀.store.hasStage "w" x .queued := by
    refine ⟨fun x ⟨row, hm, _, _, hq⟩ => unqueued row hm hq, fun r q hq _ => .inr (.inr ?_)⟩
    simp only [State.board, slots, List.getElem?_map] at hq
    obtain ⟨R, hR, rfl⟩ := Option.map_eq_some_iff.mp hq
    obtain ⟨live, at_loop⟩ := runners R (List.mem_of_getElem? hR)
    exact ⟨live, by rw [show R.seat.pc = .loop from at_loop]; trivial⟩
  have closed : Along (step exampleHost)
      (fun u label => ∀ v, step exampleHost u label = some v → ¬u.board.Appended v.board "w") s₃ [.runner 0 .ok] := by
    refine ⟨fun v hv => ?_, fun _ _ => trivial⟩
    cases left.symm.trans hv
    rintro ⟨x, absent, present⟩
    exact absent _ (by simpa [State.board, same] using present)
  refine ⟨s₃, s₄, ?_, left, ?_⟩
  · exact exec_append_iff.mpr ⟨s₀, run₀, exec_cons_iff.mpr ⟨s₂, marking, exec_cons_iff.mpr ⟨s₃, returned, rfl⟩⟩⟩
  · refine (cancel_over_quiescent_is_final run₀ marking (exec_nil s₂) pending returned
      (exec_cons_iff.mpr ⟨s₄, left, rfl⟩) (along_of_labels (fun label hl s => ?_) _) quiescent closed).1
    simp only [requestRun, List.mem_append, List.mem_cons, List.not_mem_nil, or_false, List.append_assoc] at hl
    rcases hl with hl | (rfl | rfl) | rfl | rfl | rfl
    · exact roomRun_succeeds hl s
    all_goals first | exact trivial | exact (rfl : true = true)

/-- The run of the room, its agent gone and its runner about to write the failed status. -/
def failingRun : List Label :=
  roomRun ++ [.refreshAgents [], .runner 0 .ok, .runner 0 .ok, .runner 0 .ok, .runner 0 .ok, .runner 0 .ok]

def cancelRun : List Label := requestRun ++ [.cancelStages 1 true, .cancelStatus 1 true]

/-- `Cancel` returns and the runner, past its context check, still writes the failed status. -/
theorem cancelled_room_fails_afterwards : ∃ s₃ s₄,
    exec (step exampleHost) (State.initial [codexAgent] noon) (failingRun ++ cancelRun) = some s₃ ∧
      Along (step exampleHost) State.storeSucceeds (State.initial [codexAgent] noon)
        (failingRun ++ cancelRun) ∧
      s₃.calls[1]? = some (.returned (.cancelled "w")) ∧ s₃.store.statusOf "w" = some .cancelled ∧
      step exampleHost s₃ (.runner 0 .ok) = some s₄ ∧ s₄.store.statusOf "w" = some .failed := by
  have run : (exec (step exampleHost) (State.initial [codexAgent] noon) (failingRun ++ cancelRun)).any (fun s₃ =>
      s₃.calls[1]? = some (.returned (.cancelled "w")) ∧ s₃.store.statusOf "w" = some .cancelled ∧
        (step exampleHost s₃ (.runner 0 .ok)).any fun s₄ => s₄.store.statusOf "w" = some .failed) = true := by
    decide
  obtain ⟨s₃, run, h⟩ := (Option.any_eq_true _ _).mp run
  simp only [decide_eq_true_eq, Option.any_eq_true] at h
  obtain ⟨returned, status, s₄, last, failed⟩ := h
  refine ⟨s₃, s₄, run, along_of_labels (fun label hl s => ?_) _, returned, status, last, failed⟩
  simp only [failingRun, cancelRun, requestRun, List.mem_append, List.mem_cons, List.not_mem_nil, or_false] at hl
  rcases hl with (hl | rfl | rfl | rfl | rfl | rfl | rfl) | (rfl | rfl) | rfl | rfl
  · exact roomRun_succeeds hl s
  all_goals first | exact trivial | exact (rfl : true = true)

end TermLinks.Coordinator
