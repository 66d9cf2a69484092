import TermLinks.CoordinatorBookkeeping
import TermLinks.CoordinatorGrowth

namespace TermLinks.Coordinator

/-- The stage a runner still has to start, or once `engaged` to finish. -/
structure Hand where
  workflowID : String
  stageID : String
  engaged : Bool

def RunnerPc.hand : RunnerPc → Option Hand
  | .agents workflow stage | .messages workflow stage _ | .start workflow stage _ _ _
  | .publish workflow stage _ _ | .startStage workflow stage _ _ => some ⟨workflow.id, stage.id, false⟩
  | .announce workflow stage _ _ | .write workflow stage _ _ | .await workflow stage _
  | .drain workflow stage _ | .collect workflow stage _ | .post workflow stage _ | .complete workflow stage _
  | .finishStage workflow stage _ _ _ _ => some ⟨workflow.id, stage.id, true⟩
  | _ => none

theorem hand_opening {pc : RunnerPc} {workflow : Workflow} {stage : Stage}
    (turn : pc.turn = some (workflow, stage))
    (h : pc.reads = true ∨ pc.launching = true) : pc.hand = some ⟨workflow.id, stage.id, false⟩ := by
  cases pc <;> simp_all [RunnerPc.turn, RunnerPc.reads, RunnerPc.launching, RunnerPc.hand]

theorem hand_engaged {pc : RunnerPc} {workflow : Workflow} {stage : Stage}
    (turn : pc.turn = some (workflow, stage))
    (h : pc.attending = true ∨ pc.givingUp = true) : pc.hand = some ⟨workflow.id, stage.id, true⟩ := by
  cases pc <;> simp_all [RunnerPc.turn, RunnerPc.attending, RunnerPc.givingUp, RunnerPc.hand]

theorem turn_of_hand {pc : RunnerPc} {h : Hand} (hand : pc.hand = some h) :
    ∃ workflow stage, pc.turn = some (workflow, stage) ∧ workflow.id = h.workflowID ∧
    stage.id = h.stageID := by
  cases pc <;> first | cases hand; exact ⟨_, _, rfl, rfl, rfl⟩ | cases hand

namespace Board

def hand (b : Board) (i : Nat) : Option Hand := (b.seat i).bind fun q => q.pc.hand

/-- No stage is queued again, and none runs that did not run. -/
structure Settles (b b' : Board) : Prop where
  queued : ∀ W x was, b.stage W x was → b'.stage W x .queued → b.stage W x .queued
  running : ∀ W x, b'.stage W x .running → b.stage W x .running

/-- What a step does to the stages in hand and to the statuses of the stages, with the stage it starts. -/
inductive Turned (b : Board) (label : Label) : List (String × String) → Board → Prop
  | settled {b' : Board} (hand : b'.hand = b.hand) (settles : b.Settles b') : Turned b label [] b'
  | dropped {b' : Board} {r : Nat} (unused : ∀ h, b.hand r = some h → h.engaged = false)
      (hand : b'.hand = Function.update b.hand r none) (stage : b'.stage = b.stage) : Turned b label [] b'
  | picked {b' : Board} {r : Nat} {q : Seat} {workflow : Workflow} {stage : Stage}
      (own : label = .runner r .ok)
      (seat : b.seat r = some q) (at_load : q.pc = .load)
      (picks : b'.seat r = some { q with pc := .agents workflow stage })
      (hand : b'.hand = Function.update b.hand r (some ⟨workflow.id, stage.id, false⟩))
      (stages : b'.stage = b.stage) : Turned b label [] b'
  | given {b' : Board} {r : Nat} {h : Hand} (here : b.hand r = some h)
      (hand : b'.hand = Function.update b.hand r (some { h with engaged := true }))
      (stage : b'.stage = b.stage) : Turned b label [] b'
  | started {b' : Board} {r : Nat} {W x : String} (here : b.hand r = some ⟨W, x, false⟩)
      (hand : b'.hand = Function.update b.hand r (some ⟨W, x, true⟩))
      (stage : b'.stage = (b.setStage W x .running).stage) : Turned b label [(W, x)] b'
  | finished {b' : Board} {r : Nat} {W x : String} {status : StageStatus}
      (here : b.hand r = some ⟨W, x, true⟩)
      (ended : status ≠ .queued ∧ status ≠ .running) (hand : b'.hand = Function.update b.hand r none)
      (stage : b'.stage = (b.setStage W x status).stage) : Turned b label [] b'

section

variable {hasTurn : Nat → Prop} {b b' : Board} {label : Label}

theorem settles_of_stage (h : b'.stage = b.stage) : b.Settles b' :=
  ⟨fun W x was _ hq => by rwa [h] at hq, fun W x hr => by rwa [h] at hr⟩

theorem hand_setSeat (b : Board) (r : Nat) (q : Seat) :
    (b.setSeat r q).hand = Function.update b.hand r q.pc.hand := by
  funext i
  by_cases hi : i = r
  · subst hi
    simp [hand, setSeat]
  · simp [hand, setSeat, hi]

theorem hand_at {r : Nat} {q : Seat} (seat : b.seat r = some q) : b.hand r = q.pc.hand := by
  simp [hand, seat]

/-- A runner that holds nothing before and after. -/
theorem hand_setSeat_none {r : Nat} {q q' : Seat} (seat : b.seat r = some q) (same : q'.pc.hand = q.pc.hand) :
    (b.setSeat r q').hand = b.hand := by
  rw [hand_setSeat, same, ← hand_at seat]
  exact Function.update_eq_self r b.hand

theorem hand_register {W : String} {n : Nat} {pc : RunnerPc} (free : b.seat n = none) (empty : pc.hand = none) :
    (b.register W n pc).hand = b.hand := by
  funext i
  by_cases hi : i = n
  · subst hi
    simp [hand, register, free, empty]
  · simp [hand, register, hi]

theorem hand_launch {W : String} {n : Nat} (free : b.seat n = none) :
    (b.launchUnlessRunning W n).hand = b.hand := by
  unfold launchUnlessRunning
  split
  next => exact hand_register free rfl
  next => rfl

theorem stage_launch (b : Board) (W : String) (n : Nat) : (b.launchUnlessRunning W n).stage = b.stage := by
  unfold launchUnlessRunning
  split <;> rfl

theorem hand_release (b : Board) (W : String) (r : Nat) : (b.release W r).hand = b.hand := by
  unfold release
  split <;> rfl

theorem stage_release (b : Board) (W : String) (r : Nat) : (b.release W r).stage = b.stage := by
  unfold release
  split <;> rfl

theorem hand_cancelSeat (b : Board) (W : String) : (b.cancelSeat W).hand = b.hand := by
  funext i
  unfold hand cancelSeat
  dsimp only
  split
  next => cases b.seat i <;> rfl
  next => rfl

theorem Settles.congr {b'' : Board} (h : b.Settles b') (stage : b''.stage = b'.stage) : b.Settles b'' :=
  ⟨fun W x was there hq => h.queued W x was there (stage ▸ hq), fun W x hr => h.running W x (stage ▸ hr)⟩

theorem settles_addStage {W y : String} (unused : ∀ W status, ¬b.stage W y status) :
    b.Settles (b.addStage W y) := by
  refine ⟨?_, ?_⟩
  · rintro V x was there (old | ⟨-, rfl, -⟩)
    · exact old
    · exact absurd there (unused V was)
  · rintro V x (old | ⟨-, -, same⟩)
    · exact old
    · cases same

theorem settles_cancelStages (b : Board) (W : String) : b.Settles (b.cancelStages W) := by
  refine ⟨?_, ?_⟩
  · intro V x was _ hq
    unfold cancelStages at hq
    dsimp only at hq
    split at hq
    next => simp at hq
    next => exact hq
  · intro V x hr
    unfold cancelStages at hr
    dsimp only at hr
    split at hr
    next => simpa using hr
    next => exact hr

theorem settles_setStage (b : Board) (W x : String) {status : StageStatus}
    (ended : status ≠ .queued ∧ status ≠ .running) : b.Settles (b.setStage W x status) := by
  refine ⟨?_, ?_⟩
  · intro V y was _ queued
    unfold setStage at queued
    dsimp only at queued
    split at queued
    next => exact absurd queued.1.symm ended.1
    next => exact queued
  · intro V y running
    unfold setStage at running
    dsimp only at running
    split at running
    next => exact absurd running.1.symm ended.2
    next => exact running

/-- A step that starts no stage settles. -/
theorem Turned.settles (h : Turned b label [] b') : b.Settles b' := by
  cases h with
  | settled hand settles => exact settles
  | dropped unused hand stage => exact settles_of_stage stage
  | picked own seat at_load picks hand stage => exact settles_of_stage stage
  | given here hand stage => exact settles_of_stage stage
  | finished here ended hand stage => exact (settles_setStage b _ _ ended).congr stage

/-- A step outside the lock that writes no status. -/
theorem turned_hop {r : Nat} {q : Seat} {input : RunnerInput} {pc : RunnerPc} (seat : b.seat r = some q)
    (ok : input = .fail → q.cancelled = true ∧ q.pc.reads = true)
    (hop : Hop q.cancelled q.workflowID q.pc input pc) :
    Turned b (.runner r input) [] (b.setSeat r { q with pc }) := by
  have keeps : pc.hand = q.pc.hand → Turned b (.runner r input) [] (b.setSeat r { q with pc }) := fun same =>
    .settled (hand_setSeat_none seat same) (settles_of_stage rfl)
  have held := hand_at seat
  have written := hand_setSeat b r { q with pc }
  obtain ⟨W, cancelled, was⟩ := q
  cases hop with
  | checked => exact keeps (by split <;> rfl)
  | drained => exact keeps rfl
  | picked live own => exact .picked rfl seat rfl (Function.update_self ..) written rfl
  | unloaded => exact keeps rfl
  | prepared live reads taken turn next =>
    obtain ⟨⟨workflow, stage⟩, here⟩ := Option.ne_none_iff_exists'.mp taken
    have before := hand_opening here (Or.inl reads)
    rcases next with reads | launching | givingUp
    · exact keeps ((hand_opening (turn.trans here) (Or.inl reads)).trans before.symm)
    · exact keeps ((hand_opening (turn.trans here) (Or.inr launching)).trans before.symm)
    · refine .given (held.trans before) ?_ rfl
      rw [written, hand_engaged (turn.trans here) (Or.inr givingUp)]
  | launched launching turn next =>
    obtain ⟨⟨workflow, stage⟩, here⟩ : ∃ p, was.turn = some p := by
      cases was <;> first | exact ⟨_, rfl⟩ | cases launching
    have before := hand_opening here (Or.inr launching)
    rcases next with launching | givingUp
    · exact keeps ((hand_opening (turn.trans here) (Or.inr launching)).trans before.symm)
    · refine .given (held.trans before) ?_ rfl
      rw [written, hand_engaged (turn.trans here) (Or.inr givingUp)]
  | attended attending turn next =>
    obtain ⟨⟨workflow, stage⟩, here⟩ : ∃ p, was.turn = some p := by
      cases was <;> first | exact ⟨_, rfl⟩ | cases attending
    have before := hand_engaged here (Or.inl attending)
    exact keeps ((hand_engaged (turn.trans here) next).trans before.symm)
  | unrecorded => exact absurd (ok rfl).2 (by simp [RunnerPc.reads])
  | broken taken =>
    obtain ⟨⟨workflow, stage⟩, here⟩ := Option.ne_none_iff_exists'.mp taken
    refine .dropped ?_ written rfl
    intro h hh
    rw [held, hand_opening here (Or.inl (ok rfl).2)] at hh
    cases hh
    rfl
  | told => exact keeps rfl
  | judged => exact keeps (by split <;> rfl)
  | unfailed => exact keeps rfl
  | resumed => exact keeps rfl

/-- The steps of the board, but for the start of a stage. -/
theorem turned_of_step (h : Registry b) (step : b.Step hasTurn label b')
    (owned : ∀ W x was, b.stage W x was → b.status W ≠ none)
    (arrived : ∀ W x, b'.stage W x .running → ∃ was, b.stage W x was)
    (unstarted : ∀ r q workflow stage prompt sessionID, label = .runner r .ok → b.seat r = some q →
      q.pc ≠ .startStage workflow stage prompt sessionID) : Turned b label [] b' := by
  cases step with
  | idle running seat status stage => exact .settled (by unfold hand; rw [seat]) (settles_of_stage stage)
  | reserved pending fresh free => exact .settled (hand_register free rfl) (settles_of_stage rfl)
  | @created i r workflow workspace q b' pending seat absent written stage =>
    have known := (h.creating _ _ _ _ pending).1
    cases seat.symm.trans known
    refine .settled ?_ ⟨?_, ?_⟩
    · have same : b'.seat = (b.setSeat r ⟨workflow.id, false, .loop⟩).seat := by rw [written]; rfl
      have kept := @hand_setSeat_none _ _ _ ⟨workflow.id, false, .loop⟩ seat rfl
      rw [← kept]
      unfold hand
      rw [same]
    · intro W x was there hq
      by_cases hW : W = workflow.id
      · subst hW
        exact absurd absent (owned _ x was there)
      · exact (stage W x _ hW).mp hq
    · intro W x hr
      by_cases hW : W = workflow.id
      · subst hW
        obtain ⟨was, there⟩ := arrived _ x hr
        exact absurd absent (owned _ x was there)
      · exact (stage W x _ hW).mp hr
  | rolledBack pending => exact absurd pending (h.committed _ _ _ _)
  | sent => exact .settled rfl (settles_of_stage rfl)
  | followedUp pending new fresh unused exist free =>
    exact .settled (hand_launch free) ((settles_addStage unused).congr (stage_launch _ _ _))
  | nudged pending queued exist free => exact .settled (hand_launch free) (settles_of_stage (stage_launch _ _ _))
  | requested => exact .settled rfl (settles_of_stage rfl)
  | signalled => exact .settled (hand_cancelSeat _ _) (settles_of_stage rfl)
  | marked => exact .settled rfl ((settles_cancelStages _ _).congr rfl)
  | cancelled => exact .settled rfl (settles_of_stage rfl)
  | hopped seat ok hop => exact turned_hop seat ok hop
  | started seat at_start => exact absurd at_start (unstarted _ _ _ _ _ _ rfl seat)
  | completed seat at_end =>
    refine @Board.Turned.finished _ _ _ _ _ _ .completed
      ((hand_at seat).trans (congrArg RunnerPc.hand at_end)) ?_ ?_ rfl
    · exact ⟨nofun, nofun⟩
    · exact hand_setSeat _ _ _
  | @gaveUp r q workflow stage how output message announced seat at_end =>
    refine @Board.Turned.finished _ _ _ _ _ _ how.status
      ((hand_at seat).trans (congrArg RunnerPc.hand at_end)) ?_ ?_ rfl
    · cases how <;> exact ⟨nofun, nofun⟩
    · refine (hand_setSeat _ _ _).trans (congrArg _ ?_)
      split <;> rfl
  | failed seat at_failure =>
    exact .settled (hand_setSeat_none seat (congrArg RunnerPc.hand at_failure).symm) (settles_of_stage rfl)
  | finished seat at_finish =>
    refine .settled ((hand_release _ _ _).trans ?_) (settles_of_stage (stage_release _ _ _))
    exact hand_setSeat_none (b := b.setStatus _ _) seat (congrArg RunnerPc.hand at_finish).symm
  | @retired r q seat at_cleanup =>
    refine .settled ?_ (settles_of_stage (stage_release _ _ _))
    rw [release_setSeat, hand_release]
    exact hand_setSeat_none seat (congrArg RunnerPc.hand at_cleanup).symm

end

end Board

/-- The stage whose `StartStage` the label makes. -/
def State.starting (s : State) : LifeLabel → List (String × String)
  | .step (.runner r .ok) =>
    match s.runners[r]?.map Runner.pc with
    | some (.startStage workflow stage _ _) => [(workflow.id, stage.id)]
    | _ => []
  | _ => []

/-- The coordinator with every stage it started, in the order of their starts. -/
structure Chronicle where
  state : State
  starts : List (String × String)

def Chronicle.startsOf (c : Chronicle) (W : String) : List String :=
  (c.starts.filter fun start => start.1 = W).map Prod.snd

def chronicleStep (host : Host) (c : Chronicle) (label : LifeLabel) : Option Chronicle :=
  (lifeStep host c.state label).map fun s => ⟨s, c.starts ++ c.state.starting label⟩

def State.lifeSucceeds (s : State) : LifeLabel → Prop
  | .step label => s.storeSucceeds label
  | .restart _ => True

section

variable {host : Host} {s t : State}

theorem startStage_step {r : Nat} {R : Runner} {workflow : Workflow} {stage : Stage} {prompt sessionID : String}
    (runner : s.runners[r]? = some R) (at_start : R.pc = .startStage workflow stage prompt sessionID)
    (h : step host s (.runner r .ok) = some t) :
    t.board = ((s.board.setStatus workflow.id .running).setStage workflow.id stage.id .running).setSeat r
      ⟨R.workflowID, R.cancelled, .announce workflow stage prompt sessionID⟩ := by
  simp only [step, runner, Option.bind_some, runnerStep, at_start, advance] at h
  obtain ⟨⟨pc, store, sessions⟩, advanced, ht⟩ := Option.map_eq_some_iff.mp h
  cases ht
  split at advanced
  next => cases advanced
  next write =>
    cases advanced
    rw [board_ran runner, board_startStage write]

/-- A runner takes the first queued stage of the workflow it reads. -/
theorem picked_is_next {r : Nat} {R : Runner} {q : Seat} {workflow : Workflow} {stage : Stage}
    (runner : s.runners[r]? = some R) (at_load : R.pc = .load) (h : step host s (.runner r .ok) = some t)
    (picks : t.board.seat r = some q) (at_agents : q.pc = .agents workflow stage) :
    s.store.workflow R.workflowID = .ok workflow ∧ nextQueued workflow = some stage := by
  simp only [step, runner, Option.bind_some, runnerStep, at_load, advance] at h
  obtain ⟨⟨pc, store, sessions⟩, advanced, ht⟩ := Option.map_eq_some_iff.mp h
  cases ht
  rw [board_ran runner] at picks
  have seated : q = ⟨R.workflowID, R.cancelled, pc⟩ := by simpa [Board.setSeat, eq_comm] using picks
  subst seated
  split at advanced
  next => cases advanced
  next =>
    split at advanced
    next => cases advanced
    next read =>
      split at advanced
      next => cases advanced; cases at_agents
      next found => cases advanced; cases at_agents; exact ⟨read, found⟩

theorem stage_iff_row {W x : String} :
    (∃ was, s.board.stage W x was) ↔ x ∈ (s.store.rowsOf W).map Stage.id := by
  simp only [State.board, Store.hasStage, Store.rowsOf, List.mem_map, List.mem_filter, decide_eq_true_eq]
  constructor
  · rintro ⟨_, row, hr, hW, hx, -⟩
    exact ⟨row, ⟨hr, hW⟩, hx⟩
  · rintro ⟨row, ⟨hr, hW⟩, hx⟩
    exact ⟨row.status, row, hr, hW, hx, rfl⟩

theorem turned_step {label : Label} (h : step host s label = some t) (ok : s.storeSucceeds label)
    (registry : Registry s.board) (laid : s.store.Laid) (grows : s.store.Grows t.store) :
    Board.Turned s.board label (s.starting (.step label)) t.board := by
  have owned : ∀ W x was, s.board.stage W x was → s.board.status W ≠ none := by
    rintro W x was ⟨row, hr, rfl, -⟩
    exact laid.owned row hr
  have arrived : ∀ W x, t.board.stage W x .running → ∃ was, s.board.stage W x was := by
    intro W x running
    rcases grows.arrived W x _ running with queued | there
    · cases queued
    · exact there
  by_cases starts : ∃ r R workflow stage prompt sessionID, label = .runner r .ok ∧ s.runners[r]? = some R ∧
      R.pc = .startStage workflow stage prompt sessionID
  · obtain ⟨r, R, workflow, stage, prompt, sessionID, rfl, runner, at_start⟩ := starts
    have event : s.starting (.step (.runner r .ok)) = [(workflow.id, stage.id)] := by
      simp [State.starting, runner, at_start]
    rw [event, startStage_step runner at_start h]
    refine .started (r := r) ?_ ?_ rfl
    · rw [Board.hand_at (board_seat runner)]
      exact congrArg RunnerPc.hand at_start
    · exact Board.hand_setSeat _ _ _
  · have silent : s.starting (.step label) = [] := by
      unfold State.starting
      split
      next r own =>
        cases own
        split
        next found =>
          obtain ⟨R, runner, at_start⟩ := Option.map_eq_some_iff.mp found
          exact absurd ⟨r, R, _, _, _, _, rfl, runner, at_start⟩ starts
        next => rfl
      next => rfl
    rw [silent]
    refine Board.turned_of_step registry (board_step h ok) owned arrived ?_
    intro r q workflow stage prompt sessionID own seat at_start
    obtain ⟨R, runner, rfl⟩ := runner_of_seat seat
    exact starts ⟨r, R, workflow, stage, prompt, sessionID, own, runner, at_start⟩

end

namespace Chronicle

def order (c : Chronicle) (W : String) : List String := (c.state.store.rowsOf W).map Stage.id

/-- Every stage started so far is among these, and none of these is queued. -/
structure Behind (c : Chronicle) (W : String) (passed : List String) : Prop where
  started : (c.startsOf W).Sublist passed
  settled : ∀ x ∈ passed, ¬c.state.board.stage W x .queued

/-- The stages of a workflow are passed from the first on; a stage in hand is the next one. -/
structure InOrder (c : Chronicle) : Prop where
  registry : Registry c.state.board
  laid : c.state.store.Laid
  drafted : c.state.Drafted
  passed : ∀ W, ∃ passed, passed <+: c.order W ∧ c.Behind W passed
  held : ∀ i W x, c.state.board.hand i = some ⟨W, x, false⟩ →
    ∃ passed, passed ++ [x] <+: c.order W ∧ c.Behind W passed
  running : ∀ W x, c.state.board.stage W x .running → ∃ i, c.state.board.hand i = some ⟨W, x, true⟩

/-- Only the runner registered for a workflow has one of its stages in hand. -/
theorem registered_of_hand {b : Board} (h : Registry b) {i : Nat} {hand : Hand} (held : b.hand i = some hand) :
    b.running hand.workflowID = some i := by
  obtain ⟨q, seat, holds⟩ := Option.bind_eq_some_iff.mp held
  obtain ⟨workflow, stage, turn, own, -⟩ := turn_of_hand holds
  have same := h.turns i q workflow stage seat turn
  rw [← own, same]
  refine h.live i q seat ?_ ?_
  · intro at_cleanup
    rw [at_cleanup] at turn
    cases turn
  · intro at_done
    rw [at_done] at turn
    cases turn

theorem alone {b : Board} (h : Registry b) {i j : Nat} {W x y : String} {e f : Bool}
    (hi : b.hand i = some ⟨W, x, e⟩) (hj : b.hand j = some ⟨W, y, f⟩) : i = j := by
  have first : b.running W = some i := registered_of_hand h hi
  have second : b.running W = some j := registered_of_hand h hj
  exact Option.some.inj (first.symm.trans second)

section

variable {host : Host} {c c' : Chronicle}

theorem Behind.kept {W : String} {passed : List String} (h : c.Behind W passed) (among : passed <+: c.order W)
    (settles : ∀ x was, c.state.board.stage W x was → c'.state.board.stage W x .queued →
      c.state.board.stage W x .queued) (starts : c'.startsOf W = c.startsOf W) : c'.Behind W passed := by
  refine ⟨by rw [starts]; exact h.started, fun x hx queued => ?_⟩
  obtain ⟨was, there⟩ := stage_iff_row.mpr (among.subset hx)
  exact h.settled x hx (settles x was there queued)

/-- A stage that starts leaves nothing queued up to itself. -/
theorem Behind.start {W x : String} {passed : List String} (h : c.Behind W passed)
    (stage : c'.state.board.stage = (c.state.board.setStage W x .running).stage)
    (starts : c'.startsOf W = c.startsOf W ++ [x]) : c'.Behind W (passed ++ [x]) := by
  refine ⟨?_, ?_⟩
  · rw [starts]
    exact h.started.append_right [x]
  · intro y hy queued
    rw [stage] at queued
    unfold Board.setStage at queued
    dsimp only at queued
    split at queued
    next => cases queued.1
    next other =>
      rcases List.mem_append.mp hy with before | itself
      · exact h.settled y before queued
      · exact other ⟨rfl, List.mem_singleton.mp itself⟩

/-- The first queued stage comes right behind stages that are not queued, the started ones among them. -/
theorem picked_behind {W : String} {workflow : Workflow} {stage : Stage} (laid : c.state.store.Laid)
    (read : c.state.store.workflow W = .ok workflow) (next : nextQueued workflow = some stage)
    (passed : ∃ passed, passed <+: c.order W ∧ c.Behind W passed) :
    ∃ passed, passed ++ [stage.id] <+: c.order W ∧ c.Behind W passed := by
  have stages : workflow.stages = c.state.store.rowsOf W := by
    unfold Store.workflow at read
    split at read
    next => cases read
    next =>
      cases read
      refine List.Pairwise.insertionSort_eq ?_
      have sorted : ((c.state.store.rowsOf W).map Stage.position).Pairwise (· ≤ ·) := by
        rw [laid.numbered]
        exact List.pairwise_le_range
      exact List.pairwise_map.mp sorted
  unfold nextQueued at next
  rw [stages] at next
  obtain ⟨queued, before, after, split, unqueued⟩ := List.find?_eq_some_iff_append.mp next
  have order : c.order W = before.map Stage.id ++ stage.id :: after.map Stage.id := by
    rw [Chronicle.order, split, List.map_append, List.map_cons]
  have mine : ∀ row ∈ before ++ stage :: after, row ∈ c.state.store.stages ∧ row.workflowID = W := by
    intro row hr
    rw [← split] at hr
    obtain ⟨stored, own⟩ := List.mem_filter.mp hr
    exact ⟨stored, of_decide_eq_true own⟩
  have here := mine stage (by simp)
  obtain ⟨passed, among, behind⟩ := passed
  have covered : passed <+: before.map Stage.id := by
    rw [order] at among
    rcases List.prefix_or_prefix_of_prefix among (List.prefix_append _ _) with short | ⟨rest, hrest⟩
    · exact short
    · rw [← hrest] at among ⊢
      cases rest with
      | nil => rw [List.append_nil]
      | cons y rest =>
        have same := (List.cons_prefix_cons.mp ((List.prefix_append_right_inj _).mp among)).1
        have reached : stage.id ∈ passed := by rw [← hrest, same]; simp
        exact absurd ⟨stage, here.1, here.2, rfl, of_decide_eq_true queued⟩ (behind.settled stage.id reached)
  refine ⟨before.map Stage.id, ?_, behind.started.trans covered.sublist, ?_⟩
  · rw [order]
    exact ⟨after.map Stage.id, by simp⟩
  · rintro x hx ⟨row, hr, -, hid, waiting⟩
    obtain ⟨old, ho, same⟩ := List.mem_map.mp hx
    have stored := (mine old (List.mem_append_left _ ho)).1
    have equal := List.inj_on_of_nodup_map laid.keyed hr stored (hid.trans same.symm)
    have unready := unqueued old ho
    rw [← equal] at unready
    simp [State.isStageQueued, waiting] at unready

theorem startsOf_silent {W : String} (starts : c'.starts = c.starts ++ []) :
    c'.startsOf W = c.startsOf W := by
  simp [startsOf, starts]

theorem startsOf_started {V x : String} (starts : c'.starts = c.starts ++ [(V, x)]) (W : String) :
    c'.startsOf W = if V = W then c.startsOf W ++ [x] else c.startsOf W := by
  unfold startsOf
  rw [starts, List.filter_append, List.map_append]
  split
  next same => simp [same]
  next other => simp [other]

/-- The start of a stage queues nothing. -/
theorem unqueued_start {b b' : Board} {V y W x : String} (stage : b'.stage = (b.setStage V y .running).stage)
    (queued : b'.stage W x .queued) : b.stage W x .queued := by
  rw [stage] at queued
  unfold Board.setStage at queued
  dsimp only at queued
  split at queued
  next => cases queued.1
  next => exact queued

theorem passed_step {label : Label} {starts : List (String × String)} (h : c.InOrder)
    (turned : c.state.board.Turned label starts c'.state.board) (hs : c'.starts = c.starts ++ starts)
    (order : ∀ W, c.order W <+: c'.order W) (W : String) : ∃ passed, passed <+: c'.order W ∧
    c'.Behind W passed := by
  obtain ⟨passed, among, behind⟩ := h.passed W
  have silent : starts = [] → ∃ passed, passed <+: c'.order W ∧ c'.Behind W passed := by
    intro hn
    subst hn
    exact ⟨passed, among.trans (order W), behind.kept among (turned.settles.queued W) (startsOf_silent hs)⟩
  cases turned with
  | @started _ r V x here hand stage =>
    by_cases hV : V = W
    · subst hV
      obtain ⟨passed, among, behind⟩ := h.held r V x here
      refine ⟨passed ++ [x], among.trans (order V), ?_⟩
      refine behind.start stage ?_
      rw [startsOf_started hs, if_pos rfl]
    · refine ⟨passed, among.trans (order W), behind.kept among (fun x was _ => unqueued_start stage) ?_⟩
      rw [startsOf_started hs, if_neg hV]
  | _ => exact silent rfl

theorem held_step {label : Label} {starts : List (String × String)} (h : c.InOrder)
    (moved : step host c.state label = some c'.state)
    (turned : c.state.board.Turned label starts c'.state.board) (hs : c'.starts = c.starts ++ starts)
    (order : ∀ W, c.order W <+: c'.order W) {i : Nat} {W x : String}
    (held : c'.state.board.hand i = some ⟨W, x, false⟩) :
    ∃ passed, passed ++ [x] <+: c'.order W ∧ c'.Behind W passed := by
  have quiet : starts = [] → (∃ passed, passed ++ [x] <+: c.order W ∧ c.Behind W passed) →
      ∃ passed, passed ++ [x] <+: c'.order W ∧ c'.Behind W passed := by
    intro hn before
    subst hn
    obtain ⟨passed, among, behind⟩ := before
    have inner := (List.prefix_append passed [x]).trans among
    exact ⟨passed, among.trans (order W), behind.kept inner (turned.settles.queued W) (startsOf_silent hs)⟩
  cases turned with
  | settled hand settles =>
    rw [hand] at held
    exact quiet rfl (h.held i W x held)
  | @dropped _ r unused hand stage =>
    rw [hand] at held
    by_cases hi : i = r
    · subst hi
      simp at held
    · rw [Function.update_of_ne hi] at held
      exact quiet rfl (h.held i W x held)
  | @picked _ r q workflow stage own seat at_load picks hand stages =>
    rw [hand] at held
    by_cases hi : i = r
    · subst hi own
      simp only [Function.update_self, Option.some.injEq, Hand.mk.injEq, and_true] at held
      obtain ⟨rfl, rfl⟩ := held
      obtain ⟨R, runner, rfl⟩ := runner_of_seat seat
      obtain ⟨read, next⟩ := picked_is_next runner at_load moved picks rfl
      have mine := (Store.workflow_id read).1
      rw [← mine] at read
      exact quiet rfl (picked_behind h.laid read next (h.passed workflow.id))
    · rw [Function.update_of_ne hi] at held
      exact quiet rfl (h.held i W x held)
  | @given _ r hold here hand stage =>
    rw [hand] at held
    by_cases hi : i = r
    · subst hi
      simp at held
    · rw [Function.update_of_ne hi] at held
      exact quiet rfl (h.held i W x held)
  | @started _ r V y here hand stage =>
    rw [hand] at held
    by_cases hi : i = r
    · subst hi
      simp at held
    · rw [Function.update_of_ne hi] at held
      obtain ⟨passed, among, behind⟩ := h.held i W x held
      have inner := (List.prefix_append passed [x]).trans among
      refine ⟨passed, among.trans (order W), behind.kept inner (fun _ _ _ => unqueued_start stage) ?_⟩
      have other : V ≠ W := by
        intro same
        subst same
        exact hi (alone h.registry held here)
      rw [startsOf_started hs, if_neg other]
  | @finished _ r V y status here ended hand stage =>
    rw [hand] at held
    by_cases hi : i = r
    · subst hi
      simp at held
    · rw [Function.update_of_ne hi] at held
      exact quiet rfl (h.held i W x held)

theorem running_step {label : Label} {starts : List (String × String)} (h : c.InOrder)
    (turned : c.state.board.Turned label starts c'.state.board) {W x : String}
    (running : c'.state.board.stage W x .running) : ∃ i, c'.state.board.hand i = some ⟨W, x, true⟩ := by
  have before : starts = [] → ∃ i, c.state.board.hand i = some ⟨W, x, true⟩ := by
    intro hn
    subst hn
    exact h.running W x (turned.settles.running W x running)
  cases turned with
  | settled hand settles =>
    rw [hand]
    exact before rfl
  | @dropped _ r unused hand stage =>
    obtain ⟨i, held⟩ := before rfl
    have other : i ≠ r := by
      intro hi
      subst hi
      cases unused _ held
    exact ⟨i, by rw [hand, Function.update_of_ne other, held]⟩
  | @picked _ r q workflow stage own seat at_load picks hand stages =>
    obtain ⟨i, held⟩ := before rfl
    have other : i ≠ r := by
      intro hi
      subst hi
      rw [Board.hand_at seat, at_load] at held
      cases held
    exact ⟨i, by rw [hand, Function.update_of_ne other, held]⟩
  | @given _ r hold here hand stage =>
    obtain ⟨i, held⟩ := before rfl
    by_cases hi : i = r
    · subst hi
      cases held.symm.trans here
      exact ⟨i, by rw [hand, Function.update_self]⟩
    · exact ⟨i, by rw [hand, Function.update_of_ne hi, held]⟩
  | @started _ r V y here hand stage =>
    rw [stage] at running
    unfold Board.setStage at running
    dsimp only at running
    split at running
    next same =>
      obtain ⟨rfl, rfl⟩ := same
      exact ⟨r, by rw [hand, Function.update_self]⟩
    next =>
      obtain ⟨i, held⟩ := h.running W x running
      have other : i ≠ r := by
        intro hi
        subst hi
        rw [here] at held
        cases held
      exact ⟨i, by rw [hand, Function.update_of_ne other, held]⟩
  | @finished _ r V y status here ended hand stage =>
    obtain ⟨i, held⟩ := before rfl
    have other : i ≠ r := by
      intro hi
      subst hi
      cases held.symm.trans here
      rw [stage] at running
      unfold Board.setStage at running
      dsimp only at running
      rw [if_pos ⟨rfl, rfl⟩] at running
      exact ended.2 running.1.symm
    exact ⟨i, by rw [hand, Function.update_of_ne other, held]⟩

theorem registry_restart {s : State} (h : Registry s.board) (now : Time) :
    Registry (s.restart now).board := by
  refine ⟨?_, ?_, ?_, ?_, ?_, fun W hW => h.known W (restart_stored W hW), ?_, ?_, ?_, ?_, ?_⟩
  all_goals simp [State.board, State.restart, slots]

theorem InOrder.step {label : LifeLabel} (h : c.InOrder) (step : chronicleStep host c label = some c')
    (ok : c.state.lifeSucceeds label) : c'.InOrder := by
  obtain ⟨t, moved, hc⟩ := Option.map_eq_some_iff.mp step
  subst hc
  have grows := grows_lifeStep h.drafted moved
  cases label with
  | restart now =>
    cases moved
    have kept : ∀ W x was, c.state.board.stage W x was → (c.state.restart now).board.stage W x .queued →
        c.state.board.stage W x .queued := by
      rintro W x was - ⟨row, hr, hW, hx, queued⟩
      obtain ⟨old, ho, rfl⟩ := mem_updateWhere.mp hr
      split at queued
      next => cases queued
      next still => exact ⟨old, ho, by simpa [still] using hW, by simpa [still] using hx, queued⟩
    have silent : ∀ W, (⟨c.state.restart now, c.starts ++ []⟩ : Chronicle).startsOf W = c.startsOf W :=
      fun W => startsOf_silent rfl
    refine ⟨registry_restart h.registry now, grows.rows.laid h.laid, grows.drafted, ?_, ?_, ?_⟩
    · intro W
      obtain ⟨passed, among, behind⟩ := h.passed W
      exact ⟨passed, among.trans (grows.rows.behind W), behind.kept among (kept W) (silent W)⟩
    · intro i W x held
      cases held
    · rintro W x ⟨row, hr, -, -, running⟩
      obtain ⟨old, ho, rfl⟩ := mem_updateWhere.mp hr
      split at running
      next => cases running
      next still => exact absurd (decide_eq_true running) still
  | step label =>
    have registry := registry_step h.registry (board_step moved ok)
    have turned := turned_step moved ok h.registry h.laid grows.rows
    refine ⟨registry, grows.rows.laid h.laid, grows.drafted, ?_, ?_, ?_⟩
    · exact passed_step h turned rfl grows.rows.behind
    · intro i W x held
      have order : ∀ W, c.order W <+: (⟨t, c.starts ++ c.state.starting (.step label)⟩ : Chronicle).order W :=
        grows.rows.behind
      have moved : Coordinator.step host c.state label = some t := moved
      exact held_step h moved turned rfl order held
    · intro W x running
      exact running_step h turned running

theorem inOrder_initial (agents : List Agent) (now : Time) : InOrder ⟨State.initial agents now, []⟩ := by
  refine ⟨registry_initial agents now, ⟨?_, ?_, ?_⟩, ?_, ?_, ?_, ?_⟩
  · exact fun row hr => absurd hr List.not_mem_nil
  · exact List.nodup_nil
  · exact fun W => rfl
  · exact fun c hc => absurd hc List.not_mem_nil
  · exact fun W => ⟨[], List.nil_prefix, List.nil_sublist _, fun x hx => absurd hx List.not_mem_nil⟩
  · intro i W x held
    cases held
  · rintro W x ⟨row, hr, -⟩
    exact absurd hr List.not_mem_nil

end

end Chronicle

/-- With every store call succeeding, the stages of a workflow are numbered from zero, start in the order of
their positions, none of them twice, and at most one of them runs. -/
theorem stages_run_in_order {host : Host} {agents : List Agent} {now : Time}
    {labels : List LifeLabel} {c : Chronicle}
    (run : exec (chronicleStep host) ⟨State.initial agents now, []⟩ labels = some c)
    (ok : Along (chronicleStep host) (fun c label => c.state.lifeSucceeds label)
      ⟨State.initial agents now, []⟩ labels) (W : String) :
    (c.state.store.rowsOf W).map Stage.position = List.range (c.state.store.rowsOf W).length ∧
    (c.startsOf W).Pairwise (fun x y => ∃ first ∈ c.state.store.rowsOf W, ∃ second ∈ c.state.store.rowsOf W,
      first.id = x ∧ second.id = y ∧ first.position < second.position) ∧
    (c.startsOf W).Nodup ∧
    ((c.state.store.rowsOf W).filter fun row => row.status = .running).length ≤ 1 := by
  have h : c.InOrder := exec_preserves (fun c label c' h ok step => h.step step ok)
    (Chronicle.inOrder_initial agents now) run ok
  obtain ⟨passed, among, behind⟩ := h.passed W
  have started : (c.startsOf W).Sublist (c.order W) := behind.started.trans among.sublist
  have keyed : (c.order W).Nodup := (List.Nodup.sublist (List.filter_sublist.map _) h.laid.keyed)
  have numbered := h.laid.numbered W
  refine ⟨numbered, ?_, keyed.sublist started, ?_⟩
  · refine List.Pairwise.sublist started ?_
    have rising : (c.state.store.rowsOf W).Pairwise (fun first second => first.position < second.position) := by
      refine List.pairwise_map.mp ?_
      rw [numbered]
      exact List.pairwise_lt_range
    refine List.pairwise_map.mpr (rising.imp_of_mem ?_)
    intro first second hf hs less
    exact ⟨first, hf, second, hs, rfl, rfl, less⟩
  · have single : ∀ row ∈ (c.state.store.rowsOf W).filter (fun row => row.status = .running),
        ∀ other ∈ (c.state.store.rowsOf W).filter (fun row => row.status = .running), row = other := by
      intro row hr other ho
      obtain ⟨hr, running⟩ := List.mem_filter.mp hr
      obtain ⟨ho, running'⟩ := List.mem_filter.mp ho
      obtain ⟨stored, own⟩ := List.mem_filter.mp hr
      obtain ⟨stored', own'⟩ := List.mem_filter.mp ho
      obtain ⟨i, held⟩ := h.running W row.id
        ⟨row, stored, of_decide_eq_true own, rfl, of_decide_eq_true running⟩
      obtain ⟨j, held'⟩ := h.running W other.id
        ⟨other, stored', of_decide_eq_true own', rfl, of_decide_eq_true running'⟩
      have same := Chronicle.alone h.registry held held'
      subst same
      have ids := congrArg (Option.map Hand.stageID) (held.symm.trans held')
      exact List.inj_on_of_nodup_map h.laid.keyed stored stored' (Option.some.inj ids)
    have distinct : ((c.state.store.rowsOf W).filter fun row => row.status = .running).Nodup :=
      (List.Nodup.of_map Stage.id keyed).filter _
    by_contra many
    obtain ⟨row, other, rest, rows⟩ : ∃ row other rest,
        (c.state.store.rowsOf W).filter (fun row => row.status = .running) = row :: other :: rest := by
      match hl : (c.state.store.rowsOf W).filter (fun row => row.status = .running) with
      | [] => simp [hl] at many
      | [row] => simp [hl] at many
      | row :: other :: rest => exact ⟨row, other, rest, hl⟩
    rw [rows] at single distinct
    have same := single row (by simp) other (by simp)
    simp [same] at distinct

/-- `chronicleStep` by `replay`. -/
def chronicleReplay (host : Host) (c : Chronicle) (label : LifeLabel) : Option Chronicle :=
  (lifeReplay host c.state label).map fun t => ⟨t, c.starts ++ c.state.starting label⟩

theorem chronicleStep_of_replay {host : Host} {c c' : Chronicle} {label : LifeLabel}
    (h : chronicleReplay host c label = some c') : chronicleStep host c label = some c' := by
  obtain ⟨t, taken, rfl⟩ := Option.map_eq_some_iff.mp h
  exact Option.map_eq_some_iff.mpr ⟨t, lifeStep_of_replay taken, rfl⟩

/-- A turn of the first runner of a daemon up to the start of its stage. -/
def startTurn (sessionID : String) : List Label :=
  [.runner 0 .ok, .runner 0 .ok, .runner 0 .ok, .runner 0 .ok, .runner 0 (.started sessionID), .runner 0 .ok,
    .runner 0 .ok]

/-- The first stage runs and a follow-up is queued behind it. -/
def firstLife : List Label :=
  roomRun ++ startTurn "a1" ++ [.send "w" ⟨"hi", "@codex", none⟩ true, .sendAgent 1 "s1" "/repo" true]

/-- A message makes a runner for the stage that is still queued, and the one after that adds a third stage. -/
def secondLife : List Label :=
  .send "w" ⟨"again", "@codex", none⟩ true :: .sendAgent 0 "s2" "/repo" true :: startTurn "a2" ++
    [.send "w" ⟨"more", "@codex", none⟩ true, .sendAgent 1 "s2" "/repo" true]

def restartedRun : List LifeLabel := firstLife.map .step ++ .restart noon :: secondLife.map .step

theorem stages_run_in_order_over_restart : ∃ c,
    exec (chronicleStep exampleHost) ⟨State.initial [codexAgent] noon, []⟩ restartedRun = some c ∧
    c.startsOf "w" = ["s0", "s1"] ∧
    (c.state.store.rowsOf "w").map (fun row => (row.id, row.status)) =
      [("s0", .interrupted), ("s1", .running), ("s2", .queued)] ∧
    (c.state.store.rowsOf "w").map Stage.position = List.range (c.state.store.rowsOf "w").length ∧
    (c.startsOf "w").Pairwise
    (fun x y => ∃ first ∈ c.state.store.rowsOf "w", ∃ second ∈ c.state.store.rowsOf "w",
      first.id = x ∧ second.id = y ∧ first.position < second.position) ∧
    (c.startsOf "w").Nodup ∧
    ((c.state.store.rowsOf "w").filter fun row => row.status = .running).length ≤ 1 := by
  have run : (exec (chronicleReplay exampleHost) ⟨State.initial [codexAgent] noon, []⟩ restartedRun).any (fun c =>
      c.startsOf "w" = ["s0", "s1"] ∧ (c.state.store.rowsOf "w").map (fun row => (row.id, row.status)) =
        [("s0", .interrupted), ("s1", .running), ("s2", .queued)]) = true := by
    decide +kernel
  obtain ⟨c, run, facts⟩ := (Option.any_eq_true _ _).mp run
  obtain ⟨starts, rows⟩ := of_decide_eq_true facts
  have run := exec_mono (fun _ _ _ => chronicleStep_of_replay) run
  have ok : ∀ label ∈ restartedRun, ∀ c : Chronicle, c.state.lifeSucceeds label := by
    simp [restartedRun, firstLife, secondLife, roomRun, startTurn, State.lifeSucceeds, State.storeSucceeds]
  exact ⟨c, run, starts, rows, stages_run_in_order run (along_of_labels ok _) "w"⟩

end TermLinks.Coordinator
