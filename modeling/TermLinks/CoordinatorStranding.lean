import TermLinks.CoordinatorReplay
import TermLinks.CoordinatorSupervision
import TermLinks.Exec

namespace TermLinks.Coordinator

/-- A runner of the workflow that would have looked for queued stages again fails its turn. -/
def Board.Failed (b b' : Board) (W : String) : Prop :=
  ∃ r q q', b.seat r = some q ∧ q.workflowID = W ∧ q.serving = true ∧ b'.seat r = some q' ∧ q'.pc.failing = true

def Board.Covered (b : Board) (W : String) : Prop := b.Served W ∨ b.Marking W

/-- The stage of a follow-up is not stranded. -/
structure Followed (b : Board) (W x : String) : Prop where
  issued : b.issued x
  exist : b.status W ≠ none
  covered : b.stage W x .queued → b.Covered W

section

variable {hasTurn : Nat → Prop} {b b' : Board} {label : Label} {W : String}

theorem covered_setCall (h : b.Covered W) {i : Nat} {c : Call} (kept : b.call i ≠ some (.cancelStages W)) :
    (b.setCall i c).Covered W := by
  rcases h with served | ⟨j, hj⟩
  · exact .inl served
  · have other : j ≠ i := by
      rintro rfl
      exact kept hj
    exact .inr ⟨j, by simpa [Board.setCall, other] using hj⟩

theorem covered_setSeat (h : b.Covered W) {r : Nat} {q q' : Seat} (seat : b.seat r = some q)
    (stays : b.running W = some r → q.serving = true → q'.serving = true) : (b.setSeat r q').Covered W := by
  rcases h with ⟨i, p, hi, hp, serving⟩ | marking
  · left
    by_cases hir : i = r
    · subst hir
      cases seat.symm.trans hp
      exact ⟨i, q', hi, Function.update_self .., stays hi serving⟩
    · exact ⟨i, p, hi, (Function.update_of_ne hir ..).trans hp, serving⟩
  · exact .inr marking

theorem covered_register (h : b.Covered W) {V : String} {n : Nat} {pc : RunnerPc} (other : W ≠ V)
    (free : b.seat n = none) : (b.register V n pc).Covered W := by
  rcases h with ⟨i, p, hi, hp, serving⟩ | marking
  · have hin : i ≠ n := by
      rintro rfl
      rw [free] at hp
      cases hp
    exact .inl ⟨i, p, (Function.update_of_ne other ..).trans hi, (Function.update_of_ne hin ..).trans hp, serving⟩
  · exact .inr marking

theorem covered_launch (h : b.Covered W) {V : String} {n : Nat} (free : b.seat n = none) :
    (b.launchUnlessRunning V n).Covered W := by
  unfold Board.launchUnlessRunning
  split
  next alone =>
    rcases h with ⟨i, p, hi, hp, serving⟩ | marking
    · refine covered_register (.inl ⟨i, p, hi, hp, serving⟩) ?_ free
      rintro rfl
      rw [alone] at hi
      cases hi
    · exact .inr marking
  next => exact h

theorem covered_release (h : b.Covered W) {V : String} {r : Nat} (other : b.running W ≠ some r ∨ W ≠ V) :
    (b.release V r).Covered W := by
  unfold Board.release
  split
  next here =>
    rcases h with ⟨i, p, hi, hp, serving⟩ | marking
    · refine .inl ⟨i, p, (Function.update_of_ne ?_ ..).trans hi, hp, serving⟩
      rintro rfl
      exact other.elim (fun h => h here) fun h => h rfl
    · exact .inr marking
  next => exact h

theorem serving_of_hop {q : Seat} {pc : RunnerPc} {input : RunnerInput}
    (hop : Hop q.cancelled q.workflowID q.pc input pc) (ok : input = .fail → q.cancelled = true)
    (serving : q.serving = true) (kept : pc.failing = false) : ({ q with pc } : Seat).serving = true := by
  have live : q.cancelled = false := by
    simp only [Seat.serving, Bool.and_eq_true, Bool.not_eq_true'] at serving
    exact serving.1.1.1
  have stays : pc ≠ .cleanup := by
    intro hc
    rcases hop_cleanup hop hc with h | h
    · rw [live] at h
      cases h
    · rw [live] at ok
      exact absurd (ok h) (by rintro ⟨⟩)
  simp [Seat.serving, live, kept, stays, hop_alive hop]

theorem status_setStatus (h : b.status W ≠ none) (V : String) (status : WorkflowStatus) :
    (b.setStatus V status).status W ≠ none := by
  by_cases hV : W = V
  · simp [Board.setStatus, hV]
  · simpa [Board.setStatus, hV] using h

theorem queued_of_setStage {V x y : String} {status : StageStatus}
    (h : (b.setStage V y status).stage W x .queued) (ended : status ≠ .queued) : b.stage W x .queued := by
  simp only [Board.setStage] at h
  split at h
  next => exact absurd h.1.symm ended
  next => exact h

theorem followed_step {x : String} (reg : Registry b) (h : Followed b W x) (step : b.Step hasTurn label b')
    (unfailed : ¬b.Failed b' W) : Followed b' W x := by
  obtain ⟨issued, exist, covered⟩ := h
  have own : ∀ {r q}, b.seat r = some q → b.running W = some r → q.workflowID = W :=
    fun hq hr => (reg.registered W _ _ hr hq).1
  cases step with
  | idle running seat status stage issued' old kept =>
    refine ⟨issued' x issued, by rwa [status], fun hq => ?_⟩
    rw [stage] at hq
    rcases covered hq with ⟨r, q, hr, hs, serving⟩ | ⟨i, hi⟩
    · exact .inl ⟨r, q, by rwa [running], by rwa [seat], serving⟩
    · exact .inr ⟨i, kept i _ rfl hi⟩
  | @reserved i n draft id _ _ pending fresh free =>
    have other : W ≠ id := by
      rintro rfl
      exact fresh (reg.known W exist)
    refine ⟨.inr issued, exist, fun hq => ?_⟩
    refine covered_setCall (covered_register (b := b.issue id) (covered hq) other free) ?_
    exact fun hc => by cases pending.symm.trans hc
  | @created i r workflow _ q _ pending seat absent written stage =>
    have other : W ≠ workflow.id := by
      rintro rfl
      exact exist absent
    obtain ⟨mine, -⟩ := reg.creating _ _ _ _ pending
    cases seat.symm.trans mine
    have base : b.Covered W → (b.setSeat r ⟨workflow.id, false, .loop⟩).Covered W :=
      fun h => covered_setSeat h seat fun _ _ => rfl
    have kept : b.call i ≠ some (.cancelStages W) := fun hc => by cases pending.symm.trans hc
    have done (h : b.Covered W) : ((b.setSeat r ⟨workflow.id, false, .loop⟩).setCall i
        (.returned (.created workflow))).Covered W := covered_setCall (base h) kept
    rw [written]
    refine ⟨issued, status_setStatus exist _ _, fun hq => done (covered ?_)⟩
    exact (stage W x .queued other).mp hq
  | rolledBack pending => exact absurd pending (reg.committed _ _ _ _)
  | sent fresh room =>
    refine ⟨issued, exist, fun hq => covered_setCall (covered hq) ?_⟩
    exact fun hc => by cases fresh.symm.trans hc
  | @followedUp i n V _ stageID _ message _ was pending new fresh unused here free =>
    have other : x ≠ stageID := by
      rintro rfl
      exact fresh issued
    refine ⟨?_, ?_, fun hq => ?_⟩
    · unfold Board.launchUnlessRunning
      split <;> exact .inr issued
    · unfold Board.launchUnlessRunning
      split <;> exact status_setStatus exist _ _
    · have before : b.stage W x .queued := by
        unfold Board.launchUnlessRunning at hq
        split at hq <;> exact hq.elim id fun h => absurd h.2.1 other
      refine covered_setCall (covered_launch ?_ ?_) ?_
      · exact covered before
      · exact free
      · rw [Board.launchUnlessRunning_call]
        exact fun hc => by cases pending.symm.trans hc
  | nudged pending queued here free =>
    refine ⟨?_, ?_, fun hq => ?_⟩
    · unfold Board.launchUnlessRunning
      split <;> exact issued
    · unfold Board.launchUnlessRunning
      split <;> exact exist
    · have before : b.stage W x .queued := by
        unfold Board.launchUnlessRunning at hq
        split at hq <;> exact hq
      refine covered_setCall (covered_launch (covered before) free) ?_
      rw [Board.launchUnlessRunning_call]
      exact fun hc => by cases pending.symm.trans hc
  | requested fresh here =>
    refine ⟨issued, exist, fun hq => covered_setCall (covered hq) ?_⟩
    exact fun hc => by cases fresh.symm.trans hc
  | @signalled i id pending =>
    refine ⟨issued, exist, fun hq => ?_⟩
    by_cases hid : W = id
    · exact .inr ⟨i, hid ▸ Function.update_self ..⟩
    · refine covered_setCall (b := b.cancelSeat id) ?_ fun hc => by cases pending.symm.trans hc
      rcases covered hq with ⟨r, q, hr, hs, serving⟩ | marking
      · have stays : b.running id ≠ some r := fun h => hid ((own hs hr).symm.trans (reg.registered id r q h hs).1)
        exact .inl ⟨r, q, hr, (if_neg stays).trans hs, serving⟩
      · exact .inr marking
  | @marked i id pending =>
    refine ⟨issued, exist, fun hq => ?_⟩
    simp only [Board.setCall, Board.cancelStages] at hq
    split at hq
    next => exact absurd hq (by simp)
    next other =>
      refine covered_setCall (b := b.cancelStages id) (covered hq) fun hc => ?_
      cases pending.symm.trans hc
      exact other rfl
  | cancelled pending here =>
    refine ⟨issued, status_setStatus exist _ _, fun hq => ?_⟩
    refine covered_setCall (b := b.setStatus _ .cancelled) (covered hq) fun hc => ?_
    cases pending.symm.trans hc
  | @hopped r q input pc seat ok hop =>
    refine ⟨issued, exist, fun hq => covered_setSeat (covered hq) seat fun hr serving => ?_⟩
    refine serving_of_hop hop (fun hf => (ok hf).1) serving ?_
    by_contra failing
    exact unfailed ⟨r, q, _, seat, own seat hr, serving, Function.update_self .., by simpa using failing⟩
  | started seat at_start here =>
    refine ⟨issued, status_setStatus exist _ _, fun hq => covered_setSeat ?_ seat fun _ serving => ?_⟩
    · exact covered (queued_of_setStage (b := b.setStatus _ .running) hq (by rintro ⟨⟩))
    · simpa [Seat.serving, at_start, RunnerPc.failing] using serving
  | completed seat at_end =>
    refine ⟨issued, exist, fun hq => covered_setSeat ?_ seat fun _ serving => ?_⟩
    · exact covered (queued_of_setStage hq (by rintro ⟨⟩))
    · simpa [Seat.serving, at_end, RunnerPc.failing] using serving
  | @gaveUp r q workflow stage how output message announced seat at_end =>
    refine ⟨issued, exist, fun hq => covered_setSeat ?_ seat fun _ serving => ?_⟩
    · exact covered (queued_of_setStage hq (by cases how <;> rintro ⟨⟩))
    · simp [Seat.serving, at_end, RunnerPc.failing] at serving
  | failed seat at_failure here =>
    refine ⟨issued, status_setStatus exist _ _, fun hq => covered_setSeat ?_ seat fun _ serving => ?_⟩
    · exact covered hq
    · simp [Seat.serving, at_failure, RunnerPc.failing] at serving
  | @finished r q seat at_finish here empty =>
    refine ⟨?_, ?_, fun hq => ?_⟩
    · unfold Board.release
      split <;> exact issued
    · unfold Board.release
      split <;> exact status_setStatus exist _ _
    · have before : b.stage W x .queued := by
        unfold Board.release at hq
        split at hq <;> exact hq
      have other : W ≠ q.workflowID := by
        rintro rfl
        exact empty x before
      refine covered_release (covered_setSeat (b := b.setStatus _ .completed) (covered before) seat ?_) (.inr other)
      exact fun hr => absurd (own seat hr).symm other
  | @retired r q seat at_cleanup =>
    refine ⟨?_, ?_, fun hq => ?_⟩
    · unfold Board.release
      split <;> exact issued
    · unfold Board.release
      split <;> exact exist
    · have before : b.stage W x .queued := by
        unfold Board.release at hq
        split at hq <;> exact hq
      have absent : q.serving = false := by simp [Seat.serving, at_cleanup]
      rcases covered before with ⟨i, p, hi, hp, serving⟩ | marking
      · have gone : b.running W ≠ some r := by
          intro hr
          cases hi.symm.trans hr
          cases seat.symm.trans hp
          rw [absent] at serving
          cases serving
        rw [Board.release_setSeat]
        refine covered_release (covered_setSeat (covered before) seat fun hr => absurd hr gone) (.inl gone)
      · unfold Board.release
        split <;> exact .inr marking

/-- A follow-up accepted outside the stranding branches has a runner that will come to it. -/
theorem followed_of_append {i : Nat} {x workspace agentID : String} {message : RoomMessage} (reg : Registry b)
    (sound : b.Sound hasTurn (.sendAgent i x workspace true))
    (pending : b.call i = some (.sendAgent W agentID message))
    (step : b.Step hasTurn (.sendAgent i x workspace true) b')
    (before : ¬b.stage W x .queued) (after : b'.stage W x .queued) : Followed b' W x := by
  cases step with
  | idle running seat status stage => exact absurd (stage ▸ after) before
  | nudged hp queued exist free =>
    refine absurd ?_ before
    unfold Board.launchUnlessRunning at after
    split at after <;> exact after
  | @followedUp _ n V _ _ _ message' _ was hp new fresh unused exist free =>
    cases pending.symm.trans hp
    have room := reg.sending _ _ _ _ pending
    have served := sound.followUp i x workspace W agentID message rfl pending new
    have here : b.status W ≠ none := room ▸ ne_of_eq_of_ne exist (Option.some_ne_none _)
    refine ⟨?_, ?_, fun _ => covered_setCall ?_ ?_⟩
    · unfold Board.launchUnlessRunning
      split <;> exact .inl rfl
    · unfold Board.launchUnlessRunning
      split <;> exact status_setStatus here _ _
    · by_cases hr : b.running W = none
      · have launched : ∀ c : Board, c.running = b.running → (c.launchUnlessRunning W n).Covered W := by
          intro c hc
          unfold Board.launchUnlessRunning
          rw [if_pos (hc ▸ hr)]
          exact .inl ⟨n, _, Function.update_self .., Function.update_self .., rfl⟩
        exact launched _ rfl
      · refine covered_launch ?_ ?_
        · exact served hr
        · exact free
    · rw [Board.launchUnlessRunning_call]
      exact fun hc => nomatch pending.symm.trans hc

end

theorem supervised_initial (agents : List Agent) (now : Time) :
    Supervised (State.initial agents now).board := by
  have idle : ∀ W, ¬(State.initial agents now).board.Active W := by
    intro W
    simp [Board.Active, State.board, State.initial, Store.statusOf, Store.empty, findRow]
  exact ⟨fun W h => absurd h (idle W), fun W _ _ _ _ _ h => absurd h (idle W)⟩

/-- Every store call succeeds and no step takes a stranding branch. -/
def Unstranding (s : State) (label : Label) : Prop :=
  s.storeSucceeds label ∧ s.board.Sound s.hasTurn label

theorem supervised_run {host : Host} {s t : State} {labels : List Label} (reg : Registry s.board)
    (h : Supervised s.board) (run : exec (step host) s labels = some t)
    (sound : Along (step host) Unstranding s labels) : Registry t.board ∧ Supervised t.board := by
  refine @exec_preserves _ _ _ _ (fun u => Registry u.board ∧ Supervised u.board) ?_ _ _ _ ⟨reg, h⟩ run sound
  intro u label v hu hg hv
  have moved := board_step hv hg.1
  exact ⟨registry_step hu.1 moved, supervised_step hu.1 hu.2 hg.2 moved⟩

theorem followed_run {host : Host} {s t : State} {labels : List Label} {W x : String}
    (reg : Registry s.board) (h : Followed s.board W x) (run : exec (step host) s labels = some t)
    (sound : Along (step host) Unstranding s labels)
    (unfailed : Along (step host)
      (fun u label => ∀ v, step host u label = some v → ¬u.board.Failed v.board W) s labels) :
    Followed t.board W x := by
  induction labels generalizing s with
  | nil => cases Option.some.inj run; exact h
  | cons label labels ih =>
    obtain ⟨u, hu, run⟩ := exec_cons_iff.mp run
    have moved := board_step hu sound.1.1
    exact ih (registry_step reg moved) (followed_step reg h moved (unfailed.1 u hu)) run
      (sound.2 u hu) (unfailed.2 u hu)

/-- In a run without the stranding branches, a workflow without a runner has ended, and a follow-up
is queued only as long as a runner will come to it or a `Cancel` is about to mark it. -/
theorem unstranding_run_is_supervised {host : Host} {agents : List Agent} {now : Time} {labels : List Label}
    {s : State} (run : exec (step host) (State.initial agents now) labels = some s)
    (sound : Along (step host) Unstranding (State.initial agents now) labels) :
    (∀ W, s.running.lookup W = none →
      s.store.statusOf W ≠ some .queued ∧ s.store.statusOf W ≠ some .running) ∧
    ∀ (earlier later : List Label) (call : Nat) (x workspace W agentID : String) (message : RoomMessage)
      (s₀ s₁ : State),
      labels = earlier ++ .sendAgent call x workspace true :: later →
      exec (step host) (State.initial agents now) earlier = some s₀ →
      s₀.calls[call]? = some (.sendAgent W agentID message) →
      step host s₀ (.sendAgent call x workspace true) = some s₁ →
      ¬s₀.store.hasStage W x .queued → s₁.store.hasStage W x .queued →
      Along (step host) (fun u label => ∀ v, step host u label = some v → ¬u.board.Failed v.board W)
        s₁ later →
      s.store.hasStage W x .queued → s.board.Served W ∨ s.board.Marking W := by
  have reg := registry_initial agents now
  have sup := supervised_initial agents now
  constructor
  · intro W alone
    have h := (supervised_run reg sup run sound).2.running W
    exact ⟨fun hq => h (.inl hq) alone, fun hr => h (.inr hr) alone⟩
  · intro earlier later call x workspace W agentID message s₀ s₁ split run₀ pending step₁ before after unfailed queued
    subst split
    have sound₀ := along_append sound run₀
    obtain ⟨u, run₀', rest⟩ := exec_append_iff.mp run
    cases run₀.symm.trans run₀'
    obtain ⟨v, step₁', rest⟩ := exec_cons_iff.mp rest
    cases step₁.symm.trans step₁'
    have reg₀ := (supervised_run reg sup run₀ (along_front sound)).1
    have moved := board_step step₁ sound₀.1.1
    have start := followed_of_append reg₀ sound₀.1.2 pending moved before after
    exact (followed_run (registry_step reg₀ moved) start rest (sound₀.2 _ step₁) unfailed).covered queued

def noon : Time := ⟨2026, 1, 1, 12, 0, 0, 0⟩

def codexAgent : Agent :=
  ⟨"codex", "Codex", "/bin/codex", "", true, true, "authenticated", "structured-cli", noon⟩

def exampleHost : Host := ⟨.ok "/bin/termlinks", fun _ => "", id, fun _ => false⟩

/-- One room is created for `@codex`. -/
def roomRun : List Label :=
  [.create (.ok "/repo") "@codex go" ["s0"], .reserve 0 "w" "/repo", .storeWorkflow 0 true]

/-- `@codex` becomes unavailable; its runner has written the failed status and is about to leave when
the follow-up comes. -/
def strandingRun : List Label :=
  roomRun ++ [.refreshAgents [], .runner 0 .ok, .runner 0 .ok, .runner 0 .ok, .runner 0 .ok, .runner 0 .ok,
    .runner 0 .ok, .send "w" ⟨"hi", "@codex", none⟩ true, .sendAgent 1 "s1" "/repo" true, .runner 0 .ok]

def Call.isReturned : Call → Bool
  | .returned _ => true
  | _ => false

/-- The registered runner of the workflow will look for queued stages again. -/
def State.serves (s : State) (W : String) : Bool :=
  ((s.running.lookup W).bind (s.runners[·]?)).any fun R => R.seat.serving

/-- No store call of the step fails, and the step is plainly none of the stranding ones. -/
def State.plainlySound (s : State) : Label → Bool
  | .storeWorkflow _ ok | .send _ _ ok | .sendTeam _ ok | .cancel _ ok | .cancelStages _ ok |
    .cancelStatus _ ok => ok
  | .sendAgent i _ _ ok => ok && match s.calls[i]? with
    | some (.sendAgent W _ _) => (s.running.lookup W).isNone || s.serves W
    | _ => true
  | .runner r .ok => (s.runners[r]?).all fun R => match R.pc with
    | .startStage .. => !R.cancelled
    | .cleanup => !(s.store.statusOf R.workflowID).any isActive
    | _ => true
  | .runner _ .fail | .runner _ .writeFail => false
  | _ => true

theorem served_of_serves {s : State} {W : String} (h : s.serves W = true) : s.board.Served W := by
  obtain ⟨R, found, serving⟩ := (Option.any_eq_true _ _).mp h
  obtain ⟨r, entered, here⟩ := Option.bind_eq_some_iff.mp found
  exact ⟨r, R.seat, entered, board_seat here, serving⟩

theorem unstranding_of_plainlySound {s : State} {label : Label} (h : s.plainlySound label = true) :
    Unstranding s label := by
  constructor
  · cases label with
    | runner r input => cases input with
      | fail => cases h
      | writeFail => cases h
      | _ => trivial
    | sendAgent i stageID workspace ok => exact (Bool.and_eq_true_iff.mp h).1
    | _ => first | exact h | trivial
  · refine ⟨?_, ?_, ?_⟩
    · rintro i stageID workspace W agentID message rfl pending - entered
      have pending : s.calls[i]? = some (.sendAgent W agentID message) := pending
      simp only [State.plainlySound, pending, Bool.true_and, Bool.or_eq_true, Option.isNone_iff_eq_none] at h
      exact .inl (served_of_serves (h.resolve_left entered))
    · rintro r q workflow stage prompt sessionID rfl seat at_start cancelled
      obtain ⟨R, here, rfl⟩ := runner_of_seat seat
      have at_start : R.pc = .startStage workflow stage prompt sessionID := at_start
      have live : R.cancelled = false := by simpa [State.plainlySound, here, at_start] using h
      exact absurd (live.symm.trans cancelled) Bool.false_ne_true
    · rintro r q rfl seat at_cleanup registered active
      obtain ⟨R, here, rfl⟩ := runner_of_seat seat
      have at_cleanup : R.pc = .cleanup := at_cleanup
      have ended : (s.store.statusOf R.workflowID).any isActive = false := by
        simpa [State.plainlySound, here, at_cleanup] using h
      have active : s.store.statusOf R.workflowID = some .queued ∨
        s.store.statusOf R.workflowID = some .running := active
      rcases active with status | status
      · rw [status] at ended
        cases ended
      · rw [status] at ended
        cases ended

/-- A step whose store calls succeed, that is plainly not stranding and, if asked, leaves no runner on its failure
exit. -/
def soundReplay (host : Host) (unfailed : Bool) (s : State) (label : Label) : Option State :=
  (replay host s label).filter fun t => s.plainlySound label && (!unfailed || t.runners.all fun R => !R.pc.failing)

theorem unstranding_of_soundReplay {host : Host} {unfailed : Bool} {s t : State} {label : Label}
    (h : soundReplay host unfailed s label = some t) : step host s label = some t ∧ Unstranding s label := by
  obtain ⟨taken, fit⟩ := Option.filter_eq_some_iff.mp h
  exact ⟨step_of_replay taken, unstranding_of_plainlySound (Bool.and_eq_true_iff.mp fit).1⟩

theorem unfailed_of_soundReplay {host : Host} {s t : State} {label : Label}
    (h : soundReplay host true s label = some t) :
    step host s label = some t ∧ ∀ W v, step host s label = some v → ¬s.board.Failed v.board W := by
  obtain ⟨taken, fit⟩ := Option.filter_eq_some_iff.mp h
  refine ⟨step_of_replay taken, ?_⟩
  rintro W v hv ⟨r, q, q', -, -, -, seat, failing⟩
  cases (step_of_replay taken).symm.trans hv
  obtain ⟨R, here, rfl⟩ := runner_of_seat seat
  have none := List.all_eq_true.mp (Bool.and_eq_true_iff.mp fit).2 R (List.mem_of_getElem? here)
  have failing : R.pc.failing = true := failing
  rw [failing] at none
  cases none

theorem soundReplay_of_unfailed {host : Host} {s t : State} {label : Label}
    (h : soundReplay host true s label = some t) :
    soundReplay host false s label = some t := by
  obtain ⟨taken, fit⟩ := Option.filter_eq_some_iff.mp h
  exact Option.filter_eq_some_iff.mpr ⟨taken, by rw [(Bool.and_eq_true_iff.mp fit).1]; rfl⟩

/-- The runner of the room works on its first turn when the human writes to the agent. -/
def busyRun : List Label :=
  roomRun ++ [.runner 0 .ok, .runner 0 .ok, .runner 0 .ok, .runner 0 .ok, .runner 0 (.started "a1"), .runner 0 .ok,
    .runner 0 .ok, .runner 0 .ok, .runner 0 .ok, .send "w" ⟨"hi", "@codex", none⟩ true]

/-- The first turn completes and the runner picks the follow-up up. -/
def pickUp : List Label :=
  [.sessionExit "a1" 0, .runner 0 .sessionDone, .runner 0 (.output []), .runner 0 .ok, .runner 0 .ok, .runner 0 .ok,
    .runner 0 .ok]

/-- `@codex` becomes unavailable: its turn fails and the runner leaves. -/
def failureExit : List Label :=
  [.refreshAgents [], .runner 0 .ok, .runner 0 .ok, .runner 0 .ok, .runner 0 .ok, .runner 0 .ok]

def hi : RoomMessage := ⟨0, "w", "", "human", .human, "codex", .message, "hi", none, none⟩

/-- The whole run, cut where the follow-up is accepted, where its turn has been picked up, and where the runner has
left. -/
theorem busy_room_runs : ∃ s₀ s₁ s t,
    exec (soundReplay exampleHost false) (State.initial [codexAgent] noon) busyRun = some s₀ ∧
    soundReplay exampleHost false s₀ (.sendAgent 1 "s1" "/repo" true) = some s₁ ∧
    exec (soundReplay exampleHost true) s₁ pickUp = some s ∧
    exec (soundReplay exampleHost false) s failureExit = some t ∧
    s₀.calls[1]? = some (.sendAgent "w" "codex" hi) ∧ ¬s₀.store.hasStage "w" "s1" .queued ∧
    s₁.store.hasStage "w" "s1" .queued ∧ s.store.hasStage "w" "s1" .queued ∧ t.running.lookup "w" = none := by
  have run : (exec (soundReplay exampleHost false) (State.initial [codexAgent] noon) busyRun).any (fun s₀ =>
      decide (s₀.calls[1]? = some (.sendAgent "w" "codex" hi)) && s₀.store.stages.all (fun row => row.id ≠ "s1") &&
      (soundReplay exampleHost false s₀ (.sendAgent 1 "s1" "/repo" true)).any fun s₁ =>
        s₁.store.stages.any (fun row => row.workflowID = "w" ∧ row.id = "s1" ∧ row.status = .queued) &&
        (exec (soundReplay exampleHost true) s₁ pickUp).any fun s =>
          s.store.stages.any (fun row => row.workflowID = "w" ∧ row.id = "s1" ∧ row.status = .queued) &&
          (exec (soundReplay exampleHost false) s failureExit).any fun t => (t.running.lookup "w").isNone) = true := by
    decide +kernel
  simp only [Option.any_eq_true, Bool.and_eq_true, decide_eq_true_eq] at run
  obtain ⟨s₀, run₀, ⟨pending, absent⟩, s₁, step₁, after, s, later, still, t, exit, alone⟩ := run
  have queued : ∀ u : State, u.store.stages.any (fun row => row.workflowID = "w" ∧ row.id = "s1" ∧
      row.status = .queued) = true → u.store.hasStage "w" "s1" .queued := by
    intro u h
    obtain ⟨row, member, fit⟩ := List.any_eq_true.mp h
    exact ⟨row, member, of_decide_eq_true fit⟩
  refine ⟨s₀, s₁, s, t, run₀, step₁, later, exit, pending, ?_, queued s₁ after, queued s still,
    Option.isNone_iff_eq_none.mp alone⟩
  rintro ⟨row, member, -, same, -⟩
  exact of_decide_eq_true (List.all_eq_true.mp absent row member) same

theorem unstranding_run_is_supervised_room : ∃ s t,
    exec (step exampleHost) (State.initial [codexAgent] noon)
      (busyRun ++ .sendAgent 1 "s1" "/repo" true :: pickUp) = some s ∧
    s.store.hasStage "w" "s1" .queued ∧ (s.board.Served "w" ∨ s.board.Marking "w") ∧
    exec (step exampleHost) s failureExit = some t ∧
    t.running.lookup "w" = none ∧ t.store.statusOf "w" ≠ some .queued ∧
    t.store.statusOf "w" ≠ some .running := by
  obtain ⟨s₀, s₁, s, t, run₀, step₁, later, exit, pending, before, after, queued, alone⟩ := busy_room_runs
  have upTo := exec_append_iff.mpr ⟨s₀, run₀, exec_cons_iff.mpr ⟨s₁, step₁,
    exec_mono (fun _ _ _ => soundReplay_of_unfailed) later⟩⟩
  obtain ⟨run, sound⟩ := exec_of_allowed (fun _ _ _ => unstranding_of_soundReplay) upTo
  obtain ⟨whole, soundWhole⟩ := exec_of_allowed (fun _ _ _ => unstranding_of_soundReplay)
    (exec_append_iff.mpr ⟨s, upTo, exit⟩)
  obtain ⟨first, _⟩ := exec_of_allowed (fun _ _ _ => unstranding_of_soundReplay) run₀
  obtain ⟨_, unfailed⟩ := exec_of_allowed (fun _ _ _ => unfailed_of_soundReplay) later
  obtain ⟨last, _⟩ := exec_of_allowed (fun _ _ _ => unstranding_of_soundReplay) exit
  have served := (unstranding_run_is_supervised run sound).2 busyRun pickUp 1 "s1" "/repo" "w" "codex" hi s₀ s₁ rfl
    first pending (unstranding_of_soundReplay step₁).1 before after (along_mono (fun _ _ h => h "w") unfailed) queued
  have ended := (unstranding_run_is_supervised whole soundWhole).1 "w" alone
  exact ⟨s, t, run, queued, served, last, alone, ended⟩

/-- The follow-up is accepted on the failure exit and is left queued without a runner. -/
theorem follow_up_on_failure_exit_is_stranded : ∃ s,
    exec (step exampleHost) (State.initial [codexAgent] noon) strandingRun = some s ∧
      Along (step exampleHost) State.storeSucceeds (State.initial [codexAgent] noon) strandingRun ∧
      s.calls.all Call.isReturned = true ∧ s.running.lookup "w" = none ∧
      s.store.statusOf "w" = some .queued ∧ s.store.hasStage "w" "s1" .queued := by
  have run : (exec (step exampleHost) (State.initial [codexAgent] noon) strandingRun).any (fun s =>
      s.calls.all Call.isReturned ∧ s.running.lookup "w" = none ∧ s.store.statusOf "w" = some .queued ∧
        s.store.stages.any fun row => row.workflowID = "w" ∧ row.id = "s1" ∧ row.status = .queued) = true := by
    decide
  obtain ⟨s, run, h⟩ := (Option.any_eq_true _ _).mp run
  simp only [decide_eq_true_eq, List.any_eq_true] at h
  obtain ⟨returned, alone, status, row, hm, hrow⟩ := h
  refine ⟨s, run, along_of_labels ?_ _, returned, alone, status, row, hm, hrow⟩
  intro label hl s
  simp only [strandingRun, roomRun, List.cons_append, List.nil_append, List.mem_cons, List.not_mem_nil,
    or_false] at hl
  rcases hl with rfl | rfl | rfl | rfl | rfl | rfl | rfl | rfl | rfl | rfl | rfl | rfl | rfl
  all_goals first | exact trivial | exact (rfl : true = true)

end TermLinks.Coordinator
