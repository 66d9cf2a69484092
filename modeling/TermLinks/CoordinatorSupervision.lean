import TermLinks.CoordinatorRegistry
import TermLinks.Exec

namespace TermLinks.Coordinator

/-- The runner looks for a queued stage again before it leaves. -/
def Seat.serving (q : Seat) : Bool :=
  !q.cancelled && !q.pc.failing && q.pc ≠ .cleanup && q.pc ≠ .done

namespace Board

variable (b : Board) (W : String)

def Active : Prop := b.status W = some .queued ∨ b.status W = some .running

def Served : Prop := ∃ r q, b.running W = some r ∧ b.seat r = some q ∧ q.serving = true

/-- A `Cancel` has signalled and has yet to mark the queued stages. -/
def Marking : Prop := ∃ i, b.call i = some (.cancelStages W)

/-- A `Cancel` has signalled and has yet to write the status. -/
def CancelPending : Prop := ∃ i, b.call i = some (.cancelStages W) ∨ b.call i = some (.cancelStatus W)

/-- The step does not take one of the three branches that strand a workflow. -/
structure Sound (hasTurn : Nat → Prop) (label : Label) : Prop where
  followUp : ∀ i stageID workspace W agentID message, label = .sendAgent i stageID workspace true →
    b.call i = some (.sendAgent W agentID message) → ¬hasTurn i → b.running W ≠ none →
    b.Served W ∨ b.Marking W
  start : ∀ r q workflow stage prompt sessionID, label = .runner r .ok → b.seat r = some q →
    q.pc = .startStage workflow stage prompt sessionID → q.cancelled = true → b.CancelPending q.workflowID
  retire : ∀ r q, label = .runner r .ok → b.seat r = some q → q.pc = .cleanup →
    b.running q.workflowID = some r → b.Active q.workflowID → ¬b.CancelPending q.workflowID

end Board

/-- An active workflow has a runner, and one that leaves is about to be marked as cancelled. -/
structure Supervised (b : Board) : Prop where
  running : ∀ W, b.Active W → b.running W ≠ none
  leaving : ∀ W r q, b.running W = some r → b.seat r = some q → q.cancelled = true ∨ q.pc = .cleanup →
    b.Active W → b.CancelPending W

theorem hop_cleanup {cancelled : Bool} {W : String} {pc pc' : RunnerPc} {input : RunnerInput}
    (h : Hop cancelled W pc input pc') (hc : pc' = .cleanup) : cancelled = true ∨ input = .fail := by
  cases h with
  | checked =>
    split at hc
    next live => exact .inl live
    next => cases hc
  | judged =>
    split at hc
    next live => exact .inl live
    next => cases hc
  | prepared live reads held turn =>
    subst hc
    exact absurd turn.symm held
  | launched launching turn next => subst hc; rcases next with h | h <;> cases h
  | attended attending turn next => subst hc; rcases next with h | h <;> cases h
  | unloaded => exact .inr rfl
  | unrecorded => exact .inr rfl
  | unfailed => exact .inr rfl
  | _ => cases hc

section

variable {hasTurn : Nat → Prop} {b b' : Board} {label : Label}

theorem cancelPending_setCall {i : Nat} {c : Call} {W : String}
    (kept : b.call i ≠ some (.cancelStages W) ∧ b.call i ≠ some (.cancelStatus W)) (h : b.CancelPending W) :
    (b.setCall i c).CancelPending W := by
  obtain ⟨j, hj⟩ := h
  have other : j ≠ i := by
    rintro rfl
    exact hj.elim kept.1 kept.2
  exact ⟨j, by simpa [Board.setCall, other] using hj⟩

theorem supervised_setCall (h : Supervised b) {i : Nat} {c : Call}
    (kept : ∀ was, b.call i = some was → was.cancelling = false) : Supervised (b.setCall i c) := by
  refine ⟨h.running, fun W r q hr hq hl ha => cancelPending_setCall ⟨fun hc => ?_, fun hc => ?_⟩
    (h.leaving W r q hr hq hl ha)⟩
  · cases kept _ hc
  · cases kept _ hc

theorem supervised_setStatus (h : Supervised b) {W : String} {status : WorkflowStatus}
    (ended : status ≠ .queued ∧ status ≠ .running) : Supervised (b.setStatus W status) := by
  have active : ∀ V, (b.setStatus W status).Active V → b.Active V := by
    intro V hV
    by_cases hVW : V = W
    · subst hVW
      simp [Board.Active, Board.setStatus, ended] at hV
    · simpa [Board.Active, Board.setStatus, hVW] using hV
  exact ⟨fun V hV => h.running V (active V hV), fun V r q hr hq hl ha => h.leaving V r q hr hq hl (active V ha)⟩

/-- A runner moves to a point that is not the release, or it was cancelled already. -/
theorem supervised_setSeat (h : Supervised b) {r : Nat} {q : Seat} {pc : RunnerPc} (seat : b.seat r = some q)
    (own : ∀ W, b.running W = some r → q.workflowID = W)
    (leaves : pc = .cleanup → q.cancelled = true ∨ ¬b.Active q.workflowID) :
    Supervised (b.setSeat r { q with pc }) := by
  refine ⟨h.running, fun W i p hr hp hl ha => ?_⟩
  by_cases hi : i = r
  · subst hi
    simp only [Board.setSeat, Function.update_self, Option.some.injEq] at hp
    subst hp
    rcases hl with hc | hc
    · exact h.leaving W i q hr seat (.inl hc) ha
    · rcases leaves hc with hc | hn
      · exact h.leaving W i q hr seat (.inl hc) ha
      · exact absurd (own W hr ▸ ha) hn
  · simp only [Board.setSeat, Function.update_of_ne hi] at hp
    exact h.leaving W i p hr hp hl ha

/-- An active workflow is one whose runner stays, or is about to be marked. -/
theorem supervised_activate (h : Supervised b) {W : String} {status : WorkflowStatus}
    (running : b.running W ≠ none)
    (leaves : ∀ r q, b.running W = some r → b.seat r = some q → q.cancelled = true ∨ q.pc = .cleanup →
      b.CancelPending W) : Supervised (b.setStatus W status) := by
  have active : ∀ V, V ≠ W → (b.setStatus W status).Active V → b.Active V := by
    intro V hV ha
    simpa [Board.Active, Board.setStatus, hV] using ha
  refine ⟨fun V hV => ?_, fun V r q hr hq hl ha => ?_⟩
  · by_cases hVW : V = W
    · exact hVW ▸ running
    · exact h.running V (active V hVW hV)
  · by_cases hVW : V = W
    · subst hVW
      exact leaves r q hr hq hl
    · exact h.leaving V r q hr hq hl (active V hVW ha)

theorem supervised_register (h : Supervised b) {W : String} {n : Nat} {pc : RunnerPc}
    (alive : pc ≠ .cleanup) : Supervised (b.register W n pc) := by
  refine ⟨fun V hV => ?_, fun V r q hr hq hl ha => ?_⟩
  · by_cases hVW : V = W
    · simp [Board.register, hVW]
    · simpa [Board.register, hVW] using h.running V hV
  · by_cases hrn : r = n
    · subst hrn
      simp only [Board.register, Function.update_self, Option.some.injEq] at hq
      subst hq
      rcases hl with hc | hc
      · cases hc
      · exact absurd hc alive
    · have hVW : V ≠ W := by
        rintro rfl
        simp only [Board.register, Function.update_self, Option.some.injEq] at hr
        exact hrn hr.symm
      simp only [Board.register, Function.update_of_ne hrn, Function.update_of_ne hVW] at hq hr
      exact h.leaving V r q hr hq hl ha

theorem supervised_release (h : Supervised b) {W : String} {r : Nat}
    (ended : b.running W = some r → ¬b.Active W) : Supervised (b.release W r) := by
  unfold Board.release
  split
  next here =>
    refine ⟨fun V hV => ?_, fun V i q hr hq hl ha => ?_⟩
    · by_cases hVW : V = W
      · exact absurd (hVW ▸ hV) (ended here)
      · simpa [hVW] using h.running V hV
    · by_cases hVW : V = W
      · exact absurd (hVW ▸ ha) (ended here)
      · simp only [Function.update_of_ne hVW] at hr
        exact h.leaving V i q hr hq hl ha
  next => exact h

theorem supervised_stage (h : Supervised b) (stage : String → String → StageStatus → Prop) :
    Supervised { b with stage } :=
  ⟨h.running, h.leaving⟩

theorem supervised_issue (h : Supervised b) (id : String) : Supervised (b.issue id) :=
  ⟨h.running, h.leaving⟩

theorem supervised_launch (h : Supervised b) {W : String} {n : Nat} :
    Supervised (b.launchUnlessRunning W n) := by
  unfold Board.launchUnlessRunning
  split
  next => exact supervised_register h nofun
  next => exact h

theorem not_leaving_of_serving {q : Seat} (h : q.serving = true) :
    ¬(q.cancelled = true ∨ q.pc = .cleanup) := by
  simp only [Seat.serving, Bool.and_eq_true, Bool.not_eq_true', decide_eq_true_eq] at h
  rintro (hc | hc)
  · rw [h.1.1.1] at hc
    cases hc
  · exact h.1.2 hc

/-- A follow-up is accepted for a runner that stays, for a new one, or before a mark. -/
theorem supervised_followUp (h : Supervised b) {W stageID : String} {status : WorkflowStatus} {n : Nat}
    (served : b.running W ≠ none → b.Served W ∨ b.Marking W) :
    Supervised ((((b.addStage W stageID).setStatus W status).issue stageID).launchUnlessRunning W n) := by
  have order : (((b.addStage W stageID).setStatus W status).issue stageID).launchUnlessRunning W n =
      (((b.launchUnlessRunning W n).setStatus W status).addStage W stageID).issue stageID := by
    unfold Board.launchUnlessRunning
    by_cases hr : b.running W = none
    · rw [if_pos hr]; exact if_pos hr
    · rw [if_neg hr]; exact if_neg hr
  rw [order]
  have base : Supervised ((b.launchUnlessRunning W n).setStatus W status) := by
    by_cases hr : b.running W = none
    · have started : b.launchUnlessRunning W n = b.register W n .loop := if_pos hr
      rw [started]
      have base : Supervised (b.register W n .loop) := supervised_register h nofun
      refine supervised_activate base (by simp [Board.register]) fun r q hn hq hl => ?_
      simp only [Board.register, Function.update_self, Option.some.injEq] at hn
      subst hn
      simp only [Board.register, Function.update_self, Option.some.injEq] at hq
      subst hq
      rcases hl with hc | hc <;> cases hc
    · have stays : b.launchUnlessRunning W n = b := if_neg hr
      rw [stays]
      refine supervised_activate h hr fun r q hn hq hl => ?_
      rcases served hr with ⟨r', q', hr', hq', hs⟩ | ⟨i, hi⟩
      · cases hr'.symm.trans hn
        cases hq'.symm.trans hq
        exact absurd hl (not_leaving_of_serving hs)
      · exact ⟨i, .inl hi⟩
  exact supervised_issue (supervised_stage base _) _

theorem supervised_signal (reg : Registry b) (h : Supervised b) {i : Nat} {id : String}
    (pending : b.call i = some (.cancelSignal id)) :
    Supervised ((b.cancelSeat id).setCall i (.cancelStages id)) := by
  refine ⟨h.running, fun W r q hr hq hl ha => ?_⟩
  by_cases hW : W = id
  · subst hW
    exact ⟨i, .inl (Function.update_self ..)⟩
  · refine cancelPending_setCall (b := b.cancelSeat id) ?_ ?_
    · constructor <;> exact fun hc => nomatch pending.symm.trans hc
    · have other : b.running id ≠ some r := by
        intro hid
        obtain ⟨p, hp⟩ := Option.ne_none_iff_exists'.mp (reg.seated W r hr)
        exact hW ((reg.registered W r p hr hp).1.symm.trans (reg.registered id r p hid hp).1)
      simp only [Board.setCall, Board.cancelSeat, if_neg other] at hq
      exact h.leaving W r q hr hq hl ha

/-- Each step outside the stranding branches keeps every active workflow supervised. -/
theorem supervised_step (reg : Registry b) (h : Supervised b) (sound : b.Sound hasTurn label)
    (step : b.Step hasTurn label b') : Supervised b' := by
  have own : ∀ {r q}, b.seat r = some q → ∀ W, b.running W = some r → q.workflowID = W :=
    fun hq W hr => (reg.registered W _ _ hr hq).1
  cases step with
  | idle running seat status stage issued old kept =>
    refine ⟨?_, fun W r q hr hq hl ha => ?_⟩
    · simpa only [Board.Active, running, status] using h.running
    · simp only [running, seat, Board.Active, status] at hr hq ha
      obtain ⟨i, hi⟩ := h.leaving W r q hr hq hl ha
      exact ⟨i, hi.imp (kept i _ rfl) (kept i _ rfl)⟩
  | reserved pending fresh free =>
    refine supervised_setCall (supervised_register (supervised_issue h _) ?_) fun was hw => ?_
    · rintro ⟨⟩
    · cases pending.symm.trans hw
      rfl
  | created pending seat absent written stage =>
    obtain ⟨mine, -⟩ := reg.creating _ _ _ _ pending
    cases seat.symm.trans mine
    have here := reg.live _ _ seat (by rintro ⟨⟩) (by rintro ⟨⟩)
    rw [written]
    refine supervised_stage (supervised_setCall ?_ fun was hw => ?_) _
    · refine supervised_setSeat (supervised_activate h ?_ fun r q hr hq hl => ?_) seat (own seat) (by rintro ⟨⟩)
      · exact ne_of_eq_of_ne here (Option.some_ne_none _)
      · cases hr.symm.trans here
        cases hq.symm.trans seat
        rcases hl with hc | hc <;> cases hc
    · cases pending.symm.trans hw
      rfl
  | rolledBack pending => exact absurd pending (reg.committed _ _ _ _)
  | sent fresh room =>
    refine supervised_setCall h fun was hw => ?_
    rw [fresh] at hw
    cases hw
  | followedUp pending new fresh unused exist free =>
    have room := reg.sending _ _ _ _ pending
    refine supervised_setCall ?_ fun was hw => ?_
    · rw [room]
      exact supervised_followUp h (sound.followUp _ _ _ _ _ _ rfl pending new)
    · rw [Board.launchUnlessRunning_call] at hw
      cases pending.symm.trans hw
      rfl
  | nudged pending queued exist free =>
    refine supervised_setCall (supervised_launch h) fun was hw => ?_
    rw [Board.launchUnlessRunning_call] at hw
    cases pending.symm.trans hw
    rfl
  | requested fresh exist =>
    refine supervised_setCall h fun was hw => ?_
    rw [fresh] at hw
    cases hw
  | signalled pending => exact supervised_signal reg h pending
  | @marked i id pending =>
    refine ⟨h.running, fun W r q hr hq hl ha => ?_⟩
    by_cases hW : W = id
    · subst hW
      exact ⟨i, .inr (Function.update_self ..)⟩
    · refine cancelPending_setCall (b := b.cancelStages id) ⟨fun hc => ?_, fun hc => ?_⟩
        (h.leaving W r q hr hq hl ha)
      · cases pending.symm.trans hc
        exact hW rfl
      · cases pending.symm.trans hc
  | @cancelled i id pending exist =>
    have base : Supervised (b.setStatus id .cancelled) := supervised_setStatus h ⟨(by rintro ⟨⟩), (by rintro ⟨⟩)⟩
    refine ⟨base.running, fun W r q hr hq hl ha => ?_⟩
    have hW : W ≠ id := by
      rintro rfl
      simp [Board.Active, Board.setCall, Board.setStatus] at ha
    refine cancelPending_setCall (b := b.setStatus id .cancelled) ⟨fun hc => ?_, fun hc => ?_⟩
      (base.leaving W r q hr hq hl ha)
    · cases pending.symm.trans hc
    · cases pending.symm.trans hc
      exact hW rfl
  | hopped seat ok hop =>
    refine supervised_setSeat h seat (own seat) fun hc => .inl ?_
    rcases hop_cleanup hop hc with hc | hf
    · exact hc
    · exact (ok hf).1
  | @started r q workflow stage prompt sessionID seat at_start exist =>
    have here := reg.live r q seat (by rw [at_start]; rintro ⟨⟩) (by rw [at_start]; rintro ⟨⟩)
    have turn := reg.turns r q workflow stage seat (by rw [at_start]; rfl)
    rw [← turn] at here
    refine supervised_setSeat (supervised_stage (supervised_activate h ?_ fun r' q' hr hq hl => ?_) _) seat
      (own seat) (by rintro ⟨⟩)
    · exact ne_of_eq_of_ne here (Option.some_ne_none _)
    · cases hr.symm.trans here
      cases hq.symm.trans seat
      rcases hl with hc | hc
      · exact turn ▸ sound.start r q workflow stage prompt sessionID rfl seat at_start hc
      · rw [at_start] at hc
        cases hc
  | completed seat at_end => exact supervised_setSeat (supervised_stage h _) seat (own seat) (by rintro ⟨⟩)
  | gaveUp seat at_end =>
    refine supervised_setSeat (supervised_stage h _) seat (own seat) fun hc => ?_
    split at hc <;> cases hc
  | @failed r q seat at_failure exist =>
    have base : Supervised (b.setStatus q.workflowID .failed) := supervised_setStatus h ⟨(by rintro ⟨⟩), (by rintro ⟨⟩)⟩
    refine supervised_setSeat base seat (own seat) fun _ => .inr ?_
    simp [Board.Active, Board.setStatus]
  | @finished r q seat at_finish exist empty =>
    have base : Supervised (b.setStatus q.workflowID .completed) :=
      supervised_setStatus h ⟨(by rintro ⟨⟩), (by rintro ⟨⟩)⟩
    have ended : ¬(b.setStatus q.workflowID .completed).Active q.workflowID := by
      simp [Board.Active, Board.setStatus]
    exact supervised_release (supervised_setSeat base seat (own seat) fun _ => .inr ended) fun _ => ended
  | @retired r q seat at_cleanup =>
    have gone := Board.release_running b q.workflowID r
    have seat' : (b.release q.workflowID r).seat r = some q := by rwa [Board.release_seat]
    refine supervised_setSeat (supervised_release h fun here ha => ?_) seat' (fun W hr => ?_) (by rintro ⟨⟩)
    · exact sound.retire r q rfl seat at_cleanup here ha
        (h.leaving _ r q here seat (.inr at_cleanup) ha)
    · refine own seat W ?_
      unfold Board.release at hr
      split at hr
      next =>
        by_cases hW : W = q.workflowID
        · simp [hW] at hr
        · simpa [hW] using hr
      next => exact hr

end

end TermLinks.Coordinator
