import TermLinks.CoordinatorLedger
import TermLinks.CoordinatorLife
import TermLinks.CoordinatorStranding

namespace TermLinks.Coordinator

/-- The two maps of the manager belong together, and every runner that may still write is registered. -/
structure Balanced (b : Ledger) : Prop where
  bound : b.count ≤ maxRunning
  seated : ∀ W r, b.running W = some r → b.entry r ≠ none
  registered : ∀ W r e, b.running W = some r → b.entry r = some e →
    e.workflowID = W ∧ e.standing ≠ .done ∧ b.workspaces e.workspace = some W
  owned : ∀ key W, b.workspaces key = some W → b.running W ≠ none
  placed : ∀ key W r e, b.workspaces key = some W → b.running W = some r → b.entry r = some e →
    e.workspace = key
  live : ∀ r e, b.entry r = some e → e.standing = .pending ∨ e.standing = .working →
    b.running e.workflowID = some r
  drawn : ∀ r e, b.entry r = some e → b.issued e.workflowID
  known : ∀ W, b.stored W → b.issued W
  held : ∀ i c, b.reservation i = some c → b.entry c.runner = some ⟨c.id, c.workspace, .pending⟩
  once : ∀ i j c d, b.reservation i = some c → b.reservation j = some d → c.runner = d.runner → i = j

namespace Balanced

variable {b b' : Ledger}

theorem fresh_idle (h : Balanced b) {id : String} (fresh : ¬b.issued id) : b.running id = none := by
  cases hr : b.running id with
  | none => rfl
  | some r =>
    obtain ⟨e, he⟩ := Option.ne_none_iff_exists'.mp (h.seated id r hr)
    exact absurd ((h.registered id r e hr he).1 ▸ h.drawn r e he) fresh

theorem register (h : Balanced b) {W workspace : String} {n : Nat} {standing : Standing}
    (idle : b.running W = none) (free : ∀ owner, b.workspaces workspace = some owner → owner = W)
    (room : b.count < maxRunning) (unused : b.entry n = none) (drawn : b.issued W) (alive : standing ≠ .done) :
    Balanced (b.register W workspace n standing) := by
  have vacant : b.workspaces workspace = none := by
    cases hw : b.workspaces workspace with
    | none => rfl
    | some owner =>
      have same := free owner hw
      subst same
      exact absurd idle (h.owned workspace owner hw)
  obtain ⟨bound, seated, registered, owned, placed, live, issued, known, held, once⟩ := h
  constructor
  case bound => exact room
  case known => exact known
  case once => exact once
  all_goals simp only [Ledger.register, Function.update_apply]
  all_goals grind

theorem moved (h : Balanced b) {r : Nat} {e : Entry} {standing : Standing} (here : b.entry r = some e)
    (working : e.standing = .working) (next : standing = .working ∨ standing = .left) :
    Balanced (b.setEntry r { e with standing }) := by
  obtain ⟨bound, seated, registered, owned, placed, live, issued, known, held, once⟩ := h
  constructor
  case bound => exact bound
  case known => exact known
  case once => exact once
  all_goals simp only [Ledger.setEntry, Function.update_apply]
  all_goals grind

theorem created (h : Balanced b) {i : Nat} {c : Reservation} {e : Entry} (held : b.reservation i = some c)
    (here : b.entry c.runner = some e) :
    Balanced { b.setEntry c.runner { e with standing := .working } with
      reservation := Function.update b.reservation i none
      stored := fun W => W = c.id ∨ b.stored W } := by
  have mine := h.held i c held
  cases here.symm.trans mine
  obtain ⟨bound, seated, registered, owned, placed, live, issued, known, holds, once⟩ := h
  constructor
  case bound => exact bound
  all_goals simp only [Ledger.setEntry, Function.update_apply]
  all_goals grind

theorem rolledBack (h : Balanced b) {i count : Nat} {c : Reservation} {e : Entry}
    (held : b.reservation i = some c) (here : b.entry c.runner = some e) (fewer : count ≤ b.count) :
    Balanced { b.setEntry c.runner { e with standing := .done } with
      running := Function.update b.running c.id none
      count
      workspaces := Function.update b.workspaces c.workspace none
      reservation := Function.update b.reservation i none } := by
  have mine := h.held i c held
  cases here.symm.trans mine
  have entered := h.live c.runner _ mine (Or.inl rfl)
  obtain ⟨bound, seated, registered, owned, placed, live, issued, known, holds, once⟩ := h
  constructor
  case bound => exact Nat.le_trans fewer bound
  case known => exact known
  all_goals simp only [Ledger.setEntry, Function.update_apply]
  all_goals grind

theorem released (h : Balanced b) {r count : Nat} {e : Entry} {standing : Standing} (here : b.entry r = some e)
    (working : e.standing = .working ∨ e.standing = .left) (next : standing = .left ∨ standing = .done)
    (fewer : count ≤ b.count) : Balanced { (b.release r e).setEntry r { e with standing } with count } := by
  obtain ⟨bound, seated, registered, owned, placed, live, issued, known, held, once⟩ := h
  unfold Ledger.release
  split
  next here' =>
    constructor
    case bound => exact Nat.le_trans fewer bound
    case known => exact known
    case once => exact once
    all_goals simp only [Ledger.setEntry, Function.update_apply]
    all_goals grind
  next =>
    constructor
    case bound => exact Nat.le_trans fewer bound
    case known => exact known
    case once => exact once
    all_goals simp only [Ledger.setEntry, Function.update_apply]
    all_goals grind

/-- Every step of the ledger keeps it balanced. -/
theorem step (h : Balanced b) (step : b.Step b') : Balanced b' := by
  cases step with
  | kept running count workspaces entry reservation issued stored =>
    refine ⟨Nat.le_trans count h.bound, ?_, ?_, ?_, ?_, ?_, ?_, ?_, ?_, ?_⟩
    · rw [running, entry]; exact h.seated
    · rw [running, workspaces, entry]; exact h.registered
    · rw [running, workspaces]; exact h.owned
    · rw [running, workspaces, entry]; exact h.placed
    · rw [running, entry]; exact h.live
    · rw [entry]; exact fun r e he => issued _ (h.drawn r e he)
    · exact fun W hW => issued W (h.known W (stored W hW))
    · rw [entry]; exact fun i c hc => h.held i c (reservation i c hc)
    · exact fun i j c d hc hd => h.once i j c d (reservation i c hc) (reservation j d hd)
  | moved here working next known =>
    have base := h.moved here working next
    exact ⟨base.bound, base.seated, base.registered, base.owned, base.placed, base.live, base.drawn,
      fun W hW => h.known W (known W hW),
      base.held, base.once⟩
  | @reserved i n id workspace fresh free room unused =>
    have drawn : Balanced { b with issued := fun other => other = id ∨ b.issued other } :=
      ⟨h.bound, h.seated, h.registered, h.owned, h.placed, h.live, fun r e he => Or.inr (h.drawn r e he),
        fun W hW => Or.inr (h.known W hW), h.held, h.once⟩
    have base := @Balanced.register _ drawn _ workspace _ .pending (h.fresh_idle fresh)
      (fun owner ho => by simp [free] at ho) room unused (Or.inl rfl) nofun
    have other : ∀ j c, b.reservation j = some c → c.runner ≠ n := by
      intro j c hc hn
      have taken := h.held j c hc
      rw [hn, unused] at taken
      cases taken
    refine ⟨base.bound, base.seated, base.registered, base.owned, base.placed, base.live,
      base.drawn, base.known, ?_, ?_⟩
    · intro j c hc
      by_cases hj : j = i
      · subst hj
        simp only [Function.update_self, Option.some.injEq] at hc
        subst hc
        simp [Ledger.register]
      · simp only [Function.update_of_ne hj] at hc
        simpa [Ledger.register, other j c hc] using h.held j c hc
    · intro j k c d hc hd same
      by_cases hj : j = i
      · by_cases hk : k = i
        · rw [hj, hk]
        · simp only [hj, Function.update_self, Option.some.injEq] at hc
          simp only [Function.update_of_ne hk] at hd
          subst hc
          exact absurd same.symm (other k d hd)
      · simp only [Function.update_of_ne hj] at hc
        by_cases hk : k = i
        · simp only [hk, Function.update_self, Option.some.injEq] at hd
          subst hd
          exact absurd same (other j c hc)
        · simp only [Function.update_of_ne hk] at hd
          exact h.once j k c d hc hd same
  | created held here => exact h.created held here
  | rolledBack held here fewer => exact h.rolledBack held here fewer
  | launched known idle free room unused kept held =>
    have base := @Balanced.register _ h _ _ _ .working idle free room unused (h.known _ known) nofun
    exact ⟨base.bound, base.seated, base.registered, base.owned, base.placed, base.live,
      fun r e he => kept _ (base.drawn r e he),
      fun W hW => kept _ (base.known W hW), fun i c hc => base.held i c (held i c hc),
      fun i j c d hc hd => base.once i j c d (held i c hc) (held j d hd)⟩
  | released here working next fewer => exact h.released here working next fewer

end Balanced

theorem restart_stored {s : Store} {now : Time} (W : String) (h : (s.markInterrupted now).statusOf W ≠ none) :
    s.statusOf W ≠ none := by
  intro absent
  apply h
  unfold Store.statusOf Store.markInterrupted at *
  have keyed : ∀ row : WorkflowRow, (row.withStatus .interrupted now).id = row.id := fun _ => rfl
  rw [findRow_updateWhere keyed, Option.map_eq_none_iff.mp absent]
  rfl

theorem balanced_restart {s : State} (h : Balanced s.ledger) (now : Time) :
    Balanced (s.restart now).ledger where
  bound := Nat.zero_le _
  seated := nofun
  registered := nofun
  owned := nofun
  placed := nofun
  live := nofun
  drawn := nofun
  known := fun W hW => h.known W (restart_stored W hW)
  held := nofun
  once := nofun

theorem balanced_lifeStep {host : Host} {s t : State} {label : LifeLabel} (h : Balanced s.ledger)
    (step : lifeStep host s label = some t) : Balanced t.ledger := by
  cases label with
  | step label => exact h.step (ledger_step step fun id fresh => h.fresh_idle fresh)
  | restart now => cases step; exact balanced_restart h now

theorem balanced_initial (agents : List Agent) (now : Time) : Balanced (State.initial agents now).ledger := by
  refine ⟨Nat.zero_le _, nofun, nofun, nofun, nofun, nofun, nofun, ?_, nofun, nofun⟩
  intro W hW
  exact absurd rfl hW

/-- A runner whose goroutine may still write to the store or start a session. -/
def RunnerPc.mayWrite (pc : RunnerPc) : Prop := pc.standing = .pending ∨ pc.standing = .working

theorem runnerStep_of_not_mayWrite {host : Host} {s t : State} {r : Nat} {R : Runner} {input : RunnerInput}
    (concluded : ¬R.pc.mayWrite) (step : runnerStep host s r R input = some t) :
    t.store = s.store ∧ t.sessions = s.sessions := by
  have final : R.pc = .cleanup ∨ R.pc = .done := by
    cases hp : R.pc
    case cleanup => exact Or.inl rfl
    case done => exact Or.inr rfl
    all_goals simp [hp, RunnerPc.mayWrite, RunnerPc.standing] at concluded
  rcases final with at_cleanup | at_done
  · cases input with
    | ok =>
      simp only [runnerStep, at_cleanup, Option.some.injEq] at step
      subst step
      unfold State.release
      split
      · exact ⟨rfl, rfl⟩
      · exact ⟨rfl, rfl⟩
    | _ => simp [runnerStep, at_cleanup, advance] at step
  · simp [runnerStep, at_done, advance] at step

/-- The two maps of the manager in every state any daemon reaches, whichever store and session calls fail. -/
theorem maps_stay_balanced {host : Host} {agents : List Agent} {now : Time}
    {labels : List LifeLabel} {s : State}
    (run : exec (lifeStep host) (State.initial agents now) labels = some s) :
    s.running.entries.length ≤ 2 ∧
    (∀ key key' W, s.workspaces.lookup key = some W → s.workspaces.lookup key' = some W → key = key') ∧
    (∀ W, (∃ key, s.workspaces.lookup key = some W) ↔ (s.running.lookup W).isSome = true) ∧
    (∀ (i j : Nat) (R Q : Runner), s.runners[i]? = some R → s.runners[j]? = some Q →
      R.workflowID = Q.workflowID →
      R.pc.mayWrite → Q.pc.mayWrite → i = j) ∧
    ∀ (r : Nat) (R : Runner) input t, s.runners[r]? = some R → ¬R.pc.mayWrite →
    runnerStep host s r R input = some t →
      t.store = s.store ∧ t.sessions = s.sessions := by
  have b : Balanced s.ledger :=
    @exec_invariant _ _ _ (fun s : State => Balanced s.ledger) (fun _ _ _ => balanced_lifeStep) _ _ _
      (balanced_initial agents now) run
  refine ⟨b.bound, ?_, ?_, ?_, fun r R input t _ => runnerStep_of_not_mayWrite⟩
  · intro key key' W hk hk'
    obtain ⟨r, hr⟩ := Option.ne_none_iff_exists'.mp (b.owned key W hk)
    obtain ⟨e, he⟩ := Option.ne_none_iff_exists'.mp (b.seated W r hr)
    rw [← b.placed key W r e hk hr he]
    exact b.placed key' W r e hk' hr he
  · intro W
    rw [Option.isSome_iff_ne_none]
    constructor
    · intro ⟨key, hk⟩
      exact b.owned key W hk
    · intro entered
      obtain ⟨r, hr⟩ := Option.ne_none_iff_exists'.mp entered
      obtain ⟨e, he⟩ := Option.ne_none_iff_exists'.mp (b.seated W r hr)
      exact ⟨e.workspace, (b.registered W r e hr he).2.2⟩
  · intro i j R Q hi hj same first second
    have left := b.live i R.entry (ledger_entry hi) first
    have right := b.live j Q.entry (ledger_entry hj) second
    have both : some i = some j := by
      rw [← left, ← right]
      exact congrArg s.running.lookup same
    exact Option.some.inj both

/-- `lifeStep` by `replay`. -/
def lifeReplay (host : Host) (s : State) : LifeLabel → Option State
  | .step label => replay host s label
  | .restart now => some (s.restart now)

theorem lifeStep_of_replay {host : Host} {s t : State} {label : LifeLabel}
    (h : lifeReplay host s label = some t) :
    lifeStep host s label = some t := by
  cases label with
  | step label => exact step_of_replay h
  | restart now => exact h

/-- Beside the first room a second one is made; its turn completes, and a follow-up makes a new runner for it before the
old one has come to its deferred release. -/
def twoRoomsRun : List Label :=
  roomRun ++ [.create (.ok "/other") "@codex go" ["t0"], .reserve 1 "v" "/other", .storeWorkflow 1 true,
    .runner 1 .ok, .runner 1 .ok, .runner 1 .ok, .runner 1 .ok, .runner 1 (.started "a1"), .runner 1 .ok, .runner 1 .ok,
    .runner 1 .ok, .runner 1 .ok, .sessionExit "a1" 0, .runner 1 .sessionDone, .runner 1 (.output []), .runner 1 .ok,
    .runner 1 .ok, .runner 1 .ok, .runner 1 .ok, .runner 1 .ok, .send "v" ⟨"hi", "@codex", none⟩ true,
    .sendAgent 2 "t1" "/other" true]

theorem maps_stay_balanced_in_room : ∃ s,
    exec (lifeStep exampleHost) (State.initial [codexAgent] noon) (twoRoomsRun.map .step) = some s ∧
    s.runners[1]? = some ⟨"v", "/other", false, some "a1", .cleanup⟩ ∧ s.running.lookup "v" = some 2 ∧
    s.running.entries.length ≤ 2 ∧ (∃ key, s.workspaces.lookup key = some "v") ∧
    (∀ key, s.workspaces.lookup key = some "v" → key = "/other") ∧
    (∀ (i : Nat) (R : Runner), s.runners[i]? = some R → R.workflowID = "v" → R.pc.mayWrite → i = 2) ∧
    ∀ t, step exampleHost s (.runner 1 .ok) = some t → t.store = s.store ∧ t.sessions = s.sessions := by
  have run : (exec (lifeReplay exampleHost) (State.initial [codexAgent] noon) (twoRoomsRun.map .step)).any (fun s =>
      s.runners[1]? = some ⟨"v", "/other", false, some "a1", .cleanup⟩ ∧ s.running.lookup "v" = some 2 ∧
        s.workspaces.lookup "/other" = some "v" ∧ s.runners[2]? = some ⟨"v", "/other", false, none, .loop⟩) = true := by
    decide +kernel
  obtain ⟨s, run, facts⟩ := (Option.any_eq_true _ _).mp run
  obtain ⟨leaving, entered, placed, fresh⟩ := of_decide_eq_true facts
  have run := exec_mono (fun _ _ _ => lifeStep_of_replay) run
  obtain ⟨bound, one, both, alone, still⟩ := maps_stay_balanced run
  refine ⟨s, run, leaving, entered, bound, (both "v").mpr
    (by rw [entered]; rfl), fun key at_key => one _ _ _ at_key placed,
    fun i R here own writes => alone i 2 R _ here fresh own writes (.inr rfl), ?_⟩
  intro t taken
  obtain ⟨R, here, moved⟩ := Option.bind_eq_some_iff.mp taken
  cases leaving.symm.trans here
  exact still 1 _ .ok t leaving (by simp [RunnerPc.mayWrite, RunnerPc.standing]) moved

end TermLinks.Coordinator
