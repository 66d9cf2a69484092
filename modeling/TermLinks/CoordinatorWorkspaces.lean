import TermLinks.CoordinatorFloor

namespace TermLinks.Coordinator

/-- A daemon with the sessions its runners started and those they gave up on, each with its workspace. -/
structure Watch where
  state : State
  started : List (String × String)
  abandoned : List (String × String)

def Watch.initial (agents : List Agent) (now : Time) : Watch := ⟨State.initial agents now, [], []⟩

def watch (host : Host) (h : Watch) (label : Label) : Option Watch :=
  (step host h.state label).map fun t =>
    ⟨t, h.started ++ (h.state.startedBy label).toList, h.abandoned ++ (h.state.abandonedBy label).toList⟩

/-- A step that gives a workspace to a new runner comes after the end of every session that was abandoned there. -/
def Waits (h : Watch) (label : Label) : Prop :=
  ∀ workspace, h.state.hands label = some workspace →
    ∀ x, (x, workspace) ∈ h.abandoned → h.state.stillRunning x = false

/-- A step that registers a runner finds no session of its workspace still running. -/
def HandsOver (host : Host) (h : Watch) (label : Label) : Prop :=
  ∀ t R, step host h.state label = some t → t.runners[h.state.runners.length]? = some R →
    ∀ x, (x, R.workspace) ∈ h.started → h.state.stillRunning x = false

namespace Floor

/-- In one workspace at most one runner is not on its way out. -/
def Exclusive (b : Floor) : Prop :=
  ∀ (r r' : Nat) (p p' : Post), b.post r = some p → b.post r' = some p' → p.workspace = p'.workspace →
    p.errand ≠ .leaving → p'.errand ≠ .leaving → r = r'

namespace Moves

variable {running : String → Prop} {e e' : Errand} {x : String}

theorem holding (moves : Moves running e e') (h : e' = .holds x) : e = .holds x := by
  cases moves with
  | same => exact h
  | leave => cases h
  | seen => cases h

theorem still (moves : Moves running e e') (hx : running x) (h : e = .holds x) : e' = .holds x := by
  cases moves with
  | same => exact h
  | leave => cases h
  | seen concluded =>
    cases h
    exact absurd hx concluded

theorem left (moves : Moves running e e') (h : e = .leaving) : e' = .leaving := by
  cases moves with
  | same => exact h
  | leave => rfl
  | seen => cases h

end Moves

/-- Every session that runs is held by a runner of its workspace or was abandoned, and where an abandoned one
runs every runner is on its way out. -/
structure Attended (b : Floor) (started abandoned : List (String × String)) : Prop where
  known : ∀ x w, (x, w) ∈ started → b.known x
  given : ∀ x w, (x, w) ∈ abandoned → (x, w) ∈ started
  held : ∀ r p x, b.post r = some p → p.errand = .holds x → (x, p.workspace) ∈ started
  attended : ∀ x w, (x, w) ∈ started → b.running x →
    (x, w) ∈ abandoned ∨ ∃ r p, b.post r = some p ∧ p.workspace = w ∧ p.errand = .holds x
  vacated : ∀ x w, (x, w) ∈ abandoned → b.running x →
    ∀ r p, b.post r = some p → p.workspace = w → p.errand = .leaving
  single : ∀ x y w, (x, w) ∈ abandoned → (y, w) ∈ abandoned → b.running x → b.running y → x = y

namespace Attended

variable {b b' : Floor} {started abandoned : List (String × String)} {hands : Option String}

theorem kept (h : Attended b started abandoned) (post : b'.post = b.post)
    (running : ∀ x, b'.running x → b.running x)
    (known : b'.known = b.known) : Attended b' started abandoned := by
  constructor
  case known => rw [known]; exact h.known
  case given => exact h.given
  case held => rw [post]; exact h.held
  case attended => rw [post]; exact fun x w hx hr => h.attended x w hx (running x hr)
  case vacated => rw [post]; exact fun x w hx hr => h.vacated x w hx (running x hr)
  case single => exact fun x y w hx hy rx ry => h.single x y w hx hy (running x rx) (running y ry)

theorem post_setPost {r i : Nat} {p q : Post} (h : (b.setPost r p).post i = some q) :
    i = r ∧ q = p ∨ i ≠ r ∧ b.post i = some q := by
  by_cases hi : i = r
  · subst hi
    simp only [setPost, Function.update_self, Option.some.injEq] at h
    exact Or.inl ⟨rfl, h.symm⟩
  · simp only [setPost, Function.update_of_ne hi] at h
    exact Or.inr ⟨hi, h⟩

/-- Where the holder of a session is replaced, the session is still held or it is no longer to be attended. -/
theorem still_held {r i : Nat} {p q new : Post} {x w : String} (here : b.post r = some p)
    (holder : b.post i = some q) (place : q.workspace = w) (holds : q.errand = .holds x)
    (next : new.workspace = p.workspace) (keeps : p.errand = .holds x → new.errand = .holds x) :
    ∃ j q', (b.setPost r new).post j = some q' ∧ q'.workspace = w ∧ q'.errand = .holds x := by
  by_cases hi : i = r
  · subst hi
    cases here.symm.trans holder
    exact ⟨i, new, by simp [setPost], next.trans place, keeps holds⟩
  · exact ⟨i, q, by simp [setPost, hi, holder], place, holds⟩

theorem moved (h : Attended b started abandoned) {r : Nat} {p : Post} {errand : Errand}
    (here : b.post r = some p)
    (moves : Moves b.running p.errand errand) : Attended (b.setPost r ⟨p.workspace, errand⟩) started
      abandoned := by
  constructor
  case known => exact h.known
  case given => exact h.given
  case single => exact h.single
  case held =>
    intro i q x hq hx
    rcases post_setPost hq with ⟨rfl, rfl⟩ | ⟨_, hq⟩
    · exact h.held i p x here (moves.holding hx)
    · exact h.held i q x hq hx
  case attended =>
    intro x w hx running
    rcases h.attended x w hx running with given | ⟨i, q, hq, place, holds⟩
    · exact Or.inl given
    · refine Or.inr (still_held here hq place holds rfl ?_)
      exact fun hp => moves.still running hp
  case vacated =>
    intro x w hx running i q hq place
    rcases post_setPost hq with ⟨rfl, rfl⟩ | ⟨_, hq⟩
    · exact moves.left (h.vacated x w hx running i p here place)
    · exact h.vacated x w hx running i q hq place

theorem taken (h : Attended b started abandoned) {n : Nat} {workspace : String} (unused : b.post n = none)
    (ended : ∀ x, (x, workspace) ∈ abandoned → ¬b.running x) :
    Attended (b.setPost n ⟨workspace, .idle⟩) started abandoned := by
  constructor
  case known => exact h.known
  case given => exact h.given
  case single => exact h.single
  case held =>
    intro i q x hq hx
    rcases post_setPost hq with ⟨_, rfl⟩ | ⟨_, hq⟩
    · cases hx
    · exact h.held i q x hq hx
  case attended =>
    intro x w hx running
    rcases h.attended x w hx running with given | ⟨i, q, hq, place, holds⟩
    · exact Or.inl given
    · have other : i ≠ n := by
        intro hi
        rw [hi, unused] at hq
        cases hq
      exact Or.inr ⟨i, q, by simp [setPost, other, hq], place, holds⟩
  case vacated =>
    intro x w hx running i q hq place
    rcases post_setPost hq with ⟨_, rfl⟩ | ⟨_, hq⟩
    · cases place
      exact absurd running (ended x hx)
    · exact h.vacated x w hx running i q hq place

theorem start (h : Attended b started abandoned) {r : Nat} {p : Post} {sessionID : String}
    (here : b.post r = some p) (idle : p.errand = .idle) (fresh : ¬b.known sessionID) :
    Attended { b.setPost r ⟨p.workspace, .holds sessionID⟩ with
      running := fun x => x = sessionID ∨ b.running x
      known := fun x => x = sessionID ∨ b.known x } (started ++ [(sessionID, p.workspace)]) abandoned := by
  have old : ∀ x w, (x, w) ∈ started → (x = sessionID ∨ b.running x) → b.running x := by
    intro x w hx running
    rcases running with rfl | running
    · exact absurd (h.known x w hx) fresh
    · exact running
  constructor
  case known =>
    intro x w hx
    rcases List.mem_append.mp hx with hx | hx
    · exact Or.inr (h.known x w hx)
    · cases List.mem_singleton.mp hx
      exact Or.inl rfl
  case given => exact fun x w hx => List.mem_append_left _ (h.given x w hx)
  case held =>
    intro i q x hq hx
    rcases post_setPost hq with ⟨_, rfl⟩ | ⟨_, hq⟩
    · cases hx
      exact List.mem_append_right _ (List.mem_singleton.mpr rfl)
    · exact List.mem_append_left _ (h.held i q x hq hx)
  case attended =>
    intro x w hx running
    rcases List.mem_append.mp hx with hx | hx
    · rcases h.attended x w hx (old x w hx running) with given | ⟨i, q, hq, place, holds⟩
      · exact Or.inl given
      · have keeps : p.errand = .holds x → Errand.holds sessionID = .holds x := by
          intro hp
          rw [idle] at hp
          cases hp
        exact Or.inr (@still_held _ _ _ _ _ ⟨p.workspace, .holds sessionID⟩ _ _ here hq place holds rfl keeps)
    · cases List.mem_singleton.mp hx
      exact Or.inr ⟨r, ⟨p.workspace, .holds sessionID⟩, by simp [setPost], rfl, rfl⟩
  case vacated =>
    intro x w hx running i q hq place
    have running := old x w (h.given x w hx) running
    rcases post_setPost hq with ⟨_, rfl⟩ | ⟨_, hq⟩
    · have leaving := h.vacated x w hx running r p here place
      rw [idle] at leaving
      cases leaving
    · exact h.vacated x w hx running i q hq place
  case single =>
    intro x y w hx hy rx ry
    exact h.single x y w hx hy (old x w (h.given x w hx) rx) (old y w (h.given y w hy) ry)

theorem abandon (h : Attended b started abandoned) (alone : Exclusive b) {r : Nat} {p : Post}
    {sessionID : String} (here : b.post r = some p) (holds : p.errand = .holds sessionID) :
    Attended (b.setPost r ⟨p.workspace, .leaving⟩) started (abandoned ++ [(sessionID, p.workspace)]) := by
  have staying : p.errand ≠ .leaving := by
    intro leaving
    rw [holds] at leaving
    cases leaving
  -- no other abandoned session of the workspace runs, or the runner would be leaving already
  have none_else : ∀ x, (x, p.workspace) ∈ abandoned → ¬b.running x := fun x hx running =>
    staying (h.vacated x _ hx running r p here rfl)
  constructor
  case known => exact h.known
  case given =>
    intro x w hx
    rcases List.mem_append.mp hx with hx | hx
    · exact h.given x w hx
    · cases List.mem_singleton.mp hx
      exact h.held r p sessionID here holds
  case held =>
    intro i q x hq hx
    rcases post_setPost hq with ⟨_, rfl⟩ | ⟨_, hq⟩
    · cases hx
    · exact h.held i q x hq hx
  case attended =>
    intro x w hx running
    rcases h.attended x w hx running with given | ⟨i, q, hq, place, mine⟩
    · exact Or.inl (List.mem_append_left _ given)
    · by_cases hi : i = r
      · subst hi
        cases here.symm.trans hq
        cases holds.symm.trans mine
        subst place
        exact Or.inl (List.mem_append_right _ (List.mem_singleton.mpr rfl))
      · exact Or.inr ⟨i, q, by simp [setPost, hi, hq], place, mine⟩
  case vacated =>
    intro x w hx running i q hq place
    rcases post_setPost hq with ⟨_, rfl⟩ | ⟨other, hq⟩
    · rfl
    · rcases List.mem_append.mp hx with hx | hx
      · exact h.vacated x w hx running i q hq place
      · cases List.mem_singleton.mp hx
        by_contra stays
        exact other (alone i r q p hq here place stays staying)
  case single =>
    intro x y w hx hy rx ry
    rcases List.mem_append.mp hx with hx | hx
    · rcases List.mem_append.mp hy with hy | hy
      · exact h.single x y w hx hy rx ry
      · cases List.mem_singleton.mp hy
        exact absurd rx (none_else x hx)
    · cases List.mem_singleton.mp hx
      rcases List.mem_append.mp hy with hy | hy
      · exact absurd ry (none_else y hy)
      · cases List.mem_singleton.mp hy
        rfl

theorem step (h : Attended b started abandoned) (alone : Exclusive b) {began gave : Option (String × String)}
    (ended : ∀ workspace, hands = some workspace → ∀ x, (x, workspace) ∈ abandoned → ¬b.running x)
    (step : b.Step hands began gave b') : Attended b' (started ++ began.toList)
    (abandoned ++ gave.toList) := by
  cases step with
  | kept post running known => simpa using h.kept post running known
  | taken unused handed => simpa using h.taken unused (ended _ handed)
  | moved here moves => simpa using h.moved here moves
  | started here idle fresh => simpa using h.start here idle fresh
  | abandoned here holds => simpa using h.abandon alone here holds

/-- Two sessions of one workspace that both run are the same. -/
theorem alone (h : Attended b started abandoned) (alone : Exclusive b) {x y w : String} (hx : (x, w) ∈ started)
    (hy : (y, w) ∈ started) (rx : b.running x) (ry : b.running y) : x = y := by
  rcases h.attended x w hx rx with given | ⟨i, p, hp, place, holds⟩
  · rcases h.attended y w hy ry with given' | ⟨j, q, hq, place', holds'⟩
    · exact h.single x y w given given' rx ry
    · have leaving := h.vacated x w given rx j q hq place'
      rw [holds'] at leaving
      cases leaving
  · rcases h.attended y w hy ry with given' | ⟨j, q, hq, place', holds'⟩
    · have leaving := h.vacated y w given' ry i p hp place
      rw [holds] at leaving
      cases leaving
    · have same := alone i j p q hp hq (place.trans place'.symm) (by simp [holds]) (by simp [holds'])
      subst same
      cases hp.symm.trans hq
      cases holds.symm.trans holds'
      rfl

/-- A workspace all of whose runners are leaving has only abandoned sessions. -/
theorem deserted (h : Attended b started abandoned) {x w : String}
    (vacant : ∀ r p, b.post r = some p → p.workspace = w → p.errand = .leaving) (hx : (x, w) ∈ started)
    (running : b.running x) : (x, w) ∈ abandoned := by
  rcases h.attended x w hx running with given | ⟨r, p, hp, place, holds⟩
  · exact given
  · have leaving := vacant r p hp place
    rw [holds] at leaving
    cases leaving

end Attended

end Floor

section

variable {host : Host} {s t : State}

theorem post_runner {r : Nat} {p : Post} (h : s.floor.post r = some p) :
    ∃ R, s.runners[r]? = some R ∧ R.post = p := by
  simpa [State.floor, slots] using h

theorem mayWrite_of_errand {pc : RunnerPc} (h : pc.errand ≠ .leaving) : pc.mayWrite := by
  unfold RunnerPc.mayWrite
  cases pc
  case cleanup => exact absurd rfl h
  case done => exact absurd rfl h
  case pending => exact Or.inl rfl
  all_goals exact Or.inr rfl

/-- A runner that is not on its way out owns its workspace. -/
theorem workspace_of_errand (b : Balanced s.ledger) {r : Nat} {R : Runner} (h : s.runners[r]? = some R)
    (stays : R.pc.errand ≠ .leaving) :
    s.running.lookup R.workflowID = some r ∧ s.workspaces.lookup R.workspace = some R.workflowID := by
  have seated := b.live r R.entry (ledger_entry h) (mayWrite_of_errand stays)
  exact ⟨seated, (b.registered _ r R.entry seated (ledger_entry h)).2.2⟩

theorem exclusive_of_balanced (b : Balanced s.ledger) : s.floor.Exclusive := by
  intro r r' p p' hp hp' same stays stays'
  obtain ⟨R, hR, rfl⟩ := post_runner hp
  obtain ⟨R', hR', rfl⟩ := post_runner hp'
  obtain ⟨seated, owned⟩ := workspace_of_errand b hR stays
  obtain ⟨seated', owned'⟩ := workspace_of_errand b hR' stays'
  have place : R.workspace = R'.workspace := same
  rw [place, owned'] at owned
  rw [Option.some.inj owned, seated] at seated'
  exact Option.some.inj seated'

/-- A workspace that a step hands to a new runner has no other runner that still works. -/
theorem vacant_of_hands (b : Balanced s.ledger) {label : Label} {workspace : String}
    (h : s.hands label = some workspace) (r : Nat) (p : Post) (hp : s.floor.post r = some p)
    (place : p.workspace = workspace) : p.errand = .leaving := by
  by_contra stays
  obtain ⟨R, hR, rfl⟩ := post_runner hp
  obtain ⟨seated, owned⟩ := workspace_of_errand b hR stays
  change R.workspace = workspace at place
  rw [place] at owned
  unfold State.hands at h
  split at h
  next =>
    split at h
    next free =>
      cases h
      rw [free.1] at owned
      cases owned
    next => cases h
  next =>
    split at h
    next =>
      split at h
      next free =>
        cases h
        obtain ⟨idle, mine, _⟩ := free
        simp only [owned, Option.all_some, decide_eq_true_eq] at mine
        rw [mine, idle] at seated
        cases seated
      next => cases h
    next => cases h
  next => cases h

theorem hands_of_registered {label : Label} (b : Balanced s.ledger) (h : step host s label = some t)
    {R : Runner} (registered : t.runners[s.runners.length]? = some R) : s.hands label = some R.workspace := by
  have new := floor_post registered
  have free := floor_free s
  have moved := floor_step b h
  generalize s.startedBy label = began, s.abandonedBy label = gave, t.floor = after at moved new
  have changed : ∀ r p, s.floor.post r = some p → s.runners.length ≠ r := by
    intro r p here hr
    rw [← hr, free] at here
    cases here
  cases moved with
  | kept post =>
    rw [post, free] at new
    cases new
  | taken unused handed =>
    rcases Floor.Attended.post_setPost new with ⟨_, same⟩ | ⟨_, old⟩
    · rw [handed]
      exact congrArg some (congrArg Post.workspace same).symm
    · rw [free] at old
      cases old
  | moved here =>
    rcases Floor.Attended.post_setPost new with ⟨same, _⟩ | ⟨_, old⟩
    · exact absurd same (changed _ _ here)
    · rw [free] at old
      cases old
  | started here =>
    rcases Floor.Attended.post_setPost new with ⟨same, _⟩ | ⟨_, old⟩
    · exact absurd same (changed _ _ here)
    · rw [free] at old
      cases old
  | abandoned here =>
    rcases Floor.Attended.post_setPost new with ⟨same, _⟩ | ⟨_, old⟩
    · exact absurd same (changed _ _ here)
    · rw [free] at old
      cases old

theorem registered_of_launch {W workspace : String} {call : Nat} {c : Call} {store : Store}
    {issued : List String} (idle : s.running.lookup W = none) :
    ∃ R, (({ s with store, issued }.launchUnlessRunning W workspace).setCall call
      c).runners[s.runners.length]? =
      some R ∧ R.workspace = workspace := by
  refine ⟨⟨W, workspace, false, none, .loop⟩, ?_, rfl⟩
  simp [State.launchUnlessRunning, idle, State.setCall, State.register]

theorem registered_of_reserve {call : Nat} {draft : Draft} {id workspace : String}
    (free : s.workspaces.lookup workspace = none) (room : s.running.entries.length < maxRunning)
    (h : reserveSection s call draft id workspace = some t) :
    ∃ R, t.runners[s.runners.length]? = some R ∧ R.workspace = workspace := by
  unfold reserveSection at h
  split at h
  next => cases h
  next =>
    dsimp only at h
    have vacant : ¬((s.issue id).workspaces.lookup workspace).isSome = true := by simp [State.issue, free]
    have small : ¬(s.issue id).running.entries.length ≥ maxRunning := Nat.not_le_of_lt room
    rw [if_neg vacant, if_neg small] at h
    cases h
    exact ⟨⟨id, workspace, false, none, .pending⟩, by simp [State.setCall, State.register, State.issue], rfl⟩

theorem registered_of_sendAgent {call : Nat} {W agentID : String} {message : RoomMessage}
    {stageID workspace : String}
    (idle : s.running.lookup W = none) (mine : (s.workspaces.lookup workspace).all (· = W) = true)
    (room : s.running.entries.length < maxRunning)
    (h : sendAgentSection s call W agentID message stageID workspace = some t) :
    ∃ R, t.runners[s.runners.length]? = some R ∧ R.workspace = workspace := by
  unfold sendAgentSection at h
  split at h
  next => cases h
  next workflow read =>
    have own : workflow.id = W := (Store.workflow_id read).1
    dsimp only at h
    rw [own] at h
    have free : ¬((s.running.lookup W).isNone = true ∧ (s.workspaces.lookup workspace).any (· ≠ W) = true) := by
      cases hl : s.workspaces.lookup workspace with
      | none => simp
      | some owner => simp [hl] at mine; simp [mine]
    rw [if_neg free, if_neg (fun full => absurd full.2 (Nat.not_le_of_lt room))] at h
    split at h
    next =>
      split at h
      next => cases h
      next => cases h; exact @registered_of_launch _ _ _ _ _ _ s.issued idle
    next =>
      split at h
      next => cases h
      next =>
        split at h
        next => cases h
        next => cases h; exact @registered_of_launch _ _ _ _ _ _ (stageID :: s.issued) idle

theorem registered_of_hands {label : Label} {workspace : String} (h : step host s label = some t)
    (handed : s.hands label = some workspace) :
    ∃ R, t.runners[s.runners.length]? = some R ∧ R.workspace = workspace := by
  unfold State.hands at handed
  split at handed
  next call id place =>
    split at handed
    next free =>
      cases handed
      obtain ⟨c, pending, h⟩ := Option.bind_eq_some_iff.mp h
      cases c
      case createReserve draft => exact registered_of_reserve free.1 free.2 h
      all_goals cases h
    next => cases handed
  next call stageID place =>
    split at handed
    next W agentID message pending =>
      split at handed
      next free =>
        cases handed
        obtain ⟨c, pending', h⟩ := Option.bind_eq_some_iff.mp h
        cases pending.symm.trans pending'
        exact registered_of_sendAgent free.1 free.2.1 free.2.2 h
      next => cases handed
    next => cases handed
  next => cases handed

/-- The steps that a watch adds its notes to. -/
theorem watch_iff {h h' : Watch} {label : Label} : watch host h label = some h' ↔
    ∃ t, step host h.state label = some t ∧
      h' = ⟨t, h.started ++ (h.state.startedBy label).toList, h.abandoned ++
        (h.state.abandonedBy label).toList⟩ := by
  simp only [watch, Option.map_eq_some_iff]
  exact exists_congr fun t => and_congr_right fun _ => eq_comm

/-- Every run of the daemon is watched. -/
theorem watched_run {labels : List Label} (started abandoned : List (String × String))
    (run : exec (step host) s labels = some t) :
    ∃ h, exec (watch host) ⟨s, started, abandoned⟩ labels = some h ∧ h.state = t := by
  induction labels generalizing s started abandoned with
  | nil => cases run; exact ⟨_, rfl, rfl⟩
  | cons label labels ih =>
    obtain ⟨u, hu, run⟩ := exec_cons_iff.mp run
    obtain ⟨h, hrun, same⟩ := ih (started ++ (s.startedBy label).toList) (abandoned ++ (s.abandonedBy label).toList) run
    exact ⟨h, exec_cons_iff.mpr ⟨_, watch_iff.mpr ⟨u, hu, rfl⟩, hrun⟩, same⟩

/-- What holds of a watched daemon as long as no workspace is handed on with an abandoned session running. -/
structure Minded (h : Watch) : Prop where
  balanced : Balanced h.state.ledger
  attended : h.state.floor.Attended h.started h.abandoned

theorem minded_initial (agents : List Agent) (now : Time) : Minded (Watch.initial agents now) := by
  refine ⟨balanced_initial agents now, ?_⟩
  constructor
  all_goals simp [Watch.initial, State.floor, State.initial, slots]

theorem not_running {x : String} (h : s.stillRunning x = false) : ¬s.floor.running x := by
  change ¬s.stillRunning x = true
  simp [h]

theorem minded_step {h h' : Watch} {label : Label} (m : Minded h) (waits : Waits h label)
    (seen : watch host h label = some h') : Minded h' := by
  obtain ⟨t, taken, rfl⟩ := watch_iff.mp seen
  have balanced : Balanced t.ledger := m.balanced.step (ledger_step taken fun id fresh => m.balanced.fresh_idle fresh)
  refine ⟨balanced, m.attended.step (exclusive_of_balanced m.balanced) ?_ (floor_step m.balanced taken)⟩
  intro workspace handed x hx
  exact not_running (waits workspace handed x hx)

theorem handsOver_of_waits {h : Watch} {label : Label} (m : Minded h) (waits : Waits h label) :
    HandsOver host h label := by
  intro t R step registered x hx
  have handed := hands_of_registered m.balanced step registered
  by_contra running
  have running : h.state.floor.running x := (Bool.not_eq_false _).mp running
  have given := m.attended.deserted (vacant_of_hands m.balanced handed) hx running
  exact not_running (waits R.workspace handed x given) running

theorem waits_of_handsOver {h h' : Watch} {label : Label} (m : Minded h) (seen : watch host h label = some h')
    (handing : HandsOver host h label) : Waits h label := by
  obtain ⟨t, taken, rfl⟩ := watch_iff.mp seen
  intro workspace handed x hx
  obtain ⟨R, registered, rfl⟩ := registered_of_hands taken handed
  exact handing t R taken registered x (m.attended.given x _ hx)

theorem along_waits_iff {h h' : Watch} {labels : List Label} (m : Minded h)
    (run : exec (watch host) h labels = some h') :
    Along (watch host) Waits h labels ↔ Along (watch host) (HandsOver host) h labels := by
  induction labels generalizing h with
  | nil => exact Iff.rfl
  | cons label labels ih =>
    obtain ⟨u, hu, run⟩ := exec_cons_iff.mp run
    constructor
    · intro ⟨waits, rest⟩
      refine ⟨handsOver_of_waits m waits, ?_⟩
      intro v hv
      cases hu.symm.trans hv
      exact (ih (minded_step m waits hu) run).mp (rest u hu)
    · intro ⟨handed, rest⟩
      have waits := waits_of_handsOver m hu handed
      refine ⟨waits, ?_⟩
      intro v hv
      cases hu.symm.trans hv
      exact (ih (minded_step m waits hu) run).mpr (rest u hu)

end

theorem state_of_watch {host : Host} {h h' : Watch} {labels : List Label}
    (watched : exec (watch host) h labels = some h') : exec (step host) h.state labels = some h'.state := by
  induction labels generalizing h with
  | nil => cases watched; rfl
  | cons label labels ih =>
    obtain ⟨u, hu, watched⟩ := exec_cons_iff.mp watched
    obtain ⟨t, taken, rfl⟩ := watch_iff.mp hu
    exact exec_cons_iff.mpr ⟨t, taken, ih watched⟩

/-- In every run of the daemon: a workspace is handed on only after the sessions started there have ended exactly when
every such step waits for the abandoned ones, and then no two sessions of a workspace ever run together. -/
theorem one_agent_per_workspace {host : Host} {agents : List Agent} {now : Time}
    {labels : List Label} {s : State} (run : exec (step host) (State.initial agents now) labels = some s) :
    ∃ h, exec (watch host) (Watch.initial agents now) labels = some h ∧ h.state = s ∧
      (Along (watch host) Waits (Watch.initial agents now) labels ↔
        Along (watch host) (HandsOver host) (Watch.initial agents now) labels) ∧
      (Along (watch host) Waits (Watch.initial agents now) labels →
        ∀ x y w, (x, w) ∈ h.started → (y, w) ∈ h.started → s.stillRunning x = true → s.stillRunning y = true →
          x = y) := by
  obtain ⟨h, watched, rfl⟩ := watched_run [] [] run
  have start := minded_initial agents now
  refine ⟨h, watched, rfl, along_waits_iff start watched, ?_⟩
  intro waits x y w hx hy rx ry
  have preserve : ∀ u label v, Minded u → Waits u label → watch host u label = some v → Minded v :=
    fun _ _ _ m waits seen => minded_step m waits seen
  have m := exec_preserves preserve start watched waits
  exact m.attended.alone (exclusive_of_balanced m.balanced) hx hy rx ry

/-- No session abandoned in the workspace that the step hands on is still running. -/
def Watch.waits (h : Watch) (label : Label) : Bool :=
  (h.state.hands label).all fun workspace =>
    h.abandoned.all fun (sessionID, left) => decide (left ≠ workspace) || !h.state.stillRunning sessionID

theorem waits_iff {h : Watch} {label : Label} : h.waits label = true ↔ Waits h label := by
  simp only [Watch.waits, Waits, Option.all_eq_true, List.all_eq_true, Bool.or_eq_true, decide_eq_true_eq,
    Bool.not_eq_true', Prod.forall]
  constructor
  · intro h workspace handed x abandoned
    exact (h workspace handed x workspace abandoned).resolve_left (not_not_intro rfl)
  · intro h workspace handed x left abandoned
    by_cases same : left = workspace
    · exact .inr (h workspace handed x (same ▸ abandoned))
    · exact .inl same

/-- `watch` by `replay`, and of steps that wait, if asked. -/
def watchReplay (host : Host) (waiting : Bool) (h : Watch) (label : Label) : Option Watch :=
  if waiting && !h.waits label then none
  else (replay host h.state label).map fun t =>
    ⟨t, h.started ++ (h.state.startedBy label).toList, h.abandoned ++ (h.state.abandonedBy label).toList⟩

theorem watch_of_watchReplay {host : Host} {waiting : Bool} {h h' : Watch} {label : Label}
    (replayed : watchReplay host waiting h label = some h') : watch host h label = some h' := by
  unfold watchReplay at replayed
  split at replayed
  next => cases replayed
  next =>
    obtain ⟨t, taken, rfl⟩ := Option.map_eq_some_iff.mp replayed
    exact watch_iff.mpr ⟨t, step_of_replay taken, rfl⟩

theorem waits_of_watchReplay {host : Host} {h h' : Watch} {label : Label}
    (replayed : watchReplay host true h label = some h') : watch host h label = some h' ∧ Waits h label := by
  refine ⟨watch_of_watchReplay replayed, waits_iff.mp ?_⟩
  by_contra hurried
  simp [watchReplay, hurried] at replayed

/-- `StartStage` fails for the first turn, whose process is asked to stop and lives on; the runner leaves. -/
def abandonedRun : List Label :=
  roomRun ++ [.runner 0 .ok, .runner 0 .ok, .runner 0 .ok, .runner 0 .ok, .runner 0 (.started "a1"), .runner 0 .ok,
    .runner 0 .fail, .runner 0 .ok, .runner 0 .ok, .runner 0 .ok]

/-- A follow-up starts the next turn in the same workspace. -/
def nextTurn : List Label :=
  [.send "w" ⟨"hi", "@codex", none⟩ true, .sendAgent 1 "s1" "/repo" true, .runner 1 .ok, .runner 1 .ok, .runner 1 .ok,
    .runner 1 .ok, .runner 1 (.started "a2")]

/-- The abandoned process exits before the follow-up comes. -/
theorem one_agent_per_workspace_room : ∃ h,
    exec (watch exampleHost) (Watch.initial [codexAgent] noon)
      (abandonedRun ++ .sessionExit "a1" 143 :: nextTurn) =
      some h ∧
    ("a1", "/repo") ∈ h.abandoned ∧ ("a2", "/repo") ∈ h.started ∧ h.state.stillRunning "a2" = true ∧
    Along (watch exampleHost) (HandsOver exampleHost) (Watch.initial [codexAgent] noon)
      (abandonedRun ++ .sessionExit "a1" 143 :: nextTurn) ∧
    ∀ x, (x, "/repo") ∈ h.started → h.state.stillRunning x = true → x = "a2" := by
  have run : (exec (watchReplay exampleHost true) (Watch.initial [codexAgent] noon)
      (abandonedRun ++ .sessionExit "a1" 143 :: nextTurn)).any (fun h =>
        ("a1", "/repo") ∈ h.abandoned ∧ ("a2", "/repo") ∈ h.started ∧ h.state.stillRunning "a2" = true) = true := by
    decide +kernel
  obtain ⟨h, run, facts⟩ := (Option.any_eq_true _ _).mp run
  obtain ⟨abandoned, started, running⟩ := of_decide_eq_true facts
  obtain ⟨watched, waits⟩ := exec_of_allowed (fun _ _ _ => waits_of_watchReplay) run
  obtain ⟨h', watched', _, handing, alone⟩ := one_agent_per_workspace (state_of_watch watched)
  cases watched.symm.trans watched'
  exact ⟨h, watched, abandoned, started, running, handing.mp waits,
    fun x hx still => alone waits x "a2" "/repo" hx started still running⟩

/-- While it lives on, there are two. -/
theorem two_agents_in_one_workspace : ∃ h,
    exec (watch exampleHost) (Watch.initial [codexAgent] noon) (abandonedRun ++ nextTurn) = some h ∧
      ("a1", "/repo") ∈ h.started ∧ ("a2", "/repo") ∈ h.started ∧
      h.state.stillRunning "a1" = true ∧ h.state.stillRunning "a2" = true := by
  have run : (exec (watchReplay exampleHost false) (Watch.initial [codexAgent] noon) (abandonedRun ++ nextTurn)).any
      (fun h => ("a1", "/repo") ∈ h.started ∧ ("a2", "/repo") ∈ h.started ∧
        h.state.stillRunning "a1" = true ∧ h.state.stillRunning "a2" = true) = true := by
    decide +kernel
  obtain ⟨h, run, facts⟩ := (Option.any_eq_true _ _).mp run
  exact ⟨h, exec_mono (fun _ _ _ => watch_of_watchReplay) run, of_decide_eq_true facts⟩

end TermLinks.Coordinator
