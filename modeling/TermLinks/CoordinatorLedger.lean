import TermLinks.CoordinatorRegistry

namespace TermLinks.Coordinator

/-- How far a runner has got: its goroutine is not started, may write or start sessions, is past its last
write, or is over. -/
inductive Standing
  | pending | working | left | done
deriving DecidableEq

def RunnerPc.standing : RunnerPc → Standing
  | .pending => .pending
  | .cleanup => .left
  | .done => .done
  | _ => .working

structure Entry where
  workflowID : String
  workspace : String
  standing : Standing

def Runner.entry (R : Runner) : Entry := ⟨R.workflowID, R.workspace, R.pc.standing⟩

/-- What a `Create` that has entered its workflow holds until its store call is over. -/
structure Reservation where
  id : String
  workspace : String
  runner : Nat

def Call.reservation : Call → Option Reservation
  | .createStore workflow workspace runner => some ⟨workflow.id, workspace, runner⟩
  | .createRollback id workspace runner => some ⟨id, workspace, runner⟩
  | _ => none

/-- The two maps of the manager and what they refer to. -/
@[ext] structure Ledger where
  running : String → Option Nat
  count : Nat
  workspaces : String → Option String
  entry : Nat → Option Entry
  reservation : Nat → Option Reservation
  issued : String → Prop
  stored : String → Prop

namespace Ledger

def setEntry (b : Ledger) (r : Nat) (e : Entry) : Ledger :=
  { b with entry := Function.update b.entry r (some e) }

def register (b : Ledger) (W workspace : String) (n : Nat) (standing : Standing) : Ledger :=
  { b with
    running := Function.update b.running W (some n)
    count := b.count + 1
    workspaces := Function.update b.workspaces workspace (some W)
    entry := Function.update b.entry n (some ⟨W, workspace, standing⟩) }

/-- Both maps forget the workflow of a runner that is registered for it. -/
def release (b : Ledger) (r : Nat) (e : Entry) : Ledger :=
  if b.running e.workflowID = some r then
    { b with
      running := Function.update b.running e.workflowID none
      workspaces :=
        if b.workspaces e.workspace = some e.workflowID then Function.update b.workspaces e.workspace none
        else b.workspaces }
  else b

/-- The steps of the coordinator as they change the ledger; the count only falls but for an entry. -/
inductive Step (b : Ledger) : Ledger → Prop
  | kept {b' : Ledger} (running : b'.running = b.running) (count : b'.count ≤ b.count)
      (workspaces : b'.workspaces = b.workspaces) (entry : b'.entry = b.entry)
      (reservation : ∀ i c, b'.reservation i = some c → b.reservation i = some c)
      (issued : ∀ id, b.issued id → b'.issued id) (stored : ∀ W, b'.stored W → b.stored W) : Step b b'
  | moved {r : Nat} {e : Entry} {standing : Standing} {stored : String → Prop} (here : b.entry r = some e)
      (working : e.standing = .working) (next : standing = .working ∨ standing = .left)
      (known : ∀ W, stored W → b.stored W) : Step b { b.setEntry r { e with standing } with stored }
  | reserved {i n : Nat} {id workspace : String} (fresh : ¬b.issued id) (free : b.workspaces workspace = none)
      (room : b.count < maxRunning) (unused : b.entry n = none) :
      Step b { b.register id workspace n .pending with
        reservation := Function.update b.reservation i (some ⟨id, workspace, n⟩)
        issued := fun other => other = id ∨ b.issued other }
  | created {i : Nat} {c : Reservation} {e : Entry} (held : b.reservation i = some c)
      (here : b.entry c.runner = some e) :
      Step b { b.setEntry c.runner { e with standing := .working } with
        reservation := Function.update b.reservation i none
        stored := fun W => W = c.id ∨ b.stored W }
  | rolledBack {i count : Nat} {c : Reservation} {e : Entry} (held : b.reservation i = some c)
      (here : b.entry c.runner = some e) (fewer : count ≤ b.count) :
      Step b { b.setEntry c.runner { e with standing := .done } with
        running := Function.update b.running c.id none
        count
        workspaces := Function.update b.workspaces c.workspace none
        reservation := Function.update b.reservation i none }
  | launched {n : Nat} {W workspace : String} {issued : String → Prop} {reservation : Nat → Option Reservation}
      (known : b.stored W) (idle : b.running W = none)
      (free : ∀ owner, b.workspaces workspace = some owner → owner = W) (room : b.count < maxRunning)
      (unused : b.entry n = none) (kept : ∀ id, b.issued id → issued id)
      (held : ∀ i c, reservation i = some c → b.reservation i = some c) :
      Step b { b.register W workspace n .working with issued, reservation }
  | released {r count : Nat} {e : Entry} {standing : Standing} (here : b.entry r = some e)
      (working : e.standing = .working ∨ e.standing = .left) (next : standing = .left ∨ standing = .done)
      (fewer : count ≤ b.count) : Step b { (b.release r e).setEntry r { e with standing } with count }

end Ledger

def State.ledger (s : State) : Ledger where
  running W := s.running.lookup W
  count := s.running.entries.length
  workspaces key := s.workspaces.lookup key
  entry := slots (s.runners.map Runner.entry)
  reservation i := s.calls[i]?.bind Call.reservation
  issued id := id ∈ s.issued
  stored W := s.store.statusOf W ≠ none

section

variable {s t : State}

theorem ledger_entry {r : Nat} {R : Runner} (h : s.runners[r]? = some R) : s.ledger.entry r = some R.entry :=
  slots_map h _

theorem ledger_free (s : State) : s.ledger.entry s.runners.length = none := by
  have h := slots_length (s.runners.map Runner.entry)
  rwa [List.length_map] at h

theorem ledger_setRunner {r : Nat} {R : Runner} (h : s.runners[r]? = some R) (Q : Runner) :
    (s.setRunner r Q).ledger = s.ledger.setEntry r Q.entry := by
  have hm : (s.runners.map Runner.entry)[r]? = some R.entry := by simp [h]
  ext1
  case entry =>
    simp only [State.ledger, State.setRunner, List.map_set]
    exact slots_set hm Q.entry
  all_goals rfl

theorem setEntry_self {b : Ledger} {r : Nat} {e : Entry} (h : b.entry r = some e) : b.setEntry r e = b := by
  ext1
  case entry => exact Function.update_eq_self_iff.mpr h.symm
  all_goals rfl

/-- A call that holds no reservation takes the place of one. -/
theorem reservation_setCall {i : Nat} {c : Call} (hc : c.reservation = none) (j : Nat) (held : Reservation)
    (h : (s.setCall i c).ledger.reservation j = some held) : s.ledger.reservation j = some held := by
  obtain ⟨d, hd, hr⟩ := Option.bind_eq_some_iff.mp h
  by_cases hj : i = j
  · subst hj
    have same : d = c := by
      simp only [State.setCall, List.getElem?_set_self'] at hd
      obtain ⟨_, _, hd⟩ := Option.map_eq_some_iff.mp hd
      exact hd.symm
    rw [same, hc] at hr
    cases hr
  · simp only [State.setCall, List.getElem?_set_ne hj] at hd
    exact Option.bind_eq_some_iff.mpr ⟨d, hd, hr⟩

theorem reservation_addCall {c : Call} (hc : c.reservation = none) (j : Nat) (held : Reservation)
    (h : (s.addCall c).ledger.reservation j = some held) : s.ledger.reservation j = some held := by
  obtain ⟨d, hd, hr⟩ := Option.bind_eq_some_iff.mp h
  simp only [State.addCall] at hd
  rcases Nat.lt_trichotomy j s.calls.length with lt | rfl | gt
  · rw [List.getElem?_append_left lt] at hd
    exact Option.bind_eq_some_iff.mpr ⟨d, hd, hr⟩
  · simp only [List.getElem?_append_right (Nat.le_refl _), Nat.sub_self, List.getElem?_cons_zero,
      Option.some.injEq] at hd
    rw [← hd, hc] at hr
    cases hr
  · rw [List.getElem?_append_right (by omega), List.getElem?_eq_none (by simp; omega)] at hd
    cases hd

theorem reservation_update {i : Nat} {was now : Call} (h : s.calls[i]? = some was) :
    (s.setCall i now).ledger.reservation = Function.update s.ledger.reservation i now.reservation := by
  have bound := (List.getElem?_eq_some_iff.mp h).1
  funext j
  by_cases hj : j = i
  · subst hj
    simp [State.ledger, State.setCall, bound]
  · simp [State.ledger, State.setCall, hj, Ne.symm hj]

theorem reservation_of_call {i : Nat} {was : Call} (h : s.calls[i]? = some was) :
    s.ledger.reservation i = was.reservation := by
  simp [State.ledger, h]

theorem kept_setCall {i : Nat} {c : Call} (hc : c.reservation = none) :
    s.ledger.Step (s.setCall i c).ledger :=
  .kept rfl (Nat.le_refl _) rfl rfl (reservation_setCall hc) (fun _ h => h) fun _ h => h

theorem kept_addCall {c : Call} (hc : c.reservation = none) : s.ledger.Step (s.addCall c).ledger :=
  .kept rfl (Nat.le_refl _) rfl rfl (reservation_addCall hc) (fun _ h => h) fun _ h => h

/-- A store write that adds no workflow, and a call that holds no reservation. -/
theorem kept_write {i : Nat} {c : Call} {store : Store} (hc : c.reservation = none)
    (hs : ∀ W, store.statusOf W ≠ none → s.store.statusOf W ≠ none) :
    s.ledger.Step ({ s with store }.setCall i c).ledger :=
  .kept rfl (Nat.le_refl _) rfl rfl (reservation_setCall (s := { s with store }) hc) (fun _ h => h) hs

theorem stored_of_sameProgress {store store' : Store} (h : Store.SameProgress store store') (W : String)
    (hw : store'.statusOf W ≠ none) : store.statusOf W ≠ none := by
  rwa [h.workflows] at hw

theorem stored_of_status {store store' : Store} {id : String} (exist : store.statusOf id ≠ none)
    (other : ∀ W, W ≠ id → store'.statusOf W = store.statusOf W) (W : String)
    (hw : store'.statusOf W ≠ none) : store.statusOf W ≠ none := by
  by_cases h : W = id
  · rwa [h]
  · rwa [other W h] at hw

theorem ledger_register (s : State) (W workspace : String) (pc : RunnerPc) (idle : s.running.lookup W = none) :
    (s.register W workspace pc).ledger = s.ledger.register W workspace s.runners.length pc.standing := by
  have ha := slots_append (s.runners.map Runner.entry) (⟨W, workspace, false, none, pc⟩ : Runner).entry
  rw [List.length_map] at ha
  have absent : W ∉ s.running := AList.lookup_eq_none.mp idle
  ext1
  case running => exact lookup_insert_eq _ _ _
  case workspaces => exact lookup_insert_eq _ _ _
  case count =>
    show (s.running.insert W s.runners.length).entries.length = s.running.entries.length + 1
    rw [AList.entries_insert_of_notMem absent, List.length_cons]
  case entry =>
    simp only [State.ledger, State.register, List.map_append, List.map_cons, List.map_nil]
    exact ha
  all_goals rfl

theorem count_erase_le (m : AList fun _ : String => Nat) (W : String) :
    (m.erase W).entries.length ≤ m.entries.length := (List.kerase_sublist W m.entries).length_le

theorem ledger_release (s : State) (r : Nat) (R : Runner) :
    ∃ count ≤ s.ledger.count, (s.release r R).ledger = { s.ledger.release r R.entry with count } := by
  unfold State.release Ledger.release
  by_cases h : s.running.lookup R.workflowID = some r
  · refine ⟨(s.running.erase R.workflowID).entries.length, count_erase_le _ _, ?_⟩
    rw [if_pos h, if_pos (show s.ledger.running R.entry.workflowID = some r from h)]
    ext1
    case running => exact lookup_erase_eq _ _
    case workspaces =>
      by_cases hw : s.workspaces.lookup R.workspace = some R.workflowID
      · simp only [State.ledger, Runner.entry, hw, if_true]
        exact lookup_erase_eq _ _
      · simp only [State.ledger, Runner.entry, hw, if_false]
    all_goals rfl
  · refine ⟨s.ledger.count, Nat.le_refl _, ?_⟩
    rw [if_neg h, if_neg (show ¬ s.ledger.running R.entry.workflowID = some r from h)]

theorem ledger_createCall {resolved : Except String String} {request : String} {ids : List String}
    (h : createCall s resolved request ids = some t) : s.ledger.Step t.ledger := by
  unfold createCall at h
  split at h
  next => cases h; exact kept_addCall rfl
  next =>
    split at h
    next => cases h
    next =>
      split at h
      next => cases h; exact kept_addCall rfl
      next =>
        dsimp only at h
        split at h
        next =>
          cases h
          exact .kept rfl (Nat.le_refl _) rfl rfl (reservation_addCall (s := s) rfl)
            (fun _ h => List.mem_append_right _ h) fun _ h => h
        next => cases h

theorem ledger_reserve {call : Nat} {draft : Draft} {id workspace : String}
    (pending : s.calls[call]? = some (.createReserve draft))
    (h : reserveSection s call draft id workspace = some t)
    (alone : id ∉ s.issued → s.running.lookup id = none) :
    s.ledger.Step t.ledger := by
  have refused : ∀ error, s.ledger.Step ((s.issue id).setCall call (.failed error)).ledger := fun error =>
    .kept rfl (Nat.le_refl _) rfl rfl (reservation_setCall (s := s) rfl) (fun _ h => List.mem_cons_of_mem _ h)
      fun _ h => h
  unfold reserveSection at h
  split at h
  next => cases h
  next fresh =>
    dsimp only at h
    split at h
    next => cases h; exact refused _
    next free =>
      split at h
      next => cases h; exact refused _
      next room =>
        cases h
        change ¬(s.workspaces.lookup workspace).isSome at free
        have free : s.ledger.workspaces workspace = none := by
          rw [Bool.not_eq_true, Option.isSome_eq_false_iff, Option.isNone_iff_eq_none] at free
          exact free
        have room : s.ledger.count < maxRunning := by
          rw [State.ledger]
          exact Nat.lt_of_not_ge room
        have entered := Ledger.Step.reserved (i := call) (n := s.runners.length) fresh free room (ledger_free s)
        have written := ledger_register s id workspace .pending (alone fresh)
        have held := @reservation_update ((s.issue id).register id workspace .pending) call _
          (.createStore (newWorkflow draft id s.now) workspace s.runners.length)
          (show _ = some (Call.createReserve draft) from pending)
        refine cast (congrArg _ ?_) entered
        ext1
        case running => exact (congrArg Ledger.running written).symm
        case count => exact (congrArg Ledger.count written).symm
        case workspaces => exact (congrArg Ledger.workspaces written).symm
        case entry => exact (congrArg Ledger.entry written).symm
        case reservation => exact held.symm
        case issued =>
          funext other
          exact propext List.mem_cons.symm
        case stored => rfl

theorem ledger_noteSession (s : State) (id sessionID : String) :
    (s.noteSession id sessionID).ledger = s.ledger := by
  unfold State.noteSession
  split
  next => rfl
  next =>
    split
    next => rfl
    next R hR =>
      have same := ledger_setRunner hR { R with current := some sessionID }
      rw [show Runner.entry { R with current := some sessionID } = R.entry from rfl,
        setEntry_self (ledger_entry hR)] at same
      exact same

theorem ledger_cancelRunner (s : State) (id : String) : (s.cancelRunner id).ledger = s.ledger := by
  unfold State.cancelRunner
  split
  next => rfl
  next r h =>
    split
    next => rfl
    next R hR =>
      have same := ledger_setRunner hR { R with cancelled := true }
      rw [show Runner.entry { R with cancelled := true } = R.entry from rfl, setEntry_self (ledger_entry hR)] at same
      exact same

/-- A step outside the lock leaves the runner at work or past its last write. -/
theorem standing_of_progress {store store' : Store} {now : Time} {R : Runner} {pc pc' : RunnerPc}
    {input : RunnerInput} (h : Progress store now R pc input pc' store') :
    pc.standing = .working ∧ (pc'.standing = .working ∨ pc'.standing = .left) := by
  have standing_of : ∀ pc : RunnerPc, pc ≠ .pending → pc ≠ .cleanup → pc ≠ .done → pc.standing = .working := by
    intro pc hp hc hd
    cases pc with
    | pending => exact absurd rfl hp
    | cleanup => exact absurd rfl hc
    | done => exact absurd rfl hd
    | _ => rfl
  have turning : ∀ pc : RunnerPc, pc.turn ≠ none → pc.standing = .working := by
    intro pc held
    refine standing_of pc ?_ ?_ ?_
    · rintro rfl; exact held rfl
    · rintro rfl; exact held rfl
    · rintro rfl; exact held rfl
  cases h with
  | hop hop same =>
    obtain ⟨hp, hc, hd⟩ := hop_from hop
    refine ⟨standing_of pc hp hc hd, ?_⟩
    cases hop with
    | checked => cases R.cancelled <;> simp [RunnerPc.standing]
    | prepared live reads held turn next => exact Or.inl (turning _ (by rw [turn]; exact held))
    | launched launching turn next =>
      refine Or.inl (standing_of _ ?_ ?_ ?_)
      all_goals rintro rfl; rcases next with h | h <;> cases h
    | attended attending turn next =>
      refine Or.inl (standing_of _ ?_ ?_ ?_)
      all_goals rintro rfl; rcases next with h | h <;> cases h
    | unrecorded => split <;> exact Or.inl rfl
    | judged => cases R.cancelled <;> simp [RunnerPc.standing]
    | _ => simp [RunnerPc.standing]
  | write ok write =>
    cases write with
    | started => exact ⟨rfl, Or.inl rfl⟩
    | completed => exact ⟨rfl, Or.inl rfl⟩
    | gaveUp => exact ⟨rfl, by split <;> exact Or.inl rfl⟩
    | failed => exact ⟨rfl, Or.inr rfl⟩

/-- A step outside the lock adds no workflow. -/
theorem stored_of_progress {store store' : Store} {now : Time} {R : Runner} {pc pc' : RunnerPc}
    {input : RunnerInput} (h : Progress store now R pc input pc' store') (W : String)
    (hw : store'.statusOf W ≠ none) : store.statusOf W ≠ none := by
  cases h with
  | hop hop same => exact stored_of_sameProgress same W hw
  | write ok write =>
    cases write with
    | started write =>
      exact stored_of_status (Store.startStage_exists write) (Store.startStage_eq write).2.1 W hw
    | completed write => rwa [(Store.finishStage_eq write).1] at hw
    | gaveUp write => rwa [(Store.finishStage_eq write).1] at hw
    | failed write =>
      exact stored_of_status (Store.setWorkflowStatus_exists write) (Store.setWorkflowStatus_eq write).2.1 W hw

theorem ledger_launch {i : Nat} {W workspace : String} {c : Call} {store : Store} {issued : List String}
    (room : s.running.lookup W = none → s.running.entries.length < maxRunning)
    (free : s.running.lookup W = none → ∀ owner, s.workspaces.lookup workspace = some owner → owner = W)
    (known : s.store.statusOf W ≠ none) (hc : c.reservation = none)
    (hs : ∀ V, store.statusOf V ≠ none ↔ s.store.statusOf V ≠ none) (hi : ∀ id ∈ s.issued, id ∈ issued) :
    s.ledger.Step (({ s with store, issued }.launchUnlessRunning W workspace).setCall i c).ledger := by
  have stored : { s with store, issued }.ledger.stored = s.ledger.stored := by
    funext V
    exact propext (hs V)
  unfold State.launchUnlessRunning
  split
  next idle =>
    have idle : s.running.lookup W = none := by simpa using idle
    have held : ∀ j d, ((({ s with store, issued }.register W workspace .loop).setCall i c).ledger).reservation j =
        some d → s.ledger.reservation j = some d :=
      reservation_setCall (s := { s with store, issued }.register W workspace .loop) hc
    have step := Ledger.Step.launched (b := s.ledger) known idle (free idle) (room idle) (ledger_free s) hi held
    have written := ledger_register { s with store, issued } W workspace .loop idle
    refine cast (congrArg _ ?_) step
    ext1
    case running => exact (congrArg Ledger.running written).symm
    case count => exact (congrArg Ledger.count written).symm
    case workspaces => exact (congrArg Ledger.workspaces written).symm
    case entry => exact (congrArg Ledger.entry written).symm
    case stored => exact stored.symm
    all_goals rfl
  next =>
    exact .kept rfl (Nat.le_refl _) rfl rfl (reservation_setCall (s := { s with store, issued }) hc) hi
      fun V hV => (hs V).mp hV

theorem ledger_sendAgent {call : Nat} {workflowID agentID : String} {message : RoomMessage}
    {stageID workspace : String}
    (h : sendAgentSection s call workflowID agentID message stageID workspace = some t) :
    s.ledger.Step t.ledger := by
  unfold sendAgentSection at h
  split at h
  next => cases h
  next workflow read =>
    obtain ⟨hid, exist⟩ := Store.workflow_id read
    have known : s.store.statusOf workflow.id ≠ none := by
      rw [hid]
      exact ne_of_eq_of_ne exist (Option.some_ne_none _)
    dsimp only at h
    split at h
    next => cases h; exact kept_setCall rfl
    next free =>
      split at h
      next => cases h; exact kept_setCall rfl
      next room =>
        have free : s.running.lookup workflow.id = none →
            ∀ owner, s.workspaces.lookup workspace = some owner → owner = workflow.id := by
          intro idle owner held
          by_contra other
          exact free ⟨by simp [idle], by simp [held, other]⟩
        have room : s.running.lookup workflow.id = none → s.running.entries.length < maxRunning := by
          intro idle
          by_contra full
          exact room ⟨by simp [idle], Nat.le_of_not_lt full⟩
        split at h
        next =>
          split at h
          next => cases h
          next store stored write =>
            cases h
            have same := Store.sameProgress_addMessage write
            exact @ledger_launch _ _ _ _ _ _ s.issued room free known rfl (fun V => by rw [same.workflows]) fun _ h => h
        next =>
          split at h
          next => cases h
          next =>
            split at h
            next => cases h
            next store stored write =>
              cases h
              obtain ⟨status, other, _⟩ := Store.addMessageWithStage_eq write
              refine @ledger_launch _ _ _ _ _ _ (stageID :: s.issued) room free known rfl (fun V => ?_)
                fun _ h => List.mem_cons_of_mem _ h
              by_cases hV : V = message.workflowID
              · subst hV
                simp [status]
              · rw [other V hV]

theorem ledger_send {workflowID : String} {input : MessageInput} {ok : Bool}
    (h : sendCall s workflowID input ok = some t) : s.ledger.Step t.ledger := by
  unfold sendCall at h
  split at h
  next => cases h; exact kept_addCall rfl
  next =>
    split at h
    next => cases h; exact kept_addCall rfl
    next =>
      split at h
      next => cases h; exact kept_addCall rfl
      next =>
        split at h
        next => cases h
        next =>
          dsimp only at h
          split at h
          next => cases h; exact kept_addCall rfl
          next =>
            split at h
            next => cases h; exact kept_addCall rfl
            next => cases h; exact kept_addCall rfl

theorem ledger_callStep {call : Nat} {c : Call} {label : Label} (pending : s.calls[call]? = some c)
    (h : callStep s call c label = some t) (alone : ∀ id, id ∉ s.issued → s.running.lookup id = none) :
    s.ledger.Step t.ledger := by
  unfold callStep at h
  split at h
  next => exact ledger_reserve pending h (alone _)
  next workflow workspace r _ ok =>
    split at h
    next =>
      split at h
      next store R write runner =>
        cases h
        obtain ⟨absent, present, other, _⟩ := Store.createWorkflow_eq write
        have held := reservation_of_call pending
        have step := Ledger.Step.created (i := call) held (ledger_entry runner)
        refine cast (congrArg _ ?_) step
        have moved := ledger_setRunner (s := { s with store }) runner { R with pc := .loop }
        have freed := @reservation_update ({ s with store }.setRunner r { R with pc := .loop }) call _
          (.returned (.created workflow)) pending
        ext1
        case entry => exact (congrArg Ledger.entry moved).symm
        case reservation => exact freed.symm
        case stored =>
          funext W
          by_cases hW : W = workflow.id
          · subst hW
            simp [State.ledger, State.setCall, State.setRunner, present]
          · simp [State.ledger, State.setCall, State.setRunner, hW, other W hW]
        all_goals rfl
      next => cases h
    next =>
      cases h
      refine .kept rfl (Nat.le_refl _) rfl rfl (fun j d hj => ?_) (fun _ h => h) fun _ h => h
      rw [reservation_update pending] at hj
      by_cases hi : j = call
      · subst hi
        rw [Function.update_self] at hj
        rw [reservation_of_call pending]
        exact hj
      · rwa [Function.update_of_ne hi] at hj
  next id workspace r _ =>
    split at h
    next => cases h
    next R runner =>
      cases h
      have held := reservation_of_call pending
      have step := Ledger.Step.rolledBack (i := call) held (ledger_entry runner) (count_erase_le s.running id)
      refine cast (congrArg _ ?_) step
      have moved := ledger_setRunner
        (s := { s with running := s.running.erase id, workspaces := s.workspaces.erase workspace }) runner
        { R with cancelled := true, pc := .done }
      have freed := @reservation_update
        ({ s with
          running := s.running.erase id
          workspaces := s.workspaces.erase workspace }.setRunner r { R with cancelled := true, pc := .done })
        call _ (.failed .store) pending
      ext1
      case running => exact (lookup_erase_eq _ _).symm
      case workspaces => exact (lookup_erase_eq _ _).symm
      case entry => exact (congrArg Ledger.entry moved).symm
      case reservation => exact freed.symm
      all_goals rfl
  next =>
    split at h
    next =>
      split at h
      next => cases h
      next posted =>
        cases h
        exact kept_write rfl (stored_of_sameProgress (Store.sameProgress_addMessage posted))
    next => cases h; exact kept_setCall rfl
  next =>
    split at h
    next => exact ledger_sendAgent h
    next => cases h; exact kept_setCall rfl
  next id _ =>
    cases h
    have same := ledger_cancelRunner s id
    rw [← same]
    exact kept_setCall rfl
  next id _ ok =>
    split at h
    next =>
      cases h
      exact kept_write rfl fun W hW => hW
    next => cases h; exact kept_setCall rfl
  next =>
    split at h
    next =>
      split at h
      next => cases h
      next write =>
        cases h
        exact kept_write rfl
          (stored_of_status (Store.setWorkflowStatus_exists write) (Store.setWorkflowStatus_eq write).2.1)
    next => cases h; exact kept_setCall rfl
  next => cases h

/-- A runner that leaves the registry, with a store that has no new workflow. -/
theorem ledger_leave {r : Nat} {R : Runner} {store : Store} {pc : RunnerPc} (runner : s.runners[r]? = some R)
    (working : R.pc.standing = .working ∨ R.pc.standing = .left)
    (next : pc.standing = .left ∨ pc.standing = .done)
    (hs : ∀ W, store.statusOf W ≠ none ↔ s.store.statusOf W ≠ none) :
    s.ledger.Step (({ s with store }.release r R).setRunner r { R with pc }).ledger := by
  obtain ⟨count, fewer, released⟩ := ledger_release { s with store } r R
  have there : ({ s with store }.release r R).runners[r]? = some R := by
    rw [release_runners]
    exact runner
  have stored : { s with store }.ledger = s.ledger := by
    ext1
    case stored =>
      funext W
      exact propext (hs W)
    all_goals rfl
  rw [ledger_setRunner there, released, stored]
  exact .released (ledger_entry runner) working next (by rw [stored] at fewer; exact fewer)

theorem ledger_runnerStep {host : Host} {r : Nat} {R : Runner} {input : RunnerInput}
    (runner : s.runners[r]? = some R) (h : runnerStep host s r R input = some t) :
    s.ledger.Step t.ledger := by
  have finishing : ∀ written, R.pc = .finish → finishSection s r R written = some t → s.ledger.Step t.ledger := by
    intro written at_finish h
    have working : R.entry.standing = .working := by simp [Runner.entry, at_finish, RunnerPc.standing]
    unfold finishSection at h
    split at h
    next => cases h
    next read =>
      split at h
      next =>
        cases h
        rw [ledger_setRunner runner]
        exact .moved (ledger_entry runner) working (Or.inl rfl) fun _ h => h
      next =>
        cases h
        refine ledger_leave runner (Or.inl working) (Or.inl rfl) fun W => ?_
        obtain ⟨store, write⟩ := Store.setWorkflowStatus_of_read .completed s.now read
        have other := (Store.setWorkflowStatus_eq write).2.1
        have present := (Store.setWorkflowStatus_eq write).1
        cases written with
        | false => rfl
        | true =>
          simp only [if_true, write, ignoreError]
          by_cases hW : W = R.workflowID
          · subst hW
            simp [present, Store.setWorkflowStatus_exists write]
          · rw [other W hW]
  unfold runnerStep at h
  split at h
  next at_finish => exact finishing true at_finish h
  next at_finish => exact finishing false at_finish h
  next at_finish =>
    cases h
    rw [ledger_setRunner runner]
    exact .moved (ledger_entry runner) (by simp [Runner.entry, at_finish, RunnerPc.standing]) (Or.inr rfl)
      fun _ h => h
  next at_publish =>
    cases h
    rw [ledger_noteSession, ledger_setRunner runner]
    exact .moved (ledger_entry runner) (by simp [Runner.entry, at_publish, RunnerPc.standing]) (Or.inl rfl)
      fun _ h => h
  next at_cleanup =>
    cases h
    exact @ledger_leave _ _ _ s.store _ runner (Or.inr (by simp [at_cleanup, RunnerPc.standing])) (Or.inr rfl)
      fun _ => Iff.rfl
  next =>
    obtain ⟨⟨pc, store, sessions⟩, advanced, ht⟩ := Option.map_eq_some_iff.mp h
    cases ht
    have progress := progress_of_advance advanced
    obtain ⟨working, next⟩ := standing_of_progress progress
    have moved := ledger_setRunner (s := { s with store, sessions }) runner { R with pc }
    have step := Ledger.Step.moved (b := s.ledger) (ledger_entry runner) working next (stored_of_progress progress)
    refine cast (congrArg _ ?_) step
    ext1
    case entry => exact (congrArg Ledger.entry moved).symm
    all_goals rfl

/-- Every step of the coordinator is a step of the ledger. -/
theorem ledger_step {host : Host} {label : Label} (h : step host s label = some t)
    (alone : ∀ id, id ∉ s.issued → s.running.lookup id = none) : s.ledger.Step t.ledger := by
  have same : ∀ {u : State}, u.ledger = s.ledger → s.ledger.Step u.ledger := by
    intro u hu
    rw [hu]
    exact .kept rfl (Nat.le_refl _) rfl rfl (fun _ _ h => h) (fun _ h => h) fun _ h => h
  unfold step at h
  split at h
  next => exact ledger_createCall h
  next => exact ledger_send h
  next =>
    unfold cancelCall at h
    split at h
    next => cases h; exact kept_addCall rfl
    next =>
      split at h
      next => cases h
      next =>
        split at h
        next => cases h; exact kept_addCall rfl
        next => cases h; exact kept_addCall rfl
  next =>
    obtain ⟨R, runner, h⟩ := Option.bind_eq_some_iff.mp h
    exact ledger_runnerStep runner h
  next =>
    split at h
    next => cases h; exact same rfl
    next => cases h
  next => cases h; exact same rfl
  next => cases h; exact same rfl
  next =>
    obtain ⟨call, _, h⟩ := Option.bind_eq_some_iff.mp h
    obtain ⟨c, pending, h⟩ := Option.bind_eq_some_iff.mp h
    exact ledger_callStep pending h alone

end

end TermLinks.Coordinator
