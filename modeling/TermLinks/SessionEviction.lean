import TermLinks.SessionRetention

namespace TermLinks.SessionManager

/-- The steps of one call, with nobody else about. -/
def OwnLabels (labels : List Label) : Prop := ∀ label ∈ labels, label.ofStart = true

section

variable {m t : Manager} {labels : List Label} {error : StartError}

theorem own_cons {label : Label} (own : OwnLabels (label :: labels))
    (run : exec Manager.step m (label :: labels) = some t) :
    ∃ u, m.step label = some u ∧ m.Own u ∧ exec Manager.step u labels = some t ∧ OwnLabels labels := by
  obtain ⟨here, later⟩ := List.forall_mem_cons.mp own
  obtain ⟨u, step, run⟩ := exec_cons_iff.mp run
  refine ⟨u, step, ?_, run, later⟩
  cases step_moves step with
  | called _ => cases here
  | own _ move => exact move
  | acted _ _ => cases here
  | read other =>
    rw [here] at other
    cases other

/-- A call that has returned takes no step. -/
theorem exec_returned {result : Except StartError String} (pc : m.start = .returned result)
    (own : OwnLabels labels) (run : exec Manager.step m labels = some t) : t = m := by
  cases labels with
  | nil => exact (Option.some.inj run).symm
  | cons label labels =>
    obtain ⟨u, _, move, _⟩ := own_cons own run
    cases move with
    | _ there => rw [pc] at there; cases there

/-- A session that is started is stored, and the call returns its id. -/
theorem insert_returns {options : StartOptions} {id : String} (pc : m.start = .inserting options id)
    (own : OwnLabels labels) (run : exec Manager.step m labels = some t) :
    t.start ≠ .returned (.error error) := by
  intro failed
  cases labels with
  | nil =>
    cases Option.some.inj run
    rw [pc] at failed
    cases failed
  | cons label labels =>
    obtain ⟨u, _, move, run, later⟩ := own_cons own run
    cases move with
    | inserted there =>
      rw [exec_returned rfl later run] at failed
      cases failed
    | _ there => rw [pc] at there; cases there

/-- Once there is room a call that fails has not touched the table. -/
theorem spawn_fails {options : StartOptions} {id : String} (pc : m.start = .spawning options id)
    (own : OwnLabels labels)
    (run : exec Manager.step m labels = some t) (failed : t.start = .returned (.error error)) :
    t.sessions = m.sessions := by
  cases labels with
  | nil =>
    cases Option.some.inj run
    rfl
  | cons label labels =>
    obtain ⟨u, _, move, run, later⟩ := own_cons own run
    cases move with
    | unspawned there => rw [exec_returned rfl later run]
    | spawned there => exact absurd failed (insert_returns rfl later run)
    | _ there => rw [pc] at there; cases there

theorem draw_fails {options : StartOptions} (pc : m.start = .drawing options) (own : OwnLabels labels)
    (run : exec Manager.step m labels = some t) (failed : t.start = .returned (.error error)) :
    t.sessions = m.sessions := by
  cases labels with
  | nil =>
    cases Option.some.inj run
    rfl
  | cons label labels =>
    obtain ⟨u, _, move, run, later⟩ := own_cons own run
    cases move with
    | undrawn there => rw [exec_returned rfl later run]
    | drawn there fresh =>
      have kept := spawn_fails rfl later run failed
      exact kept
    | _ there => rw [pc] at there; cases there

/-- With a full table the loop takes a completed session out, if there is one, before the call can fail. -/
theorem scan_fails {options : StartOptions} {scan : Scan} (h : m.Kept) (pc : m.start = .scanning options scan)
    (began : scan.began = m.sessions) (own : OwnLabels labels) (run : exec Manager.step m labels = some t)
    (failed : t.start = .returned (.error error)) :
    t.sessions = m.sessions ↔ ∀ entry ∈ m.sessions, entry.running = true := by
  induction labels generalizing m scan with
  | nil =>
    cases Option.some.inj run
    rw [pc] at failed
    cases failed
  | cons label labels ih =>
    obtain ⟨u, _, move, run, later⟩ := own_cons own run
    have next := own_kept h move
    have sound := h.start
    rw [pc] at sound
    cases move with
    | @visited _ visited id entry there unseen here =>
      rw [pc] at there
      cases there
      have rest := ih next rfl ((visit_unseen scan entry).2.trans began) later run
      exact rest
    | limited there all oldest =>
      rw [pc] at there
      cases there
      rw [exec_returned rfl later run]
      refine ⟨fun _ entry member => ?_, fun _ => rfl⟩
      cases running : entry.running with
      | true => rfl
      | false =>
        obtain ⟨id, time, found, _⟩ := sound.seen entry (began ▸ member) (by rw [all]; exact List.not_mem_nil) running
        rw [oldest] at found
        cases found
    | @dropped _ _ id time there all oldest =>
      rw [pc] at there
      cases there
      obtain ⟨entry, member, same, _, ended⟩ := sound.found id time oldest
      have few := (@delete_kept m options _ _ _ h.nodup sound oldest).2
      have room : (m.delete id).makeRoom options = { m.delete id with start := .drawing options } := by
        rw [Manager.makeRoom, if_neg (by omega)]
      rw [room] at run
      rw [draw_fails rfl later run failed]
      constructor
      · intro kept
        have full := sound.full
        rw [← kept] at full
        exact absurd full (Nat.ne_of_lt few)
      · intro all
        rw [all entry member] at ended
        cases ended
    | _ there => rw [pc] at there; cases there

/-- A call that has passed its checks leaves the table as it was, where it fails, unless that was full and held a
completed session. -/
theorem room_fails {options : StartOptions} (h : m.Kept) (pc : m.start = .makingRoom options)
    (own : OwnLabels labels)
    (run : exec Manager.step m labels = some t) (failed : t.start = .returned (.error error)) :
    t.sessions = m.sessions ↔ m.sessions.length < maxSessions ∨
      ∀ entry ∈ m.sessions, entry.running = true := by
  cases labels with
  | nil =>
    cases Option.some.inj run
    rw [pc] at failed
    cases failed
  | cons label labels =>
    obtain ⟨u, _, move, run, later⟩ := own_cons own run
    have next := own_kept h move
    cases move with
    | @locked options there =>
      by_cases few : m.sessions.length < maxSessions
      · rw [Manager.makeRoom, if_neg (by simpa using few)] at run
        rw [draw_fails rfl later run failed]
        exact ⟨fun _ => .inl few, fun _ => rfl⟩
      · rw [Manager.makeRoom, if_pos (by simpa using few)] at run next
        rw [scan_fails next rfl rfl later run failed]
        exact ⟨.inr, fun h => h.resolve_left few⟩
    | _ there => rw [pc] at there; cases there

end

/-- A call of `Start` that fails leaves the table as it was, unless that was full, held a completed session, and the
failure came after the checks. -/
theorem failed_start_keeps {labels rest : List Label} {m t : Manager} {options : StartOptions} {host : Host}
    {error : StartError} (run : exec Manager.step Manager.new labels = some m)
    (call : exec Manager.step m (.start options :: .check host :: rest) = some t) (own : OwnLabels rest)
    (failed : t.start = .returned (.error error)) :
    t.sessions = m.sessions ↔ m.sessions.length < maxSessions ∨
      (∃ refusal, options.check host = .error refusal) ∨
      ∀ entry ∈ m.sessions, entry.running = true := by
  have kept := kept_run run
  obtain ⟨u, first, call⟩ := exec_cons_iff.mp call
  obtain ⟨v, step, call⟩ := exec_cons_iff.mp call
  have called : u = { m with start := .checking options } := by
    simp only [Manager.step] at first
    split at first
    next => exact (Option.some.inj first).symm
    next => exact (Option.some.inj first).symm
    next => cases first
  subst called
  simp only [Manager.step] at step
  cases checked : options.check host with
  | error refusal =>
    rw [checked] at step
    cases step
    rw [exec_returned rfl own call]
    exact ⟨fun _ => .inr (.inl ⟨refusal, rfl⟩), fun _ => rfl⟩
  | ok sized =>
    rw [checked] at step
    cases step
    have passed : ∀ refusal, (Except.ok sized : Except StartError StartOptions) ≠ .error refusal := by rintro _ ⟨⟩
    have room : Manager.Kept { m with start := .makingRoom sized } := ⟨kept.bounded, kept.nodup, trivial⟩
    have whole := room_fails room rfl own call failed
    constructor
    · intro same
      exact (whole.mp same).imp_right .inr
    · rintro (few | ⟨refusal, h⟩ | all)
      · exact whole.mpr (.inl few)
      · exact absurd h (passed refusal)
      · exact whole.mpr (.inr all)

/-- A command that cannot be started. -/
def missing : StartOptions := ⟨"", ["/bin/missing"], "/", [], 0, 0⟩

/-- The call has returned with the error of its command. -/
def failedToSpawn (m : Manager) : Bool :=
  match m.start with
  | .returned (.error error) => error = .start "/bin/missing" "no such file"
  | _ => false

theorem returned_of_missing {m : Manager} (h : failedToSpawn m = true) :
    m.start = .returned (.error (.start "/bin/missing" "no such file")) := by
  unfold failedToSpawn at h
  split at h
  next error pc => rw [pc, of_decide_eq_true h]
  next => cases h

theorem failed_start_keeps_room : ∃ m t, exec Manager.step Manager.new (launch "a" 1) = some m ∧
    exec Manager.step m [.start missing, .check plainHost, .lock, .drawID (.ok "new"),
      .spawn (some "no such file")] =
      some t ∧ t.sessions = m.sessions := by
  have run : (exec Manager.step Manager.new (launch "a" 1)).any (fun m => decide (m.sessions.length = 1) &&
      (exec Manager.step m
        [.start missing, .check plainHost, .lock, .drawID (.ok "new"), .spawn (some "no such file")]).any
        failedToSpawn) = true := by
    decide
  obtain ⟨m, run, rest⟩ := (Option.any_eq_true _ _).mp run
  obtain ⟨one, rest⟩ := Bool.and_eq_true_iff.mp rest
  obtain ⟨t, call, failed⟩ := (Option.any_eq_true _ _).mp rest
  have own : OwnLabels [.lock, .drawID (.ok "new"), .spawn (some "no such file")] := by
    simp [OwnLabels, Label.ofStart]
  have returned := returned_of_missing failed
  refine ⟨m, t, run, call, (failed_start_keeps run call own returned).mpr (.inl ?_)⟩
  rw [of_decide_eq_true one]
  decide

/-- With 64 sessions, one of them completed, the failing call has cost that one. -/
theorem failed_start_evicts :
    ∃ m t entry, exec Manager.step Manager.new (crowd ++ exit (sessionID 5)) = some m ∧
    exec Manager.step m ([.start missing, .check plainHost, .lock] ++ (List.range 64).map
      (fun n => .visit (sessionID n)) ++
      [.decide, .drawID (.ok "new"), .spawn (some "no such file")]) = some t ∧
    t.start = .returned (.error (.start "/bin/missing" "no such file")) ∧
    entry ∈ m.sessions ∧ entry.running = false ∧ entry.id ∉ t.ids := by
  have run : (exec Manager.step Manager.new (crowd ++ exit (sessionID 5))).any (fun m =>
      (exec Manager.step m ([.start missing, .check plainHost, .lock] ++
        (List.range 64).map (fun n => .visit (sessionID n)) ++
          [.decide, .drawID (.ok "new"), .spawn (some "no such file")])).any fun t =>
        failedToSpawn t && m.sessions.any fun entry => decide (entry.running = false ∧ entry.id ∉ t.ids)) = true := by
    decide +kernel
  obtain ⟨m, run, rest⟩ := (Option.any_eq_true _ _).mp run
  obtain ⟨t, call, rest⟩ := (Option.any_eq_true _ _).mp rest
  obtain ⟨failed, rest⟩ := Bool.and_eq_true_iff.mp rest
  obtain ⟨entry, here, rest⟩ := List.any_eq_true.mp rest
  obtain ⟨ended, gone⟩ := of_decide_eq_true rest
  have returned := returned_of_missing failed
  exact ⟨m, t, entry, run, call, returned, here, ended, gone⟩

end TermLinks.SessionManager
