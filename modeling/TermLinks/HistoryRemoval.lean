import TermLinks.HistoryReopen

namespace TermLinks.TerminalHistory

section

variable {S : String}

/-- No entry for the session was inserted. -/
def Unborn (S : String) (s t : Store) : Prop :=
  ∀ row ∈ t.rows, row.sourceSessionID = S → ∃ old ∈ s.rows, old.id = row.id ∧ old.sourceSessionID = S

theorem unborn_refl (s : Store) : Unborn S s s := fun row hr hS => ⟨row, hr, rfl, hS⟩

theorem unborn_trans {s t u : Store} (hst : Unborn S s t) (htu : Unborn S t u) : Unborn S s u := by
  intro row hr hS
  obtain ⟨middle, hm, hid, hS⟩ := htu row hr hS
  obtain ⟨old, ho, hold, hS⟩ := hst middle hm hS
  exact ⟨old, ho, hold.trans hid, hS⟩

theorem unborn_updateWhere {s : Store} {p : SavedTerminal → Bool} {f : SavedTerminal → SavedTerminal}
    (id : ∀ row, (f row).id = row.id) (source : ∀ row, (f row).sourceSessionID = row.sourceSessionID) :
    Unborn S s { s with rows := updateWhere p f s.rows } := by
  intro row hr hS
  obtain ⟨old, ho, rfl⟩ := mem_updateWhere.mp hr
  rw [updateWhere_key source] at hS
  exact ⟨old, ho, (updateWhere_key id old).symm, hS⟩

theorem unborn_filter {s : Store} {p : SavedTerminal → Bool} :
    Unborn S s { s with rows := s.rows.filter p } :=
  fun row hr hS => ⟨row, List.mem_of_mem_filter hr, rfl, hS⟩

theorem unborn_insert {s : Store} {row : SavedTerminal} {nextID : Nat} (other : row.sourceSessionID ≠ S) :
    Unborn S s ⟨s.rows ++ [row], nextID⟩ := by
  intro new hn hS
  rcases List.mem_append.mp hn with old | last
  · exact ⟨new, old, rfl, hS⟩
  · rw [List.mem_singleton.mp last] at hS
    exact absurd hS other

theorem unborn_pruneRecent {s t : Store} (h : Unborn S s t) : Unborn S s t.pruneRecent :=
  unborn_trans h unborn_filter

theorem unborn_reconcileSession {s t : Store} {info : SessionInfo} (unfed : info.id = S → info.ended = none)
    (hr : s.reconcileSession info = .ok t) : Unborn S s t := by
  unfold Store.reconcileSession at hr
  split at hr
  next => cases hr; exact unborn_refl s
  next ended he =>
    have other : info.id ≠ S := by
      intro same
      rw [unfed same] at he
      cases he
    unfold Store.reconcileEnded at hr
    obtain ⟨⟨name, cwd⟩, _, hr⟩ := bind_eq_ok.mp hr
    dsimp only at hr
    split at hr
    next => cases hr; exact unborn_insert other
    next =>
      split at hr
      next => cases hr; exact unborn_refl s
      next => cases hr; exact unborn_updateWhere (fun _ => rfl) fun _ => rfl

theorem unborn_foldSessions {sessions : List SessionInfo} {s t : Store}
    (unfed : ∀ info ∈ sessions, info.id = S → info.ended = none)
    (hr : sessions.foldlM Store.reconcileSession s = .ok t) : Unborn S s t := by
  induction sessions generalizing s with
  | nil => cases hr; exact unborn_refl _
  | cons info sessions ih =>
    rw [List.foldlM_cons] at hr
    obtain ⟨u, first, hr⟩ := bind_eq_ok.mp hr
    have head := unborn_reconcileSession (unfed info List.mem_cons_self) first
    exact unborn_trans head (ih (fun other ho => unfed other (List.mem_cons_of_mem _ ho)) hr)

theorem unborn_saveSession {s : Store} {info : SessionInfo} {favorite : Bool} {now : Time}
    {result : Store × Nat}
    (other : info.id ≠ S) (hr : s.saveSession info favorite now = .ok result) : Unborn S s result.1 := by
  unfold Store.saveSession at hr
  obtain ⟨⟨name, cwd⟩, _, hr⟩ := bind_eq_ok.mp hr
  cases hf : s.rows.find? (SavedTerminal.ofSession info.id) with
  | none =>
    simp only [hf] at hr
    split at hr
    next =>
      obtain ⟨_, _, hr⟩ := bind_eq_ok.mp hr
      cases hr
      exact unborn_pruneRecent (unborn_insert other)
    next => cases hr; exact unborn_pruneRecent (unborn_insert other)
  | some entry =>
    simp only [hf] at hr
    split at hr
    next =>
      obtain ⟨_, _, hr⟩ := bind_eq_ok.mp hr
      cases hr
      exact unborn_pruneRecent (unborn_updateWhere (fun _ => rfl) fun _ => rfl)
    next => cases hr; exact unborn_pruneRecent (unborn_updateWhere (fun _ => rfl) fun _ => rfl)

theorem unborn_update {s t : Store} {id : Nat} {name : Option String} {favorite : Option Bool} {now : Time}
    (hr : s.update id name favorite now = .ok t) : Unborn S s t := by
  unfold Store.update at hr
  obtain ⟨entry, _, hr⟩ := bind_eq_ok.mp hr
  dsimp only at hr
  split at hr
  next =>
    obtain ⟨_, _, hr⟩ := bind_eq_ok.mp hr
    cases hr
    exact unborn_pruneRecent (unborn_updateWhere (fun _ => rfl) fun _ => rfl)
  next => cases hr; exact unborn_pruneRecent (unborn_updateWhere (fun _ => rfl) fun _ => rfl)

theorem unborn_commit {s : Store} {r : Except StoreError Store} (h : ∀ t, r = .ok t → Unborn S s t) :
    Unborn S s (s.commit r) := by
  cases r with
  | error e => exact unborn_refl s
  | ok t => exact h t rfl

/-- The call hands no ending of the session to the store and does not save the session. -/
def Op.Spares (S : String) : Op → Prop
  | .reconcile sessions => ∀ info ∈ sessions, info.id = S → info.ended = none
  | .recordEnded info => info.id ≠ S
  | .saveSession info _ _ => info.id ≠ S
  | _ => True

theorem unborn_apply {s : Store} {op : Op} (spares : op.Spares S) : Unborn S s (s.apply op) := by
  cases op with
  | reconcile sessions =>
    refine unborn_commit fun t ht => ?_
    obtain ⟨u, folded, ht⟩ := bind_eq_ok.mp ht
    cases ht
    refine unborn_pruneRecent (unborn_trans (unborn_foldSessions spares folded) ?_)
    exact unborn_updateWhere (fun _ => rfl) fun _ => rfl
  | recordEnded info =>
    refine unborn_commit fun t ht => ?_
    cases he : info.ended with
    | none => simp [Store.recordEnded, he] at ht
    | some ended =>
      simp only [Store.recordEnded, he] at ht
      obtain ⟨u, hu, ht⟩ := bind_eq_ok.mp ht
      cases ht
      have session : s.reconcileSession info = .ok u := by
        unfold Store.reconcileSession
        rw [he]
        exact hu
      exact unborn_pruneRecent (unborn_reconcileSession (fun same => absurd same spares) session)
  | saveSession info favorite now =>
    refine unborn_commit fun t ht => ?_
    cases hs : s.saveSession info favorite now with
    | error e => simp [hs, Except.map] at ht
    | ok saved =>
      simp only [hs, Except.map] at ht
      cases ht
      exact unborn_saveSession spares hs
  | update id name favorite now => exact unborn_commit fun t ht => unborn_update ht
  | delete id =>
    refine unborn_commit fun t ht => ?_
    unfold Store.delete at ht
    split at ht
    next => cases ht; exact unborn_filter
    next => cases ht
  | markOpened id sessionID openedAt =>
    refine unborn_commit fun t ht => ?_
    unfold Store.markOpened at ht
    split at ht
    next => cases ht
    next =>
      split at ht
      next => cases ht
      next => cases ht; exact unborn_updateWhere (fun _ => rfl) fun _ => rfl
  | renameSession sessionID name now => exact unborn_updateWhere (fun _ => rfl) fun _ => rfl

end

namespace Daemon

/-- The step carries out no favorite request for the session. -/
def Unsaved (S : String) (s : Daemon) : Label → Prop
  | .saveSession call _ => ∀ info, s.favorites[call]? = some info → info.id ≠ S
  | _ => True

/-- The step hands no ending of the session to the history. -/
def Unfed (S : String) (s : Daemon) : Label → Prop
  | .reconcile call => ∀ request, s.lists[call]? = some request → ∀ info ∈ request.infos,
      info.id = S → info.ended = none
  | .recordEnded call => ∀ info, s.ended[call]? = some info → info.id ≠ S
  | _ => True

/-- The manager has let go of the session and no request still holds it. -/
structure Gone (S : String) (s : Daemon) : Prop where
  started : s.info S ≠ none
  concluded : s.alive S = false
  evicted : S ∉ s.sessions
  unlisted : ∀ request ∈ s.lists, S ∉ request.todo ∧ ∀ info ∈ request.infos, info.id ≠ S
  unrecorded : ∀ info ∈ s.ended, info.id ≠ S

end Daemon

/-- A step of the daemon makes at most one call to the store. -/
theorem store_step {S : String} {s t : Daemon} {label : Label} (h : step s label = some t) :
    t.store = s.store ∨ ∃ op : Op, t.store = s.store.apply op ∧
      (s.Unsaved S label → s.Unfed S label → op.Spares S) := by
  cases label with
  | «open» id =>
    simp only [step] at h
    split at h <;> cases h
    all_goals exact Or.inl rfl
  | check =>
    simp only [step] at h
    split at h
    next => split at h <;> cases h <;> exact Or.inl rfl
    next => cases h
  | start created =>
    simp only [step] at h
    split at h
    next =>
      obtain ⟨u, started, h⟩ := Option.map_eq_some_iff.mp h
      cases h
      obtain ⟨_, _, rfl⟩ := start_eq_some started
      exact Or.inl rfl
    next => cases h
  | startFails =>
    simp only [step] at h
    split at h <;> cases h
    exact Or.inl rfl
  | mark =>
    simp only [step] at h
    split at h
    next id created _ => cases h; exact Or.inr ⟨.markOpened id created.id created.startedAt, rfl, fun _ _ => trivial⟩
    next => cases h
  | create created =>
    have started : s.start created = some t := h
    obtain ⟨_, _, rfl⟩ := start_eq_some started
    exact Or.inl rfl
  | makeRoom id =>
    simp only [step] at h
    split at h <;> cases h
    exact Or.inl rfl
  | finish id endedAt =>
    obtain ⟨info, _, h⟩ := Option.bind_eq_some_iff.mp h
    split at h <;> cases h
    exact Or.inl rfl
  | recordEnded call =>
    obtain ⟨info, pending, h⟩ := Option.bind_eq_some_iff.mp h
    cases h
    exact Or.inr ⟨.recordEnded info, rfl, fun _ unfed => unfed info pending⟩
  | rename id name =>
    simp only [step] at h
    split at h <;> cases h
    exact Or.inl rfl
  | renameSession call now =>
    obtain ⟨⟨id, name⟩, _, h⟩ := Option.bind_eq_some_iff.mp h
    cases h
    exact Or.inr ⟨.renameSession id name now, rfl, fun _ _ => trivial⟩
  | list ids =>
    simp only [step] at h
    split at h <;> cases h
    exact Or.inl rfl
  | readInfo call =>
    obtain ⟨request, _, h⟩ := Option.bind_eq_some_iff.mp h
    obtain ⟨id, _, h⟩ := Option.bind_eq_some_iff.mp h
    obtain ⟨info, _, h⟩ := Option.bind_eq_some_iff.mp h
    cases h
    exact Or.inl rfl
  | reconcile call =>
    obtain ⟨request, pending, h⟩ := Option.bind_eq_some_iff.mp h
    split at h
    next =>
      cases h
      exact Or.inr ⟨.reconcile request.infos, rfl, fun _ unfed => unfed request pending⟩
    next => cases h
  | favorite id =>
    obtain ⟨info, _, h⟩ := Option.bind_eq_some_iff.mp h
    split at h <;> cases h
    exact Or.inl rfl
  | saveSession call now =>
    obtain ⟨info, pending, h⟩ := Option.bind_eq_some_iff.mp h
    cases h
    exact Or.inr ⟨.saveSession info true now, rfl, fun unsaved _ => unsaved info pending⟩
  | update id name favorite now => cases h; exact Or.inr ⟨.update id name favorite now, rfl, fun _ _ => trivial⟩
  | delete id => cases h; exact Or.inr ⟨.delete id, rfl, fun _ _ => trivial⟩
  | restart => cases h; exact Or.inl rfl

theorem keyed_daemon {labels : List Label} {s : Daemon} (run : exec step Daemon.initial labels = some s) :
    s.store.Keyed := by
  refine @exec_invariant _ _ _ (fun s => s.store.Keyed) (fun s label t h ht => ?_) _ _ _ keyed_empty run
  rcases store_step (S := "") ht with same | ⟨op, applied, -⟩
  · rwa [same]
  · rw [applied]
    exact keyed_apply h op

theorem unborn_run {S : String} {s t : Daemon} {labels : List Label}
    (unsaved : Along step (Daemon.Unsaved S) s labels)
    (unfed : Along step (Daemon.Unfed S) s labels) (run : exec step s labels = some t) :
    Unborn S s.store t.store := by
  induction labels generalizing s with
  | nil => cases run; exact unborn_refl _
  | cons label labels ih =>
    obtain ⟨u, first, run⟩ := exec_cons_iff.mp run
    have rest := ih (unsaved.2 u first) (unfed.2 u first) run
    rcases store_step first with same | ⟨op, applied, spares⟩
    · rwa [← same]
    · refine unborn_trans ?_ rest
      rw [applied]
      exact unborn_apply (spares unsaved.1 unfed.1)

namespace Daemon

variable {S : String} {s t : Daemon}

theorem Gone.unfed (h : s.Gone S) (label : Label) : s.Unfed S label := by
  cases label with
  | reconcile call =>
    intro request pending info hi same
    exact absurd same ((h.unlisted request (List.mem_of_getElem? pending)).2 info hi)
  | recordEnded call => exact fun info pending => h.unrecorded info (List.mem_of_getElem? pending)
  | _ => trivial

theorem Gone.kept (h : s.Gone S) (ages : Ages s t)
    (sessions : ∀ id ∈ t.sessions, id ∈ s.sessions ∨ s.info id = none)
    (lists : ∀ request ∈ t.lists, request ∈ s.lists ∨
      S ∉ request.todo ∧ ∀ info ∈ request.infos, info.id ≠ S)
    (ended : ∀ info ∈ t.ended, info ∈ s.ended ∨ info.id ≠ S) : t.Gone S := by
  obtain ⟨known, older⟩ := ages S h.started
  refine ⟨known, ?_, ?_, ?_, ?_⟩
  · rw [Bool.eq_false_iff]
    intro alive
    exact absurd (older alive) (by simp [h.concluded])
  · intro retained
    rcases sessions S retained with old | fresh
    · exact h.evicted old
    · exact h.started fresh
  · intro request hr
    rcases lists request hr with old | clear
    · exact h.unlisted request old
    · exact clear
  · intro info hi
    rcases ended info hi with old | other
    · exact h.unrecorded info old
    · exact other

theorem Gone.started_other (h : s.Gone S) {created : SessionInfo}
    (start : s.start created = some t) : t.Gone S := by
  obtain ⟨fresh, _, rfl⟩ := start_eq_some start
  refine h.kept (ages_append fresh rfl) ?_ (fun _ h => Or.inl h) fun _ h => Or.inl h
  intro id retained
  rcases List.mem_append.mp retained with old | new
  · exact Or.inl old
  · rw [List.mem_singleton.mp new]
    exact Or.inr fresh

/-- What the manager has let go of does not come back. -/
theorem Gone.step (h : s.Gone S) {label : Label} (ht : TerminalHistory.step s label = some t) : t.Gone S := by
  have same : t.objects = s.objects → t.sessions = s.sessions → (∀ request ∈ t.lists, request ∈ s.lists ∨
      S ∉ request.todo ∧ ∀ info ∈ request.infos, info.id ≠ S) → (∀ info ∈ t.ended, info ∈ s.ended) → t.Gone S := by
    intro objects sessions lists ended
    refine h.kept (ages_of_info fun id =>
      by simp only [Daemon.info, objects]) ?_ lists fun info hi => Or.inl (ended info hi)
    exact fun id hid => Or.inl (sessions ▸ hid)
  have quiet : t.objects = s.objects → t.sessions = s.sessions → t.lists = s.lists → t.ended = s.ended → t.Gone S :=
    fun objects sessions lists ended => same objects sessions (fun _ hr => Or.inl (lists ▸ hr)) fun _ hi => ended ▸ hi
  cases label with
  | «open» id =>
    simp only [TerminalHistory.step] at ht
    split at ht <;> cases ht <;> exact quiet rfl rfl rfl rfl
  | check =>
    simp only [TerminalHistory.step] at ht
    split at ht
    next => split at ht <;> cases ht <;> exact quiet rfl rfl rfl rfl
    next => cases ht
  | start created =>
    simp only [TerminalHistory.step] at ht
    split at ht
    next =>
      obtain ⟨u, started, ht⟩ := Option.map_eq_some_iff.mp ht
      cases ht
      obtain ⟨known, concluded, evicted, unlisted, unrecorded⟩ := h.started_other started
      exact ⟨known, concluded, evicted, unlisted, unrecorded⟩
    next => cases ht
  | startFails =>
    simp only [TerminalHistory.step] at ht
    split at ht <;> cases ht
    exact quiet rfl rfl rfl rfl
  | mark =>
    simp only [TerminalHistory.step] at ht
    split at ht <;> cases ht
    exact quiet rfl rfl rfl rfl
  | create created => exact h.started_other ht
  | makeRoom id =>
    simp only [TerminalHistory.step] at ht
    split at ht
    next =>
      cases ht
      refine h.kept (ages_of_info fun _ => rfl) ?_ (fun _ hr => Or.inl hr) fun _ hi => Or.inl hi
      exact fun other ho => Or.inl (List.mem_of_mem_filter ho)
    next => cases ht
  | finish id endedAt =>
    obtain ⟨info, known, ht⟩ := Option.bind_eq_some_iff.mp ht
    split at ht
    next running =>
      cases ht
      refine h.kept (ages_setInfo id (SessionInfo.finished endedAt) (fun _ => rfl)
        (by rintro _ ⟨⟩) rfl) (fun _ hi => Or.inl hi) (fun _ hr => Or.inl hr) ?_
      intro new hn
      rcases List.mem_append.mp hn with old | last
      · exact Or.inl old
      · right
        rw [List.mem_singleton.mp last]
        intro same
        have mine : info.id = S := same
        rw [info_id known] at mine
        subst mine
        have concluded := h.concluded
        simp [Daemon.alive, known, running] at concluded
    next => cases ht
  | recordEnded call =>
    obtain ⟨info, _, ht⟩ := Option.bind_eq_some_iff.mp ht
    cases ht
    exact same rfl rfl (fun _ hr => Or.inl hr) fun info hi => List.mem_of_mem_eraseIdx hi
  | rename id name =>
    simp only [TerminalHistory.step] at ht
    split at ht
    next =>
      cases ht
      exact h.kept (ages_setInfo id (SessionInfo.renamed name) (fun _ => rfl) (fun _ hr => hr) rfl)
        (fun _ hi => Or.inl hi)
        (fun _ hr => Or.inl hr) fun _ hi => Or.inl hi
    next => cases ht
  | renameSession call now =>
    obtain ⟨_, _, ht⟩ := Option.bind_eq_some_iff.mp ht
    cases ht
    exact quiet rfl rfl rfl rfl
  | list ids =>
    simp only [TerminalHistory.step] at ht
    split at ht
    next perm =>
      cases ht
      refine same rfl rfl ?_ fun _ hi => hi
      intro request hr
      rcases List.mem_append.mp hr with old | last
      · exact Or.inl old
      · right
        rw [List.mem_singleton.mp last]
        exact ⟨fun retained => h.evicted (perm.mem_iff.mp retained), fun _ hi => absurd hi List.not_mem_nil⟩
    next => cases ht
  | readInfo call =>
    obtain ⟨request, pending, ht⟩ := Option.bind_eq_some_iff.mp ht
    obtain ⟨id, next, ht⟩ := Option.bind_eq_some_iff.mp ht
    obtain ⟨info, known, ht⟩ := Option.bind_eq_some_iff.mp ht
    cases ht
    obtain ⟨todo, infos⟩ := h.unlisted request (List.mem_of_getElem? pending)
    refine same rfl rfl ?_ fun _ hi => hi
    intro other ho
    rcases List.mem_or_eq_of_mem_set ho with old | rfl
    · exact Or.inl old
    · refine Or.inr ⟨fun later => todo (List.mem_of_mem_tail later), fun seen hs => ?_⟩
      rcases List.mem_append.mp hs with before | last
      · exact infos seen before
      · rw [List.mem_singleton.mp last, info_id known]
        rintro rfl
        exact todo (List.mem_of_mem_head? next)
  | reconcile call =>
    obtain ⟨request, _, ht⟩ := Option.bind_eq_some_iff.mp ht
    split at ht
    next =>
      cases ht
      exact same rfl rfl (fun _ hr => Or.inl (List.mem_of_mem_eraseIdx hr)) fun _ hi => hi
    next => cases ht
  | favorite id =>
    obtain ⟨info, _, ht⟩ := Option.bind_eq_some_iff.mp ht
    split at ht <;> cases ht
    exact quiet rfl rfl rfl rfl
  | saveSession call now =>
    obtain ⟨info, _, ht⟩ := Option.bind_eq_some_iff.mp ht
    cases ht
    exact quiet rfl rfl rfl rfl
  | update id name favorite now => cases ht; exact quiet rfl rfl rfl rfl
  | delete id => cases ht; exact quiet rfl rfl rfl rfl
  | restart =>
    cases ht
    exact h.kept (ages_restart rfl) (fun _ hi => absurd hi List.not_mem_nil)
      (fun _ hr => absurd hr List.not_mem_nil) fun _ hi => absurd hi List.not_mem_nil

/-- Once the manager has let go of a session, no later step hands its ending over. -/
theorem Gone.along (h : s.Gone S) (labels : List Label) : Along TerminalHistory.step (Unfed S) s labels := by
  induction labels generalizing s with
  | nil => trivial
  | cons label labels ih => exact ⟨h.unfed label, fun t ht => ih (h.step ht)⟩

end Daemon

theorem not_source_of_deleted {s t : Store} {id : Nat} {S : String} (keyed : s.Keyed)
    (deleted : s.delete id = .ok t) (source : ∃ row ∈ s.rows, row.id = id ∧ row.sourceSessionID = S) :
    ∀ row ∈ t.rows, row.sourceSessionID ≠ S := by
  obtain ⟨gone, hg, hid, hS⟩ := source
  unfold Store.delete at deleted
  split at deleted
  next =>
    cases deleted
    intro row hr same
    obtain ⟨hr, kept⟩ := List.mem_filter.mp hr
    have equal := List.inj_on_of_nodup_map keyed.sources hr hg (same.trans hS.symm)
    rw [equal, hid] at kept
    simp at kept
  next => cases deleted

/-- After an entry of a session is removed, no entry for the session is inserted as long as the user does not
save it and no request hands its ending over again; none does once the manager has let go of the session. -/
theorem removed_stays_removed {S : String} {id : Nat} {before after : List Label} {s d t : Daemon}
    (run : exec step Daemon.initial before = some s) (deleted : ∃ store, s.store.delete id = .ok store)
    (removal : step s (.delete id) = some d) (unsaved : Along step (Daemon.Unsaved S) d after)
    (unfed : Along step (Daemon.Unfed S) d after ∨ d.Gone S) (later : exec step d after = some t) :
    (∀ row ∈ t.store.rows, row.sourceSessionID = S →
      ∃ old ∈ d.store.rows, old.id = row.id ∧ old.sourceSessionID = S) ∧
    ((∃ row ∈ s.store.rows, row.id = id ∧ row.sourceSessionID = S) →
      ∀ row ∈ t.store.rows, row.sourceSessionID ≠ S) := by
  have unfed : Along step (Daemon.Unfed S) d after := unfed.elim (fun h => h) fun gone => gone.along after
  obtain ⟨store, deleted⟩ := deleted
  have written : d.store = store := by
    cases removal
    simp only [Store.apply, Store.commit, deleted]
  have unborn := unborn_run unsaved unfed later
  refine ⟨unborn, fun source row hr same => ?_⟩
  obtain ⟨old, ho, -, hS⟩ := unborn row hr same
  rw [written] at ho
  exact not_source_of_deleted (keyed_daemon run) deleted source old ho hS

/-- A terminal ends and is saved. -/
def endedShell : List Label :=
  [.create (shell "s1" 0 first_named), .finish "s1" ⟨2026, 9, 3, 12, 1, 0, 0⟩, .recordEnded 0]

/-- Another shell is started and ends, and a list request reads and reconciles it. -/
def laterRequest : List Label :=
  [.create (shell "s2" 2 second_named), .finish "s2" ⟨2026, 9, 3, 12, 3, 0, 0⟩, .list ["s2"], .readInfo 0, .reconcile 0]

instance (S : String) (s : Daemon) : DecidablePred (s.Unsaved S)
  | .saveSession call _ => decidable_of_iff ((s.favorites[call]?).all fun info => info.id ≠ S) (by
      simp [Daemon.Unsaved, Option.all_eq_true])
  | .open _ | .check | .start _ | .startFails | .mark | .create _ | .makeRoom _ | .finish _ _
  | .recordEnded _ | .rename _ _ | .renameSession _ _ | .list _ | .readInfo _ | .reconcile _ | .favorite _
  | .update _ _ _ _ | .delete _ | .restart => isTrue trivial

theorem removed_stays_removed_after_restart : ∃ s d t,
    exec step Daemon.initial (endedShell ++ [.restart]) = some s ∧ step s (.delete 0) = some d ∧
      exec step d laterRequest = some t ∧ t.store.rows.map SavedTerminal.sourceSessionID = ["s2"] ∧
      (∀ row ∈ t.store.rows, row.sourceSessionID = "s1" →
        ∃ old ∈ d.store.rows, old.id = row.id ∧ old.sourceSessionID = "s1") ∧
      ∀ row ∈ t.store.rows, row.sourceSessionID ≠ "s1" := by
  have run : (exec step Daemon.initial (endedShell ++ [.restart])).any (fun s =>
      (s.store.delete 0).isOk && s.store.rows.any (fun row => row.id = 0 ∧ row.sourceSessionID = "s1") &&
        (step s (.delete 0)).any fun d => (d.info "s1").isSome && !d.alive "s1" && d.sessions = [] && d.lists = [] &&
          d.ended = [] && decide (Along step (Daemon.Unsaved "s1") d laterRequest) &&
          (exec step d laterRequest).any fun t => t.store.rows.map SavedTerminal.sourceSessionID = ["s2"]) = true := by
    decide
  obtain ⟨s, run, hs⟩ := (Option.any_eq_true _ _).mp run
  simp only [Bool.and_eq_true] at hs
  obtain ⟨⟨deleted, linked⟩, removal⟩ := hs
  obtain ⟨d, removal, hd⟩ := (Option.any_eq_true _ _).mp removal
  simp only [Bool.and_eq_true, decide_eq_true_eq, Bool.not_eq_true'] at hd
  obtain ⟨⟨⟨⟨⟨⟨started, concluded⟩, evicted⟩, lists⟩, ended⟩, unsaved⟩, later⟩ := hd
  obtain ⟨t, later, other⟩ := (Option.any_eq_true _ _).mp later
  obtain ⟨row, hr, hrow⟩ := List.any_eq_true.mp linked
  have gone : d.Gone "s1" := by
    refine ⟨Option.isSome_iff_ne_none.mp started, concluded, ?_, ?_, ?_⟩
    · rw [evicted]
      exact List.not_mem_nil
    · rw [lists]
      exact fun request hr => absurd hr List.not_mem_nil
    · rw [ended]
      exact fun info hi => absurd hi List.not_mem_nil
  have deleted : ∃ store, s.store.delete 0 = .ok store := by
    cases hd : s.store.delete 0 with
    | ok store => exact ⟨store, rfl⟩
    | error e => rw [hd] at deleted; cases deleted
  obtain ⟨unborn, absent⟩ := removed_stays_removed run deleted removal unsaved (Or.inr gone) later
  exact ⟨s, d, t, run, removal, later, of_decide_eq_true other, unborn, absent ⟨row, hr, of_decide_eq_true hrow⟩⟩

/-- The manager still has the ended session, so the next list request inserts its entry again. -/
theorem list_request_restores_removed_entry :
    ¬ ∀ (S : String) (id : Nat) (before after : List Label) (s d t : Daemon),
      exec step Daemon.initial before = some s →
      (∃ row ∈ s.store.rows, row.id = id ∧ row.sourceSessionID = S) →
      (∃ info, s.info S = some info ∧ info.ended ≠ none) →
      (∃ store, s.store.delete id = .ok store) → step s (.delete id) = some d →
      Along step (Daemon.Unsaved S) d after → exec step d after = some t →
      ∀ row ∈ t.store.rows, row.sourceSessionID = S → ∃ old ∈ d.store.rows, old.id = row.id := by
  intro h
  have run : (exec step Daemon.initial endedShell).any (fun s =>
      (s.store.delete 0).isOk && s.store.rows.any (fun row => row.id = 0 ∧ row.sourceSessionID = "s1") &&
        (s.info "s1").any (fun info => info.ended.isSome) && (step s (.delete 0)).any fun d => d.store.rows = [] &&
          decide (Along step (Daemon.Unsaved "s1") d [.list ["s1"], .readInfo 0, .reconcile 0]) &&
          (exec step d [.list ["s1"], .readInfo 0, .reconcile 0]).any fun t =>
            t.store.rows.any fun row => row.sourceSessionID = "s1") = true := by
    decide
  obtain ⟨s, run, hs⟩ := (Option.any_eq_true _ _).mp run
  simp only [Bool.and_eq_true] at hs
  obtain ⟨⟨⟨deleted, linked⟩, concluded⟩, removal⟩ := hs
  obtain ⟨d, removal, hd⟩ := (Option.any_eq_true _ _).mp removal
  simp only [Bool.and_eq_true, decide_eq_true_eq] at hd
  obtain ⟨⟨empty, unsaved⟩, later⟩ := hd
  obtain ⟨t, later, restored⟩ := (Option.any_eq_true _ _).mp later
  obtain ⟨row, hr, hrow⟩ := List.any_eq_true.mp linked
  obtain ⟨info, hi, ended⟩ := (Option.any_eq_true _ _).mp concluded
  obtain ⟨again, ha, hS⟩ := List.any_eq_true.mp restored
  have deleted : ∃ store, s.store.delete 0 = .ok store := by
    cases hd : s.store.delete 0 with
    | ok store => exact ⟨store, rfl⟩
    | error e => rw [hd] at deleted; cases deleted
  obtain ⟨old, ho, -⟩ := h "s1" 0 endedShell _ s d t run ⟨row, hr, of_decide_eq_true hrow⟩
    ⟨info, hi, Option.isSome_iff_ne_none.mp ended⟩ deleted removal unsaved later again ha (of_decide_eq_true hS)
  rw [empty] at ho
  exact absurd ho List.not_mem_nil

end TermLinks.TerminalHistory
