import TermLinks.HistoryOpen

namespace TermLinks.TerminalHistory

/-- The session has not ended. -/
def Daemon.alive (s : Daemon) (id : String) : Bool := (s.info id).any SessionInfo.running

theorem isRunning_eq {s : Daemon} {id : String} :
    s.isRunning id = (decide (id ∈ s.sessions) && s.alive id) := rfl

theorem info_id {s : Daemon} {id : String} {info : SessionInfo} (h : s.info id = some info) : info.id = id :=
  (findRow_mem h).2

theorem info_of_alive {s : Daemon} {id : String} (h : s.alive id = true) : ∃ info, s.info id = some info := by
  obtain ⟨info, hi, _⟩ := (Option.any_eq_true _ _).mp h
  exact ⟨info, hi⟩

theorem info_setInfo {s : Daemon} {id : String} (f : SessionInfo → SessionInfo)
    (hf : ∀ info, (f info).id = info.id)
    (j : String) : (s.setInfo id f).info j = if j = id then (s.info id).map f else s.info j := by
  show findRow SessionInfo.id j (updateWhere _ f s.objects) = _
  split
  next he => subst he; exact findRow_updateWhere_same hf
  next hn => exact findRow_updateWhere_other hf hn

theorem info_append {s : Daemon} {created : SessionInfo} (h : s.info created.id = none) (j : String) :
    findRow SessionInfo.id j (s.objects ++ [created]) = if j = created.id then some created
      else s.info j := by
  rw [findRow_append]
  split
  next he =>
    subst he
    rw [if_pos rfl]
    show (s.info created.id).or (some created) = some created
    rw [h]
    rfl
  next hn => rw [if_neg (Ne.symm hn), Option.or_none]; rfl

/-- Sessions stay known and do not come back to life. -/
def Ages (s t : Daemon) : Prop :=
  ∀ id, s.info id ≠ none → t.info id ≠ none ∧ (t.alive id = true → s.alive id = true)

theorem ages_of_info {s t : Daemon} (h : ∀ id, t.info id = s.info id) : Ages s t := by
  intro id hi
  refine ⟨h id ▸ hi, ?_⟩
  intro ha
  rw [Daemon.alive, h id] at ha
  exact ha

theorem ages_setInfo {s t : Daemon} (id : String) (f : SessionInfo → SessionInfo)
    (hf : ∀ info, (f info).id = info.id) (hr : ∀ info, (f info).running = true → info.running = true)
    (ht : t.objects = (s.setInfo id f).objects) : Ages s t := by
  have info : ∀ j, t.info j = if j = id then (s.info id).map f else s.info j := by
    intro j
    rw [← info_setInfo f hf]
    simp only [Daemon.info, ht]
  intro j hi
  rw [Daemon.alive, Daemon.alive, info]
  split
  next he =>
    subst he
    obtain ⟨i, hi⟩ := Option.ne_none_iff_exists'.mp hi
    rw [hi]
    exact ⟨nofun, fun ha => hr i ha⟩
  next => exact ⟨hi, fun ha => ha⟩

theorem ages_append {s t : Daemon} {created : SessionInfo} (h : s.info created.id = none)
    (ht : t.objects = s.objects ++ [created]) : Ages s t := by
  intro j hi
  have hn : j ≠ created.id := by
    intro he
    exact hi (he ▸ h)
  have info : t.info j = s.info j := by
    rw [Daemon.info, ht, info_append h, if_neg hn]
  rw [Daemon.alive, info]
  exact ⟨hi, fun ha => ha⟩

theorem start_eq_some {s t : Daemon} {created : SessionInfo} (h : s.start created = some t) :
    s.info created.id = none ∧ created.running = true ∧
      t = { s with objects := s.objects ++ [created], sessions := s.sessions ++ [created.id] } := by
  unfold Daemon.start at h
  split at h
  next hc => cases Option.some.inj h; exact ⟨hc.2.2.2, hc.2.1, rfl⟩
  next => cases h

/-- What a request saw of a session that has ended stays true. -/
def Seen (s : Daemon) (info : SessionInfo) : Prop :=
  s.info info.id ≠ none ∧ (info.ended ≠ none → s.alive info.id = false)

theorem seen_of_ages {s t : Daemon} {info : SessionInfo} (h : Ages s t) (hs : Seen s info) : Seen t info := by
  obtain ⟨known, older⟩ := h info.id hs.1
  refine ⟨known, ?_⟩
  intro he
  rw [Bool.eq_false_iff]
  intro ha
  exact absurd (older ha) (by simp [hs.2 he])

theorem seen_of_info {s : Daemon} {id : String} {info : SessionInfo} (h : s.info id = some info) :
    Seen s info := by
  rw [← info_id h] at h
  refine ⟨by simp [h], ?_⟩
  intro he
  cases hr : info.running with
  | false => simp [Daemon.alive, h, hr]
  | true => simp [SessionInfo.ended, hr] at he

/-- The requests under way have seen the sessions as they were. -/
structure Informed (s : Daemon) : Prop where
  retained : ∀ id, s.alive id = true → id ∈ s.sessions
  listed : ∀ call ∈ s.lists, ∀ info ∈ call.infos, Seen s info
  ended : ∀ info ∈ s.ended, Seen s info

theorem informed_of_ages {s t : Daemon} (h : Informed s) (ages : Ages s t)
    (fresh : ∀ id, s.info id = none → t.alive id = true → id ∈ t.sessions)
    (sessions : ∀ id ∈ s.sessions, s.alive id = true → t.alive id = true → id ∈ t.sessions)
    (lists : ∀ call ∈ t.lists, ∀ info ∈ call.infos, (∃ call ∈ s.lists, info ∈ call.infos) ∨ Seen t info)
    (ended : ∀ info ∈ t.ended, info ∈ s.ended ∨ Seen t info) : Informed t where
  retained := by
    intro id ha
    by_cases hi : s.info id = none
    · exact fresh id hi ha
    · have before := (ages id hi).2 ha
      exact sessions id (h.retained id before) before ha
  listed := by
    intro call hc info hi
    rcases lists call hc info hi with ⟨old, ho, hm⟩ | seen
    · exact seen_of_ages ages (h.listed old ho info hm)
    · exact seen
  ended := by
    intro info hi
    rcases ended info hi with ho | seen
    · exact seen_of_ages ages (h.ended info ho)
    · exact seen

/-- A list request reconciles with a snapshot that has every running session a row is linked to. -/
def ListsLinked (s : Daemon) : Label → Prop
  | .reconcile call => ∀ request ∈ s.lists[call]?, ∀ row ∈ s.store.rows,
      s.alive row.activeSessionID = true → row.activeSessionID ∈ request.infos.map SessionInfo.id
  | _ => True

instance (s : Daemon) : DecidablePred (ListsLinked s)
  | .reconcile call => inferInstanceAs (Decidable (∀ request ∈ s.lists[call]?, ∀ row ∈ s.store.rows,
      s.alive row.activeSessionID = true → row.activeSessionID ∈ request.infos.map SessionInfo.id))
  | .open _ | .check | .start _ | .startFails | .mark | .create _ | .makeRoom _ | .finish _ _
  | .recordEnded _ | .rename _ _ | .renameSession _ _ | .list _ | .readInfo _ | .favorite _
  | .saveSession _ _ | .update _ _ _ _ | .delete _ | .restart => isTrue trivial

/-- The steps of open requests. -/
def Label.opening : Label → Bool
  | .open _ | .check | .start _ | .startFails | .mark => true
  | _ => false

/-- What any other step does to the links. -/
structure Background (s t : Daemon) : Prop where
  opened : t.opened = s.opened
  opener : t.opener = s.opener ∨ (t.opener = .idle ∧ ∀ id, t.alive id = false)
  ages : Ages s t
  links : LinksKept (fun a => s.alive a = false) s.store t.store
  keyed : s.store.Keyed → t.store.Keyed

/-- A step that leaves the store and the open request. -/
theorem background_of_ages {s t : Daemon} (ages : Ages s t) (opened : t.opened = s.opened)
    (opener : t.opener = s.opener) (store : t.store = s.store) : Background s t where
  opened := opened
  opener := Or.inl opener
  ages := ages
  links := by
    rw [store]
    exact linksKept_refl s.store
  keyed := by
    intro h
    rw [store]
    exact h

/-- A step that makes one call to the store. -/
theorem background_of_apply {s t : Daemon} (op : Op) (objects : t.objects = s.objects)
    (opened : t.opened = s.opened) (opener : t.opener = s.opener) (store : t.store = s.store.apply op)
    (plain : ∀ id sessionID openedAt, op ≠ .markOpened id sessionID openedAt)
    (clears : ∀ row ∈ s.store.rows, op.Clears row.activeSessionID → s.alive row.activeSessionID = false) :
    Background s t where
  opened := opened
  opener := Or.inl opener
  ages := ages_of_info fun id => by simp only [Daemon.info, objects]
  links := by
    rw [store]
    exact linksKept_mono clears (linksKept_apply plain)
  keyed := by
    intro h
    rw [store]
    exact keyed_apply h op

theorem not_alive_of_none {s : Daemon} {id : String} (h : s.info id = none) : s.alive id = false := by
  rw [Daemon.alive, h]
  rfl

theorem informed_of_same {s t : Daemon} (h : Informed s) (objects : t.objects = s.objects)
    (sessions : t.sessions = s.sessions) (lists : ∀ call ∈ t.lists, call ∈ s.lists)
    (ended : ∀ info ∈ t.ended, info ∈ s.ended) : Informed t := by
  have info : ∀ id, t.info id = s.info id := fun id => by simp only [Daemon.info, objects]
  have alive : ∀ id, t.alive id = s.alive id := fun id => by simp only [Daemon.alive, info]
  refine informed_of_ages h (ages_of_info info) ?_ ?_ ?_ ?_
  · intro id hn ha
    rw [alive, not_alive_of_none hn] at ha
    cases ha
  · intro id hs _ _
    exact sessions ▸ hs
  · intro call hc i hi
    exact Or.inl ⟨call, lists call hc, hi⟩
  · intro i hi
    exact Or.inl (ended i hi)

theorem informed_start {s t : Daemon} {created : SessionInfo} (h : Informed s) (hn : s.info created.id = none)
    (objects : t.objects = s.objects ++ [created]) (sessions : t.sessions = s.sessions ++ [created.id])
    (lists : t.lists = s.lists) (ended : t.ended = s.ended) : Informed t := by
  refine informed_of_ages h (ages_append hn objects) ?_ ?_ ?_ ?_
  · intro id hi ha
    have same : id = created.id := by
      by_contra other
      obtain ⟨i, hi'⟩ := info_of_alive ha
      rw [Daemon.info, objects, info_append hn, if_neg other, hi] at hi'
      cases hi'
    rw [sessions, same]
    exact List.mem_append_right _ List.mem_cons_self
  · intro id hs _ _
    exact sessions ▸ List.mem_append_left _ hs
  · intro call hc i hi
    exact Or.inl ⟨call, lists ▸ hc, hi⟩
  · intro i hi
    exact Or.inl (ended ▸ hi)

theorem informed_setInfo {s t : Daemon} (id : String) (f : SessionInfo → SessionInfo) (h : Informed s)
    (hf : ∀ info, (f info).id = info.id) (ages : Ages s t) (objects : t.objects = (s.setInfo id f).objects)
    (sessions : t.sessions = s.sessions)
    (lists : ∀ call ∈ t.lists, ∀ info ∈ call.infos, (∃ call ∈ s.lists, info ∈ call.infos) ∨ Seen t info)
    (ended : ∀ info ∈ t.ended, info ∈ s.ended ∨ Seen t info) : Informed t := by
  refine informed_of_ages h ages ?_ ?_ lists ended
  · intro j hn ha
    have none : t.info j = none := by
      have changed : t.info j = (s.setInfo id f).info j := by simp only [Daemon.info, objects]
      rw [changed, info_setInfo f hf]
      split
      next he => rw [← he, hn]; rfl
      next => exact hn
    rw [not_alive_of_none none] at ha
    cases ha
  · intro j hs _ _
    exact sessions ▸ hs

theorem info_restart (s : Daemon) (id : String) :
    findRow SessionInfo.id id (updateWhere SessionInfo.running SessionInfo.killed s.objects) =
      (s.info id).map fun info => if info.running then info.killed else info :=
  findRow_updateWhere fun _ => rfl

/-- No session outlives the daemon. -/
theorem dead_restart (s : Daemon) (id : String) :
    (findRow SessionInfo.id id (updateWhere SessionInfo.running SessionInfo.killed s.objects)).any
      SessionInfo.running = false := by
  rw [info_restart]
  cases s.info id with
  | none => rfl
  | some info =>
    cases hr : info.running with
    | true => simp [hr, SessionInfo.killed]
    | false => simp [hr]

theorem ages_restart {s t : Daemon}
    (objects : t.objects = updateWhere SessionInfo.running SessionInfo.killed s.objects) :
    Ages s t := by
  intro id hi
  rw [Daemon.alive, Daemon.info, objects, dead_restart, info_restart]
  refine ⟨?_, nofun⟩
  simpa using hi

theorem background_step {s t : Daemon} {l : Label} (h : Informed s) (listed : ListsLinked s l)
    (hl : l.opening = false) (ht : step s l = some t) : Background s t ∧ Informed t := by
  cases l with
  | «open» id => cases hl
  | check => cases hl
  | start created => cases hl
  | startFails => cases hl
  | mark => cases hl
  | create created =>
    obtain ⟨hn, _, rfl⟩ := start_eq_some ht
    exact ⟨background_of_ages (ages_append hn rfl) rfl rfl rfl, informed_start h hn rfl rfl rfl rfl⟩
  | makeRoom id =>
    simp only [step] at ht
    split at ht
    next hc =>
      cases Option.some.inj ht
      have ages : Ages s { s with sessions := s.sessions.filter (· ≠ id) } := ages_of_info fun _ => rfl
      refine ⟨background_of_ages ages rfl rfl rfl, informed_of_ages h ages ?_ ?_ ?_ ?_⟩
      · intro j hn ha
        have same : s.alive j = true := ha
        rw [not_alive_of_none hn] at same
        cases same
      · intro j hs ha _
        have other : j ≠ id := by
          rintro rfl
          simp [isRunning_eq, hs, ha] at hc
        exact List.mem_filter.mpr ⟨hs, decide_eq_true other⟩
      · intro call hc i hi
        exact Or.inl ⟨call, hc, hi⟩
      · intro i hi
        exact Or.inl hi
    next => cases ht
  | finish id endedAt =>
    obtain ⟨info, hi, ht⟩ := Option.bind_eq_some_iff.mp ht
    split at ht
    next =>
      cases Option.some.inj ht
      have concluded : (s.setInfo id (SessionInfo.finished endedAt)).info id = some (info.finished endedAt) := by
        rw [info_setInfo (SessionInfo.finished endedAt) (fun _ => rfl), if_pos rfl, hi]
        rfl
      have ages : Ages s (s.setInfo id (SessionInfo.finished endedAt)) :=
        ages_setInfo id (SessionInfo.finished endedAt) (fun _ => rfl) nofun rfl
      refine ⟨background_of_ages ages rfl rfl rfl,
        informed_setInfo id (SessionInfo.finished endedAt) h (fun _ => rfl) ages rfl rfl ?_ ?_⟩
      · intro call hc i him
        exact Or.inl ⟨call, hc, him⟩
      · intro i him
        rcases List.mem_append.mp him with him | him
        · exact Or.inl him
        · cases List.mem_singleton.mp him
          exact Or.inr (seen_of_info concluded)
    next => cases ht
  | recordEnded call =>
    obtain ⟨info, hi, ht⟩ := Option.bind_eq_some_iff.mp ht
    cases Option.some.inj ht
    have seen := h.ended info (List.mem_of_getElem? hi)
    refine ⟨background_of_apply (.recordEnded info) rfl rfl rfl rfl nofun ?_, informed_of_same h rfl rfl ?_ ?_⟩
    · intro row _ ⟨concluded, he⟩
      rw [← he]
      exact seen.2 concluded
    · intro call hc
      exact hc
    · intro i him
      exact List.mem_of_mem_eraseIdx him
  | rename id name =>
    simp only [step] at ht
    split at ht
    next =>
      cases Option.some.inj ht
      have ages : Ages s (s.setInfo id (SessionInfo.renamed name)) :=
        ages_setInfo id (SessionInfo.renamed name) (fun _ => rfl) (fun _ hr => hr) rfl
      refine ⟨background_of_ages ages rfl rfl rfl,
        informed_setInfo id (SessionInfo.renamed name) h (fun _ => rfl) ages rfl rfl ?_ ?_⟩
      · intro call hc i hi
        exact Or.inl ⟨call, hc, hi⟩
      · intro i hi
        exact Or.inl hi
    next => cases ht
  | renameSession call now =>
    obtain ⟨⟨id, name⟩, _, ht⟩ := Option.bind_eq_some_iff.mp ht
    cases Option.some.inj ht
    exact ⟨background_of_apply (.renameSession id name now) rfl rfl rfl rfl nofun nofun,
      informed_of_same h rfl rfl (fun _ hc => hc) (fun _ hi => hi)⟩
  | list ids =>
    simp only [step] at ht
    split at ht
    next =>
      cases Option.some.inj ht
      refine ⟨background_of_ages (ages_of_info fun _ => rfl) rfl rfl rfl, ⟨h.retained, ?_, h.ended⟩⟩
      intro call hc info hi
      rcases List.mem_append.mp hc with hc | hc
      · exact h.listed call hc info hi
      · cases List.mem_singleton.mp hc
        cases hi
    next => cases ht
  | readInfo call =>
    obtain ⟨request, hr, ht⟩ := Option.bind_eq_some_iff.mp ht
    obtain ⟨id, _, ht⟩ := Option.bind_eq_some_iff.mp ht
    obtain ⟨info, hi, ht⟩ := Option.bind_eq_some_iff.mp ht
    cases Option.some.inj ht
    refine ⟨background_of_ages (ages_of_info fun _ => rfl) rfl rfl rfl, ⟨h.retained, ?_, h.ended⟩⟩
    intro other ho i him
    rcases List.mem_or_eq_of_mem_set ho with ho | rfl
    · exact h.listed other ho i him
    · rcases List.mem_append.mp him with him | him
      · exact h.listed request (List.mem_of_getElem? hr) i him
      · cases List.mem_singleton.mp him
        exact seen_of_info hi
  | reconcile call =>
    obtain ⟨request, hr, ht⟩ := Option.bind_eq_some_iff.mp ht
    split at ht
    next =>
      cases Option.some.inj ht
      refine ⟨background_of_apply (.reconcile request.infos) rfl rfl rfl rfl nofun ?_,
        informed_of_same h rfl rfl ?_ ?_⟩
      · intro row hrow clears
        rcases clears with ⟨info, hi, concluded, he⟩ | missing
        · rw [← he]
          exact (h.listed request (List.mem_of_getElem? hr) info hi).2 concluded
        · rw [Bool.eq_false_iff]
          intro alive
          exact missing (listed request hr row hrow alive)
      · intro other ho
        exact List.mem_of_mem_eraseIdx ho
      · intro info hi
        exact hi
    next => cases ht
  | favorite id =>
    obtain ⟨info, _, ht⟩ := Option.bind_eq_some_iff.mp ht
    split at ht
    next =>
      cases Option.some.inj ht
      exact ⟨background_of_ages (ages_of_info fun _ => rfl) rfl rfl rfl,
        informed_of_same h rfl rfl (fun _ hc => hc) (fun _ hi => hi)⟩
    next => cases ht
  | saveSession call now =>
    obtain ⟨info, _, ht⟩ := Option.bind_eq_some_iff.mp ht
    cases Option.some.inj ht
    exact ⟨background_of_apply (.saveSession info true now) rfl rfl rfl rfl nofun nofun,
      informed_of_same h rfl rfl (fun _ hc => hc) (fun _ hi => hi)⟩
  | update id name favorite now =>
    cases Option.some.inj ht
    exact ⟨background_of_apply (.update id name favorite now) rfl rfl rfl rfl nofun nofun,
      informed_of_same h rfl rfl (fun _ hc => hc) (fun _ hi => hi)⟩
  | delete id =>
    cases Option.some.inj ht
    exact ⟨background_of_apply (.delete id) rfl rfl rfl rfl nofun nofun,
      informed_of_same h rfl rfl (fun _ hc => hc) (fun _ hi => hi)⟩
  | restart =>
    cases Option.some.inj ht
    have dead := dead_restart s
    refine ⟨⟨rfl, Or.inr ⟨rfl, dead⟩, ages_restart rfl, linksKept_refl _, fun hk => hk⟩, ⟨?_, nofun, nofun⟩⟩
    intro id ha
    exact absurd ((dead id).symm.trans ha) nofun

theorem lastOpened_mem {s : Daemon} {id : Nat} {sessionID : String} (h : s.lastOpened id = some sessionID) :
    (id, sessionID) ∈ s.opened := by
  obtain ⟨⟨entry, session⟩, hl, he⟩ := Option.map_eq_some_iff.mp h
  obtain ⟨hm, hid⟩ := List.mem_filter.mp (List.mem_of_getLast? hl)
  have entryID : entry = id := by simpa using hid
  have sessionIDs : session = sessionID := he
  rw [← entryID, ← sessionIDs]
  exact hm

theorem lastOpened_of_append {s t : Daemon} {entry : Nat} {session : String}
    (h : t.opened = s.opened ++ [(entry, session)]) (id : Nat) :
    t.lastOpened id = if entry = id then some session else s.lastOpened id := by
  unfold Daemon.lastOpened
  rw [h, List.filter_append]
  split
  next he => subst he; simp
  next hn => simp [hn]

/-- The link of an entry is the session most recently started by opening it, while that is alive. -/
structure Linked (s : Daemon) : Prop where
  keyed : s.store.Keyed
  opened : ∀ pair ∈ s.opened, pair.1 < s.store.nextID ∧ s.info pair.2 ≠ none
  active : ∀ row ∈ s.store.rows, row.activeSessionID ≠ "" → s.info row.activeSessionID ≠ none
  links : ∀ row ∈ s.store.rows, (∀ created, s.opener ≠ .marking row.id created) →
    ∀ id, s.lastOpened row.id = some id → s.alive id = true → row.activeSessionID = id
  got : ∀ entry, s.opener = .got entry → entry.id < s.store.nextID ∧
    ∀ id, s.lastOpened entry.id = some id → s.alive id = true → entry.activeSessionID = id
  starting : ∀ entry, s.opener = .starting entry → entry.id < s.store.nextID
  marking : ∀ id created, s.opener = .marking id created → s.lastOpened id = some created.id ∧
    ∀ row ∈ s.store.rows, row.activeSessionID ≠ created.id

theorem linked_initial : Linked Daemon.initial :=
  ⟨keyed_empty, nofun, nofun, nofun, nofun, nofun, nofun⟩

theorem linked_background {s t : Daemon} (h : Linked s) (bg : Background s t) : Linked t := by
  have last : ∀ id, t.lastOpened id = s.lastOpened id := fun id => by
    simp only [Daemon.lastOpened, bg.opened]
  have alive : ∀ id sessionID, s.lastOpened id = some sessionID → t.alive sessionID = true →
      s.alive sessionID = true :=
    fun id sessionID hl ha => (bg.ages sessionID (h.opened _ (lastOpened_mem hl)).2).2 ha
  refine ⟨bg.keyed h.keyed, ?_, ?_, ?_, ?_, ?_, ?_⟩
  · intro pair hp
    obtain ⟨drawn, known⟩ := h.opened pair (bg.opened ▸ hp)
    exact ⟨Nat.lt_of_lt_of_le drawn bg.links.drawn, (bg.ages pair.2 known).1⟩
  · intro row hr active
    rcases bg.links.links row hr with ⟨none, _⟩ | ⟨old, ho, _, same | ⟨none, _⟩⟩
    · exact absurd none active
    · rw [same] at active ⊢
      exact (bg.ages _ (h.active old ho active)).1
    · exact absurd none active
  · intro row hr idle id hl ha
    rw [last] at hl
    have before := alive row.id id hl ha
    rcases bg.links.links row hr with ⟨_, fresh⟩ | ⟨old, ho, hid, link⟩
    · have drawn := (h.opened _ (lastOpened_mem hl)).1
      omega
    · have own : old.activeSessionID = id := by
        refine h.links old ho ?_ id (hid ▸ hl) before
        intro created marking
        rcases bg.opener with same | ⟨_, dead⟩
        · exact idle created (same.trans (hid ▸ marking))
        · exact absurd ((dead id).symm.trans ha) nofun
      rcases link with same | ⟨_, dead⟩
      · exact same.trans own
      · rw [own, before] at dead
        cases dead
  · intro entry he
    rcases bg.opener with same | ⟨idle, _⟩
    · obtain ⟨drawn, copy⟩ := h.got entry (same ▸ he)
      refine ⟨Nat.lt_of_lt_of_le drawn bg.links.drawn, ?_⟩
      intro id hl ha
      rw [last] at hl
      exact copy id hl (alive _ _ hl ha)
    · exact absurd (idle.symm.trans he) nofun
  · intro entry he
    rcases bg.opener with same | ⟨idle, _⟩
    · exact Nat.lt_of_lt_of_le (h.starting entry (same ▸ he)) bg.links.drawn
    · exact absurd (idle.symm.trans he) nofun
  · intro id created he
    rcases bg.opener with same | ⟨idle, _⟩
    · obtain ⟨own, unused⟩ := h.marking id created (same ▸ he)
      refine ⟨(last id).trans own, ?_⟩
      intro row hr
      rcases bg.links.links row hr with ⟨none, _⟩ | ⟨old, ho, _, kept | ⟨none, _⟩⟩
      · exact none ▸ created.named.symm
      · exact kept ▸ unused old ho
      · exact none ▸ created.named.symm
    · exact absurd (idle.symm.trans he) nofun

/-- A step of the open request that touches neither the sessions nor the store. -/
theorem linked_opener {s : Daemon} {pc : OpenPc} (replies : List (Nat × String)) (h : Linked s)
    (idle : ∀ id created, s.opener ≠ .marking id created) (next : ∀ id created, pc ≠ .marking id created)
    (got : ∀ entry, pc = .got entry → entry ∈ s.store.rows)
    (starting : ∀ entry, pc = .starting entry → entry.id < s.store.nextID) :
    Linked { s with opener := pc, replies := replies } where
  keyed := h.keyed
  opened := h.opened
  active := h.active
  links := fun row hr _ => h.links row hr (idle row.id)
  got := fun entry he => ⟨h.keyed.drawn entry (got entry he), h.links entry (got entry he) (idle entry.id)⟩
  starting := starting
  marking := fun id created he => absurd he (next id created)

theorem linked_start {s t : Daemon} {created : SessionInfo} {entry : SavedTerminal} (h : Linked s)
    (pc : s.opener = .starting entry) (hn : s.info created.id = none) (store : t.store = s.store)
    (objects : t.objects = s.objects ++ [created]) (opener : t.opener = .marking entry.id created)
    (opened : t.opened = s.opened ++ [(entry.id, created.id)]) : Linked t := by
  have ages := ages_append hn objects
  have last := lastOpened_of_append opened
  refine ⟨store ▸ h.keyed, ?_, ?_, ?_, ?_, ?_, ?_⟩
  · intro pair hp
    rw [opened] at hp
    rw [store]
    rcases List.mem_append.mp hp with hp | hp
    · exact ⟨(h.opened pair hp).1, (ages pair.2 (h.opened pair hp).2).1⟩
    · cases List.mem_singleton.mp hp
      refine ⟨h.starting entry pc, ?_⟩
      rw [Daemon.info, objects, info_append hn, if_pos rfl]
      nofun
  · intro row hr active
    rw [store] at hr
    exact (ages _ (h.active row hr active)).1
  · intro row hr other id hl ha
    have hne : entry.id ≠ row.id := by
      intro he
      exact other created (he ▸ opener)
    rw [last, if_neg hne] at hl
    have known := (h.opened _ (lastOpened_mem hl)).2
    rw [store] at hr
    exact h.links row hr (fun _ he => absurd (pc.symm.trans he) nofun) id hl ((ages id known).2 ha)
  · intro other he
    exact absurd (opener.symm.trans he) nofun
  · intro other he
    exact absurd (opener.symm.trans he) nofun
  · intro id new he
    cases opener.symm.trans he
    refine ⟨(last entry.id).trans (if_pos rfl), ?_⟩
    intro row hr active
    rw [store] at hr
    exact h.active row hr (active ▸ created.named) (active ▸ hn)

theorem linked_mark {s t : Daemon} {id : Nat} {created : SessionInfo} (h : Linked s)
    (pc : s.opener = .marking id created) (opener : t.opener = .idle) (objects : t.objects = s.objects)
    (opened : t.opened = s.opened)
    (store : t.store = s.store.apply (.markOpened id created.id created.startedAt)) : Linked t := by
  obtain ⟨own, unused⟩ := h.marking id created pc
  have last : ∀ id, t.lastOpened id = s.lastOpened id := fun id => by simp only [Daemon.lastOpened, opened]
  have info : ∀ id, t.info id = s.info id := fun id => by simp only [Daemon.info, objects]
  have alive : ∀ id, t.alive id = s.alive id := fun id => by simp only [Daemon.alive, info]
  have known := (h.opened _ (lastOpened_mem own)).2
  have others : ∀ row ∈ s.store.rows, row.id ≠ id → ∀ sessionID, s.lastOpened row.id = some sessionID →
      s.alive sessionID = true → row.activeSessionID = sessionID := by
    intro row hr hid
    apply h.links row hr
    intro other he
    rw [pc] at he
    cases he
    exact hid rfl
  have rows : t.store.nextID = s.store.nextID ∧ ∀ row ∈ t.store.rows,
      (row.id = id ∧ row.activeSessionID = created.id) ∨ (row.id ≠ id ∧ row ∈ s.store.rows) := by
    rw [store]
    cases hm : s.store.markOpened id created.id created.startedAt with
    | ok marked =>
      simp only [Store.apply, hm, Store.commit]
      exact markOpened_rows hm
    | error e =>
      simp only [Store.apply, hm, Store.commit, true_and]
      intro row hr
      rcases markOpened_error hm with gone | ⟨linked, hl, he⟩
      · exact Or.inr ⟨gone row hr, hr⟩
      · exact absurd he (unused linked hl)
  obtain ⟨drawn, rows⟩ := rows
  refine ⟨store ▸ keyed_apply h.keyed _, ?_, ?_, ?_, ?_, ?_, ?_⟩
  · intro pair hp
    rw [drawn, info]
    exact h.opened pair (opened ▸ hp)
  · intro row hr active
    rw [info]
    rcases rows row hr with ⟨_, link⟩ | ⟨_, old⟩
    · exact link ▸ known
    · exact h.active row old active
  · intro row hr _ sessionID hl ha
    rw [last] at hl
    rw [alive] at ha
    rcases rows row hr with ⟨hid, link⟩ | ⟨hid, old⟩
    · rw [hid, own] at hl
      exact link.trans (Option.some.inj hl)
    · exact others row old hid sessionID hl ha
  · intro entry he
    exact absurd (opener.symm.trans he) nofun
  · intro entry he
    exact absurd (opener.symm.trans he) nofun
  · intro other new he
    exact absurd (opener.symm.trans he) nofun

theorem linked_opening {s t : Daemon} {l : Label} (h : Linked s) (hi : Informed s)
    (hl : l.opening = true) (ht : step s l = some t) : Linked t ∧ Informed t := by
  cases l with
  | «open» id =>
    simp only [step] at ht
    split at ht
    next entry pc hg =>
      cases Option.some.inj ht
      have found : entry ∈ s.store.rows := by
        unfold Store.get at hg
        split at hg
        next => cases hg
        next row hf => cases hg; exact (findRow_mem hf).1
      refine ⟨linked_opener s.replies h ?_ nofun ?_ nofun, ⟨hi.retained, hi.listed, hi.ended⟩⟩
      · intro _ _ he
        exact absurd (pc.symm.trans he) nofun
      · intro other he
        cases he
        exact found
    next => cases Option.some.inj ht; exact ⟨h, hi⟩
    next => cases ht
  | check =>
    simp only [step] at ht
    split at ht
    next entry pc =>
      have idle : ∀ id created, s.opener ≠ .marking id created := fun _ _ he => absurd (pc.symm.trans he) nofun
      split at ht
      next =>
        cases Option.some.inj ht
        exact ⟨linked_opener _ h idle nofun nofun nofun, ⟨hi.retained, hi.listed, hi.ended⟩⟩
      next =>
        cases Option.some.inj ht
        refine ⟨linked_opener s.replies h idle nofun nofun ?_, ⟨hi.retained, hi.listed, hi.ended⟩⟩
        intro other he
        cases he
        exact (h.got entry pc).1
    next => cases ht
  | start created =>
    simp only [step] at ht
    split at ht
    next entry pc =>
      obtain ⟨u, hu, rfl⟩ := Option.map_eq_some_iff.mp ht
      obtain ⟨hn, _, rfl⟩ := start_eq_some hu
      exact ⟨linked_start h pc hn rfl rfl rfl rfl, informed_start hi hn rfl rfl rfl rfl⟩
    next => cases ht
  | startFails =>
    simp only [step] at ht
    split at ht
    next entry pc =>
      cases Option.some.inj ht
      refine ⟨linked_opener s.replies h ?_ nofun nofun nofun, ⟨hi.retained, hi.listed, hi.ended⟩⟩
      intro _ _ he
      exact absurd (pc.symm.trans he) nofun
    next => cases ht
  | mark =>
    simp only [step] at ht
    split at ht
    next id created pc =>
      cases Option.some.inj ht
      exact ⟨linked_mark h pc rfl rfl rfl rfl,
        informed_of_same hi rfl rfl (fun _ hc => hc) (fun _ hm => hm)⟩
    next => cases ht
  | create created => cases hl
  | makeRoom id => cases hl
  | finish id endedAt => cases hl
  | recordEnded call => cases hl
  | rename id name => cases hl
  | renameSession call now => cases hl
  | list ids => cases hl
  | readInfo call => cases hl
  | reconcile call => cases hl
  | favorite id => cases hl
  | saveSession call now => cases hl
  | update id name favorite now => cases hl
  | delete id => cases hl
  | restart => cases hl

theorem linked_step {s t : Daemon} {l : Label} (h : Linked s ∧ Informed s) (listed : ListsLinked s l)
    (ht : step s l = some t) : Linked t ∧ Informed t := by
  cases hl : l.opening with
  | true => exact linked_opening h.1 h.2 hl ht
  | false =>
    obtain ⟨bg, informed⟩ := background_step h.2 listed hl ht
    exact ⟨linked_background h.1 bg, informed⟩

theorem linked_run {labels : List Label} {s : Daemon} (run : exec step Daemon.initial labels = some s)
    (listed : Along step ListsLinked Daemon.initial labels) : Linked s ∧ Informed s :=
  exec_preserves (fun _ _ _ h hg ht => linked_step h hg ht) ⟨linked_initial, nofun, nofun, nofun⟩ run listed

/-- As long as every list request reconciles with a snapshot that has the running sessions linked to,
an open request returns the session most recently started for its entry while that is running. -/
theorem open_returns_running_session {labels : List Label} {s t : Daemon} {entry : SavedTerminal}
    {sessionID : String} (run : exec step Daemon.initial labels = some s)
    (listed : Along step ListsLinked Daemon.initial labels) (pc : s.opener = .got entry)
    (last : s.lastOpened entry.id = some sessionID) (running : s.alive sessionID = true)
    (ht : step s .check = some t) :
    t = { s with opener := .idle, replies := s.replies ++ [(entry.id, sessionID)] } := by
  obtain ⟨linked, informed⟩ := linked_run run listed
  have link := (linked.got entry pc).2 sessionID last running
  obtain ⟨info, hi⟩ := info_of_alive running
  have named : sessionID ≠ "" := info_id hi ▸ info.named
  have session : entry.linkedSessionID = sessionID := by
    rw [SavedTerminal.linkedSessionID, link, if_neg named]
  have retained : s.isRunning sessionID = true := by
    simp [isRunning_eq, informed.retained sessionID running, running]
  simp only [step, pc, session, retained, if_true] at ht
  exact (Option.some.inj ht).symm

/-- A shell started at that minute. -/
def shell (id : String) (minute : Nat) (named : id ≠ "") : SessionInfo :=
  ⟨id, "project", "/tmp/project", ⟨2026, 9, 3, 12, minute, 0, 0⟩, none, true, named⟩

theorem first_named : "s1" ≠ "" := by decide

theorem second_named : "s2" ≠ "" := by decide

/-- A terminal ends and is saved; its entry is about to be opened again. -/
def saving : List Label :=
  [.create (shell "s1" 0 first_named), .finish "s1" ⟨2026, 9, 3, 12, 1, 0, 0⟩, .recordEnded 0, .open 0, .check]

def opening : List Label := [.start (shell "s2" 2 second_named), .mark]

/-- A list request whose snapshot was taken after the start. -/
def listing : List Label := [.list ["s1", "s2"], .readInfo 0, .readInfo 0, .reconcile 0]

/-- The open request has read an entry that passes the test. -/
def Daemon.holds (s : Daemon) (test : SavedTerminal → Bool) : Bool :=
  match s.opener with
  | .got entry => test entry
  | _ => false

theorem Daemon.got_of_holds {s : Daemon} {test : SavedTerminal → Bool} (h : s.holds test = true) :
    ∃ entry, s.opener = .got entry ∧ test entry = true := by
  rw [Daemon.holds] at h
  split at h
  next entry pc => exact ⟨entry, pc, h⟩
  next => cases h

theorem open_returns_running_session_listed : ∃ s t,
    exec step Daemon.initial (saving ++ opening ++ listing ++ [.open 0]) = some s ∧
      step s .check = some t ∧ t.replies = [(0, "s2")] := by
  have run : (exec step Daemon.initial (saving ++ opening ++ listing ++ [.open 0])).any (fun s =>
      s.alive "s2" && s.replies = [] && (step s .check).isSome &&
        s.holds fun entry => entry.id = 0 && s.lastOpened entry.id = some "s2") = true := by
    decide
  have listed : Along step ListsLinked Daemon.initial (saving ++ opening ++ listing ++ [.open 0]) := by
    decide
  obtain ⟨s, run, hs⟩ := (Option.any_eq_true _ _).mp run
  simp only [Bool.and_eq_true, decide_eq_true_eq] at hs
  obtain ⟨⟨⟨alive, none⟩, checked⟩, hs⟩ := hs
  obtain ⟨t, ht⟩ := Option.isSome_iff_exists.mp checked
  obtain ⟨entry, pc, hs⟩ := Daemon.got_of_holds hs
  simp only [Bool.and_eq_true, decide_eq_true_eq] at hs
  have returned := open_returns_running_session run listed pc hs.2 alive ht
  refine ⟨s, t, run, ht, ?_⟩
  rw [returned, none, hs.1]
  rfl

/-- A list request whose snapshot is older than the new session clears the link to it when it
reconciles after `MarkOpened`, so the next open request starts a second shell. -/
theorem stale_snapshot_unlinks_session :
    ¬ ∀ (labels : List Label) (s t : Daemon) (entry : SavedTerminal) (sessionID : String),
      exec step Daemon.initial labels = some s → s.opener = .got entry →
      s.lastOpened entry.id = some sessionID → s.alive sessionID = true → step s .check = some t →
      t.opener = .idle := by
  intro h
  have run : (exec step Daemon.initial (saving ++ [.list ["s1"], .readInfo 0] ++ opening ++
      [.reconcile 0, .open 0])).any (fun s => s.alive "s2" && s.holds fun entry =>
        s.lastOpened entry.id = some "s2" && (step s .check).any (·.opener = .starting entry)) = true := by
    decide +kernel
  obtain ⟨s, run, hs⟩ := (Option.any_eq_true _ _).mp run
  rw [Bool.and_eq_true] at hs
  obtain ⟨alive, hs⟩ := hs
  obtain ⟨entry, pc, hs⟩ := Daemon.got_of_holds hs
  rw [Bool.and_eq_true] at hs
  obtain ⟨t, ht, next⟩ := (Option.any_eq_true _ _).mp hs.2
  have idle := h _ s t entry "s2" run pc (of_decide_eq_true hs.1) alive ht
  cases idle.symm.trans (of_decide_eq_true next)

end TermLinks.TerminalHistory
