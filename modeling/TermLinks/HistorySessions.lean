import TermLinks.HistoryEdits
import TermLinks.HistoryReopen

namespace TermLinks.TerminalHistory

open SavedTerminal Relation

/-- No session belongs to two rows. -/
def Store.Single (s : Store) : Prop :=
  ∀ a ∈ s.rows, ∀ b ∈ s.rows, ∀ S, S ≠ "" → a.ofSession S = true → b.ofSession S = true → a.id = b.id

theorem ofSession_iff {row : SavedTerminal} {S : String} :
    row.ofSession S = true ↔ row.sourceSessionID = S ∨ row.activeSessionID = S := by
  simp [ofSession]

theorem single_edit {sources : String → Prop} {s t : Store} (h : s.Single)
    (edit : Edit sources s t) : t.Single := by
  cases edit with
  | rewrite p f hid hsource hactive =>
    have older : ∀ (row : SavedTerminal) (S : String), S ≠ "" →
        (if p row then f row else row).ofSession S = true → row.ofSession S = true := by
      intro row S hS
      split
      next =>
        intro belongs
        rw [ofSession_iff, hsource] at belongs
        rw [ofSession_iff]
        rcases belongs with source | active
        · exact Or.inl source
        · rcases hactive row with same | cleared
          · exact Or.inr (same ▸ active)
          · exact absurd (cleared.symm.trans active).symm hS
      next => exact fun belongs => belongs
    intro a ha b hb S hS oa ob
    obtain ⟨a', ha', rfl⟩ := mem_updateWhere.mp ha
    obtain ⟨b', hb', rfl⟩ := mem_updateWhere.mp hb
    rw [updateWhere_key hid, updateWhere_key hid]
    exact h a' ha' b' hb' S hS (older a' S hS oa) (older b' S hS ob)
  | remove p =>
    intro a ha b hb
    exact h a (List.mem_of_mem_filter ha) b (List.mem_of_mem_filter hb)
  | insert row hid unlinked given free =>
    have own : ∀ S, S ≠ "" → row.ofSession S = true → S = row.sourceSessionID := by
      intro S hS belongs
      rcases ofSession_iff.mp belongs with source | active
      · exact source.symm
      · exact absurd (active.symm.trans unlinked) hS
    intro a ha b hb S hS oa ob
    rcases List.mem_append.mp ha with ha | ha
    · rcases List.mem_append.mp hb with hb | hb
      · exact h a ha b hb S hS oa ob
      · cases List.mem_singleton.mp hb
        exact absurd (own S hS ob ▸ oa) (free a ha)
    · cases List.mem_singleton.mp ha
      rcases List.mem_append.mp hb with hb | hb
      · exact absurd (own S hS oa ▸ ob) (free b hb)
      · cases List.mem_singleton.mp hb
        rfl

theorem length_filter_le_one {s : Store} (keyed : s.Keyed) (h : s.Single) {S : String} (hS : S ≠ "") :
    (s.rows.filter (ofSession S)).length ≤ 1 := by
  have ids : ((s.rows.filter (ofSession S)).map SavedTerminal.id).Nodup :=
    keyed.ids.sublist (List.filter_sublist.map _)
  match hf : s.rows.filter (ofSession S) with
  | [] => simp
  | [_] => simp
  | a :: b :: rest =>
    have ha : a ∈ s.rows.filter (ofSession S) := by simp [hf]
    have hb : b ∈ s.rows.filter (ofSession S) := by simp [hf]
    obtain ⟨ha, oa⟩ := List.mem_filter.mp ha
    obtain ⟨hb, ob⟩ := List.mem_filter.mp hb
    have same := h a ha b hb S hS oa ob
    simp [hf, same] at ids

namespace Daemon

/-- Every session ever started. -/
def ids (s : Daemon) : List String := s.objects.map SessionInfo.id

/-- A request or an end notification under way holds the info. -/
def Holds (s : Daemon) (info : SessionInfo) : Prop :=
  info ∈ s.ended ∨ info ∈ s.favorites ∨ ∃ call ∈ s.lists, info ∈ call.infos

/-- What any step but `mark` does to the sessions and the store. -/
structure Turn (s t : Daemon) : Prop where
  ids : ∀ id ∈ s.ids, id ∈ t.ids
  holds : ∀ info, t.Holds info → s.Holds info ∨ info.id ∈ t.ids
  store : t.store = s.store ∨ ∃ op : Op, t.store = s.store.apply op ∧
    (∀ id sessionID openedAt, op ≠ .markOpened id sessionID openedAt) ∧
    ∀ S, op.Adds S → ∃ info, s.Holds info ∧ info.id = S
  opener : ∀ id created, t.opener = .marking id created → s.opener = .marking id created ∨
    (created.id ∉ s.ids ∧ created.id ∈ t.ids ∧ t.store = s.store)

end Daemon

theorem not_mem_ids_of_info {s : Daemon} {id : String} (h : s.info id = none) : id ∉ s.ids := by
  intro hm
  obtain ⟨info, hi, same⟩ := List.mem_map.mp hm
  exact findRow_eq_none_iff.mp h info hi same

theorem mem_ids_of_info {s : Daemon} {id : String} {info : SessionInfo} (h : s.info id = some info) :
    info.id ∈ s.ids :=
  List.mem_map_of_mem (findRow_mem h).1

theorem ids_setInfo {s : Daemon} {id : String} {f : SessionInfo → SessionInfo}
    (hf : ∀ info, (f info).id = info.id) :
    (s.setInfo id f).ids = s.ids := map_updateWhere hf s.objects

theorem turn_of_quiet {s t : Daemon} (ids : t.ids = s.ids)
    (holds : ∀ info, t.Holds info → s.Holds info ∨ info.id ∈ s.ids) (store : t.store = s.store)
    (opener : ∀ id created, t.opener = .marking id created → s.opener = .marking id created) :
    s.Turn t where
  ids := fun _ hid => ids ▸ hid
  holds := fun info h => ids ▸ holds info h
  store := Or.inl store
  opener := fun id created h => Or.inl (opener id created h)

theorem turn_of_apply {s t : Daemon} (op : Op) (objects : t.objects = s.objects) (opener : t.opener = s.opener)
    (holds : ∀ info, t.Holds info → s.Holds info) (store : t.store = s.store.apply op)
    (plain : ∀ id sessionID openedAt, op ≠ .markOpened id sessionID openedAt)
    (adds : ∀ S, op.Adds S → ∃ info, s.Holds info ∧ info.id = S) : s.Turn t where
  ids := by
    intro id hid
    simpa only [Daemon.ids, objects] using hid
  holds := fun info h => Or.inl (holds info h)
  store := Or.inr ⟨op, store, plain, adds⟩
  opener := fun id created h => Or.inl (opener ▸ h)

theorem turn_of_start {s t u : Daemon} {created : SessionInfo} (started : s.start created = some u)
    (objects : t.objects = u.objects) (lists : t.lists = s.lists) (ended : t.ended = s.ended)
    (favorites : t.favorites = s.favorites) (store : t.store = s.store)
    (opener : ∀ id other, t.opener = .marking id other → s.opener = .marking id other ∨ other = created) :
    s.Turn t := by
  obtain ⟨fresh, _, rfl⟩ := start_eq_some started
  have ids : t.ids = s.ids ++ [created.id] := by simp [Daemon.ids, objects]
  refine ⟨?_, ?_, Or.inl store, ?_⟩
  · intro id hid
    exact ids ▸ List.mem_append_left _ hid
  · intro info h
    simp only [Daemon.Holds, lists, ended, favorites] at h
    exact Or.inl h
  · intro id other h
    rcases opener id other h with same | rfl
    · exact Or.inl same
    · exact Or.inr ⟨not_mem_ids_of_info fresh, by simp [ids], store⟩

theorem turn_step {s t : Daemon} {label : Label} (other : label ≠ .mark)
    (ht : step s label = some t) : s.Turn t := by
  have same : t.objects = s.objects → t.lists = s.lists → t.ended = s.ended → t.favorites = s.favorites →
      t.store = s.store → (∀ id created, t.opener ≠ .marking id created ∨ t.opener = s.opener) → s.Turn t := by
    intro objects lists ended favorites store opener
    refine turn_of_quiet (by simp only [Daemon.ids, objects]) ?_ store ?_
    · intro info h
      simp only [Daemon.Holds, lists, ended, favorites] at h
      exact Or.inl h
    · intro id created h
      rcases opener id created with not | kept
      · exact absurd h not
      · exact kept ▸ h
  cases label with
  | «open» id =>
    simp only [step] at ht
    split at ht
    next => cases ht; exact same rfl rfl rfl rfl rfl fun _ _ => Or.inl (by rintro ⟨⟩)
    next => cases ht; exact same rfl rfl rfl rfl rfl fun _ _ => Or.inr rfl
    next => cases ht
  | check =>
    simp only [step] at ht
    split at ht
    next =>
      split at ht
      next => cases ht; exact same rfl rfl rfl rfl rfl fun _ _ => Or.inl (by rintro ⟨⟩)
      next => cases ht; exact same rfl rfl rfl rfl rfl fun _ _ => Or.inl (by rintro ⟨⟩)
    next => cases ht
  | start created =>
    simp only [step] at ht
    split at ht
    next entry pc =>
      obtain ⟨u, started, rfl⟩ := Option.map_eq_some_iff.mp ht
      obtain ⟨_, _, rfl⟩ := start_eq_some started
      refine turn_of_start started rfl rfl rfl rfl rfl ?_
      intro id other h
      cases h
      exact Or.inr rfl
    next => cases ht
  | startFails =>
    simp only [step] at ht
    split at ht
    next => cases ht; exact same rfl rfl rfl rfl rfl fun _ _ => Or.inl (by rintro ⟨⟩)
    next => cases ht
  | mark => exact absurd rfl other
  | create created =>
    have started : s.start created = some t := ht
    obtain ⟨_, _, rfl⟩ := start_eq_some started
    exact turn_of_start started rfl rfl rfl rfl rfl fun _ _ h => Or.inl h
  | makeRoom id =>
    simp only [step] at ht
    split at ht
    next => cases ht; exact same rfl rfl rfl rfl rfl fun _ _ => Or.inr rfl
    next => cases ht
  | finish id endedAt =>
    obtain ⟨info, hi, ht⟩ := Option.bind_eq_some_iff.mp ht
    split at ht
    next =>
      cases ht
      refine turn_of_quiet (ids_setInfo (f := SessionInfo.finished endedAt) fun _ => rfl) ?_ rfl fun _ _ h => h
      intro other h
      rcases h with ended | favorite | listed
      · rcases List.mem_append.mp ended with old | new
        · exact Or.inl (Or.inl old)
        · cases List.mem_singleton.mp new
          have known : info.id ∈ s.ids := mem_ids_of_info hi
          exact Or.inr known
      · exact Or.inl (Or.inr (Or.inl favorite))
      · exact Or.inl (Or.inr (Or.inr listed))
    next => cases ht
  | recordEnded call =>
    obtain ⟨info, pending, ht⟩ := Option.bind_eq_some_iff.mp ht
    cases ht
    refine turn_of_apply (.recordEnded info) rfl rfl ?_ rfl (by rintro _ _ _ ⟨⟩) ?_
    · intro other h
      rcases h with ended | rest
      · exact Or.inl (List.mem_of_mem_eraseIdx ended)
      · exact Or.inr rest
    · intro S adds
      exact ⟨info, Or.inl (List.mem_of_getElem? pending), adds⟩
  | rename id name =>
    simp only [step] at ht
    split at ht
    next =>
      cases ht
      exact turn_of_quiet (ids_setInfo (f := SessionInfo.renamed name) fun _ => rfl) (fun _ h => Or.inl h) rfl
        fun _ _ h => h
    next => cases ht
  | renameSession call now =>
    obtain ⟨⟨id, name⟩, _, ht⟩ := Option.bind_eq_some_iff.mp ht
    cases ht
    exact turn_of_apply (.renameSession id name now) rfl rfl (fun _ h => h) rfl (by rintro _ _ _ ⟨⟩) (by rintro _ ⟨⟩)
  | list ids =>
    simp only [step] at ht
    split at ht
    next =>
      cases ht
      refine turn_of_quiet rfl ?_ rfl fun _ _ h => h
      intro info h
      rcases h with ended | favorite | ⟨call, hc, hm⟩
      · exact Or.inl (Or.inl ended)
      · exact Or.inl (Or.inr (Or.inl favorite))
      · rcases List.mem_append.mp hc with old | new
        · exact Or.inl (Or.inr (Or.inr ⟨call, old, hm⟩))
        · cases List.mem_singleton.mp new
          cases hm
    next => cases ht
  | readInfo call =>
    obtain ⟨request, pending, ht⟩ := Option.bind_eq_some_iff.mp ht
    obtain ⟨id, _, ht⟩ := Option.bind_eq_some_iff.mp ht
    obtain ⟨read, hi, ht⟩ := Option.bind_eq_some_iff.mp ht
    cases ht
    refine turn_of_quiet rfl ?_ rfl fun _ _ h => h
    intro info h
    rcases h with ended | favorite | ⟨other, hc, hm⟩
    · exact Or.inl (Or.inl ended)
    · exact Or.inl (Or.inr (Or.inl favorite))
    · rcases List.mem_or_eq_of_mem_set hc with old | rfl
      · exact Or.inl (Or.inr (Or.inr ⟨other, old, hm⟩))
      · rcases List.mem_append.mp hm with old | new
        · exact Or.inl (Or.inr (Or.inr ⟨request, List.mem_of_getElem? pending, old⟩))
        · cases List.mem_singleton.mp new
          exact Or.inr (mem_ids_of_info hi)
  | reconcile call =>
    obtain ⟨request, pending, ht⟩ := Option.bind_eq_some_iff.mp ht
    split at ht
    next =>
      cases ht
      refine turn_of_apply (.reconcile request.infos) rfl rfl ?_ rfl (by rintro _ _ _ ⟨⟩) ?_
      · intro info h
        rcases h with ended | favorite | ⟨other, hc, hm⟩
        · exact Or.inl ended
        · exact Or.inr (Or.inl favorite)
        · exact Or.inr (Or.inr ⟨other, List.mem_of_mem_eraseIdx hc, hm⟩)
      · rintro S ⟨info, hm, _, hid⟩
        exact ⟨info, Or.inr (Or.inr ⟨request, List.mem_of_getElem? pending, hm⟩), hid⟩
    next => cases ht
  | favorite id =>
    obtain ⟨info, hi, ht⟩ := Option.bind_eq_some_iff.mp ht
    split at ht
    next =>
      cases ht
      refine turn_of_quiet rfl ?_ rfl fun _ _ h => h
      intro other h
      rcases h with ended | favorite | listed
      · exact Or.inl (Or.inl ended)
      · rcases List.mem_append.mp favorite with old | new
        · exact Or.inl (Or.inr (Or.inl old))
        · cases List.mem_singleton.mp new
          exact Or.inr (mem_ids_of_info hi)
      · exact Or.inl (Or.inr (Or.inr listed))
    next => cases ht
  | saveSession call now =>
    obtain ⟨info, pending, ht⟩ := Option.bind_eq_some_iff.mp ht
    cases ht
    refine turn_of_apply (.saveSession info true now) rfl rfl ?_ rfl (by rintro _ _ _ ⟨⟩) ?_
    · intro other h
      rcases h with ended | favorite | listed
      · exact Or.inl ended
      · exact Or.inr (Or.inl (List.mem_of_mem_eraseIdx favorite))
      · exact Or.inr (Or.inr listed)
    · intro S adds
      exact ⟨info, Or.inr (Or.inl (List.mem_of_getElem? pending)), adds⟩
  | update id name favorite now =>
    cases ht
    exact turn_of_apply (.update id name favorite now) rfl rfl (fun _ h => h) rfl (by rintro _ _ _ ⟨⟩) (by rintro _ ⟨⟩)
  | delete id =>
    cases ht
    exact turn_of_apply (.delete id) rfl rfl (fun _ h => h) rfl (by rintro _ _ _ ⟨⟩) (by rintro _ ⟨⟩)
  | restart =>
    cases ht
    have ids : (updateWhere SessionInfo.running SessionInfo.killed s.objects).map SessionInfo.id =
        s.objects.map SessionInfo.id := by
      apply map_updateWhere
      intro info
      rfl
    refine turn_of_quiet ids ?_ rfl (by rintro _ _ ⟨⟩)
    intro info h
    rcases h with ended | favorite | ⟨call, hc, _⟩
    · cases ended
    · cases favorite
    · cases hc

/-- Every session in sight has been started, and a shell being opened is linked nowhere yet. -/
structure Accounted (s : Daemon) : Prop where
  sources : ∀ row ∈ s.store.rows, row.sourceSessionID ∈ s.ids
  actives : ∀ row ∈ s.store.rows, row.activeSessionID ≠ "" → row.activeSessionID ∈ s.ids
  held : ∀ info, s.Holds info → info.id ∈ s.ids
  marking : ∀ id created, s.opener = .marking id created →
    created.id ∈ s.ids ∧ ∀ row ∈ s.store.rows, row.activeSessionID ≠ created.id

theorem accounted_initial : Accounted Daemon.initial where
  sources := nofun
  actives := nofun
  held := by
    intro info h
    rcases h with ended | favorite | ⟨call, hc, _⟩
    · cases ended
    · cases favorite
    · cases hc
  marking := nofun

/-- Where the sessions of the rows after some statements come from. -/
theorem origin_of_edits {sources : String → Prop} {s t : Store} (h : ReflTransGen (Edit sources) s t) :
    ∀ row ∈ t.rows, ((∃ old ∈ s.rows, old.sourceSessionID = row.sourceSessionID) ∨
      sources row.sourceSessionID) ∧
      (row.activeSessionID = "" ∨ ∃ old ∈ s.rows, old.activeSessionID = row.activeSessionID) := by
  induction h with
  | refl => exact fun row hr => ⟨Or.inl ⟨row, hr, rfl⟩, Or.inr ⟨row, hr, rfl⟩⟩
  | tail _ last ih =>
    cases last with
    | rewrite p f hid hsource hactive =>
      intro row hr
      obtain ⟨mid, hm, rfl⟩ := mem_updateWhere.mp hr
      obtain ⟨source, active⟩ := ih mid hm
      rw [updateWhere_key hsource]
      refine ⟨source, ?_⟩
      split
      next =>
        rcases hactive mid with same | cleared
        · rw [same]
          exact active
        · exact Or.inl cleared
      next => exact active
    | remove p => exact fun row hr => ih row (List.mem_of_mem_filter hr)
    | insert new hid unlinked given free =>
      intro row hr
      rcases List.mem_append.mp hr with hr | hr
      · exact ih row hr
      · cases List.mem_singleton.mp hr
        exact ⟨Or.inr given, Or.inl unlinked⟩

theorem accounted_turn {s t : Daemon} (h : Accounted s) (turn : s.Turn t) : Accounted t := by
  have origin : ∀ row ∈ t.store.rows, row.sourceSessionID ∈ s.ids ∧
      (row.activeSessionID = "" ∨ ∃ old ∈ s.store.rows, old.activeSessionID = row.activeSessionID) := by
    rcases turn.store with same | ⟨op, applied, plain, adds⟩
    · rw [same]
      exact fun row hr => ⟨h.sources row hr, Or.inr ⟨row, hr, rfl⟩⟩
    · rw [applied]
      intro row hr
      obtain ⟨source, active⟩ := origin_of_edits (edits_apply plain) row hr
      refine ⟨?_, active⟩
      rcases source with ⟨old, ho, same⟩ | added
      · exact same ▸ h.sources old ho
      · obtain ⟨info, held, same⟩ := adds _ added
        exact same ▸ h.held info held
  refine ⟨?_, ?_, ?_, ?_⟩
  · exact fun row hr => turn.ids _ (origin row hr).1
  · intro row hr linked
    rcases (origin row hr).2 with unlinked | ⟨old, ho, same⟩
    · exact absurd unlinked linked
    · exact turn.ids _ (same ▸ h.actives old ho (same ▸ linked))
  · intro info held
    rcases turn.holds info held with old | known
    · exact turn.ids _ (h.held info old)
    · exact known
  · intro id created pc
    rcases turn.opener id created pc with old | ⟨fresh, known, store⟩
    · obtain ⟨known, free⟩ := h.marking id created old
      refine ⟨turn.ids _ known, ?_⟩
      intro row hr
      rcases (origin row hr).2 with unlinked | ⟨old, ho, same⟩
      · exact unlinked ▸ created.named.symm
      · exact same ▸ free old ho
    · refine ⟨known, ?_⟩
      rw [store]
      intro row hr linked
      exact fresh (linked ▸ h.actives row hr (linked ▸ created.named))

/-- `MarkOpened` for the shell that was started: the row is linked, or gone. -/
theorem marked_rows {s : Daemon} {id : Nat} {created : SessionInfo} (h : Accounted s)
    (pc : s.opener = .marking id created) :
    ∀ row, row ∈ (s.store.apply (.markOpened id created.id created.startedAt)).rows ↔
      (row.id ≠ id ∧ row ∈ s.store.rows) ∨
      ∃ old ∈ s.store.rows, old.id = id ∧ row = { old with
        activeSessionID := created.id
        lastOpenedAt := encodeTime created.startedAt
        updatedAt := encodeTime created.startedAt } := by
  have free := (h.marking id created pc).2
  intro row
  show row ∈ (s.store.commit (s.store.markOpened id created.id created.startedAt)).rows ↔ _
  unfold Store.markOpened
  split
  next gone =>
    have gone : ∀ old ∈ s.store.rows, old.id ≠ id := by simpa using gone
    constructor
    · exact fun hr => Or.inl ⟨gone row hr, hr⟩
    · rintro (⟨_, hr⟩ | ⟨old, ho, he, _⟩)
      · exact hr
      · exact absurd he (gone old ho)
  next =>
    split
    next clash =>
      obtain ⟨old, ho, he⟩ := List.any_eq_true.mp clash.2
      have he : old.id ≠ id ∧ old.activeSessionID = created.id := by simpa using he
      exact absurd he.2 (free old ho)
    next =>
      constructor
      · intro hr
        obtain ⟨old, ho, rfl⟩ := mem_updateWhere.mp hr
        by_cases he : old.id = id
        · exact Or.inr ⟨old, ho, he, by simp [he]⟩
        · exact Or.inl ⟨by simp [he], by simpa [he] using ho⟩
      · rintro (⟨other, hr⟩ | ⟨old, ho, he, rfl⟩)
        · exact mem_updateWhere.mpr ⟨row, hr, by simp [other]⟩
        · exact mem_updateWhere.mpr ⟨old, ho, by simp [he]⟩

theorem accounted_mark {s : Daemon} {id : Nat} {created : SessionInfo} (h : Accounted s)
    (pc : s.opener = .marking id created) :
    Accounted { s with
      opener := .idle, store := s.store.apply (.markOpened id created.id created.startedAt) } := by
  have rows := marked_rows h pc
  refine ⟨?_, ?_, h.held, nofun⟩
  · intro row hr
    rcases (rows row).mp hr with ⟨_, hr⟩ | ⟨old, ho, _, rfl⟩
    · exact h.sources row hr
    · exact h.sources old ho
  · intro row hr linked
    rcases (rows row).mp hr with ⟨_, hr⟩ | ⟨old, ho, _, rfl⟩
    · exact h.actives row hr linked
    · exact (h.marking id created pc).1

theorem accounted_step {s t : Daemon} {label : Label} (h : Accounted s) (ht : step s label = some t) :
    Accounted t := by
  by_cases mark : label = .mark
  · subst mark
    simp only [step] at ht
    split at ht
    next id created pc => cases ht; exact accounted_mark h pc
    next => cases ht
  · exact accounted_turn h (turn_step mark ht)

/-- No other row has been made for the shell that is about to be linked to the entry. -/
def OpenPc.Unclaimed (rows : List SavedTerminal) : OpenPc → Prop
  | .marking entry created => (∃ row ∈ rows, row.id = entry) →
      ∀ row ∈ rows, row.id ≠ entry → row.sourceSessionID ≠ created.id
  | .idle | .got _ | .starting _ => True

instance (rows : List SavedTerminal) : DecidablePred (OpenPc.Unclaimed rows)
  | .marking entry created => inferInstanceAs (Decidable ((∃ row ∈ rows, row.id = entry) →
      ∀ row ∈ rows, row.id ≠ entry → row.sourceSessionID ≠ created.id))
  | .idle | .got _ | .starting _ => isTrue trivial

/-- The step is no association that finds an entry already made for its shell. -/
def Daemon.Unclaimed (s : Daemon) (label : Label) : Prop := label = .mark → s.opener.Unclaimed s.store.rows

instance (s : Daemon) (label : Label) : Decidable (s.Unclaimed label) :=
  inferInstanceAs (Decidable (label = .mark → s.opener.Unclaimed s.store.rows))

theorem single_empty : Store.empty.Single := by
  intro a ha
  cases ha

/-- The association gives its session a second row exactly when an entry of its own was made before. -/
theorem single_mark {s t : Daemon} (single : s.store.Single) (h : Accounted s) (ht : step s .mark = some t) :
    t.store.Single ↔ s.Unclaimed .mark := by
  simp only [step] at ht
  split at ht
  next id created pc =>
    cases ht
    have rows := marked_rows h pc
    have free := (h.marking id created pc).2
    simp only [Daemon.Unclaimed, pc, OpenPc.Unclaimed, forall_const]
    constructor
    · rintro after ⟨row, hr, hid⟩ other ho hne same
      have linked := (rows _).mpr (Or.inr ⟨row, hr, hid, rfl⟩)
      have left := (rows other).mpr (Or.inl ⟨hne, ho⟩)
      have clash := after _ linked other left created.id created.named
        (ofSession_iff.mpr (Or.inr rfl)) (ofSession_iff.mpr (Or.inl same))
      exact hne (clash.symm.trans hid)
    · intro unclaimed
      have apart : ∀ old ∈ s.store.rows, old.id = id → ∀ other ∈ s.store.rows, other.id ≠ id → ∀ S, S ≠ "" →
          (old.sourceSessionID = S ∨ created.id = S) → other.ofSession S = true → False := by
        intro old ho hid other hr hne S hS belongs shared
        rcases belongs with source | active
        · have clash := single old ho other hr S hS (ofSession_iff.mpr (Or.inl source)) shared
          exact hne (clash.symm.trans hid)
        · rcases ofSession_iff.mp shared with source | linked
          · exact unclaimed ⟨old, ho, hid⟩ other hr hne (source.trans active.symm)
          · exact free other hr (linked.trans active.symm)
      intro a ha b hb S hS oa ob
      rcases (rows a).mp ha with ⟨hna, ha⟩ | ⟨olda, hoa, hida, rfl⟩
      · rcases (rows b).mp hb with ⟨hnb, hb⟩ | ⟨oldb, hob, hidb, rfl⟩
        · exact single a ha b hb S hS oa ob
        · exact (apart oldb hob hidb a ha hna S hS (ofSession_iff.mp ob) oa).elim
      · rcases (rows b).mp hb with ⟨hnb, hb⟩ | ⟨oldb, hob, hidb, rfl⟩
        · exact (apart olda hoa hida b hb hnb S hS (ofSession_iff.mp oa) ob).elim
        · exact hida.trans hidb.symm
  next => cases ht

theorem single_step {s t : Daemon} {label : Label} (single : s.store.Single) (h : Accounted s)
    (unclaimed : s.Unclaimed label) (ht : step s label = some t) : t.store.Single := by
  by_cases mark : label = .mark
  · subst mark
    exact (single_mark single h ht).mpr unclaimed
  · rcases (turn_step mark ht).store with same | ⟨op, applied, plain, _⟩
    · exact same ▸ single
    · rw [applied]
      exact edits_preserve (fun _ _ => single_edit) single (edits_apply plain)

theorem keyed_step {s t : Daemon} {label : Label} (h : s.store.Keyed) (ht : step s label = some t) :
    t.store.Keyed := by
  by_cases mark : label = .mark
  · subst mark
    simp only [step] at ht
    split at ht
    next id created _ => cases ht; exact keyed_apply h (.markOpened id created.id created.startedAt)
    next => cases ht
  · rcases (turn_step mark ht).store with same | ⟨op, applied, _⟩
    · exact same ▸ h
    · exact applied ▸ keyed_apply h op

theorem single_run {labels : List Label} {s : Daemon} (run : exec step Daemon.initial labels = some s)
    (unclaimed : Along step Daemon.Unclaimed Daemon.initial labels) :
    s.store.Single ∧ Accounted s ∧ s.store.Keyed := by
  have preserve : ∀ (s : Daemon) (label : Label) (t : Daemon), s.store.Single ∧ Accounted s ∧ s.store.Keyed →
      s.Unclaimed label → step s label = some t → t.store.Single ∧ Accounted t ∧ t.store.Keyed := by
    intro s label t ⟨single, accounted, keyed⟩ free ht
    exact ⟨single_step single accounted free ht, accounted_step accounted ht, keyed_step keyed ht⟩
  exact exec_preserves preserve ⟨single_empty, accounted_initial, keyed_empty⟩ run unclaimed

theorem single_of_length_le_one {s : Store}
    (h : ∀ S, S ≠ "" → (s.rows.filter (ofSession S)).length ≤ 1) : s.Single := by
  intro a ha b hb S hS oa ob
  have le := h S hS
  have ha := List.mem_filter.mpr ⟨ha, oa⟩
  have hb := List.mem_filter.mpr ⟨hb, ob⟩
  match hf : s.rows.filter (ofSession S) with
  | [] => simp [hf] at ha
  | [row] =>
    rw [hf] at ha hb
    rw [List.mem_singleton.mp ha, List.mem_singleton.mp hb]
  | _ :: _ :: _ => simp [hf] at le

/-- As long as no association of an opened shell finds an entry already made for that shell, no session is
in two rows; the first association that does find one puts its session there. -/
theorem sessions_stay_in_one_row {labels : List Label} {s : Daemon}
    (run : exec step Daemon.initial labels = some s)
    (unclaimed : Along step Daemon.Unclaimed Daemon.initial labels) :
    (∀ S, S ≠ "" → (s.store.rows.filter (ofSession S)).length ≤ 1) ∧
    ∀ t, step s .mark = some t → ¬ s.Unclaimed .mark →
      ∃ S, S ≠ "" ∧ 1 < (t.store.rows.filter (ofSession S)).length := by
  obtain ⟨single, accounted, keyed⟩ := single_run run unclaimed
  constructor
  · intro S hS
    exact length_filter_le_one keyed single hS
  · intro t ht claimed
    by_contra none
    refine claimed ((single_mark single accounted ht).mp (single_of_length_le_one ?_))
    intro S hS
    by_contra more
    exact none ⟨S, hS, by omega⟩

/-- An entry is opened and the shell ends before its association is written. -/
def shortLived : List Label := [.start (shell "s2" 2 second_named), .finish "s2" ⟨2026, 9, 3, 12, 3, 0, 0⟩]

theorem sessions_stay_in_one_row_opened : ∃ s,
    exec step Daemon.initial (saving ++ shortLived ++ [.mark, .recordEnded 0]) = some s ∧
      (s.store.rows.filter (ofSession "s2")).length ≤ 1 ∧
      (s.store.rows.filter (ofSession "s1")).length ≤ 1 := by
  have unclaimed : Along step Daemon.Unclaimed Daemon.initial (saving ++ shortLived ++ [.mark, .recordEnded 0]) := by
    decide
  have run : (exec step Daemon.initial (saving ++ shortLived ++ [.mark, .recordEnded 0])).isSome = true := by
    decide
  obtain ⟨s, run⟩ := Option.isSome_iff_exists.mp run
  have one := (sessions_stay_in_one_row run unclaimed).1
  exact ⟨s, run, one "s2" (by decide), one "s1" (by decide)⟩

/-- The end of a fresh shell recorded before its association makes it an entry of its own; the association
then links it to the entry that was opened as well. -/
theorem early_end_gives_session_two_rows :
    ¬ ∀ (labels : List Label) (s : Daemon) (S : String), exec step Daemon.initial labels = some s → S ≠ "" →
      (s.store.rows.filter (ofSession S)).length ≤ 1 := by
  intro h
  have run : (exec step Daemon.initial (saving ++ shortLived ++ [.recordEnded 0, .mark])).any (fun s =>
      decide (1 < (s.store.rows.filter (ofSession "s2")).length)) = true := by
    decide +kernel
  obtain ⟨s, run, two⟩ := (Option.any_eq_true _ _).mp run
  have one := h _ s "s2" run (by decide)
  have two := of_decide_eq_true two
  omega

end TermLinks.TerminalHistory
