import TermLinks.Exec
import TermLinks.HistoryStore

namespace TermLinks.TerminalHistory

open SavedTerminal

theorem not_ofSession_iff {row : SavedTerminal} {sessionID : String} :
    ¬ row.ofSession sessionID ↔ row.sourceSessionID ≠ sessionID ∧ row.activeSessionID ≠ sessionID := by
  simp [ofSession]

/-- A call that succeeds has taken each of its steps. -/
theorem bind_eq_ok {α β : Type} {x : Except StoreError α} {f : α → Except StoreError β} {b : β} :
    x >>= f = .ok b ↔ ∃ a, x = .ok a ∧ f a = .ok b := by
  cases x with
  | error e => simp [bind, Except.bind]
  | ok a => simp [bind, Except.bind]

/-- The keys of the table: ids and source sessions are unique, and every id has been drawn. -/
structure Store.Keyed (s : Store) : Prop where
  ids : (s.rows.map SavedTerminal.id).Nodup
  drawn : ∀ row ∈ s.rows, row.id < s.nextID
  sources : (s.rows.map sourceSessionID).Nodup

/-- Every call that writes the database is one transaction. -/
def Store.step (s : Store) (op : Op) : Option Store := some (s.apply op)

theorem keyed_empty : Store.empty.Keyed := ⟨List.nodup_nil, nofun, List.nodup_nil⟩

theorem keyed_updateWhere {s : Store} {p : SavedTerminal → Bool} {f : SavedTerminal → SavedTerminal}
    (h : s.Keyed) (hid : ∀ row, (f row).id = row.id)
    (hsource : ∀ row, (f row).sourceSessionID = row.sourceSessionID) :
    Store.Keyed { s with rows := updateWhere p f s.rows } where
  ids := by
    show ((updateWhere p f s.rows).map SavedTerminal.id).Nodup
    rw [map_updateWhere hid]
    exact h.ids
  drawn := by
    intro row hr
    obtain ⟨old, ho, rfl⟩ := mem_updateWhere.mp hr
    rw [updateWhere_key hid]
    exact h.drawn old ho
  sources := by
    show ((updateWhere p f s.rows).map sourceSessionID).Nodup
    rw [map_updateWhere hsource]
    exact h.sources

theorem keyed_filter {s : Store} {p : SavedTerminal → Bool} (h : s.Keyed) :
    Store.Keyed { s with rows := s.rows.filter p } where
  ids := h.ids.sublist (List.filter_sublist.map _)
  drawn := fun row hr => h.drawn row (List.mem_of_mem_filter hr)
  sources := h.sources.sublist (List.filter_sublist.map _)

theorem keyed_insert {s : Store} {row : SavedTerminal} (h : s.Keyed) (hid : row.id = s.nextID)
    (hnew : ∀ old ∈ s.rows, old.sourceSessionID ≠ row.sourceSessionID) :
    Store.Keyed { rows := s.rows ++ [row], nextID := s.nextID + 1 } where
  ids := by
    show ((s.rows ++ [row]).map SavedTerminal.id).Nodup
    rw [List.map_append, List.nodup_append]
    refine ⟨h.ids, List.nodup_singleton _, ?_⟩
    intro a ha b hb
    obtain ⟨old, ho, rfl⟩ := List.mem_map.mp ha
    have hlt := h.drawn old ho
    simp only [List.map_cons, List.map_nil, List.mem_singleton] at hb
    omega
  drawn := by
    intro old ho
    show old.id < s.nextID + 1
    rcases List.mem_append.mp ho with ho | ho
    · have hlt := h.drawn old ho
      omega
    · rw [List.mem_singleton.mp ho]
      omega
  sources := by
    show ((s.rows ++ [row]).map sourceSessionID).Nodup
    rw [List.map_append, List.nodup_append]
    refine ⟨h.sources, List.nodup_singleton _, ?_⟩
    intro a ha b hb
    obtain ⟨old, ho, rfl⟩ := List.mem_map.mp ha
    rw [List.mem_singleton.mp hb]
    exact hnew old ho

theorem keyed_pruneRecent {s : Store} (h : s.Keyed) : s.pruneRecent.Keyed := keyed_filter h

theorem keyed_clearMissing {s : Store} (h : s.Keyed) (known : List String) :
    (s.clearMissingActiveSessions known).Keyed :=
  keyed_updateWhere h (fun _ => rfl) (fun _ => rfl)

theorem keyed_reconcileEnded {s t : Store} {info : SessionInfo} {ended : Time} (h : s.Keyed)
    (hr : s.reconcileEnded info ended = .ok t) : t.Keyed := by
  unfold Store.reconcileEnded at hr
  obtain ⟨⟨name, cwd⟩, _, hr⟩ := bind_eq_ok.mp hr
  dsimp only at hr
  split at hr
  next hf =>
    cases hr
    refine keyed_insert h rfl ?_
    intro old ho
    exact (not_ofSession_iff.mp (List.find?_eq_none.mp hf old ho)).1
  next row hf =>
    split at hr
    next => cases hr; exact h
    next => cases hr; exact keyed_updateWhere h (fun _ => rfl) (fun _ => rfl)

theorem keyed_reconcileSession {s t : Store} {info : SessionInfo} (h : s.Keyed)
    (hr : s.reconcileSession info = .ok t) : t.Keyed := by
  unfold Store.reconcileSession at hr
  split at hr
  next => cases hr; exact h
  next => exact keyed_reconcileEnded h hr

theorem keyed_foldSessions {sessions : List SessionInfo} {s t : Store} (h : s.Keyed)
    (hr : sessions.foldlM Store.reconcileSession s = .ok t) : t.Keyed := by
  induction sessions generalizing s with
  | nil => cases hr; exact h
  | cons info sessions ih =>
    rw [List.foldlM_cons] at hr
    obtain ⟨u, hi, hr⟩ := bind_eq_ok.mp hr
    exact ih (keyed_reconcileSession h hi) hr

theorem keyed_reconcile {s t : Store} {sessions : List SessionInfo} (h : s.Keyed)
    (hr : s.reconcile sessions = .ok t) : t.Keyed := by
  obtain ⟨u, hf, hr⟩ := bind_eq_ok.mp hr
  cases hr
  exact keyed_pruneRecent (keyed_clearMissing (keyed_foldSessions h hf) _)

theorem keyed_recordEnded {s t : Store} {info : SessionInfo} (h : s.Keyed)
    (hr : s.recordEnded info = .ok t) : t.Keyed := by
  unfold Store.recordEnded at hr
  split at hr
  next => cases hr
  next ended _ =>
    obtain ⟨u, he, hr⟩ := bind_eq_ok.mp hr
    cases hr
    exact keyed_pruneRecent (keyed_reconcileEnded h he)

theorem keyed_saveSession {s : Store} {info : SessionInfo} {favorite : Bool} {now : Time}
    {saved : Store × Nat} (h : s.Keyed) (hr : s.saveSession info favorite now = .ok saved) :
    saved.1.Keyed := by
  unfold Store.saveSession at hr
  obtain ⟨⟨name, cwd⟩, _, hr⟩ := bind_eq_ok.mp hr
  cases hf : s.rows.find? (ofSession info.id) with
  | none =>
    have hnew : ∀ old ∈ s.rows, old.sourceSessionID ≠ info.id := by
      intro old ho
      exact (not_ofSession_iff.mp (List.find?_eq_none.mp hf old ho)).1
    simp only [hf] at hr
    split at hr
    next =>
      obtain ⟨_, _, hr⟩ := bind_eq_ok.mp hr
      cases hr
      exact keyed_pruneRecent (keyed_insert h rfl hnew)
    next => cases hr; exact keyed_pruneRecent (keyed_insert h rfl hnew)
  | some entry =>
    simp only [hf] at hr
    split at hr
    next =>
      obtain ⟨_, _, hr⟩ := bind_eq_ok.mp hr
      cases hr
      exact keyed_pruneRecent (keyed_updateWhere h (fun _ => rfl) (fun _ => rfl))
    next => cases hr; exact keyed_pruneRecent (keyed_updateWhere h (fun _ => rfl) (fun _ => rfl))

theorem keyed_update {s t : Store} {id : Nat} {name : Option String} {favorite : Option Bool} {now : Time}
    (h : s.Keyed) (hr : s.update id name favorite now = .ok t) : t.Keyed := by
  unfold Store.update at hr
  obtain ⟨entry, _, hr⟩ := bind_eq_ok.mp hr
  dsimp only at hr
  split at hr
  next =>
    obtain ⟨_, _, hr⟩ := bind_eq_ok.mp hr
    cases hr
    exact keyed_pruneRecent (keyed_updateWhere h (fun _ => rfl) (fun _ => rfl))
  next =>
    cases hr
    exact keyed_pruneRecent (keyed_updateWhere h (fun _ => rfl) (fun _ => rfl))

theorem keyed_delete {s t : Store} {id : Nat} (h : s.Keyed) (hr : s.delete id = .ok t) : t.Keyed := by
  unfold Store.delete at hr
  split at hr
  next => cases hr; exact keyed_filter h
  next => cases hr

theorem keyed_markOpened {s t : Store} {id : Nat} {sessionID : String} {openedAt : Time} (h : s.Keyed)
    (hr : s.markOpened id sessionID openedAt = .ok t) : t.Keyed := by
  unfold Store.markOpened at hr
  split at hr
  next => cases hr
  next =>
    split at hr
    next => cases hr
    next => cases hr; exact keyed_updateWhere h (fun _ => rfl) (fun _ => rfl)

theorem keyed_commit {s : Store} {r : Except StoreError Store} (h : s.Keyed)
    (hr : ∀ t, r = .ok t → t.Keyed) : (s.commit r).Keyed := by
  cases r with
  | error e => exact h
  | ok t => exact hr t rfl

theorem keyed_apply {s : Store} (h : s.Keyed) (op : Op) : (s.apply op).Keyed := by
  cases op with
  | reconcile sessions => exact keyed_commit h fun t ht => keyed_reconcile h ht
  | recordEnded info => exact keyed_commit h fun t ht => keyed_recordEnded h ht
  | saveSession info favorite now =>
    refine keyed_commit h ?_
    intro t ht
    cases hs : s.saveSession info favorite now with
    | error e => simp [hs, Except.map] at ht
    | ok saved =>
      simp only [hs, Except.map] at ht
      cases ht
      exact keyed_saveSession h hs
  | update id name favorite now => exact keyed_commit h fun t ht => keyed_update h ht
  | delete id => exact keyed_commit h fun t ht => keyed_delete h ht
  | markOpened id sessionID openedAt => exact keyed_commit h fun t ht => keyed_markOpened h ht
  | renameSession sessionID name now => exact keyed_updateWhere h (fun _ => rfl) (fun _ => rfl)

/-- Whatever is called, ids and source sessions stay unique. -/
theorem keyed_run {ops : List Op} {s : Store} (run : exec Store.step Store.empty ops = some s) : s.Keyed :=
  exec_invariant (fun _ op _ h ht => Option.some.inj ht ▸ keyed_apply h op) keyed_empty run

instance : Std.Total before := ⟨fun a b => le_total b.rank a.rank⟩

instance : IsTrans SavedTerminal before := ⟨fun _ _ _ hab hbc => le_trans hbc hab⟩

theorem mem_kept {rows : List SavedTerminal} {id : Nat} :
    id ∈ Store.kept rows ↔ ∃ row ∈ topBy before maxRecent (Store.recent rows), row.id = id := by
  simp [Store.kept]

theorem mem_recent {rows : List SavedTerminal} {row : SavedTerminal} :
    row ∈ Store.recent rows ↔ row ∈ rows ∧ row.favorite = false := by
  simp [Store.recent]

theorem mem_pruneRecent {s : Store} {row : SavedTerminal} :
    row ∈ s.pruneRecent.rows ↔ row ∈ s.rows ∧ (row.favorite = true ∨ row.id ∈ Store.kept s.rows) := by
  simp [Store.pruneRecent]

theorem pruneRecent_eq_self {s : Store} (h : (Store.recent s.rows).length ≤ maxRecent) :
    s.pruneRecent = s := by
  have all : ∀ row ∈ s.rows, (row.favorite || decide (row.id ∈ Store.kept s.rows)) = true := by
    intro row hr
    cases hf : row.favorite with
    | true => rfl
    | false =>
      have top := (mem_topBy_of_length_le before h).mpr (mem_recent.mpr ⟨hr, hf⟩)
      simpa using mem_kept.mpr ⟨row, top, rfl⟩
  unfold Store.pruneRecent
  rw [List.filter_eq_self.mpr all]

/-- Among rows with unique ids the kept ids pick out exactly the top rows. -/
theorem mem_topBy_of_kept {s : Store} (h : s.Keyed) {row : SavedTerminal} (hr : row ∈ s.rows)
    (hk : row.id ∈ Store.kept s.rows) : row ∈ topBy before maxRecent (Store.recent s.rows) := by
  obtain ⟨top, ht, hid⟩ := mem_kept.mp hk
  have hm := (mem_recent.mp (mem_of_mem_topBy before ht)).1
  cases List.inj_on_of_nodup_map h.ids hm hr hid
  exact ht

theorem length_recent_pruneRecent {s : Store} (h : s.Keyed) :
    (Store.recent s.pruneRecent.rows).length = min maxRecent (Store.recent s.rows).length := by
  have recentIds : ((Store.recent s.rows).map SavedTerminal.id).Nodup :=
    h.ids.sublist (List.filter_sublist.map _)
  have sorted := (List.perm_insertionSort before (Store.recent s.rows)).map SavedTerminal.id
  have keptIds : (Store.kept s.rows).Nodup :=
    (sorted.nodup_iff.mpr recentIds).sublist ((List.take_sublist _ _).map _)
  have leftIds : ((Store.recent s.pruneRecent.rows).map SavedTerminal.id).Nodup :=
    (keyed_pruneRecent h).ids.sublist (List.filter_sublist.map _)
  have same : ((Store.recent s.pruneRecent.rows).map SavedTerminal.id).Perm (Store.kept s.rows) := by
    apply (List.perm_ext_iff_of_nodup leftIds keptIds).mpr
    intro id
    constructor
    · intro hid
      obtain ⟨row, hr, rfl⟩ := List.mem_map.mp hid
      obtain ⟨hp, hf⟩ := mem_recent.mp hr
      exact (mem_pruneRecent.mp hp).2.resolve_left (by simp [hf])
    · intro hid
      obtain ⟨row, ht, rfl⟩ := mem_kept.mp hid
      obtain ⟨hr, hf⟩ := mem_recent.mp (mem_of_mem_topBy before ht)
      exact List.mem_map_of_mem (mem_recent.mpr ⟨mem_pruneRecent.mpr ⟨hr, Or.inr hid⟩, hf⟩)
  rw [← List.length_map (f := SavedTerminal.id), same.length_eq, Store.kept, List.length_map, length_topBy]

/-- A row is pruned only when it ranks behind ten others. -/
theorem pruned_ranks_behind {s : Store} (h : s.Keyed) {row : SavedTerminal} (hr : row ∈ s.rows)
    (hp : row ∉ s.pruneRecent.rows) :
    row.favorite = false ∧ maxRecent < (Store.recent s.rows).length ∧
      ∀ left ∈ Store.recent s.pruneRecent.rows, row.rank ≤ left.rank := by
  have out := fun hk => hp (mem_pruneRecent.mpr ⟨hr, hk⟩)
  have hf : row.favorite = false := Bool.eq_false_iff.mpr fun hf => out (Or.inl hf)
  have hm := mem_recent.mpr ⟨hr, hf⟩
  have below : row ∉ topBy before maxRecent (Store.recent s.rows) :=
    fun ht => out (Or.inr (mem_kept.mpr ⟨row, ht, rfl⟩))
  refine ⟨hf, ?_, ?_⟩
  · by_contra hle
    exact below ((mem_topBy_of_length_le before (Nat.le_of_not_lt hle)).mpr hm)
  · intro left hl
    obtain ⟨hs, hn⟩ := mem_recent.mp hl
    obtain ⟨hs, hk⟩ := mem_pruneRecent.mp hs
    have top := mem_topBy_of_kept h hs (hk.resolve_left (by simp [hn]))
    exact topBy_rel before top hm below

/-- Rows added behind a full list of recent rows are pruned again, and nothing else. -/
theorem pruneRecent_append {s : Store} {more : List SavedTerminal}
    (full : (Store.recent s.rows).length = maxRecent)
    (plain : ∀ row ∈ more, row.favorite = false)
    (new : ∀ row ∈ more, ∀ old ∈ s.rows, old.id ≠ row.id)
    (behind : ∀ row ∈ more, ∀ left ∈ Store.recent s.rows, row.rank ≤ left.rank) (nextID : Nat) :
    (Store.pruneRecent ⟨s.rows ++ more, nextID⟩).rows = s.rows := by
  have recents : Store.recent (s.rows ++ more) = Store.recent s.rows ++ more := by
    have all : more.filter (fun row => !row.favorite) = more :=
      List.filter_eq_self.mpr fun row hr => by simp [plain row hr]
    unfold Store.recent
    rw [List.filter_append, all]
  have top : topBy before maxRecent (Store.recent (s.rows ++ more)) =
      (Store.recent s.rows).insertionSort before := by
    rw [recents]
    exact topBy_append before full fun left hl row hr => behind row hr left hl
  have kept : ∀ id, id ∈ Store.kept (s.rows ++ more) ↔ ∃ row ∈ Store.recent s.rows, row.id = id := by
    intro id
    rw [mem_kept, top]
    simp only [List.mem_insertionSort]
  show (s.rows ++ more).filter _ = s.rows
  rw [List.filter_append, List.filter_eq_self.mpr, List.filter_eq_nil_iff.mpr, List.append_nil]
  · intro row hr hk
    have hk : row.id ∈ Store.kept (s.rows ++ more) := by simpa [plain row hr] using hk
    obtain ⟨old, ho, hid⟩ := (kept row.id).mp hk
    exact new row hr old (mem_recent.mp ho).1 hid
  · intro row hr
    cases hf : row.favorite with
    | true => rfl
    | false => simpa using (kept row.id).mpr ⟨row, mem_recent.mpr ⟨hr, hf⟩, rfl⟩

end TermLinks.TerminalHistory
