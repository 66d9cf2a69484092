import TermLinks.HistoryRows

namespace TermLinks.TerminalHistory

open SavedTerminal

/-- `t` keeps the active links of `s` except those that may be cleared; what it adds has none. -/
structure LinksKept (cleared : String → Prop) (s t : Store) : Prop where
  drawn : s.nextID ≤ t.nextID
  links : ∀ row ∈ t.rows, (row.activeSessionID = "" ∧ s.nextID ≤ row.id) ∨
    ∃ old ∈ s.rows, old.id = row.id ∧ (row.activeSessionID = old.activeSessionID ∨
      (row.activeSessionID = "" ∧ cleared old.activeSessionID))

section

variable {cleared : String → Prop}

theorem linksKept_refl (s : Store) : LinksKept cleared s s :=
  ⟨Nat.le_refl _, fun row hr => Or.inr ⟨row, hr, rfl, Or.inl rfl⟩⟩

theorem linksKept_trans {s t u : Store} (hst : LinksKept cleared s t) (htu : LinksKept cleared t u) :
    LinksKept cleared s u where
  drawn := Nat.le_trans hst.drawn htu.drawn
  links := by
    intro row hr
    rcases htu.links row hr with ⟨unlinked, fresh⟩ | ⟨mid, hm, hid, link⟩
    · exact Or.inl ⟨unlinked, Nat.le_trans hst.drawn fresh⟩
    · rcases hst.links mid hm with ⟨unlinked, fresh⟩ | ⟨old, ho, hold, before⟩
      · have none : row.activeSessionID = "" := link.elim (fun he => he.trans unlinked) And.left
        exact Or.inl ⟨none, hid ▸ fresh⟩
      · refine Or.inr ⟨old, ho, hold.trans hid, ?_⟩
        rcases link with he | ⟨none, hc⟩
        · rw [he]
          exact before
        · rcases before with he | ⟨_, hold⟩
          · exact Or.inr ⟨none, he ▸ hc⟩
          · exact Or.inr ⟨none, hold⟩

theorem linksKept_mono {weaker : String → Prop} {s t : Store}
    (h : ∀ row ∈ s.rows, cleared row.activeSessionID → weaker row.activeSessionID)
    (hk : LinksKept cleared s t) : LinksKept weaker s t where
  drawn := hk.drawn
  links := by
    intro row hr
    rcases hk.links row hr with new | ⟨old, ho, hid, he | ⟨none, hc⟩⟩
    · exact Or.inl new
    · exact Or.inr ⟨old, ho, hid, Or.inl he⟩
    · exact Or.inr ⟨old, ho, hid, Or.inr ⟨none, h old ho hc⟩⟩

/-- An update that clears a link only where it may. -/
theorem linksKept_updateWhere {s : Store} {p : SavedTerminal → Bool} {f : SavedTerminal → SavedTerminal}
    (hid : ∀ row, (f row).id = row.id)
    (hf : ∀ row, p row = true → (f row).activeSessionID = row.activeSessionID ∨
      ((f row).activeSessionID = "" ∧ cleared row.activeSessionID)) :
    LinksKept cleared s { s with rows := updateWhere p f s.rows } where
  drawn := Nat.le_refl _
  links := by
    intro row hr
    obtain ⟨old, ho, rfl⟩ := mem_updateWhere.mp hr
    refine Or.inr ⟨old, ho, (updateWhere_key hid old).symm, ?_⟩
    split
    next hp => exact hf old hp
    next => exact Or.inl rfl

theorem linksKept_filter {s : Store} {p : SavedTerminal → Bool} :
    LinksKept cleared s { s with rows := s.rows.filter p } where
  drawn := Nat.le_refl _
  links := fun row hr => Or.inr ⟨row, List.mem_of_mem_filter hr, rfl, Or.inl rfl⟩

theorem linksKept_insert {s : Store} {row : SavedTerminal} (hid : row.id = s.nextID)
    (unlinked : row.activeSessionID = "") :
    LinksKept cleared s { rows := s.rows ++ [row], nextID := s.nextID + 1 } where
  drawn := Nat.le_succ _
  links := by
    intro other ho
    rcases List.mem_append.mp ho with ho | ho
    · exact Or.inr ⟨other, ho, rfl, Or.inl rfl⟩
    · cases List.mem_singleton.mp ho
      exact Or.inl ⟨unlinked, Nat.le_of_eq hid.symm⟩

theorem linksKept_pruneRecent {s t : Store} (h : LinksKept cleared s t) : LinksKept cleared s t.pruneRecent :=
  linksKept_trans h linksKept_filter

end

theorem linksKept_clearMissing (s : Store) (known : List String) :
    LinksKept (· ∉ known) s (s.clearMissingActiveSessions known) := by
  apply linksKept_updateWhere
  · intro row
    rfl
  · intro row hp
    have missing : row.activeSessionID ≠ "" ∧ row.activeSessionID ∉ known := by simpa using hp
    exact Or.inr ⟨rfl, missing.2⟩

theorem linksKept_reconcileEnded {s t : Store} {info : SessionInfo} {ended : Time}
    (hr : s.reconcileEnded info ended = .ok t) : LinksKept (· = info.id) s t := by
  obtain ⟨⟨name, cwd⟩, _, hr⟩ := bind_eq_ok.mp hr
  dsimp only at hr
  split at hr
  next => cases hr; exact linksKept_insert rfl rfl
  next =>
    split at hr
    next => cases hr; exact linksKept_refl s
    next =>
      cases hr
      apply linksKept_updateWhere
      · intro row
        rfl
      · intro row _
        show (if _ then _ else _) = _ ∨ _
        simp only [close]
        split
        next he => exact Or.inr ⟨rfl, he⟩
        next => exact Or.inl rfl

/-- The sessions a list has as ended. -/
def EndedIn (sessions : List SessionInfo) (sessionID : String) : Prop :=
  ∃ info ∈ sessions, info.ended ≠ none ∧ info.id = sessionID

theorem linksKept_foldSessions {sessions : List SessionInfo} {s t : Store}
    (hr : sessions.foldlM Store.reconcileSession s = .ok t) : LinksKept (EndedIn sessions) s t := by
  induction sessions generalizing s with
  | nil => cases hr; exact linksKept_refl _
  | cons info sessions ih =>
    rw [List.foldlM_cons] at hr
    obtain ⟨u, hu, hr⟩ := bind_eq_ok.mp hr
    have rest : LinksKept (EndedIn (info :: sessions)) u t := by
      refine linksKept_mono ?_ (ih hr)
      intro row _ ⟨other, ho, he⟩
      exact ⟨other, List.mem_cons_of_mem _ ho, he⟩
    refine linksKept_trans ?_ rest
    unfold Store.reconcileSession at hu
    split at hu
    next => cases hu; exact linksKept_refl s
    next ended he =>
      refine linksKept_mono ?_ (linksKept_reconcileEnded hu)
      intro row _ ha
      exact ⟨info, List.mem_cons_self, by simp [he], ha.symm⟩

/-- A reconcile clears a link only to a session that its list has as ended or does not have. -/
theorem linksKept_reconcile {sessions : List SessionInfo} {s t : Store} (hr : s.reconcile sessions = .ok t) :
    LinksKept (fun a => EndedIn sessions a ∨ a ∉ sessions.map SessionInfo.id) s t := by
  obtain ⟨u, hu, hr⟩ := bind_eq_ok.mp hr
  cases hr
  apply linksKept_pruneRecent
  refine linksKept_trans (linksKept_mono ?_ (linksKept_foldSessions hu))
    (linksKept_mono ?_ (linksKept_clearMissing u _))
  · intro row _ ha
    exact Or.inl ha
  · intro row _ ha
    exact Or.inr ha

theorem linksKept_recordEnded {s t : Store} {info : SessionInfo} (hr : s.recordEnded info = .ok t) :
    LinksKept (fun a => info.ended ≠ none ∧ info.id = a) s t := by
  unfold Store.recordEnded at hr
  split at hr
  next => cases hr
  next ended he =>
    obtain ⟨u, hu, hr⟩ := bind_eq_ok.mp hr
    cases hr
    apply linksKept_pruneRecent
    refine linksKept_mono ?_ (linksKept_reconcileEnded hu)
    intro row _ ha
    exact ⟨by simp [he], ha.symm⟩

theorem linksKept_saveSession {s : Store} {info : SessionInfo} {favorite : Bool} {now : Time}
    {saved : Store × Nat} (hr : s.saveSession info favorite now = .ok saved) :
    LinksKept (fun _ => False) s saved.1 := by
  obtain ⟨⟨name, cwd⟩, _, hr⟩ := bind_eq_ok.mp hr
  cases hf : s.rows.find? (ofSession info.id) with
  | none =>
    simp only [hf] at hr
    split at hr
    next =>
      obtain ⟨_, _, hr⟩ := bind_eq_ok.mp hr
      cases hr
      exact linksKept_pruneRecent (linksKept_insert rfl rfl)
    next => cases hr; exact linksKept_pruneRecent (linksKept_insert rfl rfl)
  | some entry =>
    simp only [hf] at hr
    split at hr
    next =>
      obtain ⟨_, _, hr⟩ := bind_eq_ok.mp hr
      cases hr
      exact linksKept_pruneRecent (linksKept_updateWhere (fun _ => rfl) (fun _ _ => Or.inl rfl))
    next =>
      cases hr
      exact linksKept_pruneRecent (linksKept_updateWhere (fun _ => rfl) (fun _ _ => Or.inl rfl))

theorem linksKept_update {s t : Store} {id : Nat} {name : Option String} {favorite : Option Bool} {now : Time}
    (hr : s.update id name favorite now = .ok t) : LinksKept (fun _ => False) s t := by
  obtain ⟨entry, _, hr⟩ := bind_eq_ok.mp hr
  dsimp only at hr
  split at hr
  next =>
    obtain ⟨_, _, hr⟩ := bind_eq_ok.mp hr
    cases hr
    exact linksKept_pruneRecent (linksKept_updateWhere (fun _ => rfl) (fun _ _ => Or.inl rfl))
  next =>
    cases hr
    exact linksKept_pruneRecent (linksKept_updateWhere (fun _ => rfl) (fun _ _ => Or.inl rfl))

theorem linksKept_delete {s t : Store} {id : Nat} (hr : s.delete id = .ok t) :
    LinksKept (fun _ => False) s t := by
  unfold Store.delete at hr
  split at hr
  next => cases hr; exact linksKept_filter
  next => cases hr

theorem linksKept_renameSession (s : Store) (sessionID name : String) (now : Time) :
    LinksKept (fun _ => False) s (s.renameSession sessionID name now) :=
  linksKept_updateWhere (fun _ => rfl) (fun _ _ => Or.inl rfl)

theorem linksKept_commit {cleared : String → Prop} {s : Store} {r : Except StoreError Store}
    (h : ∀ t, r = .ok t → LinksKept cleared s t) : LinksKept cleared s (s.commit r) := by
  cases r with
  | error e => exact linksKept_refl s
  | ok t => exact h t rfl

/-- The links a call may clear. -/
def Op.Clears : Op → String → Prop
  | .reconcile sessions, a => EndedIn sessions a ∨ a ∉ sessions.map SessionInfo.id
  | .recordEnded info, a => info.ended ≠ none ∧ info.id = a
  | _, _ => False

/-- Every call but `MarkOpened` keeps the links it may not clear. -/
theorem linksKept_apply {s : Store} {op : Op} (hop : ∀ id sessionID at', op ≠ .markOpened id sessionID at') :
    LinksKept op.Clears s (s.apply op) := by
  cases op with
  | reconcile sessions => exact linksKept_commit fun t ht => linksKept_reconcile ht
  | recordEnded info => exact linksKept_commit fun t ht => linksKept_recordEnded ht
  | saveSession info favorite now =>
    refine linksKept_commit ?_
    intro t ht
    cases hs : s.saveSession info favorite now with
    | error e => simp [hs, Except.map] at ht
    | ok saved =>
      simp only [hs, Except.map] at ht
      cases ht
      exact linksKept_saveSession hs
  | update id name favorite now => exact linksKept_commit fun t ht => linksKept_update ht
  | delete id => exact linksKept_commit fun t ht => linksKept_delete ht
  | markOpened id sessionID openedAt => exact absurd rfl (hop id sessionID openedAt)
  | renameSession sessionID name now => exact linksKept_renameSession s sessionID name now

/-- `MarkOpened` links its row and leaves the others. -/
theorem markOpened_rows {s t : Store} {id : Nat} {sessionID : String} {openedAt : Time}
    (h : s.markOpened id sessionID openedAt = .ok t) : t.nextID = s.nextID ∧
    ∀ row ∈ t.rows, (row.id = id ∧ row.activeSessionID = sessionID) ∨ (row.id ≠ id ∧ row ∈ s.rows) := by
  unfold Store.markOpened at h
  split at h
  next => cases h
  next =>
    split at h
    next => cases h
    next =>
      cases h
      refine ⟨rfl, ?_⟩
      intro row hr
      obtain ⟨old, ho, rfl⟩ := mem_updateWhere.mp hr
      split
      next he => exact Or.inl ⟨by simpa using he, rfl⟩
      next hn => exact Or.inr ⟨by simpa using hn, ho⟩

/-- `MarkOpened` fails when its row is gone or another row has the link. -/
theorem markOpened_error {s : Store} {id : Nat} {sessionID : String} {openedAt : Time} {e : StoreError}
    (h : s.markOpened id sessionID openedAt = .error e) :
    (∀ row ∈ s.rows, row.id ≠ id) ∨ ∃ row ∈ s.rows, row.activeSessionID = sessionID := by
  unfold Store.markOpened at h
  split at h
  next none => exact Or.inl (by simpa using none)
  next =>
    split at h
    next linked =>
      obtain ⟨row, hr, he⟩ := List.any_eq_true.mp linked.2
      have he : row.id ≠ id ∧ row.activeSessionID = sessionID := by simpa using he
      exact Or.inr ⟨row, hr, he.2⟩
    next => cases h

end TermLinks.TerminalHistory
