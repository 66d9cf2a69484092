import TermLinks.HistoryRows

namespace TermLinks.TerminalHistory

open SavedTerminal

/-- What the calls on the store are given. -/
structure Arguments where
  session : SessionInfo → Prop
  name : String → Prop
  opened : String → Prop
  time : Time → Prop

/-- The arguments of one call are such. -/
def Op.Within (given : Arguments) : Op → Prop
  | .reconcile sessions => ∀ info ∈ sessions, given.session info
  | .recordEnded info => given.session info
  | .saveSession info _ now => given.session info ∧ given.time now
  | .update _ name _ now => (∀ text ∈ name, given.name text) ∧ given.time now
  | .delete _ => True
  | .markOpened _ sessionID openedAt => given.opened sessionID ∧ given.time openedAt
  | .renameSession _ name now => given.name name ∧ given.time now

/-- A property of rows that every insert and update keeps when the call is given such arguments. -/
structure Admits (given : Arguments) (P : SavedTerminal → Prop) : Prop where
  inserted : ∀ id info name cwd ended, given.session info → safeMetadata info = .ok (name, cwd) →
    info.ended = some ended → P (ofEnded id info name cwd ended)
  saved : ∀ id info name cwd favorite now, given.session info → safeMetadata info = .ok (name, cwd) →
    given.time now → P ⟨id, info.id, "", name, cwd, favorite, encodeTime now, encodeTime now, encodeTime now, none⟩
  closed : ∀ row info ended, given.session info → info.ended = some ended → P row →
    P (row.close info.id (encodeTime ended))
  unlinked : ∀ row, P row → P { row with activeSessionID := "" }
  changed : ∀ row name favorite now, given.time now →
    (given.name name ∨ ∃ other, P other ∧ other.name = name) → P row →
      P { row with name, favorite, updatedAt := encodeTime now }
  opened : ∀ row sessionID now, given.opened sessionID → given.time now → P row →
    P { row with activeSessionID := sessionID, lastOpenedAt := encodeTime now, updatedAt := encodeTime now }

namespace Admits

variable {given : Arguments} {P : SavedTerminal → Prop}

theorem updateWhere {rows : List SavedTerminal} {p : SavedTerminal → Bool}
    {f : SavedTerminal → SavedTerminal} (h : ∀ row ∈ rows, P row) (hf : ∀ row, P row → P (f row)) :
    ∀ row ∈ updateWhere p f rows, P row := by
  intro row hr
  obtain ⟨old, ho, rfl⟩ := mem_updateWhere.mp hr
  have hold := h old ho
  split
  next => exact hf old hold
  next => exact hold

theorem pruneRecent {s : Store} (h : ∀ row ∈ s.rows, P row) : ∀ row ∈ s.pruneRecent.rows, P row :=
  fun row hr => h row (mem_pruneRecent.mp hr).1

theorem reconcileEnded {s t : Store} {info : SessionInfo} {ended : Time} (inv : Admits given P)
    (h : ∀ row ∈ s.rows, P row) (session : given.session info) (he : info.ended = some ended)
    (hr : s.reconcileEnded info ended = .ok t) : ∀ row ∈ t.rows, P row := by
  obtain ⟨⟨name, cwd⟩, metadata, hr⟩ := bind_eq_ok.mp hr
  dsimp only at hr
  split at hr
  next =>
    cases hr
    intro row hm
    rcases List.mem_append.mp hm with hm | hm
    · exact h row hm
    · rw [List.mem_singleton.mp hm]
      exact inv.inserted _ _ _ _ _ session metadata he
  next entry _ =>
    split at hr
    next => cases hr; exact h
    next => cases hr; exact updateWhere h fun row hp => inv.closed row _ _ session he hp

theorem foldSessions {sessions : List SessionInfo} {s t : Store} (inv : Admits given P)
    (h : ∀ row ∈ s.rows, P row) (within : ∀ info ∈ sessions, given.session info)
    (hr : sessions.foldlM Store.reconcileSession s = .ok t) : ∀ row ∈ t.rows, P row := by
  induction sessions generalizing s with
  | nil => cases hr; exact h
  | cons info sessions ih =>
    rw [List.foldlM_cons] at hr
    obtain ⟨u, hi, hr⟩ := bind_eq_ok.mp hr
    obtain ⟨session, rest⟩ := List.forall_mem_cons.mp within
    refine ih ?_ rest hr
    unfold Store.reconcileSession at hi
    split at hi
    next => cases hi; exact h
    next ended he => exact inv.reconcileEnded h session he hi

theorem saveSession {s : Store} {info : SessionInfo} {favorite : Bool} {now : Time} {result : Store × Nat}
    (inv : Admits given P) (h : ∀ row ∈ s.rows, P row) (session : given.session info) (time : given.time now)
    (hr : s.saveSession info favorite now = .ok result) : ∀ row ∈ result.1.rows, P row := by
  unfold Store.saveSession at hr
  obtain ⟨⟨name, cwd⟩, metadata, hr⟩ := bind_eq_ok.mp hr
  have insert : ∀ row ∈ s.rows ++ [⟨s.nextID, info.id, "", name, cwd, favorite, encodeTime now, encodeTime now,
      encodeTime now, none⟩], P row := by
    intro row hm
    rcases List.mem_append.mp hm with hm | hm
    · exact h row hm
    · rw [List.mem_singleton.mp hm]
      exact inv.saved _ _ _ _ _ _ session metadata time
  have update : ∀ entry : SavedTerminal, ∀ row ∈ TermLinks.updateWhere (fun row => row.id = entry.id)
      (fun row : SavedTerminal => { row with favorite, updatedAt := encodeTime now }) s.rows, P row :=
    fun entry => updateWhere h fun row hp => inv.changed row row.name favorite now time (Or.inr ⟨row, hp, rfl⟩) hp
  cases hf : s.rows.find? (ofSession info.id) with
  | none =>
    simp only [hf] at hr
    split at hr
    next =>
      obtain ⟨_, _, hr⟩ := bind_eq_ok.mp hr
      cases hr
      exact pruneRecent insert
    next => cases hr; exact pruneRecent insert
  | some entry =>
    simp only [hf] at hr
    split at hr
    next =>
      obtain ⟨_, _, hr⟩ := bind_eq_ok.mp hr
      cases hr
      exact pruneRecent (update entry)
    next => cases hr; exact pruneRecent (update entry)

theorem update {s t : Store} {id : Nat} {name : Option String} {favorite : Option Bool} {now : Time}
    (inv : Admits given P) (h : ∀ row ∈ s.rows, P row) (names : ∀ text ∈ name, given.name text)
    (time : given.time now) (hr : s.update id name favorite now = .ok t) : ∀ row ∈ t.rows, P row := by
  unfold Store.update at hr
  obtain ⟨entry, found, hr⟩ := bind_eq_ok.mp hr
  have changed : ∀ row ∈ TermLinks.updateWhere (fun row => row.id = id)
      (fun row : SavedTerminal => { row with
        name := name.getD entry.name
        favorite := favorite.getD entry.favorite
        updatedAt := encodeTime now }) s.rows, P row := by
    have kept : given.name (name.getD entry.name) ∨ ∃ other, P other ∧ other.name = name.getD entry.name := by
      cases name with
      | some text => exact Or.inl (names text rfl)
      | none =>
        unfold Store.get at found
        split at found
        next => cases found
        next other there =>
          cases found
          exact Or.inr ⟨entry, h entry (findRow_mem there).1, rfl⟩
    exact updateWhere h fun row hp => inv.changed row _ _ now time kept hp
  dsimp only at hr
  split at hr
  next =>
    obtain ⟨_, _, hr⟩ := bind_eq_ok.mp hr
    cases hr
    exact pruneRecent changed
  next => cases hr; exact pruneRecent changed

theorem commit {s : Store} {r : Except StoreError Store} (h : ∀ row ∈ s.rows, P row)
    (hr : ∀ t, r = .ok t → ∀ row ∈ t.rows, P row) : ∀ row ∈ (s.commit r).rows, P row := by
  cases r with
  | error e => exact h
  | ok t => exact hr t rfl

theorem apply {s : Store} (inv : Admits given P) (h : ∀ row ∈ s.rows, P row) (op : Op)
    (within : op.Within given) : ∀ row ∈ (s.apply op).rows, P row := by
  cases op with
  | reconcile sessions =>
    refine commit h ?_
    intro t ht
    obtain ⟨u, hf, ht⟩ := bind_eq_ok.mp ht
    cases ht
    exact pruneRecent (updateWhere (inv.foldSessions h within hf) fun row hp => inv.unlinked row hp)
  | recordEnded info =>
    refine commit h ?_
    intro t ht
    unfold Store.recordEnded at ht
    split at ht
    next => cases ht
    next ended he =>
      obtain ⟨u, hu, ht⟩ := bind_eq_ok.mp ht
      cases ht
      exact pruneRecent (inv.reconcileEnded h within he hu)
  | saveSession info favorite now =>
    refine commit h ?_
    intro t ht
    cases hs : s.saveSession info favorite now with
    | error e => simp [hs, Except.map] at ht
    | ok saved =>
      simp only [hs, Except.map] at ht
      cases ht
      exact inv.saveSession h within.1 within.2 hs
  | update id name favorite now => exact commit h fun t ht => inv.update h within.1 within.2 ht
  | delete id =>
    refine commit h ?_
    intro t ht
    unfold Store.delete at ht
    split at ht
    next => cases ht; exact fun row hr => h row (List.mem_of_mem_filter hr)
    next => cases ht
  | markOpened id sessionID openedAt =>
    refine commit h ?_
    intro t ht
    unfold Store.markOpened at ht
    split at ht
    next => cases ht
    next =>
      split at ht
      next => cases ht
      next => cases ht; exact updateWhere h fun row hp => inv.opened row sessionID openedAt within.1 within.2 hp
  | renameSession sessionID name now =>
    exact updateWhere h fun row hp => inv.changed row name row.favorite now within.2 (Or.inl within.1) hp

end Admits

end TermLinks.TerminalHistory
