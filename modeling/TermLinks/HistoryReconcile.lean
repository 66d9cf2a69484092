import Mathlib.Data.List.Dedup
import TermLinks.HistoryRows

namespace TermLinks.TerminalHistory

open SavedTerminal

/-- The listed sessions that have ended. -/
def endings (sessions : List SessionInfo) : List (SessionInfo × Time) :=
  sessions.filterMap fun info => info.ended.map fun ended => (info, ended)

/-- The ending listed first for a session. -/
def firstEnding (endings : List (SessionInfo × Time)) (sessionID : String) : Option (SessionInfo × Time) :=
  endings.find? fun ending => ending.1.id = sessionID

/-- `reconcileEnded` for each ending in turn. -/
def Store.closeAll (s : Store) (endings : List (SessionInfo × Time)) : Except StoreError Store :=
  endings.foldlM (fun s ending => s.reconcileEnded ending.1 ending.2) s

/-- A row once the ending of its own session has been folded in. -/
def SavedTerminal.settle (endings : List (SessionInfo × Time)) (row : SavedTerminal) : SavedTerminal :=
  match firstEnding endings row.sourceSessionID with
  | none => row
  | some ending =>
    if row.settled row.sourceSessionID then row
    else row.close row.sourceSessionID (encodeTime ending.2)

/-- No listed ending is of a session that a row of another session is linked to. -/
def Unlinked (endings : List (SessionInfo × Time)) (rows : List SavedTerminal) : Prop :=
  ∀ ending ∈ endings, ∀ row ∈ rows, row.activeSessionID = ending.1.id → row.sourceSessionID = ending.1.id

theorem foldlM_reconcileSession (s : Store) (sessions : List SessionInfo) :
    sessions.foldlM Store.reconcileSession s = s.closeAll (endings sessions) := by
  induction sessions generalizing s with
  | nil => rfl
  | cons info sessions ih =>
    rw [List.foldlM_cons]
    cases he : info.ended with
    | none =>
      have same : s.reconcileSession info = .ok s := by simp [Store.reconcileSession, he]
      have skip : endings (info :: sessions) = endings sessions := by simp [endings, he]
      rw [same, skip]
      exact ih s
    | some ended =>
      have close : s.reconcileSession info = s.reconcileEnded info ended := by
        simp [Store.reconcileSession, he]
      have take : endings (info :: sessions) = (info, ended) :: endings sessions := by simp [endings, he]
      rw [close, take, Store.closeAll, List.foldlM_cons]
      congr 1
      funext t
      exact ih t

theorem reconcile_eq_ok {s t : Store} {sessions : List SessionInfo} :
    s.reconcile sessions = .ok t ↔ ∃ u, s.closeAll (endings sessions) = .ok u ∧
      t = (u.clearMissingActiveSessions (sessions.map SessionInfo.id)).pruneRecent := by
  unfold Store.reconcile
  rw [foldlM_reconcileSession, bind_eq_ok]
  simp only [pure, Except.pure, Except.ok.injEq, eq_comm]

theorem keyed_closeAll {endings : List (SessionInfo × Time)} {s t : Store} (h : s.Keyed)
    (hc : s.closeAll endings = .ok t) : t.Keyed := by
  induction endings generalizing s with
  | nil => cases hc; exact h
  | cons ending endings ih =>
    obtain ⟨u, hu, hc⟩ := bind_eq_ok.mp hc
    exact ih (keyed_reconcileEnded h hu) hc

section

variable {endings : List (SessionInfo × Time)} {row : SavedTerminal}

@[simp] theorem settle_source (endings : List (SessionInfo × Time)) (row : SavedTerminal) :
    (row.settle endings).sourceSessionID = row.sourceSessionID := by
  unfold settle
  split
  next => rfl
  next => split <;> rfl

@[simp] theorem settle_favorite (endings : List (SessionInfo × Time)) (row : SavedTerminal) :
    (row.settle endings).favorite = row.favorite := by
  unfold settle
  split
  next => rfl
  next => split <;> rfl

theorem settle_active (endings : List (SessionInfo × Time)) (row : SavedTerminal) :
    (row.settle endings).activeSessionID = row.activeSessionID ∨
    (row.settle endings).activeSessionID = "" := by
  unfold settle
  split
  next => exact Or.inl rfl
  next =>
    split
    next => exact Or.inl rfl
    next =>
      show (if _ then _ else _) = _ ∨ (if _ then _ else _) = _
      split
      next => exact Or.inr rfl
      next => exact Or.inl rfl

theorem settle_of_settled (h : row.settled row.sourceSessionID) : row.settle endings = row := by
  unfold settle
  split
  next => rfl
  next => rw [if_pos h]

theorem settle_of_none (h : firstEnding endings row.sourceSessionID = none) :
    row.settle endings = row := by
  unfold settle
  rw [h]

theorem firstEnding_id {sessionID : String} {ending : SessionInfo × Time}
    (h : firstEnding endings sessionID = some ending) : ending.1.id = sessionID := by
  simpa using List.find?_some h

theorem settled_close {sessionID ended : String} (h : sessionID ≠ "") :
    (row.close sessionID ended).settled sessionID := by
  simp only [settled, close, Option.isSome_some, Bool.true_and]
  split
  next => exact decide_eq_true h.symm
  next hn => exact decide_eq_true hn

/-- Once folded in, a session's ending leaves its row closed and no longer linked to the session. -/
theorem settled_settle {ending : SessionInfo × Time}
    (h : firstEnding endings row.sourceSessionID = some ending) :
    (row.settle endings).settled row.sourceSessionID := by
  unfold settle
  rw [h]
  dsimp only
  split
  next hs => exact hs
  next =>
    apply settled_close
    rw [← firstEnding_id h]
    exact ending.1.named

theorem settled_ofEnded {id : Nat} {info : SessionInfo} {name cwd : String} {ended : Time} :
    (ofEnded id info name cwd ended).settled info.id := by
  simp [settled, ofEnded, Ne.symm info.named]

theorem settle_cons_same {ending : SessionInfo × Time} (h : row.sourceSessionID = ending.1.id) :
    (row.settle [ending]).settle endings = row.settle (ending :: endings) := by
  have first : ∀ more, firstEnding (ending :: more) row.sourceSessionID = some ending := by
    intro more
    simp [firstEnding, h]
  have done : (row.settle [ending]).settled (row.settle [ending]).sourceSessionID := by
    rw [settle_source]
    exact settled_settle (first [])
  rw [settle_of_settled done]
  simp only [settle, first]

theorem firstEnding_cons_other {ending : SessionInfo × Time} {sessionID : String}
    (h : ending.1.id ≠ sessionID) : firstEnding (ending :: endings) sessionID = firstEnding endings
      sessionID := by
  simp [firstEnding, h]

theorem settle_cons_other {ending : SessionInfo × Time} (h : row.sourceSessionID ≠ ending.1.id) :
    row.settle (ending :: endings) = row.settle endings := by
  simp only [settle, firstEnding_cons_other h.symm]

theorem settle_singleton_other {ending : SessionInfo × Time} (h : row.sourceSessionID ≠ ending.1.id) :
    row.settle [ending] = row := by
  rw [settle_cons_other h]
  exact settle_of_none rfl

end

theorem map_settle_eq_self {endings : List (SessionInfo × Time)} {rows : List SavedTerminal}
    (h : ∀ row ∈ rows, row.settle endings = row) : rows.map (settle endings) = rows :=
  (List.map_congr_left h).trans (List.map_id rows)

/-- What folding one ending in does: it inserts a closed row, or settles the row of its session. -/
theorem reconcileEnded_rows {s t : Store} {info : SessionInfo} {ended : Time} (h : s.Keyed)
    (hl : Unlinked [(info, ended)] s.rows) (hr : s.reconcileEnded info ended = .ok t) :
    (∃ name cwd, (∀ row ∈ s.rows, row.sourceSessionID ≠ info.id) ∧
      t = ⟨s.rows ++ [ofEnded s.nextID info name cwd ended], s.nextID + 1⟩) ∨
    ((∃ row ∈ s.rows, row.sourceSessionID = info.id) ∧
      t = { s with rows := s.rows.map (settle [(info, ended)]) }) := by
  obtain ⟨⟨name, cwd⟩, _, hr⟩ := bind_eq_ok.mp hr
  dsimp only at hr
  split at hr
  next hf =>
    cases hr
    refine Or.inl ⟨name, cwd, ?_, rfl⟩
    intro row hm
    exact (not_ofSession_iff.mp (List.find?_eq_none.mp hf row hm)).1
  next row hf =>
    have hm := List.mem_of_find?_eq_some hf
    have source : row.sourceSessionID = info.id := by
      have found : row.sourceSessionID = info.id ∨ row.activeSessionID = info.id := by
        simpa [ofSession] using List.find?_some hf
      exact found.elim id (hl _ List.mem_cons_self row hm)
    have first : firstEnding [(info, ended)] info.id = some (info, ended) := by simp [firstEnding]
    have same : ∀ other ∈ s.rows, other.sourceSessionID = info.id → other = row := by
      intro other ho hs
      exact List.inj_on_of_nodup_map h.sources ho hm (hs.trans source.symm)
    refine Or.inr ⟨⟨row, hm, source⟩, ?_⟩
    split at hr
    next hs =>
      cases hr
      rw [map_settle_eq_self]
      intro other ho
      by_cases he : other.sourceSessionID = info.id
      · cases same other ho he
        exact settle_of_settled (source ▸ hs)
      · exact settle_singleton_other he
    next hs =>
      cases hr
      congr 1
      apply List.map_congr_left
      intro other ho
      by_cases he : other.sourceSessionID = info.id
      · cases same other ho he
        simp [settle, source, first, hs]
      · have hne : other.id ≠ row.id := by
          intro hid
          exact he (List.inj_on_of_nodup_map h.ids ho hm hid ▸ source)
        have kept : other.settle [(info, ended)] = other := settle_singleton_other he
        simp [hne, kept]

theorem unlinked_settle {endings folded : List (SessionInfo × Time)} {rows : List SavedTerminal}
    (h : Unlinked endings rows) : Unlinked endings (rows.map (settle folded)) := by
  intro ending he row hr active
  obtain ⟨old, ho, rfl⟩ := List.mem_map.mp hr
  rw [settle_source]
  rcases settle_active folded old with ha | ha
  · exact h ending he old ho (ha ▸ active)
  · exact absurd (active.symm.trans ha) ending.1.named

theorem unlinked_append {endings : List (SessionInfo × Time)} {rows more : List SavedTerminal}
    (h : Unlinked endings rows) (hm : ∀ row ∈ more, row.activeSessionID = "") :
    Unlinked endings (rows ++ more) := by
  intro ending he row hr active
  rcases List.mem_append.mp hr with hr | hr
  · exact h ending he row hr active
  · exact absurd (active.symm.trans (hm row hr)) ending.1.named

/-- A row inserted for the first ending listed of its session. -/
def Inserted (endings : List (SessionInfo × Time)) (nextID : Nat) (row : SavedTerminal) : Prop :=
  ∃ info ended id name cwd, row = ofEnded id info name cwd ended ∧
    firstEnding endings info.id = some (info, ended) ∧ nextID ≤ id

theorem inserted_cons {endings : List (SessionInfo × Time)} {ending : SessionInfo × Time}
    {nextID drawn : Nat} {row : SavedTerminal} (h : Inserted endings drawn row) (hn : nextID ≤ drawn)
    (hs : row.sourceSessionID ≠ ending.1.id) : Inserted (ending :: endings) nextID row := by
  obtain ⟨info, ended, id, name, cwd, rfl, first, hid⟩ := h
  have other : ending.1.id ≠ info.id := Ne.symm hs
  exact ⟨info, ended, id, name, cwd, rfl, (firstEnding_cons_other other).trans first, Nat.le_trans hn hid⟩

theorem source_ne_of_keyed {s : Store} {rows more : List SavedTerminal} (h : s.Keyed)
    (hr : s.rows = rows ++ more) {old new : SavedTerminal} (ho : old ∈ rows) (hn : new ∈ more) :
    new.sourceSessionID ≠ old.sourceSessionID := by
  have sources := h.sources
  rw [hr, List.map_append, List.nodup_append] at sources
  exact (sources.2.2 _ (List.mem_map_of_mem ho) _ (List.mem_map_of_mem hn)).symm

/-- Folding a list of endings in settles every row and inserts one for each session without. -/
theorem closeAll_rows {endings : List (SessionInfo × Time)} {s t : Store} (h : s.Keyed)
    (hl : Unlinked endings s.rows) (hc : s.closeAll endings = .ok t) :
    (∃ more, t.rows = s.rows.map (settle endings) ++ more ∧ ∀ row ∈ more, Inserted endings s.nextID row) ∧
    (∀ ending ∈ endings, ∃ row ∈ t.rows, row.sourceSessionID = ending.1.id) := by
  induction endings generalizing s with
  | nil =>
    cases hc
    refine ⟨⟨[], ?_, nofun⟩, nofun⟩
    rw [List.append_nil, map_settle_eq_self fun row _ => settle_of_none rfl]
  | cons ending endings ih =>
    obtain ⟨u, hu, hc⟩ := bind_eq_ok.mp hc
    have hlu : Unlinked endings s.rows := fun e he => hl e (List.mem_cons_of_mem _ he)
    have hle : Unlinked [ending] s.rows := fun e he => hl e (List.mem_singleton.mp he ▸ List.mem_cons_self)
    have keyed := keyed_closeAll (keyed_reconcileEnded h hu) hc
    rcases reconcileEnded_rows h hle hu with ⟨name, cwd, absent, rfl⟩ | ⟨⟨old, ho, hs⟩, rfl⟩
    · have inserts : (ofEnded s.nextID ending.1 name cwd ending.2).settle endings = _ :=
        settle_of_settled settled_ofEnded
      obtain ⟨⟨more, rows, inserted⟩, all⟩ :=
        ih (keyed_reconcileEnded h hu) (unlinked_append hlu (by simp [ofEnded])) hc
      rw [List.map_append, List.map_singleton, inserts] at rows
      have old : s.rows.map (settle endings) = s.rows.map (settle (ending :: endings)) :=
        List.map_congr_left fun row hr => (settle_cons_other (absent row hr)).symm
      refine ⟨⟨ofEnded s.nextID ending.1 name cwd ending.2 :: more, ?_, ?_⟩, ?_⟩
      · rw [rows, old, List.append_assoc, List.singleton_append]
      · intro row hr
        rcases List.mem_cons.mp hr with rfl | hr
        · exact ⟨ending.1, ending.2, s.nextID, name, cwd, rfl, by simp [firstEnding], Nat.le_refl _⟩
        · refine inserted_cons (inserted row hr) (Nat.le_succ _) ?_
          exact source_ne_of_keyed keyed rows (List.mem_append_right _ List.mem_cons_self) hr
      · intro e he
        rcases List.mem_cons.mp he with rfl | he
        · refine ⟨ofEnded s.nextID e.1 name cwd e.2, ?_, rfl⟩
          rw [rows]
          exact List.mem_append_left _ (List.mem_append_right _ List.mem_cons_self)
        · exact all e he
    · obtain ⟨⟨more, rows, inserted⟩, all⟩ := ih (keyed_reconcileEnded h hu) (unlinked_settle hlu) hc
      have settled : (s.rows.map (settle [ending])).map (settle endings) =
          s.rows.map (settle (ending :: endings)) := by
        rw [List.map_map]
        apply List.map_congr_left
        intro row hr
        by_cases he : row.sourceSessionID = ending.1.id
        · exact settle_cons_same he
        · rw [settle_cons_other he, Function.comp, settle_singleton_other he]
      have own : old.settle (ending :: endings) ∈ s.rows.map (settle (ending :: endings)) :=
        List.mem_map_of_mem ho
      rw [settled] at rows
      refine ⟨⟨more, rows, ?_⟩, ?_⟩
      · intro row hr
        refine inserted_cons (inserted row hr) (Nat.le_refl _) ?_
        rw [← hs, ← settle_source (ending :: endings) old]
        exact source_ne_of_keyed keyed rows own hr
      · intro e he
        rcases List.mem_cons.mp he with rfl | he
        · exact ⟨_, rows ▸ List.mem_append_left _ own, (settle_source _ old).trans hs⟩
        · exact all e he

theorem reconcileEnded_ok_iff {s : Store} {info : SessionInfo} {ended : Time} :
    (∃ t, s.reconcileEnded info ended = .ok t) ↔ ∃ safe, safeMetadata info = .ok safe := by
  constructor
  · rintro ⟨t, ht⟩
    obtain ⟨safe, hs, _⟩ := bind_eq_ok.mp ht
    exact ⟨safe, hs⟩
  · rintro ⟨⟨name, cwd⟩, hs⟩
    unfold Store.reconcileEnded
    simp only [bind_eq_ok, hs]
    cases s.rows.find? (ofSession info.id) with
    | none => exact ⟨_, _, rfl, rfl⟩
    | some row =>
      cases hr : row.settled info.id with
      | true => exact ⟨s, _, rfl, by simp [hr, pure, Except.pure]⟩
      | false => exact ⟨_, _, rfl, by simp only [hr]; rfl⟩

/-- Whether the endings can be folded in depends on their metadata only. -/
theorem closeAll_ok_iff {endings : List (SessionInfo × Time)} {s : Store} :
    (∃ t, s.closeAll endings = .ok t) ↔ ∀ ending ∈ endings, ∃ safe, safeMetadata ending.1 = .ok safe := by
  induction endings generalizing s with
  | nil => exact ⟨fun _ => nofun, fun _ => ⟨s, rfl⟩⟩
  | cons ending endings ih =>
    constructor
    · rintro ⟨t, ht⟩ e he
      obtain ⟨u, hu, ht⟩ := bind_eq_ok.mp ht
      rcases List.mem_cons.mp he with rfl | he
      · exact reconcileEnded_ok_iff.mp ⟨u, hu⟩
      · exact ih.mp ⟨t, ht⟩ e he
    · intro h
      obtain ⟨u, hu⟩ := reconcileEnded_ok_iff.mpr (h ending List.mem_cons_self)
      obtain ⟨t, ht⟩ := (ih (s := u)).mpr fun e he => h e (List.mem_cons_of_mem _ he)
      exact ⟨t, bind_eq_ok.mpr ⟨u, hu, ht⟩⟩

/-- What a pass over the sessions leaves of every row it keeps. -/
structure Reconciled (sessions : List SessionInfo) (rows : List SavedTerminal) : Prop where
  settled : ∀ row ∈ rows, ∀ ending, firstEnding (endings sessions) row.sourceSessionID = some ending →
    row.settled row.sourceSessionID
  linked : ∀ row ∈ rows, row.activeSessionID ≠ "" → row.activeSessionID ∈ sessions.map SessionInfo.id
  unlinked : Unlinked (endings sessions) rows

theorem reconciled_subset {sessions : List SessionInfo} {rows fewer : List SavedTerminal}
    (h : Reconciled sessions rows) (hs : fewer ⊆ rows) : Reconciled sessions fewer where
  settled := fun row hr => h.settled row (hs hr)
  linked := fun row hr => h.linked row (hs hr)
  unlinked := fun ending he row hr => h.unlinked ending he row (hs hr)

theorem clearMissing_eq_self {s : Store} {known : List String}
    (h : ∀ row ∈ s.rows, row.activeSessionID ≠ "" → row.activeSessionID ∈ known) :
    s.clearMissingActiveSessions known = s := by
  have same : updateWhere (fun row => row.activeSessionID ≠ "" ∧ row.activeSessionID ∉ known)
      (fun row => { row with activeSessionID := "" }) s.rows = s.rows := by
    refine (List.map_congr_left ?_).trans (List.map_id s.rows)
    intro row hr
    have hn : ¬ (row.activeSessionID ≠ "" ∧ row.activeSessionID ∉ known) := fun hn => hn.2 (h row hr hn.1)
    simp only [decide_eq_true_eq, if_neg hn]
    rfl
  unfold Store.clearMissingActiveSessions
  rw [same]

theorem mem_clearMissing {s : Store} {known : List String} {row : SavedTerminal}
    (h : row ∈ (s.clearMissingActiveSessions known).rows) :
    ∃ old ∈ s.rows, (row = old ∧ (old.activeSessionID ≠ "" → old.activeSessionID ∈ known)) ∨
      row = { old with activeSessionID := "" } := by
  obtain ⟨old, ho, he⟩ := mem_updateWhere.mp h
  refine ⟨old, ho, ?_⟩
  split at he
  next => exact Or.inr he
  next hn =>
    refine Or.inl ⟨he, ?_⟩
    intro active
    by_contra out
    exact hn (decide_eq_true ⟨active, out⟩)

theorem inserted_settled {endings : List (SessionInfo × Time)} {nextID : Nat} {row : SavedTerminal}
    (h : Inserted endings nextID row) : row.settled row.sourceSessionID := by
  obtain ⟨info, ended, id, name, cwd, rfl, _⟩ := h
  exact settled_ofEnded

theorem inserted_active {endings : List (SessionInfo × Time)} {nextID : Nat} {row : SavedTerminal}
    (h : Inserted endings nextID row) : row.activeSessionID = "" := by
  obtain ⟨info, ended, id, name, cwd, rfl, _⟩ := h
  rfl

theorem reconciled_closeAll {sessions : List SessionInfo} {s t : Store} (h : s.Keyed)
    (hl : Unlinked (endings sessions) s.rows) (hc : s.closeAll (endings sessions) = .ok t) :
    Reconciled sessions (t.clearMissingActiveSessions (sessions.map SessionInfo.id)).rows := by
  obtain ⟨⟨more, rows, inserted⟩, _⟩ := closeAll_rows h hl hc
  have settled : ∀ row ∈ t.rows, ∀ ending,
      firstEnding (endings sessions) row.sourceSessionID = some ending → row.settled row.sourceSessionID := by
    intro row hr ending first
    rcases List.mem_append.mp (rows ▸ hr) with hr | hr
    · obtain ⟨old, ho, rfl⟩ := List.mem_map.mp hr
      rw [settle_source] at first ⊢
      exact settled_settle first
    · exact inserted_settled (inserted row hr)
  have unlinked : Unlinked (endings sessions) t.rows := by
    rw [rows]
    exact unlinked_append (unlinked_settle hl) fun row hr => inserted_active (inserted row hr)
  constructor
  · intro row hr ending first
    obtain ⟨old, ho, ⟨rfl, _⟩ | rfl⟩ := mem_clearMissing hr
    · exact settled row ho ending first
    · have closed := settled old ho ending first
      have named := firstEnding_id first ▸ ending.1.named
      simp only [SavedTerminal.settled, Bool.and_eq_true] at closed ⊢
      exact ⟨closed.1, decide_eq_true (Ne.symm named)⟩
  · intro row hr active
    obtain ⟨old, ho, ⟨rfl, known⟩ | rfl⟩ := mem_clearMissing hr
    · exact known active
    · exact absurd rfl active
  · intro ending he row hr active
    obtain ⟨old, ho, ⟨rfl, _⟩ | rfl⟩ := mem_clearMissing hr
    · exact unlinked ending he row ho active
    · exact absurd active.symm ending.1.named

/-- A second pass only inserts rows, for the sessions whose rows are gone. -/
theorem closeAll_of_reconciled {sessions : List SessionInfo} {s t : Store} (h : s.Keyed)
    (hr : Reconciled sessions s.rows) (hc : s.closeAll (endings sessions) = .ok t) :
    ∃ more, t.rows = s.rows ++ more ∧ (∀ row ∈ more, Inserted (endings sessions) s.nextID row) ∧
      t.clearMissingActiveSessions (sessions.map SessionInfo.id) = t := by
  obtain ⟨⟨more, rows, inserted⟩, _⟩ := closeAll_rows h hr.unlinked hc
  have same : s.rows.map (settle (endings sessions)) = s.rows := by
    apply map_settle_eq_self
    intro row hm
    cases first : firstEnding (endings sessions) row.sourceSessionID with
    | none => exact settle_of_none first
    | some ending => exact settle_of_settled (hr.settled row hm ending first)
  rw [same] at rows
  refine ⟨more, rows, inserted, clearMissing_eq_self ?_⟩
  intro row hm active
  rcases List.mem_append.mp (rows ▸ hm) with hm | hm
  · exact hr.linked row hm active
  · exact absurd (inserted_active (inserted row hm)) active

/-- The listed sessions that have ended without a row of their own. -/
def Store.unsaved (s : Store) (sessions : List SessionInfo) : List String :=
  ((endings sessions).map fun ending => ending.1.id).dedup.filter fun sessionID =>
    s.rows.all fun row => row.sourceSessionID ≠ sessionID

/-- The rank of a new row for the ending. -/
def endingRank (ending : SessionInfo × Time) : String ×ₗ WithBot String ×ₗ String :=
  (ofEnded 0 ending.1 "" "" ending.2).rank

/-- The list folds into the table in one pass: no session it lists as ended is linked to the row of
another session, and no row it settles is pruned where a new row for the session would not be. -/
structure Stable (s : Store) (sessions : List SessionInfo) : Prop where
  unlinked : Unlinked (endings sessions) s.rows
  ranked : (Store.recent s.rows).length + (s.unsaved sessions).length ≤ maxRecent ∨
    ∀ row ∈ s.rows, row.favorite = false → ∀ ending,
      firstEnding (endings sessions) row.sourceSessionID = some ending →
      endingRank ending ≤ (row.settle (endings sessions)).rank

theorem inserted_rank {endings : List (SessionInfo × Time)} {nextID : Nat} {row : SavedTerminal}
    {ending : SessionInfo × Time} (h : Inserted endings nextID row)
    (hf : firstEnding endings row.sourceSessionID = some ending) : row.rank = endingRank ending := by
  obtain ⟨info, ended, id, name, cwd, rfl, first, _⟩ := h
  cases first.symm.trans hf
  rfl

theorem length_recent_clearMissing (s : Store) (known : List String) :
    (Store.recent (s.clearMissingActiveSessions known).rows).length = (Store.recent s.rows).length := by
  show (List.filter _ (List.map _ s.rows)).length = _
  rw [List.filter_map, List.length_map]
  congr 2
  funext row
  show (!(if _ then _ else _ : SavedTerminal).favorite) = !row.favorite
  split <;> rfl

/-- A pass adds a row only for a session without one. -/
theorem length_recent_closeAll {sessions : List SessionInfo} {s t : Store} (h : s.Keyed)
    (hl : Unlinked (endings sessions) s.rows) (hc : s.closeAll (endings sessions) = .ok t) :
    (Store.recent t.rows).length ≤ (Store.recent s.rows).length + (s.unsaved sessions).length := by
  have keyed := keyed_closeAll h hc
  obtain ⟨⟨more, rows, inserted⟩, _⟩ := closeAll_rows h hl hc
  have settled : (Store.recent (s.rows.map (settle (endings sessions)))).length =
      (Store.recent s.rows).length := by
    unfold Store.recent
    rw [List.filter_map, List.length_map]
    simp only [Function.comp_def, settle_favorite]
  have distinct : (more.map sourceSessionID).Nodup := by
    have sources := keyed.sources
    rw [rows, List.map_append, List.nodup_append] at sources
    exact sources.2.1
  have listed : more.map sourceSessionID ⊆ s.unsaved sessions := by
    intro sessionID hid
    obtain ⟨row, hr, rfl⟩ := List.mem_map.mp hid
    refine List.mem_filter.mpr ⟨List.mem_dedup.mpr ?_, ?_⟩
    · obtain ⟨info, ended, id, name, cwd, rfl, first, _⟩ := inserted row hr
      exact List.mem_map.mpr ⟨_, List.mem_of_find?_eq_some first, rfl⟩
    · apply List.all_eq_true.mpr
      intro old ho
      have other := source_ne_of_keyed keyed rows (List.mem_map_of_mem ho) hr
      rw [settle_source] at other
      exact decide_eq_true (Ne.symm other)
  have few := (List.subperm_of_subset distinct listed).length_le
  rw [List.length_map] at few
  have more_le : (Store.recent more).length ≤ more.length := List.length_filter_le _ _
  have split : Store.recent t.rows = Store.recent (s.rows.map (settle (endings sessions))) ++
      Store.recent more := by
    rw [rows]
    exact List.filter_append ..
  rw [split, List.length_append, settled]
  omega

/-- After a pass that prunes, a new row would rank behind the row it left of the session. -/
theorem endingRank_le {sessions : List SessionInfo} {s t : Store} {row : SavedTerminal}
    {ending : SessionInfo × Time} (h : s.Keyed) (stable : Stable s sessions)
    (hc : s.closeAll (endings sessions) = .ok t)
    (hr : row ∈ (t.clearMissingActiveSessions (sessions.map SessionInfo.id)).rows)
    (plain : row.favorite = false) (crowded : maxRecent < (Store.recent t.rows).length)
    (first : firstEnding (endings sessions) row.sourceSessionID = some ending) :
    endingRank ending ≤ row.rank := by
  have ranked := stable.ranked.resolve_left fun few =>
    absurd (length_recent_closeAll h stable.unlinked hc) (by omega)
  obtain ⟨⟨more, rows, inserted⟩, _⟩ := closeAll_rows h stable.unlinked hc
  have closed : ∀ old ∈ t.rows, old.favorite = false →
      firstEnding (endings sessions) old.sourceSessionID = some ending → endingRank ending ≤ old.rank := by
    intro old ho hp hf
    rcases List.mem_append.mp (rows ▸ ho) with ho | ho
    · obtain ⟨source, hs, rfl⟩ := List.mem_map.mp ho
      rw [settle_source] at hf
      rw [settle_favorite] at hp
      exact ranked source hs hp ending hf
    · exact le_of_eq (inserted_rank (inserted old ho) hf).symm
  obtain ⟨old, ho, ⟨rfl, _⟩ | rfl⟩ := mem_clearMissing hr
  · exact closed row ho plain first
  · exact closed old ho plain first

theorem source_of_clearMissing {s : Store} {known : List String} {row : SavedTerminal} (h : row ∈ s.rows) :
    ∃ left ∈ (s.clearMissingActiveSessions known).rows, left.sourceSessionID = row.sourceSessionID := by
  refine ⟨_, mem_updateWhere.mpr ⟨row, h, rfl⟩, ?_⟩
  split
  next => rfl
  next => rfl

/-- A row that a second pass inserts takes the place of one that the first pass pruned. -/
theorem inserted_again_ranks_behind {sessions : List SessionInfo} {s t u : Store} {rows : List SavedTerminal}
    (h : s.Keyed) (stable : Stable s sessions) (hc : s.closeAll (endings sessions) = .ok t) (hu : u.Keyed)
    (hrows : u.rows =
      (t.clearMissingActiveSessions (sessions.map SessionInfo.id)).pruneRecent.rows ++ rows)
    {nextID : Nat} {row : SavedTerminal} (hr : row ∈ rows) (hi : Inserted (endings sessions) nextID row) :
    maxRecent < (Store.recent (t.clearMissingActiveSessions (sessions.map SessionInfo.id)).rows).length ∧
    ∀ left ∈ Store.recent (t.clearMissingActiveSessions (sessions.map SessionInfo.id)).pruneRecent.rows,
      row.rank ≤ left.rank := by
  have keyed := keyed_clearMissing (keyed_closeAll h hc) (sessions.map SessionInfo.id)
  obtain ⟨ending, first, listed⟩ : ∃ ending,
      firstEnding (endings sessions) row.sourceSessionID = some ending ∧ ending ∈ endings sessions := by
    obtain ⟨info, ended, id, name, cwd, rfl, first, _⟩ := hi
    exact ⟨_, first, List.mem_of_find?_eq_some first⟩
  have source := firstEnding_id first
  obtain ⟨own, ho, hs⟩ := (closeAll_rows h stable.unlinked hc).2 ending listed
  obtain ⟨old, hm, hold⟩ := source_of_clearMissing ho
  have same : old.sourceSessionID = row.sourceSessionID := hold.trans (hs.trans source)
  have gone : old ∉ (t.clearMissingActiveSessions (sessions.map SessionInfo.id)).pruneRecent.rows :=
    fun left => source_ne_of_keyed hu hrows left hr same.symm
  obtain ⟨plain, crowded, behind⟩ := pruned_ranks_behind keyed hm gone
  have above : endingRank ending ≤ old.rank :=
    endingRank_le h stable hc hm plain (length_recent_clearMissing t _ ▸ crowded) (same ▸ first)
  refine ⟨crowded, ?_⟩
  intro left hl
  rw [inserted_rank hi first]
  exact le_trans above (behind left hl)

/-- The second pass inserts rows only where the first one pruned, and prunes them again. -/
theorem reconcile_again {sessions : List SessionInfo} {s t : Store} (h : s.Keyed) (stable : Stable s sessions)
    (hr : s.reconcile sessions = .ok t) : ∃ u, t.reconcile sessions = .ok u ∧ u.rows = t.rows := by
  obtain ⟨folded, hc, rfl⟩ := reconcile_eq_ok.mp hr
  have keyedClear := keyed_clearMissing (keyed_closeAll h hc) (sessions.map SessionInfo.id)
  have keyedPruned := keyed_pruneRecent keyedClear
  have fewer : (folded.clearMissingActiveSessions (sessions.map SessionInfo.id)).pruneRecent.rows ⊆
      (folded.clearMissingActiveSessions (sessions.map SessionInfo.id)).rows :=
    fun row hm => (mem_pruneRecent.mp hm).1
  have reconciled := reconciled_subset (reconciled_closeAll h stable.unlinked hc) fewer
  obtain ⟨again, hagain⟩ := closeAll_ok_iff.mpr (closeAll_ok_iff.mp ⟨folded, hc⟩)
  obtain ⟨more, rows, inserted, clear⟩ := closeAll_of_reconciled keyedPruned reconciled hagain
  refine ⟨_, reconcile_eq_ok.mpr ⟨again, hagain, rfl⟩, ?_⟩
  have keyedAgain := keyed_closeAll keyedPruned hagain
  have few := length_recent_pruneRecent keyedClear
  rw [clear]
  cases more with
  | nil =>
    rw [List.append_nil] at rows
    rw [pruneRecent_eq_self, rows]
    rw [rows, few]
    exact Nat.min_le_left _ _
  | cons first more =>
    have ranks := fun row hm =>
      inserted_again_ranks_behind h stable hc keyedAgain rows hm (inserted row hm)
    have full := (ranks first List.mem_cons_self).1
    obtain ⟨rows', nextID⟩ := again
    cases rows
    apply pruneRecent_append
    · rw [few]
      omega
    · intro row hm
      obtain ⟨info, ended, id, name, cwd, rfl, _⟩ := inserted row hm
      rfl
    · intro row hm old ho
      obtain ⟨info, ended, id, name, cwd, rfl, _, drawn⟩ := inserted row hm
      exact Nat.ne_of_lt (Nat.lt_of_lt_of_le (keyedPruned.drawn old ho) drawn)
    · intro row hm
      exact (ranks row hm).2

/-- A list that folds into the table in one pass changes nothing when it is given again. -/
theorem reconcile_twice {s : Store} {sessions : List SessionInfo} (h : s.Keyed) (stable : Stable s sessions) :
    ((s.apply (.reconcile sessions)).apply (.reconcile sessions)).rows =
      (s.apply (.reconcile sessions)).rows := by
  simp only [Store.apply]
  cases hr : s.reconcile sessions with
  | error e => simp only [Store.commit, hr]
  | ok t =>
    obtain ⟨u, hu, rows⟩ := reconcile_again h stable hr
    simp only [Store.commit, hu, rows]

/-- Only a session that the list has as ended gets a row. -/
theorem reconcile_inserts_listed {s t : Store} {sessions : List SessionInfo} (h : s.Keyed)
    (hl : Unlinked (endings sessions) s.rows) (hr : s.reconcile sessions = .ok t) {row : SavedTerminal}
    (hm : row ∈ t.rows) : (∃ old ∈ s.rows, old.sourceSessionID = row.sourceSessionID) ∨
      row.sourceSessionID ∈ (endings sessions).map fun ending => ending.1.id := by
  obtain ⟨u, hc, rfl⟩ := reconcile_eq_ok.mp hr
  obtain ⟨⟨more, rows, inserted⟩, _⟩ := closeAll_rows h hl hc
  have closed : ∀ old ∈ u.rows, (∃ kept ∈ s.rows, kept.sourceSessionID = old.sourceSessionID) ∨
      old.sourceSessionID ∈ (endings sessions).map fun ending => ending.1.id := by
    intro old ho
    rcases List.mem_append.mp (rows ▸ ho) with ho | ho
    · obtain ⟨kept, hk, rfl⟩ := List.mem_map.mp ho
      exact Or.inl ⟨kept, hk, (settle_source _ kept).symm⟩
    · obtain ⟨info, ended, id, name, cwd, rfl, first, _⟩ := inserted old ho
      exact Or.inr (List.mem_map.mpr ⟨_, List.mem_of_find?_eq_some first, rfl⟩)
  obtain ⟨old, ho, ⟨rfl, _⟩ | rfl⟩ := mem_clearMissing (mem_pruneRecent.mp hm).1
  · exact closed row ho
  · exact closed old ho

def minuteOf (minute : Nat) : Time := ⟨2026, 9, 3, 12, minute, 0, 0⟩

def endedSession (id : String) (started ended : Nat) (named : id ≠ "") : SessionInfo :=
  ⟨id, "project", "/tmp/project", minuteOf started, some (minuteOf ended), false, named⟩

def original : SessionInfo := endedSession "s1" 0 1 (by decide)

def reopened : SessionInfo := endedSession "s2" 2 4 (by decide)

def reopening : List Op := [.reconcile [original], .markOpened 0 "s2" (minuteOf 2)]

def later : SessionInfo := endedSession "s3" 3 5 (by decide)

end TermLinks.TerminalHistory
