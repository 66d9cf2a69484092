import Mathlib.Data.List.Perm.Subperm
import TermLinks.HistoryEdits
import TermLinks.HistoryLinks

namespace TermLinks.TerminalHistory

open SavedTerminal

/-- The ids of the favorites. -/
def Store.favorites (s : Store) : List Nat := (s.rows.filter fun row => row.favorite).map SavedTerminal.id

theorem mem_favorites {s : Store} {id : Nat} :
    id ∈ s.favorites ↔ ∃ row ∈ s.rows, row.favorite = true ∧ row.id = id := by
  simp [Store.favorites, and_assoc]

theorem nodup_favorites {s : Store} (h : s.Keyed) : s.favorites.Nodup :=
  h.ids.sublist (List.filter_sublist.map _)

theorem favorites_length_le {s t : Store} (h : t.Keyed) (sub : ∀ id ∈ t.favorites, id ∈ s.favorites) :
    t.favorites.length ≤ s.favorites.length :=
  (List.Nodup.subperm (nodup_favorites h) sub).length_le

theorem favorites_length_le_succ {s t : Store} (h : t.Keyed) (new : Nat)
    (sub : ∀ id ∈ t.favorites, id = new ∨ id ∈ s.favorites) :
    t.favorites.length ≤ s.favorites.length + 1 := by
  have subset : t.favorites ⊆ new :: s.favorites := by
    intro id hid
    exact List.mem_cons.mpr (sub id hid)
  exact (List.Nodup.subperm (nodup_favorites h) subset).length_le

theorem favorites_updateWhere {s : Store} {p : SavedTerminal → Bool} {f : SavedTerminal → SavedTerminal}
    (hid : ∀ row, (f row).id = row.id) (hf : ∀ row, (f row).favorite = row.favorite) :
    Store.favorites { s with rows := updateWhere p f s.rows } = s.favorites := by
  have keep : ∀ row : SavedTerminal, (if p row then f row else row).favorite = row.favorite := updateWhere_key hf
  simp only [Store.favorites, updateWhere, List.filter_map, List.map_map]
  simp only [Function.comp_def, keep]
  exact List.map_congr_left fun row _ => updateWhere_key hid row

theorem favorites_pruneRecent (s : Store) : s.pruneRecent.favorites = s.favorites := by
  simp only [Store.favorites, Store.pruneRecent, List.filter_filter]
  congr 1
  apply List.filter_congr
  intro row _
  cases row.favorite with
  | false => rfl
  | true => rfl

theorem favorites_insert_plain {s : Store} {row : SavedTerminal} {nextID : Nat} (plain : row.favorite = false) :
    Store.favorites ⟨s.rows ++ [row], nextID⟩ = s.favorites := by
  simp [Store.favorites, List.filter_append, plain]

theorem mem_favorites_set {s : Store} {entry id : Nat} {f : SavedTerminal → SavedTerminal} {favorite : Bool}
    (hid : ∀ row, (f row).id = row.id) (hf : ∀ row, (f row).favorite = favorite) :
    id ∈ Store.favorites { s with rows := updateWhere (fun row => row.id = entry) f s.rows } ↔
      (id ≠ entry ∧ id ∈ s.favorites) ∨
        (id = entry ∧ favorite = true ∧ ∃ row ∈ s.rows, row.id = entry) := by
  rw [mem_favorites, mem_favorites]
  constructor
  · rintro ⟨row, hr, fav, rfl⟩
    obtain ⟨old, ho, rfl⟩ := mem_updateWhere.mp hr
    by_cases he : old.id = entry
    · simp only [he, decide_true, if_true] at fav ⊢
      exact Or.inr ⟨(hid old).trans he, (hf old).symm.trans fav, old, ho, he⟩
    · simp only [he, decide_false, Bool.false_eq_true, if_false] at fav ⊢
      exact Or.inl ⟨he, old, ho, fav, rfl⟩
  · rintro (⟨other, old, ho, fav, rfl⟩ | ⟨rfl, fav, old, ho, he⟩)
    · exact ⟨old, mem_updateWhere.mpr ⟨old, ho, by simp [other]⟩, fav, rfl⟩
    · refine ⟨f old, mem_updateWhere.mpr ⟨old, ho, by simp [he]⟩, (hf old).trans fav, ?_⟩
      exact (hid old).trans he

theorem favorites_below {s : Store} {u : Unit} (h : s.enforceFavoriteLimit = .ok u) :
    s.favorites.length < maxFavorites := by
  unfold Store.enforceFavoriteLimit at h
  split at h
  next => cases h
  next room => simpa [Store.favorites] using room

/-- `t` keeps the favorites of `s` but those dropped, and adds one only below the limit. -/
structure FavoritesKept (dropped : Nat → Prop) (s t : Store) : Prop where
  kept : ∀ id ∈ s.favorites, id ∈ t.favorites ∨ dropped id
  bound : t.favorites.length ≤ s.favorites.length ∨
    (s.favorites.length < maxFavorites ∧ t.favorites.length ≤ s.favorites.length + 1)

section

variable {dropped : Nat → Prop} {s t : Store}

theorem favoritesKept_of_eq (h : t.favorites = s.favorites) : FavoritesKept dropped s t where
  kept := fun _ hid => Or.inl (h ▸ hid)
  bound := Or.inl (Nat.le_of_eq (congrArg List.length h))

theorem favoritesKept_mono {weaker : Nat → Prop} (hw : ∀ id, dropped id → weaker id)
    (h : FavoritesKept dropped s t) : FavoritesKept weaker s t where
  kept := fun id hid => (h.kept id hid).imp_right (hw id)
  bound := h.bound

theorem favoritesKept_pruneRecent (h : FavoritesKept dropped s t) :
    FavoritesKept dropped s t.pruneRecent where
  kept := by
    rw [favorites_pruneRecent]
    exact h.kept
  bound := by
    rw [favorites_pruneRecent]
    exact h.bound

/-- Setting the flag of one row. -/
theorem favoritesKept_set {entry : SavedTerminal} {f : SavedTerminal → SavedTerminal} {favorite : Bool}
    (keyed : s.Keyed) (he : entry ∈ s.rows) (hid : ∀ row, (f row).id = row.id)
    (hf : ∀ row, (f row).favorite = favorite)
    (hsource : ∀ row, (f row).sourceSessionID = row.sourceSessionID)
    (room : favorite = true → entry.favorite = true ∨ s.favorites.length < maxFavorites)
    (hd : favorite = false → entry.favorite = true → dropped entry.id) :
    FavoritesKept dropped s { s with rows := updateWhere (fun row => row.id = entry.id) f s.rows } := by
  have after := keyed_updateWhere (p := fun row => row.id = entry.id) keyed hid hsource
  cases favorite with
  | false =>
    refine ⟨?_, Or.inl (favorites_length_le after ?_)⟩
    · intro id hm
      by_cases same : id = entry.id
      · obtain ⟨row, hr, fav, hrow⟩ := mem_favorites.mp hm
        cases List.inj_on_of_nodup_map keyed.ids hr he (hrow.trans same)
        exact Or.inr (same ▸ hd rfl fav)
      · exact Or.inl ((mem_favorites_set hid hf).mpr (Or.inl ⟨same, hm⟩))
    · intro id hm
      rcases (mem_favorites_set hid hf).mp hm with ⟨_, hm⟩ | ⟨_, on, _⟩
      · exact hm
      · cases on
  | true =>
    refine ⟨?_, ?_⟩
    · intro id hm
      by_cases same : id = entry.id
      · exact Or.inl ((mem_favorites_set hid hf).mpr (Or.inr ⟨same, rfl, entry, he, rfl⟩))
      · exact Or.inl ((mem_favorites_set hid hf).mpr (Or.inl ⟨same, hm⟩))
    · have sub : ∀ id ∈ Store.favorites { s with rows := updateWhere (fun row => row.id = entry.id) f s.rows },
          id = entry.id ∨ id ∈ s.favorites := by
        intro id hm
        rcases (mem_favorites_set hid hf).mp hm with ⟨_, hm⟩ | ⟨same, _⟩
        · exact Or.inr hm
        · exact Or.inl same
      rcases room rfl with already | below
      · refine Or.inl (favorites_length_le after ?_)
        intro id hm
        rcases sub id hm with same | hm
        · exact mem_favorites.mpr ⟨entry, he, already, same.symm⟩
        · exact hm
      · exact Or.inr ⟨below, favorites_length_le_succ after entry.id sub⟩

theorem favoritesKept_insert {row : SavedTerminal} (keyed : s.Keyed) (hid : row.id = s.nextID)
    (hnew : ∀ old ∈ s.rows, old.sourceSessionID ≠ row.sourceSessionID)
    (below : s.favorites.length < maxFavorites) :
    FavoritesKept dropped s { rows := s.rows ++ [row], nextID := s.nextID + 1 } where
  kept := by
    intro id hm
    obtain ⟨old, ho, fav, he⟩ := mem_favorites.mp hm
    exact Or.inl (mem_favorites.mpr ⟨old, List.mem_append_left _ ho, fav, he⟩)
  bound := by
    refine Or.inr ⟨below, favorites_length_le_succ (keyed_insert keyed hid hnew) row.id ?_⟩
    intro id hm
    obtain ⟨old, ho, fav, he⟩ := mem_favorites.mp hm
    rcases List.mem_append.mp ho with ho | ho
    · exact Or.inr (mem_favorites.mpr ⟨old, ho, fav, he⟩)
    · cases List.mem_singleton.mp ho
      exact Or.inl he.symm

end

theorem favorites_reconcileEnded {s t : Store} {info : SessionInfo} {ended : Time}
    (hr : s.reconcileEnded info ended = .ok t) : t.favorites = s.favorites := by
  obtain ⟨⟨name, cwd⟩, _, hr⟩ := bind_eq_ok.mp hr
  dsimp only at hr
  split at hr
  next => cases hr; exact favorites_insert_plain rfl
  next =>
    split at hr
    next => cases hr; rfl
    next => cases hr; exact favorites_updateWhere (fun _ => rfl) (fun _ => rfl)

theorem favorites_foldSessions {sessions : List SessionInfo} {s t : Store}
    (hr : sessions.foldlM Store.reconcileSession s = .ok t) : t.favorites = s.favorites := by
  induction sessions generalizing s with
  | nil => cases hr; rfl
  | cons info sessions ih =>
    rw [List.foldlM_cons] at hr
    obtain ⟨u, hu, hr⟩ := bind_eq_ok.mp hr
    have rest := ih hr
    unfold Store.reconcileSession at hu
    split at hu
    next => cases hu; exact rest
    next => exact rest.trans (favorites_reconcileEnded hu)

theorem favorites_reconcile {s t : Store} {sessions : List SessionInfo} (hr : s.reconcile sessions = .ok t) :
    t.favorites = s.favorites := by
  obtain ⟨u, hu, hr⟩ := bind_eq_ok.mp hr
  cases hr
  have cleared : (u.clearMissingActiveSessions (sessions.map SessionInfo.id)).favorites = u.favorites :=
    favorites_updateWhere (fun _ => rfl) (fun _ => rfl)
  rw [favorites_pruneRecent, cleared, favorites_foldSessions hu]

theorem favorites_recordEnded {s t : Store} {info : SessionInfo} (hr : s.recordEnded info = .ok t) :
    t.favorites = s.favorites := by
  unfold Store.recordEnded at hr
  split at hr
  next => cases hr
  next =>
    obtain ⟨u, hu, hr⟩ := bind_eq_ok.mp hr
    cases hr
    rw [favorites_pruneRecent, favorites_reconcileEnded hu]

/-- The call asks for the entry not to be a favorite. -/
def Op.Unfavors (s : Store) : Op → Nat → Prop
  | .saveSession info favorite _, entry =>
    favorite = false ∧ ∃ row, s.rows.find? (ofSession info.id) = some row ∧ row.id = entry
  | .update other _ favorite _, entry => favorite = some false ∧ other = entry
  | _, _ => False

theorem favorites_saveSession {s : Store} {info : SessionInfo} {favorite : Bool} {now : Time}
    {saved : Store × Nat} (h : s.Keyed) (hr : s.saveSession info favorite now = .ok saved) :
    FavoritesKept ((Op.saveSession info favorite now).Unfavors s) s saved.1 := by
  obtain ⟨⟨name, cwd⟩, _, hr⟩ := bind_eq_ok.mp hr
  cases hf : s.rows.find? (ofSession info.id) with
  | none =>
    have hnew : ∀ old ∈ s.rows, old.sourceSessionID ≠ info.id := by
      intro old ho
      exact (not_ofSession_iff.mp (List.find?_eq_none.mp hf old ho)).1
    simp only [hf] at hr
    split at hr
    next =>
      obtain ⟨_, enforced, hr⟩ := bind_eq_ok.mp hr
      cases hr
      exact favoritesKept_pruneRecent (favoritesKept_insert h rfl hnew (favorites_below enforced))
    next off =>
      have off : favorite = false := by simpa using off
      cases hr
      exact favoritesKept_pruneRecent (favoritesKept_of_eq (favorites_insert_plain off))
  | some entry =>
    have he := List.mem_of_find?_eq_some hf
    have dropped : favorite = false → entry.favorite = true →
        (Op.saveSession info favorite now).Unfavors s entry.id := fun off _ => ⟨off, entry, hf, rfl⟩
    simp only [hf] at hr
    split at hr
    next =>
      obtain ⟨_, enforced, hr⟩ := bind_eq_ok.mp hr
      have below := favorites_below enforced
      cases hr
      exact favoritesKept_pruneRecent
        (favoritesKept_set h he (fun _ => rfl) (fun _ => rfl) (fun _ => rfl) (fun _ => Or.inr below) dropped)
    next off =>
      have already : favorite = true → entry.favorite = true := by simpa using off
      cases hr
      exact favoritesKept_pruneRecent
        (favoritesKept_set h he (fun _ => rfl) (fun _ => rfl) (fun _ => rfl) (fun on => Or.inl (already on)) dropped)

theorem favorites_update {s t : Store} {id : Nat} {name : Option String} {favorite : Option Bool} {now : Time}
    (h : s.Keyed) (hr : s.update id name favorite now = .ok t) :
    FavoritesKept ((Op.update id name favorite now).Unfavors s) s t := by
  obtain ⟨entry, hg, hr⟩ := bind_eq_ok.mp hr
  unfold Store.get at hg
  split at hg
  next => cases hg
  next row found =>
    cases hg
    obtain ⟨he, rfl⟩ := findRow_mem found
    have dropped : favorite.getD entry.favorite = false → entry.favorite = true →
        (Op.update entry.id name favorite now).Unfavors s entry.id := by
      intro off on
      cases favorite with
      | none => exact absurd on (Bool.eq_false_iff.mp off)
      | some flag => exact ⟨congrArg some off, rfl⟩
    split at hr
    next =>
      obtain ⟨_, enforced, hr⟩ := bind_eq_ok.mp hr
      have below := favorites_below enforced
      cases hr
      exact favoritesKept_pruneRecent
        (favoritesKept_set h he (fun _ => rfl) (fun _ => rfl) (fun _ => rfl) (fun _ => Or.inr below) dropped)
    next off =>
      have already : favorite.getD entry.favorite = true → entry.favorite = true := by
        intro on
        cases favorite with
        | none => exact on
        | some flag =>
          cases flag with
          | false => cases on
          | true => simpa using off
      cases hr
      exact favoritesKept_pruneRecent
        (favoritesKept_set h he (fun _ => rfl) (fun _ => rfl) (fun _ => rfl) (fun on => Or.inl (already on)) dropped)

theorem favorites_delete {s t : Store} {id : Nat} (h : s.Keyed) (hr : s.delete id = .ok t) :
    FavoritesKept (fun other => other = id) s t := by
  have after := keyed_delete h hr
  unfold Store.delete at hr
  split at hr
  next =>
    cases hr
    refine ⟨?_, Or.inl (favorites_length_le after ?_)⟩
    · intro other hm
      obtain ⟨row, hr, fav, he⟩ := mem_favorites.mp hm
      by_cases same : other = id
      · exact Or.inr same
      · exact Or.inl (mem_favorites.mpr ⟨row, List.mem_filter.mpr ⟨hr, by simp [he, same]⟩, fav, he⟩)
    · intro other hm
      obtain ⟨row, hr, fav, he⟩ := mem_favorites.mp hm
      exact mem_favorites.mpr ⟨row, List.mem_of_mem_filter hr, fav, he⟩
  next => cases hr

theorem favorites_markOpened {s t : Store} {id : Nat} {sessionID : String} {openedAt : Time}
    (hr : s.markOpened id sessionID openedAt = .ok t) : t.favorites = s.favorites := by
  unfold Store.markOpened at hr
  split at hr
  next => cases hr
  next =>
    split at hr
    next => cases hr
    next => cases hr; exact favorites_updateWhere (fun _ => rfl) (fun _ => rfl)

theorem favorites_commit {dropped : Nat → Prop} {s : Store} {r : Except StoreError Store}
    (h : ∀ t, r = .ok t → FavoritesKept dropped s t) : FavoritesKept dropped s (s.commit r) := by
  cases r with
  | error e => exact favoritesKept_of_eq rfl
  | ok t => exact h t rfl

/-- A favorite stays one through every call but its `Delete` and the calls that ask for the opposite. -/
theorem favorites_apply {s : Store} (h : s.Keyed) (op : Op) :
    FavoritesKept (fun id => op = .delete id ∨ op.Unfavors s id) s (s.apply op) := by
  cases op with
  | reconcile sessions => exact favorites_commit fun t ht => favoritesKept_of_eq (favorites_reconcile ht)
  | recordEnded info => exact favorites_commit fun t ht => favoritesKept_of_eq (favorites_recordEnded ht)
  | saveSession info favorite now =>
    refine favorites_commit ?_
    intro t ht
    obtain ⟨saved, hs, rfl⟩ := saveSession_map ht
    exact favoritesKept_mono (fun _ => Or.inr) (favorites_saveSession h hs)
  | update id name favorite now =>
    exact favorites_commit fun t ht => favoritesKept_mono (fun _ => Or.inr) (favorites_update h ht)
  | delete id =>
    refine favorites_commit ?_
    intro t ht
    refine favoritesKept_mono ?_ (favorites_delete h ht)
    intro other same
    exact Or.inl (congrArg Op.delete same.symm)
  | markOpened id sessionID openedAt =>
    exact favorites_commit fun t ht => favoritesKept_of_eq (favorites_markOpened ht)
  | renameSession sessionID name now =>
    exact favoritesKept_of_eq (favorites_updateWhere (fun _ => rfl) (fun _ => rfl))

theorem recent_le_of_pruneRecent {s : Store} (h : s.pruneRecent.Keyed) :
    (Store.recent s.pruneRecent.rows).length ≤ maxRecent := by
  have nodup : ((Store.recent s.pruneRecent.rows).map SavedTerminal.id).Nodup :=
    h.ids.sublist (List.filter_sublist.map _)
  have sub : (Store.recent s.pruneRecent.rows).map SavedTerminal.id ⊆ Store.kept s.rows := by
    intro id hid
    obtain ⟨row, hr, rfl⟩ := List.mem_map.mp hid
    obtain ⟨hp, hf⟩ := mem_recent.mp hr
    exact (mem_pruneRecent.mp hp).2.resolve_left (by simp [hf])
  have le := (List.Nodup.subperm nodup sub).length_le
  have kept : (Store.kept s.rows).length ≤ maxRecent := by
    rw [Store.kept, List.length_map, length_topBy]
    exact Nat.min_le_left _ _
  rw [List.length_map] at le
  omega

/-- Every call that adds an entry or takes the flag from one prunes before it commits. -/
def Pruned (t : Store) : Prop := ∃ u : Store, t = u.pruneRecent

theorem pruned_saveSession {s : Store} {info : SessionInfo} {favorite : Bool} {now : Time}
    {saved : Store × Nat} (hr : s.saveSession info favorite now = .ok saved) : Pruned saved.1 := by
  obtain ⟨⟨name, cwd⟩, _, hr⟩ := bind_eq_ok.mp hr
  cases hf : s.rows.find? (ofSession info.id) with
  | none =>
    simp only [hf] at hr
    split at hr
    next =>
      obtain ⟨_, _, hr⟩ := bind_eq_ok.mp hr
      cases hr
      exact ⟨_, rfl⟩
    next => cases hr; exact ⟨_, rfl⟩
  | some entry =>
    simp only [hf] at hr
    split at hr
    next =>
      obtain ⟨_, _, hr⟩ := bind_eq_ok.mp hr
      cases hr
      exact ⟨_, rfl⟩
    next => cases hr; exact ⟨_, rfl⟩

theorem pruned_update {s t : Store} {id : Nat} {name : Option String} {favorite : Option Bool} {now : Time}
    (hr : s.update id name favorite now = .ok t) : Pruned t := by
  obtain ⟨entry, _, hr⟩ := bind_eq_ok.mp hr
  dsimp only at hr
  split at hr
  next =>
    obtain ⟨_, _, hr⟩ := bind_eq_ok.mp hr
    cases hr
    exact ⟨_, rfl⟩
  next => cases hr; exact ⟨_, rfl⟩

theorem pruned_recordEnded {s t : Store} {info : SessionInfo} (hr : s.recordEnded info = .ok t) :
    Pruned t := by
  unfold Store.recordEnded at hr
  split at hr
  next => cases hr
  next =>
    obtain ⟨u, _, hr⟩ := bind_eq_ok.mp hr
    cases hr
    exact ⟨u, rfl⟩

theorem recent_updateWhere {p : SavedTerminal → Bool} {f : SavedTerminal → SavedTerminal} {s : Store}
    (hf : ∀ row, (f row).favorite = row.favorite) (h : (Store.recent s.rows).length ≤ maxRecent) :
    (Store.recent (updateWhere p f s.rows)).length ≤ maxRecent := by
  have keep : ∀ row : SavedTerminal, (if p row then f row else row).favorite = row.favorite := updateWhere_key hf
  have same : (Store.recent (updateWhere p f s.rows)).length = (Store.recent s.rows).length := by
    simp only [Store.recent, updateWhere, List.filter_map, List.length_map, Function.comp_def, keep]
  omega

theorem recent_commit {s : Store} {r : Except StoreError Store} (h : (Store.recent s.rows).length ≤ maxRecent)
    (hr : ∀ t, r = .ok t → (Store.recent t.rows).length ≤ maxRecent) :
    (Store.recent (s.commit r).rows).length ≤ maxRecent := by
  cases r with
  | error e => exact h
  | ok t => exact hr t rfl

theorem recent_of_pruned {t : Store} (keyed : t.Keyed) (pruned : Pruned t) :
    (Store.recent t.rows).length ≤ maxRecent := by
  obtain ⟨u, rfl⟩ := pruned
  exact recent_le_of_pruneRecent keyed

theorem recent_apply {s : Store} (keyed : s.Keyed) (h : (Store.recent s.rows).length ≤ maxRecent) (op : Op) :
    (Store.recent (s.apply op).rows).length ≤ maxRecent := by
  cases op with
  | reconcile sessions =>
    refine recent_commit h ?_
    intro t ht
    have after := keyed_reconcile keyed ht
    obtain ⟨u, _, ht⟩ := bind_eq_ok.mp ht
    cases ht
    exact recent_le_of_pruneRecent after
  | recordEnded info =>
    exact recent_commit h fun t ht => recent_of_pruned (keyed_recordEnded keyed ht) (pruned_recordEnded ht)
  | saveSession info favorite now =>
    refine recent_commit h ?_
    intro t ht
    obtain ⟨saved, hs, rfl⟩ := saveSession_map ht
    exact recent_of_pruned (keyed_saveSession keyed hs) (pruned_saveSession hs)
  | update id name favorite now =>
    exact recent_commit h fun t ht => recent_of_pruned (keyed_update keyed ht) (pruned_update ht)
  | delete id =>
    refine recent_commit h ?_
    intro t ht
    unfold Store.delete at ht
    split at ht
    next =>
      cases ht
      have fewer := (List.filter_sublist (p := fun row : SavedTerminal => decide (row.id ≠ id)) (l := s.rows)).filter
        fun row => !row.favorite
      exact Nat.le_trans fewer.length_le h
    next => cases ht
  | markOpened id sessionID openedAt =>
    refine recent_commit h ?_
    intro t ht
    unfold Store.markOpened at ht
    split at ht
    next => cases ht
    next =>
      split at ht
      next => cases ht
      next =>
        cases ht
        exact recent_updateWhere (fun _ => rfl) h
  | renameSession sessionID name now =>
    exact recent_updateWhere (fun _ => rfl) h

/-- No two rows have one non-empty active session. -/
def Store.LinksUnique (s : Store) : Prop :=
  ∀ a ∈ s.rows, ∀ b ∈ s.rows, a.activeSessionID = b.activeSessionID → a.activeSessionID ≠ "" → a.id = b.id

theorem linksUnique_of_kept {cleared : String → Prop} {s t : Store} (h : s.LinksUnique)
    (kept : LinksKept cleared s t) : t.LinksUnique := by
  intro a ha b hb same linked
  have origin : ∀ row ∈ t.rows, row.activeSessionID ≠ "" →
      ∃ old ∈ s.rows, old.id = row.id ∧ row.activeSessionID = old.activeSessionID := by
    intro row hr hne
    rcases kept.links row hr with ⟨unlinked, _⟩ | ⟨old, ho, hid, link | ⟨unlinked, _⟩⟩
    · exact absurd unlinked hne
    · exact ⟨old, ho, hid, link⟩
    · exact absurd unlinked hne
  obtain ⟨a', ha', hida, linka⟩ := origin a ha linked
  obtain ⟨b', hb', hidb, linkb⟩ := origin b hb (same ▸ linked)
  have old : a'.activeSessionID = b'.activeSessionID := linka.symm.trans (same.trans linkb)
  rw [← hida, ← hidb]
  exact h a' ha' b' hb' old (linka ▸ linked)

/-- `MarkOpened` runs into the unique index before it gives a second row the link. -/
theorem linksUnique_markOpened {s t : Store} {id : Nat} {sessionID : String} {openedAt : Time}
    (h : s.LinksUnique) (hr : s.markOpened id sessionID openedAt = .ok t) : t.LinksUnique := by
  have free : sessionID ≠ "" → ∀ row ∈ s.rows, row.id ≠ id → row.activeSessionID ≠ sessionID := by
    intro hne row hm other same
    unfold Store.markOpened at hr
    split at hr
    next => cases hr
    next =>
      split at hr
      next => cases hr
      next clash => exact clash ⟨hne, List.any_eq_true.mpr ⟨row, hm, by simp [other, same]⟩⟩
  intro a ha b hb same linked
  rcases (markOpened_rows hr).2 a ha with ⟨hida, linka⟩ | ⟨othera, ha⟩
  · rcases (markOpened_rows hr).2 b hb with ⟨hidb, _⟩ | ⟨otherb, hb⟩
    · exact hida.trans hidb.symm
    · exact absurd (same.symm.trans linka) (free (linka ▸ linked) b hb otherb)
  · rcases (markOpened_rows hr).2 b hb with ⟨hidb, linkb⟩ | ⟨otherb, hb⟩
    · exact absurd (same.trans linkb) (free (linkb ▸ same ▸ linked) a ha othera)
    · exact h a ha b hb same linked

theorem linksUnique_apply {s : Store} (h : s.LinksUnique) (op : Op) : (s.apply op).LinksUnique := by
  cases op with
  | markOpened id sessionID openedAt =>
    show (s.commit (s.markOpened id sessionID openedAt)).LinksUnique
    cases hr : s.markOpened id sessionID openedAt with
    | error e => exact h
    | ok t => exact linksUnique_markOpened h hr
  | reconcile sessions => exact linksUnique_of_kept h (linksKept_apply (by simp))
  | recordEnded info => exact linksUnique_of_kept h (linksKept_apply (by simp))
  | saveSession info favorite now => exact linksUnique_of_kept h (linksKept_apply (by simp))
  | update id name favorite now => exact linksUnique_of_kept h (linksKept_apply (by simp))
  | delete id => exact linksUnique_of_kept h (linksKept_apply (by simp))
  | renameSession sessionID name now => exact linksUnique_of_kept h (linksKept_apply (by simp))

/-- What every call leaves behind. -/
structure Store.Bounded (s : Store) : Prop where
  keyed : s.Keyed
  favorites : s.favorites.length ≤ maxFavorites
  recent : (Store.recent s.rows).length ≤ maxRecent
  links : s.LinksUnique

theorem bounded_empty : Store.empty.Bounded where
  keyed := keyed_empty
  favorites := Nat.zero_le _
  recent := Nat.zero_le _
  links := nofun

theorem bounded_apply {s : Store} (h : s.Bounded) (op : Op) : (s.apply op).Bounded where
  keyed := keyed_apply h.keyed op
  favorites := by
    have before := h.favorites
    rcases (favorites_apply h.keyed op).bound with le | ⟨below, le⟩
    · omega
    · omega
  recent := recent_apply h.keyed h.recent op
  links := linksUnique_apply h.links op

theorem bounded_run {ops : List Op} {s : Store} (run : exec Store.step Store.empty ops = some s) :
    s.Bounded :=
  exec_invariant (fun _ op _ h ht => Option.some.inj ht ▸ bounded_apply h op) bounded_empty run

/-- How many recent rows the pruning ranks ahead of the row: on a tie those of a smaller rowid. -/
def Store.ahead (s : Store) (row : SavedTerminal) : Nat :=
  (Store.recent (s.rows.takeWhile (·.id ≠ row.id))).countP (fun other => row.rank ≤ other.rank) +
    (Store.recent (s.rows.dropWhile (·.id ≠ row.id))).countP fun other => row.rank < other.rank

/-- The call takes the flag from the row, which as the call leaves it ranks behind ten recent rows. -/
def Op.Demotes (s : Store) (row : SavedTerminal) : Op → Prop
  | .saveSession info favorite now =>
    (safeMetadata info).isOk = true ∧ s.rows.find? (ofSession info.id) = some row ∧ favorite = false ∧
      maxRecent ≤ s.ahead { row with updatedAt := encodeTime now }
  | .update entry _ favorite now =>
    entry = row.id ∧ favorite = some false ∧ maxRecent ≤ s.ahead { row with updatedAt := encodeTime now }
  | _ => False

instance {s : Store} {row : SavedTerminal} : (op : Op) → Decidable (op.Demotes s row)
  | .saveSession .. => inferInstanceAs (Decidable (_ ∧ _ ∧ _ ∧ _))
  | .update .. => inferInstanceAs (Decidable (_ ∧ _ ∧ _))
  | .reconcile _ | .recordEnded _ | .delete _ | .markOpened .. | .renameSession .. => isFalse id

theorem split_of_keyed {s : Store} {row : SavedTerminal} (keyed : s.Keyed) (hr : row ∈ s.rows) :
    ∃ front back, s.rows = front ++ row :: back ∧ (front ++ row :: back).Nodup ∧
      s.rows.takeWhile (·.id ≠ row.id) = front ∧ s.rows.dropWhile (·.id ≠ row.id) = row :: back := by
  obtain ⟨front, back, split⟩ := List.append_of_mem hr
  have ids := keyed.ids
  rw [split] at ids ⊢
  have front_ne : ∀ other ∈ front, decide (other.id ≠ row.id) = true := by
    intro other ho
    rw [List.map_append, List.map_cons, List.nodup_append] at ids
    exact decide_eq_true (ids.2.2 _ (List.mem_map_of_mem ho) _ List.mem_cons_self)
  refine ⟨front, back, rfl, ids.of_map, ?_, ?_⟩
  · rw [List.takeWhile_append_of_pos front_ne, List.takeWhile_cons_of_neg (by simp), List.append_nil]
  · rw [List.dropWhile_append_of_pos front_ne, List.dropWhile_cons_of_neg (by simp)]

/-- A favorite that a call leaves without the flag stays exactly when fewer than ten recent rows rank ahead of it. -/
theorem unfavored_stays_iff {s : Store} {row : SavedTerminal} {f : SavedTerminal → SavedTerminal}
    (keyed : s.Keyed) (hr : row ∈ s.rows) (fav : row.favorite = true) (hid : ∀ other, (f other).id = other.id)
    (hsource : ∀ other, (f other).sourceSessionID = other.sourceSessionID) (off : (f row).favorite = false) :
    (∃ left ∈ (Store.pruneRecent
      { s with rows := updateWhere (fun other => other.id = row.id) f s.rows }).rows,
      left.id = row.id) ↔ s.ahead (f row) < maxRecent := by
  have after := keyed_updateWhere (p := fun other => other.id = row.id) keyed hid hsource
  obtain ⟨front, back, split, _, taken, dropped⟩ := split_of_keyed keyed hr
  have ids := keyed.ids
  rw [split] at ids
  have rows := updateWhere_split f ids
  rw [← split] at rows
  rw [rows] at after ⊢
  have recents : Store.recent (front ++ f row :: back) = Store.recent front ++ f row :: Store.recent back := by
    simp [Store.recent, off]
  have count : s.ahead (f row) = (aheadOf before (f row) (Store.recent front) (Store.recent back)).length := by
    have flagged : Store.recent (row :: back) = Store.recent back := by simp [Store.recent, fav]
    have strict : (fun other => decide ¬before (f row) other) = fun other => decide ((f row).rank < other.rank) := by
      funext other
      simp [before]
    rw [Store.ahead, hid row, taken, dropped, flagged, aheadOf, List.length_append, ← List.countP_eq_length_filter,
      ← List.countP_eq_length_filter, strict]
    rfl
  have nodup : (Store.recent front ++ f row :: Store.recent back).Nodup := by
    rw [← recents]
    exact (after.ids.of_map).filter _
  rw [count, ← mem_topBy_iff before nodup, ← recents]
  have there : f row ∈ front ++ f row :: back := List.mem_append_right front List.mem_cons_self
  constructor
  · rintro ⟨left, hl, same⟩
    obtain ⟨old, kept⟩ := mem_pruneRecent.mp hl
    cases List.inj_on_of_nodup_map after.ids old there (same.trans (hid row).symm)
    exact mem_topBy_of_kept after there (kept.resolve_left (by simp [off]))
  · intro top
    exact ⟨f row, mem_pruneRecent.mpr ⟨there, Or.inr (mem_kept.mpr ⟨f row, top, rfl⟩)⟩, hid row⟩

theorem saveSession_stays_iff {s : Store} {info : SessionInfo} {now : Time} {row : SavedTerminal}
    (keyed : s.Keyed) (hr : row ∈ s.rows) (fav : row.favorite = true)
    (found : s.rows.find? (ofSession info.id) = some row) :
    (∃ left ∈ (s.apply (.saveSession info false now)).rows, left.id = row.id) ↔
      ¬(Op.saveSession info false now).Demotes s row := by
  simp only [Op.Demotes, true_and, not_and, not_le]
  cases checked : safeMetadata info with
  | error e =>
    have same : s.apply (.saveSession info false now) = s := by
      simp [Store.apply, Store.saveSession, checked, bind, Except.bind, Except.map, Store.commit]
    rw [same]
    refine ⟨?_, fun _ => ⟨row, hr, rfl⟩⟩
    rintro _ ⟨⟩
  | ok _ =>
    have rows : s.apply (.saveSession info false now) = Store.pruneRecent { s with
        rows := updateWhere (fun other => other.id = row.id)
          (fun other => { other with favorite := false, updatedAt := encodeTime now }) s.rows } := by
      simp [Store.apply, Store.saveSession, checked, found, bind, Except.bind, Except.map, pure,
        Except.pure, Store.commit]
    have stays := unfavored_stays_iff
      (f := fun other => { other with favorite := false, updatedAt := encodeTime now })
      keyed hr fav (fun _ => rfl) (fun _ => rfl) rfl
    rw [rows, stays]
    exact ⟨fun few _ _ => few, fun few => few rfl found⟩

theorem update_stays_iff {s : Store} {name : Option String} {now : Time} {row : SavedTerminal}
    (keyed : s.Keyed) (hr : row ∈ s.rows) (fav : row.favorite = true) :
    (∃ left ∈ (s.apply (.update row.id name (some false) now)).rows, left.id = row.id) ↔
      ¬(Op.update row.id name (some false) now).Demotes s row := by
  have got : s.get row.id = .ok row := by rw [Store.get, findRow_of_nodup keyed.ids hr]
  have rows : s.apply (.update row.id name (some false) now) = Store.pruneRecent { s with
      rows := updateWhere (fun other => other.id = row.id)
        (fun other => { other with
          name := name.getD row.name
          favorite := false
          updatedAt := encodeTime now }) s.rows } := by
    simp [Store.apply, Store.update, got, bind, Except.bind, pure, Except.pure, Store.commit]
  have stays := unfavored_stays_iff
    (f := fun other => { other with name := name.getD row.name, favorite := false, updatedAt := encodeTime now })
    keyed hr fav (fun _ => rfl) (fun _ => rfl) rfl
  rw [rows, stays]
  simp only [Op.Demotes, true_and, not_le]
  rfl

theorem Op.Demotes.unfavors {s : Store} {row : SavedTerminal} {op : Op} (h : op.Demotes s row) :
    op.Unfavors s row.id := by
  cases op with
  | saveSession info favorite now =>
    obtain ⟨_, found, off, _⟩ := h
    exact ⟨off, row, found, rfl⟩
  | update entry name favorite now =>
    obtain ⟨same, off, _⟩ := h
    exact ⟨off, same⟩
  | reconcile sessions => exact h
  | recordEnded info => exact h
  | delete entry => exact h
  | markOpened entry sessionID openedAt => exact h
  | renameSession sessionID name now => exact h

theorem stays_iff_of_unfavors {s : Store} {row : SavedTerminal} {op : Op} (keyed : s.Keyed) (hr : row ∈ s.rows)
    (fav : row.favorite = true) (unfavors : op.Unfavors s row.id) :
    (∃ left ∈ (s.apply op).rows, left.id = row.id) ↔ ¬op.Demotes s row := by
  cases op with
  | saveSession info favorite now =>
    obtain ⟨rfl, entry, found, same⟩ := unfavors
    cases List.inj_on_of_nodup_map keyed.ids (List.mem_of_find?_eq_some found) hr same
    exact saveSession_stays_iff keyed hr fav found
  | update entry name favorite now =>
    obtain ⟨rfl, rfl⟩ := unfavors
    exact update_stays_iff keyed hr fav
  | reconcile sessions => exact unfavors.elim
  | recordEnded info => exact unfavors.elim
  | delete entry => exact unfavors.elim
  | markOpened entry sessionID openedAt => exact unfavors.elim
  | renameSession sessionID name now => exact unfavors.elim

/-- A favorite goes by its `Delete` and by a call that demotes it, and by nothing else. -/
theorem favorite_stays_iff {s : Store} {op : Op} {row : SavedTerminal} (keyed : s.Keyed) (hr : row ∈ s.rows)
    (fav : row.favorite = true) :
    (∃ left ∈ (s.apply op).rows, left.id = row.id) ↔ op ≠ .delete row.id ∧ ¬op.Demotes s row := by
  constructor
  · intro stays
    constructor
    · rintro rfl
      obtain ⟨left, hl, same⟩ := stays
      have there : s.rows.any (fun other => other.id = row.id) = true :=
        List.any_eq_true.mpr ⟨row, hr, decide_eq_true rfl⟩
      simp only [Store.apply, Store.delete, if_pos there, Store.commit] at hl
      exact of_decide_eq_true (List.mem_filter.mp hl).2 same
    · intro demotes
      exact (stays_iff_of_unfavors keyed hr fav demotes.unfavors).mp stays demotes
  · rintro ⟨undeleted, undemoted⟩
    rcases (favorites_apply keyed op).kept row.id (mem_favorites.mpr ⟨row, hr, fav, rfl⟩) with kept | deleted | unfavors
    · obtain ⟨left, hl, _, same⟩ := mem_favorites.mp kept
      exact ⟨left, hl, same⟩
    · exact absurd deleted undeleted
    · exact (stays_iff_of_unfavors keyed hr fav unfavors).mpr undemoted

/-- Every favorite that the call does not delete is a row after it. -/
def KeepsFavorites (s : Store) (op : Op) : Prop :=
  ∀ row ∈ s.rows, row.favorite = true → op ≠ .delete row.id → ∃ left ∈ (s.apply op).rows, left.id = row.id

/-- The call demotes no favorite. -/
def DemotesNone (s : Store) (op : Op) : Prop := ∀ row ∈ s.rows, row.favorite = true → ¬op.Demotes s row

instance {s : Store} {op : Op} : Decidable (DemotesNone s op) :=
  inferInstanceAs (Decidable (∀ row ∈ s.rows, row.favorite = true → ¬op.Demotes s row))

theorem keepsFavorites_iff {s : Store} {op : Op} (keyed : s.Keyed) :
    KeepsFavorites s op ↔ DemotesNone s op := by
  constructor
  · intro keeps row hr fav demotes
    have undeleted : op ≠ .delete row.id := by
      rintro rfl
      exact demotes
    exact ((favorite_stays_iff keyed hr fav).mp (keeps row hr fav undeleted)).2 demotes
  · intro none row hr fav undeleted
    exact (favorite_stays_iff keyed hr fav).mpr ⟨undeleted, none row hr fav⟩

/-- After any calls the limits and both unique columns hold; the next call takes a favorite out of the table exactly
when it deletes or demotes it, so favorites go by `Delete` alone in exactly the runs that demote none; and a favorite is
still one unless the call deletes it or asks for it not to be one. -/
theorem history_stays_bounded {ops : List Op} {s : Store} (run : exec Store.step Store.empty ops = some s) :
    (s.rows.filter fun row => row.favorite).length ≤ maxFavorites ∧
    (s.rows.filter fun row => !row.favorite).length ≤ maxRecent ∧
    (s.rows.map sourceSessionID).Nodup ∧
    (∀ a ∈ s.rows, ∀ b ∈ s.rows, a.activeSessionID = b.activeSessionID → a.activeSessionID ≠ "" →
      a.id = b.id) ∧
    (∀ op, ∀ row ∈ s.rows, row.favorite = true →
      ((∃ left ∈ (s.apply op).rows, left.id = row.id) ↔ op ≠ .delete row.id ∧ ¬op.Demotes s row)) ∧
    (Along Store.step KeepsFavorites Store.empty ops ↔ Along Store.step DemotesNone Store.empty ops) ∧
    ∀ op, ∀ row ∈ s.rows, row.favorite = true →
      (∃ left ∈ (s.apply op).rows, left.favorite = true ∧ left.id = row.id) ∨
        op = .delete row.id ∨ op.Unfavors s row.id := by
  have h := bounded_run run
  refine ⟨?_, h.recent, h.keyed.sources, h.links, ?_, ?_, ?_⟩
  · have le := h.favorites
    rwa [Store.favorites, List.length_map] at le
  · exact fun op row hr fav => favorite_stays_iff h.keyed hr fav
  · have preserve : ∀ (s : Store) (op : Op) (t : Store), s.Keyed → Store.step s op = some t → t.Keyed :=
      fun s op t keyed ht => Option.some.inj ht ▸ keyed_apply keyed op
    exact along_congr preserve (fun s op keyed => keepsFavorites_iff keyed) keyed_empty
  · intro op row hr fav
    rcases (favorites_apply h.keyed op).kept row.id (mem_favorites.mpr ⟨row, hr, fav, rfl⟩) with kept | out
    · exact Or.inl (mem_favorites.mp kept)
    · exact Or.inr out

def beforeNoon : Time := ⟨2026, 9, 3, 11, 59, 0, 0⟩

def noon : Time := ⟨2026, 9, 3, 12, 0, 0, 0⟩

def workSession (id : String) (named : id ≠ "") : SessionInfo :=
  ⟨id, "work", "/tmp/work", beforeNoon, some noon, false, named⟩

/-- A favorite, and beside it the entries of ten sessions that ended at noon. -/
def fullHistory : List Op :=
  [.saveSession (workSession "f" (by decide)) true beforeNoon,
    .reconcile [workSession "a" (by decide), workSession "b" (by decide), workSession "c" (by decide),
      workSession "d" (by decide), workSession "e" (by decide), workSession "g" (by decide),
      workSession "h" (by decide), workSession "i" (by decide), workSession "j" (by decide),
      workSession "k" (by decide)]]

def afterNoon : Time := ⟨2026, 9, 3, 12, 1, 0, 0⟩

/-- A session that ended after the others, whose entry takes the place of one of theirs. -/
def lateSession : SessionInfo := ⟨"l", "late", "/tmp/late", noon, some afterNoon, false, by decide⟩

/-- The entry of a session that ended at noon. -/
def endedRow (id : Nat) (sessionID : String) : SavedTerminal where
  id := id
  sourceSessionID := sessionID
  activeSessionID := ""
  name := String.ofList ("work".toList.take maxNameRunes)
  cwd := "/tmp/work"
  favorite := false
  createdAt := encodeTime beforeNoon
  updatedAt := encodeTime noon
  lastOpenedAt := encodeTime beforeNoon
  lastClosedAt := some (encodeTime noon)

def favoriteRow (updatedAt : String) : SavedTerminal :=
  { endedRow 0 "f" with favorite := true, updatedAt, lastClosedAt := none }

def endedRows : List SavedTerminal :=
  (["a", "b", "c", "d", "e", "g", "h", "i", "j", "k"].zipIdx 1).map fun entry => endedRow entry.2 entry.1

def fullStore : Store := ⟨favoriteRow (encodeTime beforeNoon) :: endedRows, 11⟩

theorem full_run : exec Store.step Store.empty fullHistory = some fullStore := by
  have saved : Store.empty.apply (.saveSession (workSession "f" (by decide)) true beforeNoon) =
      ⟨[favoriteRow (encodeTime beforeNoon)], 1⟩ := rfl
  have folded : [workSession "a" (by decide), workSession "b" (by decide), workSession "c" (by decide),
      workSession "d" (by decide), workSession "e" (by decide), workSession "g" (by decide),
      workSession "h" (by decide), workSession "i" (by decide), workSession "j" (by decide),
      workSession "k" (by decide)].foldlM Store.reconcileSession ⟨[favoriteRow (encodeTime beforeNoon)], 1⟩ =
        .ok fullStore := rfl
  have pruned : fullStore.pruneRecent = fullStore := pruneRecent_eq_self (by decide)
  unfold fullHistory exec exec exec Store.step
  rw [Option.bind_some, Option.bind_some, saved, Store.apply, Store.reconcile, folded]
  exact congrArg some pruned

/-- All ten rank ahead of the favorite without its flag, or none does. -/
theorem ahead_fullStore (updatedAt : String) : fullStore.ahead (favoriteRow updatedAt) =
    if (favoriteRow updatedAt).rank < (endedRow 1 "a").rank then 10 else 0 := by
  have same : ∀ other ∈ endedRows, other.rank = (endedRow 1 "a").rank := by
    intro other member
    obtain ⟨entry, -, rfl⟩ := List.mem_map.mp member
    rfl
  have count : fullStore.ahead (favoriteRow updatedAt) =
      endedRows.countP fun other => (favoriteRow updatedAt).rank < other.rank := Nat.zero_add _
  rw [count]
  split
  next behind =>
    apply List.countP_eq_length.mpr
    intro other member
    rw [same other member]
    exact decide_eq_true behind
  next ahead =>
    apply List.countP_eq_zero.mpr
    intro other member
    rw [same other member]
    simpa using ahead

/-- At the end the favorite can lose its flag: at 12:01 it becomes the most recent entry, at `12:00:00.5Z`, a smaller
text than `12:00:00Z`, it ranks behind the ten others and goes. -/
theorem full_history : ∃ s, exec Store.step Store.empty fullHistory = some s ∧
    (∃ row ∈ s.rows, row.favorite = true ∧ row.id = 0) ∧
    DemotesNone s (.update 0 none (some false) afterNoon) ∧
    ∀ left ∈ (s.apply (.update 0 none (some false) { noon with nanosecond := 500000000 })).rows,
      left.id ≠ 0 := by
  have later : ¬(favoriteRow (encodeTime afterNoon)).rank < (endedRow 1 "a").rank := by decide +kernel
  have behind : (favoriteRow (encodeTime { noon with nanosecond := 500000000 })).rank < (endedRow 1 "a").rank := by
    decide +kernel
  refine ⟨fullStore, full_run, ⟨favoriteRow (encodeTime beforeNoon), List.mem_cons_self, rfl, rfl⟩, ?_, ?_⟩
  · intro row hr fav demotes
    rcases List.mem_cons.mp hr with rfl | ended
    · have crowded : maxRecent ≤ fullStore.ahead (favoriteRow (encodeTime afterNoon)) := demotes.2.2
      rw [ahead_fullStore, if_neg later] at crowded
      exact absurd crowded (by decide)
    · obtain ⟨entry, -, rfl⟩ := List.mem_map.mp ended
      cases fav
  · intro left hl same
    have keyed := (bounded_run full_run).keyed
    have stays := (favorite_stays_iff keyed List.mem_cons_self rfl).mp ⟨left, hl, same⟩
    have crowded : maxRecent ≤ fullStore.ahead (favoriteRow (encodeTime { noon with nanosecond := 500000000 })) := by
      rw [ahead_fullStore, if_pos behind]
      decide
    exact stays.2 ⟨rfl, rfl, crowded⟩

theorem saved_favorite_stays : ∃ s, exec Store.step Store.empty fullHistory = some s ∧
    (s.rows.filter fun row => row.favorite).length ≤ 100 ∧
    (s.rows.filter fun row => !row.favorite).length ≤ 10 ∧
    (∃ left ∈ (s.apply (.reconcile [lateSession])).rows, left.favorite = true ∧ left.id = 0) ∧
    (∃ left ∈ (s.apply (.update 0 none (some false) afterNoon)).rows, left.id = 0) ∧
    Along Store.step KeepsFavorites Store.empty (fullHistory ++ [.update 0 none (some false) afterNoon]) := by
  obtain ⟨s, run, ⟨row, hr, fav, hid⟩, demotesNone, _⟩ := full_history
  obtain ⟨favorites, recents, _, _, gone, _, stays⟩ := history_stays_bounded run
  have whole : exec Store.step Store.empty (fullHistory ++ [.update 0 none (some false) afterNoon]) =
      some (s.apply (.update 0 none (some false) afterNoon)) := exec_snoc_iff.mpr ⟨s, run, rfl⟩
  obtain ⟨_, _, _, _, _, along, _⟩ := history_stays_bounded whole
  have demotes : Along Store.step DemotesNone Store.empty (fullHistory ++ [.update 0 none (some false) afterNoon]) := by
    apply along_snoc.mpr
    refine ⟨along_of_labels ?_ _, fun t ht => ?_⟩
    · intro op member s row _ _ demotes
      rcases List.mem_cons.mp member with rfl | member
      · cases demotes.2.2.1
      · cases List.mem_singleton.mp member
        exact demotes
    · cases run.symm.trans ht
      exact demotesNone
  refine ⟨s, run, favorites, recents, ?_, ?_, along.mpr demotes⟩
  · rcases stays (.reconcile [lateSession]) row hr fav with ⟨left, hl, on, same⟩ | deleted | unfavored
    · exact ⟨left, hl, on, same.trans hid⟩
    · cases deleted
    · exact unfavored.elim
  · obtain ⟨left, hl, same⟩ := (gone (.update row.id none (some false) afterNoon) row hr fav).mpr
      ⟨by simp, hid ▸ demotesNone row hr fav⟩
    exact ⟨left, hid ▸ hl, same.trans hid⟩

/-- The call that takes the flag prunes as well, and the most recent entry goes. -/
theorem unfavored_entry_can_go :
    ¬ ∀ (ops : List Op) (s : Store) (op : Op) (row : SavedTerminal),
      exec Store.step Store.empty ops = some s → row ∈ s.rows → row.favorite = true →
      (∃ left ∈ (s.apply op).rows, left.id = row.id) ∨ op = .delete row.id := by
  intro h
  obtain ⟨s, run, ⟨row, hr, fav, hid⟩, _, gone⟩ := full_history
  rcases h fullHistory s _ row run hr fav with ⟨left, hl, same⟩ | deleted
  · exact gone left hl (same.trans hid)
  · cases deleted

end TermLinks.TerminalHistory
