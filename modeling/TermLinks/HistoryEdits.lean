import Mathlib.Logic.Relation
import TermLinks.HistoryRows

namespace TermLinks.TerminalHistory

open SavedTerminal Relation

/-- A statement of a call other than `MarkOpened`: rows are rewritten under their keys, rows go, or an
unlinked row is added for one of the sessions the call was given. -/
inductive Edit (sources : String → Prop) (s : Store) : Store → Prop
  | rewrite (p : SavedTerminal → Bool) (f : SavedTerminal → SavedTerminal) (hid : ∀ row, (f row).id = row.id)
      (hsource : ∀ row, (f row).sourceSessionID = row.sourceSessionID)
      (hactive : ∀ row, (f row).activeSessionID = row.activeSessionID ∨ (f row).activeSessionID = "") :
      Edit sources s { s with rows := updateWhere p f s.rows }
  | remove (p : SavedTerminal → Bool) : Edit sources s { s with rows := s.rows.filter p }
  | insert (row : SavedTerminal) (hid : row.id = s.nextID) (unlinked : row.activeSessionID = "")
      (given : sources row.sourceSessionID) (free : ∀ old ∈ s.rows, ¬ old.ofSession row.sourceSessionID) :
      Edit sources s { rows := s.rows ++ [row], nextID := s.nextID + 1 }

/-- The sessions a call may add an entry for. -/
def Op.Adds : Op → String → Prop
  | .reconcile sessions, S => ∃ info ∈ sessions, info.ended ≠ none ∧ info.id = S
  | .recordEnded info, S => info.id = S
  | .saveSession info _ _, S => info.id = S
  | _, _ => False

section

variable {sources : String → Prop} {s t : Store}

theorem edit_mono {more : String → Prop} (hm : ∀ S, sources S → more S) (h : Edit sources s t) :
    Edit more s t := by
  cases h with
  | rewrite p f hid hsource hactive => exact .rewrite p f hid hsource hactive
  | remove p => exact .remove p
  | insert row hid unlinked given free => exact .insert row hid unlinked (hm _ given) free

theorem edits_mono {more : String → Prop} (hm : ∀ S, sources S → more S) (h : ReflTransGen (Edit sources) s t) :
    ReflTransGen (Edit more) s t :=
  ReflTransGen.mono (fun _ _ => edit_mono hm) s t h

/-- What every statement preserves, a call preserves. -/
theorem edits_preserve {inv : Store → Prop} (preserve : ∀ s t, inv s → Edit sources s t → inv t)
    (hs : inv s) (h : ReflTransGen (Edit sources) s t) : inv t := by
  induction h with
  | refl => exact hs
  | tail _ last ih => exact preserve _ _ ih last

theorem edits_pruneRecent (h : ReflTransGen (Edit sources) s t) :
    ReflTransGen (Edit sources) s t.pruneRecent :=
  h.tail (.remove _)

end

theorem edits_reconcileEnded {s t : Store} {info : SessionInfo} {ended : Time}
    (hr : s.reconcileEnded info ended = .ok t) : ReflTransGen (Edit (info.id = ·)) s t := by
  obtain ⟨⟨name, cwd⟩, _, hr⟩ := bind_eq_ok.mp hr
  dsimp only at hr
  split at hr
  next free =>
    cases hr
    exact .single (.insert _ rfl rfl rfl (List.find?_eq_none.mp free))
  next =>
    split at hr
    next => cases hr; exact .refl
    next =>
      cases hr
      refine .single (.rewrite _ _ (fun _ => rfl) (fun _ => rfl) ?_)
      intro row
      by_cases own : row.activeSessionID = info.id
      · exact Or.inr (if_pos own)
      · exact Or.inl (if_neg own)

theorem edits_foldSessions {sessions : List SessionInfo} {s t : Store}
    (hr : sessions.foldlM Store.reconcileSession s = .ok t) :
    ReflTransGen (Edit ((Op.reconcile sessions).Adds)) s t := by
  induction sessions generalizing s with
  | nil => cases hr; exact .refl
  | cons info sessions ih =>
    rw [List.foldlM_cons] at hr
    obtain ⟨u, hu, hr⟩ := bind_eq_ok.mp hr
    have rest : ReflTransGen (Edit ((Op.reconcile (info :: sessions)).Adds)) u t := by
      refine edits_mono ?_ (ih hr)
      intro S ⟨other, ho, he⟩
      exact ⟨other, List.mem_cons_of_mem _ ho, he⟩
    refine ReflTransGen.trans ?_ rest
    unfold Store.reconcileSession at hu
    split at hu
    next => cases hu; exact .refl
    next ended he =>
      refine edits_mono ?_ (edits_reconcileEnded hu)
      intro S same
      exact ⟨info, List.mem_cons_self, by simp [he], same⟩

theorem edits_reconcile {s t : Store} {sessions : List SessionInfo} (hr : s.reconcile sessions = .ok t) :
    ReflTransGen (Edit ((Op.reconcile sessions).Adds)) s t := by
  obtain ⟨u, hu, hr⟩ := bind_eq_ok.mp hr
  cases hr
  apply edits_pruneRecent
  exact (edits_foldSessions hu).tail
    (.rewrite _ _ (fun _ => rfl) (fun _ => rfl) fun _ => Or.inr rfl)

theorem edits_recordEnded {s t : Store} {info : SessionInfo} (hr : s.recordEnded info = .ok t) :
    ReflTransGen (Edit (info.id = ·)) s t := by
  unfold Store.recordEnded at hr
  split at hr
  next => cases hr
  next =>
    obtain ⟨u, hu, hr⟩ := bind_eq_ok.mp hr
    cases hr
    exact edits_pruneRecent (edits_reconcileEnded hu)

theorem edits_saveSession {s : Store} {info : SessionInfo} {favorite : Bool} {now : Time}
    {saved : Store × Nat} (hr : s.saveSession info favorite now = .ok saved) :
    ReflTransGen (Edit (info.id = ·)) s saved.1 := by
  obtain ⟨⟨name, cwd⟩, _, hr⟩ := bind_eq_ok.mp hr
  cases hf : s.rows.find? (ofSession info.id) with
  | none =>
    have free := List.find?_eq_none.mp hf
    simp only [hf] at hr
    split at hr
    next =>
      obtain ⟨_, _, hr⟩ := bind_eq_ok.mp hr
      cases hr
      exact edits_pruneRecent (.single (.insert _ rfl rfl rfl free))
    next => cases hr; exact edits_pruneRecent (.single (.insert _ rfl rfl rfl free))
  | some entry =>
    simp only [hf] at hr
    split at hr
    next =>
      obtain ⟨_, _, hr⟩ := bind_eq_ok.mp hr
      cases hr
      exact edits_pruneRecent (.single (.rewrite _ _ (fun _ => rfl) (fun _ => rfl) fun _ => Or.inl rfl))
    next =>
      cases hr
      exact edits_pruneRecent (.single (.rewrite _ _ (fun _ => rfl) (fun _ => rfl) fun _ => Or.inl rfl))

theorem edits_update {s t : Store} {id : Nat} {name : Option String} {favorite : Option Bool} {now : Time}
    {sources : String → Prop} (hr : s.update id name favorite now = .ok t) :
    ReflTransGen (Edit sources) s t := by
  obtain ⟨entry, _, hr⟩ := bind_eq_ok.mp hr
  dsimp only at hr
  split at hr
  next =>
    obtain ⟨_, _, hr⟩ := bind_eq_ok.mp hr
    cases hr
    exact edits_pruneRecent (.single (.rewrite _ _ (fun _ => rfl) (fun _ => rfl) fun _ => Or.inl rfl))
  next =>
    cases hr
    exact edits_pruneRecent (.single (.rewrite _ _ (fun _ => rfl) (fun _ => rfl) fun _ => Or.inl rfl))

/-- A saved entry's call on the store is what `SaveSession` returns beside the id. -/
theorem saveSession_map {s t : Store} {info : SessionInfo} {favorite : Bool} {now : Time}
    (h : (s.saveSession info favorite now).map Prod.fst = .ok t) :
    ∃ saved, s.saveSession info favorite now = .ok saved ∧ saved.1 = t := by
  cases hs : s.saveSession info favorite now with
  | error e => simp [hs, Except.map] at h
  | ok saved =>
    simp only [hs, Except.map] at h
    cases h
    exact ⟨saved, rfl, rfl⟩

theorem edits_commit {sources : String → Prop} {s : Store} {r : Except StoreError Store}
    (h : ∀ t, r = .ok t → ReflTransGen (Edit sources) s t) : ReflTransGen (Edit sources) s (s.commit r) := by
  cases r with
  | error e => exact .refl
  | ok t => exact h t rfl

/-- Every call but `MarkOpened` is a series of statements. -/
theorem edits_apply {s : Store} {op : Op} (hop : ∀ id sessionID at', op ≠ .markOpened id sessionID at') :
    ReflTransGen (Edit op.Adds) s (s.apply op) := by
  cases op with
  | reconcile sessions => exact edits_commit fun t ht => edits_reconcile ht
  | recordEnded info => exact edits_commit fun t ht => edits_recordEnded ht
  | saveSession info favorite now =>
    refine edits_commit ?_
    intro t ht
    obtain ⟨saved, hs, rfl⟩ := saveSession_map ht
    exact edits_saveSession hs
  | update id name favorite now => exact edits_commit fun t ht => edits_update ht
  | delete id =>
    refine edits_commit ?_
    intro t ht
    unfold Store.delete at ht
    split at ht
    next => cases ht; exact .single (.remove _)
    next => cases ht
  | markOpened id sessionID openedAt => exact absurd rfl (hop id sessionID openedAt)
  | renameSession sessionID name now =>
    exact .single (.rewrite _ _ (fun _ => rfl) (fun _ => rfl) fun _ => Or.inl rfl)

end TermLinks.TerminalHistory
