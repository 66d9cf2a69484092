import TermLinks.HistoryAdmission
import TermLinks.TimestampOrder

namespace TermLinks.TerminalHistory

namespace SavedTerminal

/-- `ORDER BY favorite DESC`, then by activity; ties in the order of the index. -/
def listedBefore (a b : SavedTerminal) : Prop :=
  (a.favorite = true ∧ b.favorite = false) ∨ (a.favorite = b.favorite ∧ b.rank ≤ a.rank)

instance : DecidableRel listedBefore := fun _ _ => inferInstanceAs (Decidable (_ ∨ _))

instance : Std.Total listedBefore where
  total a b := by
    unfold listedBefore
    cases a.favorite <;> cases b.favorite <;> simp [le_total]

instance : IsTrans SavedTerminal listedBefore where
  trans a b c hab hbc := by
    unfold listedBefore at *
    rcases hab with ⟨ha, hb⟩ | ⟨hab, le⟩
    · rcases hbc with ⟨hb', _⟩ | ⟨hbc, _⟩
      · simp [hb] at hb'
      · exact Or.inl ⟨ha, by rw [← hbc, hb]⟩
    · rcases hbc with ⟨hb, hc⟩ | ⟨hbc, le'⟩
      · exact Or.inl ⟨by rw [hab, hb], hc⟩
      · exact Or.inr ⟨by rw [hab, hbc], le_trans le' le⟩

end SavedTerminal

/-- `Store.List`. -/
def Store.list (s : Store) : List SavedTerminal := s.rows.insertionSort SavedTerminal.listedBefore

/-- The instants whose texts a row holds. -/
structure Stamps where
  updated : Time
  opened : Time
  closed : Option Time

namespace Stamps

def times (stamps : Stamps) : List Time := stamps.updated :: stamps.opened :: stamps.closed.toList

/-- The latest of the three. -/
def lastActivity (stamps : Stamps) : Time :=
  match stamps.closed with
  | none => max stamps.updated stamps.opened
  | some closed => max (max stamps.updated stamps.opened) closed

theorem lastActivity_mem (stamps : Stamps) : stamps.lastActivity ∈ stamps.times := by
  obtain ⟨updated, opened, closed⟩ := stamps
  cases closed with
  | none =>
    rcases max_choice updated opened with h | h
    · simp [lastActivity, times, h]
    · simp [lastActivity, times, h]
  | some closed =>
    show max (max updated opened) closed ∈ _
    rcases max_choice (max updated opened) closed with h | h
    · rw [h]
      rcases max_choice updated opened with h' | h'
      · simp [times, h']
      · simp [times, h']
    · simp [times, h]

end Stamps

/-- The row's columns were written from these instants. -/
def Stamped (row : SavedTerminal) (stamps : Stamps) : Prop :=
  row.updatedAt = encodeTime stamps.updated ∧ row.lastOpenedAt = encodeTime stamps.opened ∧
    row.lastClosedAt = stamps.closed.map encodeTime

theorem activity_eq {row : SavedTerminal} {stamps : Stamps} (h : Stamped row stamps)
    (comparable : Comparable stamps.times) : row.activity = encodeTime stamps.lastActivity := by
  obtain ⟨updated, opened, closed⟩ := stamps
  obtain ⟨hu, ho, hc⟩ := h
  have first := comparable.max_encodeTime (a := updated) (b := opened) (by simp [Stamps.times]) (by simp [Stamps.times])
  unfold SavedTerminal.activity
  rw [hu, ho, hc, first]
  cases closed with
  | none =>
    have least : "" ≤ encodeTime (max updated opened) := by
      rw [String.le_iff_toList_le]
      exact not_lt.mp (List.not_lt_nil _)
    exact max_eq_left least
  | some closed =>
    have mem : max updated opened ∈ Stamps.times ⟨updated, opened, some closed⟩ := by
      rcases max_choice updated opened with h | h
      · simp [Stamps.times, h]
      · simp [Stamps.times, h]
    exact comparable.max_encodeTime mem (by simp [Stamps.times])

/-- A property of rows that every insert and update of the store keeps. -/
structure RowInvariant (P : SavedTerminal → Prop) : Prop where
  inserted : ∀ id info name cwd ended, P (SavedTerminal.ofEnded id info name cwd ended)
  saved : ∀ id source name cwd favorite now,
    P ⟨id, source, "", name, cwd, favorite, encodeTime now, encodeTime now, encodeTime now, none⟩
  closed : ∀ row sessionID ended, P row → P (row.close sessionID (encodeTime ended))
  unlinked : ∀ row, P row → P { row with activeSessionID := "" }
  changed : ∀ row name favorite now, P row → P { row with name, favorite, updatedAt := encodeTime now }
  opened : ∀ row sessionID now, P row →
    P { row with activeSessionID := sessionID, lastOpenedAt := encodeTime now, updatedAt := encodeTime now }

/-- Calls with any arguments. -/
def anything : Arguments := ⟨fun _ => True, fun _ => True, fun _ => True, fun _ => True⟩

theorem within_anything (op : Op) : op.Within anything := by
  cases op <;> simp [Op.Within, anything]

theorem RowInvariant.admits {P : SavedTerminal → Prop} (inv : RowInvariant P) : Admits anything P where
  inserted := fun id info name cwd ended _ _ _ => inv.inserted id info name cwd ended
  saved := fun id info name cwd favorite now _ _ _ => inv.saved id info.id name cwd favorite now
  closed := fun row info ended _ _ hp => inv.closed row info.id ended hp
  unlinked := inv.unlinked
  changed := fun row name favorite now _ _ hp => inv.changed row name favorite now hp
  opened := fun row sessionID now _ _ hp => inv.opened row sessionID now hp

theorem RowInvariant.run {P : SavedTerminal → Prop} {ops : List Op} {s : Store} (inv : RowInvariant P)
    (run : exec Store.step Store.empty ops = some s) : ∀ row ∈ s.rows, P row :=
  exec_invariant (fun _ op _ h ht => Option.some.inj ht ▸ inv.admits.apply h op (within_anything op)) nofun run

theorem stamped_rowInvariant : RowInvariant fun row => ∃ stamps, Stamped row stamps where
  inserted := fun _ info _ _ ended => ⟨⟨ended, info.startedAt, some ended⟩, rfl, rfl, rfl⟩
  saved := fun _ _ _ _ _ now => ⟨⟨now, now, none⟩, rfl, rfl, rfl⟩
  closed := fun _ _ ended ⟨stamps, _, ho, _⟩ => ⟨⟨ended, stamps.opened, some ended⟩, rfl, ho, rfl⟩
  unlinked := fun _ ⟨stamps, h⟩ => ⟨stamps, h⟩
  changed := fun _ _ _ now ⟨stamps, _, ho, hc⟩ => ⟨⟨now, stamps.opened, stamps.closed⟩, rfl, ho, hc⟩
  opened := fun _ _ now ⟨stamps, _, _, hc⟩ => ⟨⟨now, now, stamps.closed⟩, rfl, rfl, hc⟩

/-- Whatever was called, the columns of every row are texts of instants. -/
theorem stamped_run {ops : List Op} {s : Store} (run : exec Store.step Store.empty ops = some s) :
    ∀ row ∈ s.rows, ∃ stamps, Stamped row stamps :=
  stamped_rowInvariant.run run

section

variable {s : Store} {stamps : SavedTerminal → Stamps}

/-- All instants the table holds texts of. -/
def Store.times (s : Store) (stamps : SavedTerminal → Stamps) : List Time :=
  s.rows.flatMap fun row => (stamps row).times

theorem activity_le_iff (stamped : ∀ row ∈ s.rows, Stamped row (stamps row))
    (comparable : Comparable (s.times stamps)) {a b : SavedTerminal} (ha : a ∈ s.rows) (hb : b ∈ s.rows) :
    a.activity ≤ b.activity ↔ (stamps a).lastActivity ≤ (stamps b).lastActivity := by
  have own : ∀ row ∈ s.rows, ∀ t ∈ (stamps row).times, t ∈ s.times stamps :=
    fun row hr t ht => List.mem_flatMap.mpr ⟨row, hr, ht⟩
  have last : ∀ row ∈ s.rows, (stamps row).lastActivity ∈ s.times stamps :=
    fun row hr => own row hr _ (stamps row).lastActivity_mem
  rw [activity_eq (stamped a ha) (comparable.mono (own a ha)), activity_eq (stamped b hb) (comparable.mono (own b hb))]
  exact comparable.encodeTime_le_iff (last a ha) (last b hb)

/-- A pruned entry stands behind ten others that stay, by the time of its last activity. -/
theorem pruned_is_oldest (keyed : s.Keyed) (stamped : ∀ row ∈ s.rows, Stamped row (stamps row))
    (comparable : Comparable (s.times stamps)) {row : SavedTerminal} (hr : row ∈ s.rows)
    (gone : row ∉ s.pruneRecent.rows) :
    row.favorite = false ∧ ∃ others : List SavedTerminal, others.Nodup ∧ others.length = maxRecent ∧
      ∀ other ∈ others, other ∈ s.rows ∧ other ≠ row ∧ other.favorite = false ∧
        (stamps row).lastActivity ≤ (stamps other).lastActivity := by
  obtain ⟨plain, crowded, behind⟩ := pruned_ranks_behind keyed hr gone
  have count := length_recent_pruneRecent keyed
  have distinct : (Store.recent s.pruneRecent.rows).Nodup := by
    have ids : ((Store.recent s.pruneRecent.rows).map SavedTerminal.id).Nodup :=
      (keyed_pruneRecent keyed).ids.sublist (List.filter_sublist.map _)
    exact ids.of_map
  refine ⟨plain, Store.recent s.pruneRecent.rows, distinct, by omega, ?_⟩
  intro other ho
  obtain ⟨left, hf⟩ := mem_recent.mp ho
  have hs := (mem_pruneRecent.mp left).1
  refine ⟨hs, ?_, hf, (activity_le_iff stamped comparable hr hs).mp
    (SavedTerminal.activity_le_of_rank (behind other ho))⟩
  intro same
  exact gone (same ▸ left)

theorem list_sorted (stamped : ∀ row ∈ s.rows, Stamped row (stamps row))
    (comparable : Comparable (s.times stamps)) :
    s.list.Perm s.rows ∧ s.list.Pairwise fun a b =>
      (a.favorite = true ∧ b.favorite = false) ∨
        (a.favorite = b.favorite ∧ (stamps b).lastActivity ≤ (stamps a).lastActivity) := by
  have perm : s.list.Perm s.rows := List.perm_insertionSort _ _
  refine ⟨perm, ?_⟩
  have sorted := List.pairwise_insertionSort SavedTerminal.listedBefore s.rows
  apply List.Pairwise.imp_of_mem ?_ sorted
  intro a b ha hb before
  have ha := perm.mem_iff.mp ha
  have hb := perm.mem_iff.mp hb
  rcases before with first | ⟨same, le⟩
  · exact Or.inl first
  · exact Or.inr ⟨same, (activity_le_iff stamped comparable hb ha).mp (SavedTerminal.activity_le_of_rank le)⟩

end

end TermLinks.TerminalHistory
