import TermLinks.CoordinatorListing
import TermLinks.HistoryListing

namespace TermLinks.StoredOrder

open TerminalHistory (SavedTerminal Stamps Stamped maxRecent)
open Coordinator (MostRecent WorkflowRow Project)

/-- Texts sort like instants exactly where no fraction is cut off within another one of the same second;
tables without such a pair are listed and pruned by true times. -/
theorem stored_timestamps_sort (a b : Time) (s : TerminalHistory.Store) (stamps : SavedTerminal → Stamps)
    (c : Coordinator.Store) (limit : Int) :
    (a.Valid → b.Valid → a < b → (encodeTime a < encodeTime b ↔ ¬ a.Truncates b)) ∧
    (s.Keyed → (∀ row ∈ s.rows, Stamped row (stamps row)) → Comparable (s.times stamps) →
      (∀ row ∈ s.rows, row ∉ s.pruneRecent.rows →
        row.favorite = false ∧ ∃ others : List SavedTerminal, others.Nodup ∧ others.length = maxRecent ∧
          ∀ other ∈ others, other ∈ s.rows ∧ other ≠ row ∧ other.favorite = false ∧
            (stamps row).lastActivity ≤ (stamps other).lastActivity) ∧
      s.list.Perm s.rows ∧ s.list.Pairwise fun a b =>
        (a.favorite = true ∧ b.favorite = false) ∨
          (a.favorite = b.favorite ∧ (stamps b).lastActivity ≤ (stamps a).lastActivity)) ∧
    (Comparable (c.workflows.map WorkflowRow.updatedAt) →
      MostRecent WorkflowRow.updatedAt ((c.listWorkflows limit).map Coordinator.Workflow.toWorkflowRow)
        c.workflows) ∧
    (Comparable (c.projects.map Project.lastUsedAt) →
      MostRecent Project.lastUsedAt (c.workspaceSuggestions limit) c.projects) := by
  refine ⟨?_, ?_, ?_, ?_⟩
  · intro ha hb lt
    exact encodeTime_lt_iff ha hb lt
  · intro keyed stamped comparable
    have sorted := TerminalHistory.list_sorted stamped comparable
    exact ⟨fun row hr gone => TerminalHistory.pruned_is_oldest keyed stamped comparable hr gone, sorted⟩
  · intro comparable
    exact Coordinator.listWorkflows_mostRecent comparable limit
  · intro comparable
    exact Coordinator.workspaceSuggestions_mostRecent comparable limit

/-- Instants of one second, each with three digits of a fraction. -/
def fractionOf (n : Nat) : Time := ⟨2026, 9, 3, 12, 0, 0, (2 * n + 101) * 1000000⟩

/-- Ten newer rows stand before the oldest one. -/
def entryAt (n : Nat) : SavedTerminal :=
  ⟨n, toString n, "", "work", "/tmp/work", false, encodeTime (fractionOf (10 - n)), encodeTime (fractionOf (10 - n)),
    encodeTime (fractionOf (10 - n)), none⟩

def crowdedStore : TerminalHistory.Store := ⟨(List.range 11).map entryAt, 11⟩

def entryStamps (row : SavedTerminal) : Stamps := ⟨fractionOf (10 - row.id), fractionOf (10 - row.id), none⟩

def roomAt (n : Nat) : WorkflowRow :=
  ⟨toString n, "@codex go", "/repo", .completed, fractionOf 0, fractionOf n⟩

def projectAt (n : Nat) : Project := ⟨toString n, "repo", fractionOf n⟩

def busyStore : Coordinator.Store :=
  { Coordinator.Store.empty with workflows := (List.range 3).map roomAt, projects := (List.range 3).map projectAt }

theorem fraction_valid {n : Nat} (small : n < 11) : (fractionOf n).Valid := by
  refine ⟨?_, ?_, ?_, ?_, ?_, ?_, ?_⟩
  all_goals simp only [fractionOf]
  all_goals omega

theorem fractions_apart : ∀ n < 11, ∀ m < 11, n ≠ m → ¬(fractionOf n).Truncates (fractionOf m) := by
  decide +kernel

theorem fractions_comparable {times : List Time} (h : ∀ t ∈ times, ∃ n < 11, t = fractionOf n) :
    Comparable times where
  valid := by
    intro t ht
    obtain ⟨n, small, rfl⟩ := h t ht
    exact fraction_valid small
  apart := by
    intro a ha b hb lt
    obtain ⟨n, small, rfl⟩ := h a ha
    obtain ⟨m, small', rfl⟩ := h b hb
    refine fractions_apart n small m small' ?_
    rintro rfl
    exact lt_irrefl _ lt

theorem crowdedStore_keyed : crowdedStore.Keyed where
  ids := by decide
  drawn := by decide
  sources := by decide

theorem stored_timestamps_sort_seconds :
    encodeTime (fractionOf 3) < encodeTime (fractionOf 4) ∧
    (∃ others : List SavedTerminal, others.Nodup ∧ others.length = maxRecent ∧ ∀ other ∈ others,
      other ∈ crowdedStore.rows ∧ other ≠ entryAt 10 ∧ other.favorite = false ∧
        (entryStamps (entryAt 10)).lastActivity ≤ (entryStamps other).lastActivity) ∧
    (crowdedStore.list.Pairwise fun a b => (a.favorite = true ∧ b.favorite = false) ∨
      (a.favorite = b.favorite ∧ (entryStamps b).lastActivity ≤ (entryStamps a).lastActivity)) ∧
    MostRecent WorkflowRow.updatedAt ((busyStore.listWorkflows 2).map Coordinator.Workflow.toWorkflowRow)
      busyStore.workflows ∧
    MostRecent Project.lastUsedAt (busyStore.workspaceSuggestions 2) busyStore.projects := by
  have gone : crowdedStore.pruneRecent.rows.all (fun row => row.id ≠ 10) = true := by
    decide +kernel
  have gone : entryAt 10 ∉ crowdedStore.pruneRecent.rows :=
    fun left => of_decide_eq_true (List.all_eq_true.mp gone _ left) rfl
  have texts := stored_timestamps_sort (fractionOf 3) (fractionOf 4) crowdedStore entryStamps busyStore 2
  obtain ⟨seconds, table, rooms, projects⟩ := texts
  have drawn : ∀ n, ∃ m < 11, fractionOf (10 - n) = fractionOf m := fun n => ⟨10 - n, by omega, rfl⟩
  have times : Comparable (crowdedStore.times entryStamps) := by
    apply fractions_comparable
    intro t ht
    obtain ⟨row, _, ht⟩ := List.mem_flatMap.mp ht
    simp only [Stamps.times, entryStamps, Option.toList, List.mem_cons, List.not_mem_nil, or_false, or_self] at ht
    rw [ht]
    exact drawn row.id
  have stamped : ∀ row ∈ crowdedStore.rows, Stamped row (entryStamps row) := by
    intro row hr
    obtain ⟨n, _, rfl⟩ := List.mem_map.mp hr
    exact ⟨rfl, rfl, rfl⟩
  obtain ⟨pruned, _, listed⟩ := table crowdedStore_keyed stamped times
  obtain ⟨_, others, distinct, ten, others_of⟩ := pruned (entryAt 10)
    (List.mem_map_of_mem (List.mem_range.mpr (by decide))) gone
  have stamps : ∀ t ∈ (List.range 3).map fractionOf, ∃ n < 11, t = fractionOf n := by
    intro t ht
    obtain ⟨n, small, rfl⟩ := List.mem_map.mp ht
    exact ⟨n, Nat.lt_trans (List.mem_range.mp small) (by decide), rfl⟩
  refine ⟨(seconds ?_ ?_ ?_).mpr ?_, ⟨others, distinct, ten, others_of⟩, listed, rooms ?_, projects ?_⟩
  · exact fraction_valid (by decide)
  · exact fraction_valid (by decide)
  · rw [Time.lt_iff]
    decide
  · exact fractions_apart 3 (by decide) 4 (by decide) (by decide)
  · exact fractions_comparable stamps
  · exact fractions_comparable stamps

/-- A whole second sorts behind the fractions of that second. -/
theorem whole_second_sorts_late :
    ∃ a b : Time, a.Valid ∧ b.Valid ∧ a < b ∧ ¬ encodeTime a < encodeTime b := by
  refine ⟨⟨2026, 9, 3, 12, 0, 0, 0⟩, ⟨2026, 9, 3, 12, 0, 0, 500000000⟩, by constructor <;> decide,
    by constructor <;> decide, by rw [Time.lt_iff]; decide, ?_⟩
  rw [String.lt_iff_toList_lt]
  decide

end TermLinks.StoredOrder
