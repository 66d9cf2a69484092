import Mathlib.Data.List.Nodup
import Mathlib.Tactic.Common

namespace TermLinks

universe u v

variable {ρ : Type u} {κ : Type v}

/-- `UPDATE … SET … WHERE …` over a table kept as its rows in rowid order. -/
def updateWhere (p : ρ → Bool) (f : ρ → ρ) (rows : List ρ) : List ρ :=
  rows.map fun row => if p row then f row else row

theorem mem_updateWhere {p : ρ → Bool} {f : ρ → ρ} {rows : List ρ} {row : ρ} :
    row ∈ updateWhere p f rows ↔
      ∃ old ∈ rows, row = if p old then f old else old := by
  simp only [updateWhere, List.mem_map, eq_comm (a := row)]

theorem updateWhere_key {p : ρ → Bool} {f : ρ → ρ} {key : ρ → κ}
    (hk : ∀ row, key (f row) = key row) (row : ρ) :
    key (if p row then f row else row) = key row := by
  split
  next => exact hk row
  next => rfl

/-- An update that keeps a column keeps the list of its values. -/
theorem map_updateWhere {p : ρ → Bool} {f : ρ → ρ} {key : ρ → κ}
    (hk : ∀ row, key (f row) = key row) (rows : List ρ) :
    (updateWhere p f rows).map key = rows.map key := by
  simp only [updateWhere, List.map_map]
  exact List.map_congr_left fun row _ => updateWhere_key hk row

section

variable [DecidableEq κ]

/-- `SELECT … WHERE key = k` on the column that identifies a row. -/
def findRow (key : ρ → κ) (k : κ) (rows : List ρ) : Option ρ :=
  rows.find? fun row => key row = k

variable {key : ρ → κ} {k : κ} {rows : List ρ}

theorem findRow_mem {row : ρ} (h : findRow key k rows = some row) : row ∈ rows ∧ key row = k :=
  ⟨List.mem_of_find?_eq_some h, by simpa using List.find?_some h⟩

theorem findRow_eq_none_iff : findRow key k rows = none ↔ ∀ row ∈ rows, key row ≠ k := by
  simp [findRow]

theorem findRow_updateWhere {p : ρ → Bool} {f : ρ → ρ} (hk : ∀ row, key (f row) = key row) :
    findRow key k (updateWhere p f rows) =
      (findRow key k rows).map fun row => if p row then f row else row := by
  simp only [findRow, updateWhere, List.find?_map]
  congr 2
  funext row
  simp only [Function.comp, updateWhere_key hk]

theorem findRow_updateWhere_same {f : ρ → ρ} (hk : ∀ row, key (f row) = key row) :
    findRow key k (updateWhere (fun row => key row = k) f rows) = (findRow key k rows).map f := by
  rw [findRow_updateWhere hk]
  cases h : findRow key k rows with
  | none => rfl
  | some row => simp [(findRow_mem h).2]

theorem findRow_updateWhere_other {f : ρ → ρ} {j : κ} (hk : ∀ row, key (f row) = key row)
    (hj : k ≠ j) :
    findRow key k (updateWhere (fun row => key row = j) f rows) = findRow key k rows := by
  rw [findRow_updateWhere hk]
  cases h : findRow key k rows with
  | none => rfl
  | some row => simp [(findRow_mem h).2, hj]

theorem findRow_append (row : ρ) : findRow key k (rows ++ [row]) =
    (findRow key k rows).or (if key row = k then some row else none) := by
  simp [findRow, List.find?_append, List.find?_singleton]

theorem findRow_of_nodup (hn : (rows.map key).Nodup) {row : ρ} (hr : row ∈ rows) :
    findRow key (key row) rows = some row := by
  cases hf : findRow key (key row) rows with
  | none => exact absurd rfl (findRow_eq_none_iff.mp hf row hr)
  | some found =>
    obtain ⟨hm, hk⟩ := findRow_mem hf
    rw [List.inj_on_of_nodup_map hn hm hr hk]

/-- An update by the key of a row changes that row alone. -/
theorem updateWhere_split {front back : List ρ} {row : ρ} (f : ρ → ρ)
    (hn : ((front ++ row :: back).map key).Nodup) :
    updateWhere (fun other => key other = key row) f (front ++ row :: back) = front ++ f row :: back := by
  rw [List.map_append, List.map_cons, List.nodup_append, List.nodup_cons] at hn
  obtain ⟨_, ⟨behind, _⟩, ahead⟩ := hn
  have untouched : ∀ rows : List ρ, (∀ other ∈ rows, key other ≠ key row) →
      updateWhere (fun other => key other = key row) f rows = rows := by
    intro rows apart
    rw [updateWhere]
    nth_rewrite 2 [← List.map_id rows]
    apply List.map_congr_left
    intro other ho
    simp [apart other ho]
  have first := untouched front fun other ho => ahead _ (List.mem_map_of_mem ho) _ List.mem_cons_self
  have last := untouched back fun other ho same => behind (same ▸ List.mem_map_of_mem ho)
  unfold updateWhere at first last ⊢
  rw [List.map_append, List.map_cons, first, last]
  simp

end

end TermLinks
