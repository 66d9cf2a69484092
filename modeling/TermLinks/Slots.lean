import Mathlib.Data.List.AList
import Mathlib.Logic.Function.Basic
import Mathlib.Tactic.Common

namespace TermLinks

universe u v

variable {α : Type u} {β : Type v}

/-- A list read as a partial map from positions. -/
def slots (l : List α) (i : Nat) : Option α := l[i]?

theorem slots_length (l : List α) : slots l l.length = none := by
  simp [slots]

theorem slots_append (l : List α) (a : α) :
    slots (l ++ [a]) = Function.update (slots l) l.length (some a) := by
  funext i
  by_cases hi : i = l.length
  · subst hi
    simp [slots]
  · rw [Function.update_of_ne hi]
    by_cases hl : i < l.length
    · simp [slots, List.getElem?_append_left hl]
    · have hgt : l.length < i := by omega
      simp [slots, List.getElem?_append, hl]
      omega

theorem slots_set {l : List α} {n : Nat} {b : α} (h : l[n]? = some b) (a : α) :
    slots (l.set n a) = Function.update (slots l) n (some a) := by
  funext i
  have hn := (List.getElem?_eq_some_iff.mp h).1
  by_cases hi : i = n
  · subst hi
    simp [slots, hn]
  · simp [slots, hi, Ne.symm hi]

theorem slots_map {l : List α} {i : Nat} {a : α} (h : l[i]? = some a) (f : α → β) :
    slots (l.map f) i = some (f a) := by
  simp [slots, h]

section

variable [DecidableEq α] {δ : Type v}

theorem lookup_insert_eq (m : AList fun _ : α => δ) (k : α) (d : δ) :
    (fun j => (m.insert k d).lookup j) = Function.update (fun j => m.lookup j) k (some d) := by
  funext j
  by_cases hj : j = k
  · subst hj
    simp
  · rw [Function.update_of_ne hj, AList.lookup_insert_ne hj]

theorem lookup_erase_eq (m : AList fun _ : α => δ) (k : α) :
    (fun j => (m.erase k).lookup j) = Function.update (fun j => m.lookup j) k none := by
  funext j
  by_cases hj : j = k
  · subst hj
    simp
  · rw [Function.update_of_ne hj, AList.lookup_erase_ne hj]

end

end TermLinks
