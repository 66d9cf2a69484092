import Mathlib.Data.List.Infix
import Mathlib.Tactic.Common

namespace TermLinks

universe u

variable {α : Type u}

/-- The last `n` elements of a list. -/
def keepLast (n : Nat) (l : List α) : List α := l.drop (l.length - n)

theorem keepLast_of_length_le {n : Nat} {l : List α} (h : l.length ≤ n) : keepLast n l = l := by
  unfold keepLast
  rw [Nat.sub_eq_zero_of_le h, List.drop_zero]

theorem keepLast_suffix (n : Nat) (l : List α) : keepLast n l <:+ l := List.drop_suffix _ _

theorem length_keepLast (n : Nat) (l : List α) : (keepLast n l).length = min n l.length := by
  simp only [keepLast, List.length_drop]
  omega

/-- A buffer cut back after each write is cut back from the whole stream. -/
theorem keepLast_append (n : Nat) (l more : List α) :
    keepLast n (keepLast n l ++ more) = keepLast n (l ++ more) := by
  by_cases h : l.length ≤ n
  · rw [keepLast_of_length_le h]
  · have hl : n ≤ l.length := by omega
    unfold keepLast
    have split : l.drop (l.length - n) ++ more = (l ++ more).drop (l.length - n) := by
      rw [List.drop_append_of_le_length (by omega)]
    rw [split, List.drop_drop]
    congr 1
    simp only [List.length_append, List.length_drop]
    omega

/-- A buffered channel: what is waiting in it, and what was received from it so far. -/
structure Mailbox (α : Type u) where
  buffer : List α
  taken : List α
deriving DecidableEq

namespace Mailbox

def empty : Mailbox α := ⟨[], []⟩

/-- Everything that was put into the channel, in order. -/
def contents (m : Mailbox α) : List α := m.taken ++ m.buffer

/-- A send that does not block: a full channel drops the value. -/
def offer (capacity : Nat) (a : α) (m : Mailbox α) : Mailbox α :=
  if m.buffer.length < capacity then { m with buffer := m.buffer ++ [a] } else m

def receive (m : Mailbox α) : Option (α × Mailbox α) :=
  match m.buffer with
  | [] => none
  | a :: rest => some (a, ⟨rest, m.taken ++ [a]⟩)

theorem contents_offer {capacity : Nat} {m : Mailbox α} (a : α) (h : m.buffer.length < capacity) :
    (m.offer capacity a).contents = m.contents ++ [a] := by
  simp only [offer, if_pos h, contents, List.append_assoc]

theorem offer_of_full {capacity : Nat} {m : Mailbox α} (a : α) (h : ¬ m.buffer.length < capacity) :
    m.offer capacity a = m := if_neg h

@[simp] theorem taken_offer (capacity : Nat) (a : α) (m : Mailbox α) :
    (m.offer capacity a).taken = m.taken := by
  unfold offer
  split
  next => rfl
  next => rfl

theorem receive_eq_some {m n : Mailbox α} {a : α} (h : m.receive = some (a, n)) :
    n.contents = m.contents ∧ n.taken = m.taken ++ [a] := by
  obtain ⟨buffer, taken⟩ := m
  cases buffer with
  | nil => simp [receive] at h
  | cons b rest =>
    cases h
    exact ⟨by simp [contents], rfl⟩

theorem taken_prefix (m : Mailbox α) : m.taken <+: m.contents := List.prefix_append _ _

theorem buffer_eq_nil_iff {m : Mailbox α} : m.buffer = [] ↔ m.taken = m.contents := by
  simp [contents]

end Mailbox

end TermLinks
