import Mathlib.Data.List.Sort

namespace TermLinks

universe u

variable {α : Type u} (r : α → α → Prop) [DecidableRel r]

/-- The first `n` of the list in the order of `r`, ties in the order of the list. -/
def topBy (n : Nat) (l : List α) : List α := (l.insertionSort r).take n

theorem mem_of_mem_topBy {n : Nat} {l : List α} {a : α} (h : a ∈ topBy r n l) : a ∈ l :=
  (List.mem_insertionSort r).mp (List.mem_of_mem_take h)

theorem mem_topBy_of_length_le {n : Nat} {l : List α} (h : l.length ≤ n) {a : α} :
    a ∈ topBy r n l ↔ a ∈ l := by
  unfold topBy
  rw [List.take_of_length_le (by rwa [List.length_insertionSort]), List.mem_insertionSort]

theorem length_topBy (n : Nat) (l : List α) : (topBy r n l).length = min n l.length := by
  simp [topBy]

/-- Elements that rank behind a whole list stay behind it. -/
theorem insertionSort_append {xs ys : List α} (h : ∀ a ∈ xs, ∀ b ∈ ys, r a b) :
    (xs ++ ys).insertionSort r = xs.insertionSort r ++ ys.insertionSort r := by
  induction xs with
  | nil => rfl
  | cons x xs ih =>
    have behind : ∀ l : List α, (l ++ ys.insertionSort r).orderedInsert r x =
        l.orderedInsert r x ++ ys.insertionSort r := by
      intro l
      induction l with
      | nil =>
        cases hs : ys.insertionSort r with
        | nil => rfl
        | cons y rest =>
          have hy : y ∈ ys := (List.mem_insertionSort r).mp (hs ▸ List.mem_cons_self)
          exact List.orderedInsert_cons_of_le _ _ (h x List.mem_cons_self y hy)
      | cons a l ihl =>
        simp only [List.cons_append, List.orderedInsert_cons]
        split
        next => rfl
        next => rw [ihl, List.cons_append]
    rw [List.cons_append, List.insertionSort_cons, ih fun a ha => h a (List.mem_cons_of_mem x ha), behind,
      List.insertionSort_cons]

theorem topBy_append {n : Nat} {xs ys : List α} (hn : xs.length = n) (h : ∀ a ∈ xs, ∀ b ∈ ys, r a b) :
    topBy r n (xs ++ ys) = xs.insertionSort r := by
  unfold topBy
  rw [insertionSort_append r h, List.take_append_of_le_length, List.take_of_length_le]
  · rw [List.length_insertionSort, hn]
  · rw [List.length_insertionSort, hn]

section

variable [Std.Total r] [IsTrans α r]

/-- What is left out ranks behind everything kept. -/
theorem topBy_rel {n : Nat} {l : List α} {a b : α} (ha : a ∈ topBy r n l) (hb : b ∈ l)
    (out : b ∉ topBy r n l) : r a b := by
  have sorted := List.pairwise_insertionSort r l
  rw [← List.take_append_drop n (l.insertionSort r)] at sorted
  have left : b ∈ (l.insertionSort r).drop n := by
    have hs := (List.mem_insertionSort r).mpr hb
    rw [← List.take_append_drop n (l.insertionSort r)] at hs
    exact (List.mem_append.mp hs).resolve_left out
  exact (List.pairwise_append.mp sorted).2.2 a ha b left

/-- What ranks ahead of an element: the earlier ones that it does not precede strictly, and the later ones that
precede it strictly. -/
def aheadOf (a : α) (xs ys : List α) : List α :=
  xs.filter (fun b => r b a) ++ ys.filter (fun b => ¬r a b)

/-- Two elements of a list without repetition stand in it in one order. -/
theorem nodup_pair {l : List α} {a b : α} (nodup : l.Nodup) (pair : [a, b].Sublist l) :
    ¬[b, a].Sublist l := by
  intro turned
  induction l with
  | nil => cases pair
  | cons c l ih =>
    obtain ⟨out, nodup⟩ := List.nodup_cons.mp nodup
    cases pair with
    | cons _ pair =>
      cases turned with
      | cons _ turned => exact ih nodup pair turned
      | cons_cons _ _ => exact out (pair.subset (List.mem_cons_of_mem a List.mem_cons_self))
    | cons_cons _ rest =>
      cases turned with
      | cons _ turned => exact out (turned.subset (List.mem_cons_of_mem b List.mem_cons_self))
      | cons_cons _ _ => exact out (rest.subset List.mem_cons_self)

/-- What a stable sort puts before `a`: the elements counted in `aheadOf`, in some order. -/
theorem perm_aheadOf {xs ys front back : List α} {a : α} (nodup : (xs ++ a :: ys).Nodup)
    (split : (xs ++ a :: ys).insertionSort r = front ++ a :: back) : front.Perm (aheadOf r a xs ys) := by
  have perm := List.perm_insertionSort r (xs ++ a :: ys)
  have sorted := List.pairwise_insertionSort r (xs ++ a :: ys)
  have stable : ∀ b c, r b c → [b, c].Sublist (xs ++ a :: ys) →
      [b, c].Sublist ((xs ++ a :: ys).insertionSort r) := fun b c rel pair => List.pair_sublist_insertionSort rel pair
  rw [split] at perm sorted stable
  have nodup' := perm.nodup_iff.mpr nodup
  obtain ⟨_, sortedBack, sortedFront⟩ := List.pairwise_append.mp sorted
  obtain ⟨distinctFront, _, apartFront⟩ := List.nodup_append.mp nodup'
  obtain ⟨distinct, distinctYs, apart⟩ := List.nodup_append.mp nodup
  obtain ⟨out, distinctYs⟩ := List.nodup_cons.mp distinctYs
  have distinctAhead : (aheadOf r a xs ys).Nodup := by
    apply List.nodup_append.mpr
    refine ⟨distinct.filter _, distinctYs.filter _, ?_⟩
    intro b hb c hc
    exact apart b (List.mem_of_mem_filter hb) c (List.mem_cons_of_mem a (List.mem_of_mem_filter hc))
  apply (List.perm_ext_iff_of_nodup distinctFront distinctAhead).mpr
  intro b
  rw [aheadOf, List.mem_append, List.mem_filter, List.mem_filter, decide_eq_true_eq, decide_eq_true_eq]
  constructor
  · intro hb
    have rel : r b a := sortedFront b hb a List.mem_cons_self
    have other : b ≠ a := fun same => apartFront b hb a List.mem_cons_self same
    obtain earlier | later := List.mem_append.mp (perm.mem_iff.mp (List.mem_append_left _ hb))
    · exact Or.inl ⟨earlier, rel⟩
    · have later := (List.mem_cons.mp later).resolve_left other
      refine Or.inr ⟨later, fun tie => ?_⟩
      have pair : [a, b].Sublist (xs ++ a :: ys) :=
        ((List.singleton_sublist.mpr later).cons_cons a).trans (List.sublist_append_right xs _)
      exact nodup_pair nodup' (stable a b tie pair)
        ((List.singleton_sublist.mpr hb).append (List.singleton_sublist.mpr List.mem_cons_self))
  · intro hb
    by_contra gone
    have listed : b ∈ xs ++ a :: ys :=
      hb.elim (fun h => List.mem_append_left _ h.1) fun h => List.mem_append_right _ (List.mem_cons_of_mem a h.1)
    have other : b ≠ a := by
      rintro rfl
      exact hb.elim (fun h => apart b h.1 b List.mem_cons_self rfl) fun h => out h.1
    have behind : b ∈ back :=
      (List.mem_cons.mp ((List.mem_append.mp (perm.mem_iff.mpr listed)).resolve_left gone)).resolve_left other
    rcases hb with ⟨earlier, rel⟩ | ⟨_, strict⟩
    · have pair : [b, a].Sublist (xs ++ a :: ys) :=
        (List.singleton_sublist.mpr earlier).append (List.singleton_sublist.mpr List.mem_cons_self)
      exact nodup_pair nodup' (stable b a rel pair)
        (((List.singleton_sublist.mpr behind).cons_cons a).trans (List.sublist_append_right front _))
    · exact strict ((List.pairwise_cons.mp sortedBack).1 b behind)

/-- An element of a list without repetition is among the first `n` when fewer than `n` rank ahead of it. -/
theorem mem_topBy_iff {n : Nat} {xs ys : List α} {a : α} (nodup : (xs ++ a :: ys).Nodup) :
    a ∈ topBy r n (xs ++ a :: ys) ↔ (aheadOf r a xs ys).length < n := by
  have perm := List.perm_insertionSort r (xs ++ a :: ys)
  obtain ⟨front, back, split⟩ := List.append_of_mem (perm.mem_iff.mpr (List.mem_append_right xs List.mem_cons_self))
  have ahead := perm_aheadOf r nodup split
  unfold topBy
  rw [split] at perm ⊢
  obtain ⟨_, _, apartFront⟩ := List.nodup_append.mp (perm.nodup_iff.mpr nodup)
  have place : a ∈ (front ++ a :: back).take n ↔ front.length < n := by
    constructor
    · intro ha
      by_contra short
      rw [List.take_append_of_le_length (by omega)] at ha
      exact apartFront a (List.mem_of_mem_take ha) a List.mem_cons_self rfl
    · intro long
      obtain ⟨m, rfl⟩ : ∃ m, n = front.length + (m + 1) := ⟨n - front.length - 1, by omega⟩
      rw [List.take_length_add_append, List.take_succ_cons]
      exact List.mem_append_right front List.mem_cons_self
  rw [place, ahead.length_eq]

end

end TermLinks
