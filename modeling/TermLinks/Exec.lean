import Mathlib.Tactic.Common

namespace TermLinks

universe u v

variable {σ : Type u} {α : Type v}

/-- Takes the labels in order; a label that is not enabled ends the execution. -/
def exec (step : σ → α → Option σ) : σ → List α → Option σ
  | s, [] => some s
  | s, a :: as => (step s a).bind (exec step · as)

/-- Every label of the list is taken in a state the guard allows. -/
def Along (step : σ → α → Option σ) (guard : σ → α → Prop) : σ → List α → Prop
  | _, [] => True
  | s, a :: as => guard s a ∧ ∀ t, step s a = some t → Along step guard t as

instance decidableAlong {step : σ → α → Option σ} {guard : σ → α → Prop} [∀ s a, Decidable (guard s a)] :
    (s : σ) → (as : List α) → Decidable (Along step guard s as)
  | _, [] => isTrue trivial
  | s, a :: as =>
    match h : step s a with
    | none => decidable_of_iff (guard s a) ⟨fun hg => ⟨hg, by simp [h]⟩, fun hg => hg.1⟩
    | some t =>
      have : Decidable (Along step guard t as) := decidableAlong t as
      decidable_of_iff (guard s a ∧ Along step guard t as) (by simp [Along, h])

section

variable {step : σ → α → Option σ}

@[simp] theorem exec_nil (s : σ) : exec step s [] = some s := rfl

theorem exec_cons_iff {s u : σ} {a : α} {as : List α} :
    exec step s (a :: as) = some u ↔ ∃ t, step s a = some t ∧ exec step t as = some u := by
  simp [exec, Option.bind_eq_some_iff]

theorem exec_append_iff {s u : σ} {as bs : List α} :
    exec step s (as ++ bs) = some u ↔ ∃ t, exec step s as = some t ∧ exec step t bs = some u := by
  induction as generalizing s with
  | nil => simp
  | cons a as ih =>
    simp only [List.cons_append, exec_cons_iff, ih]
    constructor
    · rintro ⟨t, ht, v, hv, hu⟩
      exact ⟨v, ⟨t, ht, hv⟩, hu⟩
    · rintro ⟨v, ⟨t, ht, hv⟩, hu⟩
      exact ⟨t, ht, v, hv, hu⟩

theorem exec_snoc_iff {s u : σ} {as : List α} {a : α} :
    exec step s (as ++ [a]) = some u ↔ ∃ t, exec step s as = some t ∧ step t a = some u := by
  simp [exec_append_iff, exec_cons_iff]

theorem along_append {guard : σ → α → Prop} {s t : σ} {as bs : List α}
    (h : Along step guard s (as ++ bs)) (ht : exec step s as = some t) :
    Along step guard t bs := by
  induction as generalizing s with
  | nil => cases Option.some.inj ht; exact h
  | cons a as ih =>
    obtain ⟨r, hr, ht⟩ := exec_cons_iff.mp ht
    exact ih (h.2 r hr) ht

theorem along_front {guard : σ → α → Prop} {s : σ} {as bs : List α}
    (h : Along step guard s (as ++ bs)) : Along step guard s as := by
  induction as generalizing s with
  | nil => trivial
  | cons a as ih => exact ⟨h.1, fun t ht => ih (h.2 t ht)⟩

theorem along_snoc {guard : σ → α → Prop} {s : σ} {as : List α} {a : α} :
    Along step guard s (as ++ [a]) ↔ Along step guard s as ∧ ∀ t, exec step s as = some t → guard t a := by
  constructor
  · intro h
    exact ⟨along_front h, fun t ht => (along_append h ht).1⟩
  · rintro ⟨front, last⟩
    induction as generalizing s with
    | nil => exact ⟨last s rfl, fun _ _ => trivial⟩
    | cons b as ih =>
      exact ⟨front.1, fun t ht => ih (front.2 t ht) fun u hu => last u (exec_cons_iff.mpr ⟨t, ht, hu⟩)⟩

/-- A guard on labels alone holds along every execution of allowed labels. -/
theorem along_of_labels {guard : σ → α → Prop} {as : List α} (h : ∀ a ∈ as, ∀ s, guard s a) (s : σ) :
    Along step guard s as := by
  induction as generalizing s with
  | nil => trivial
  | cons a as ih =>
    exact ⟨h a List.mem_cons_self s, fun t _ => ih (fun b hb => h b (List.mem_cons_of_mem a hb)) t⟩

theorem along_mono {guard weaker : σ → α → Prop} (hg : ∀ s a, guard s a → weaker s a)
    {s : σ} {as : List α} (h : Along step guard s as) : Along step weaker s as := by
  induction as generalizing s with
  | nil => trivial
  | cons a as ih => exact ⟨hg s a h.1, fun t ht => ih (h.2 t ht)⟩

/-- Guards that agree wherever an invariant holds allow the same executions. -/
theorem along_congr {inv : σ → Prop} {guard other : σ → α → Prop}
    (preserve : ∀ s a t, inv s → step s a = some t → inv t) (same : ∀ s a, inv s → (guard s a ↔ other s a))
    {s : σ} {as : List α} (hs : inv s) : Along step guard s as ↔ Along step other s as := by
  induction as generalizing s with
  | nil => exact Iff.rfl
  | cons a as ih =>
    have rest : ∀ t, step s a = some t → (Along step guard t as ↔ Along step other t as) :=
      fun t ht => ih (preserve s a t hs ht)
    constructor
    · exact fun h => ⟨(same s a hs).mp h.1, fun t ht => (rest t ht).mp (h.2 t ht)⟩
    · exact fun h => ⟨(same s a hs).mpr h.1, fun t ht => (rest t ht).mpr (h.2 t ht)⟩

/-- What every allowed step preserves holds at the end of every allowed execution. -/
theorem exec_preserves {guard : σ → α → Prop} {inv : σ → Prop}
    (preserve : ∀ s a t, inv s → guard s a → step s a = some t → inv t)
    {s t : σ} {as : List α} (hs : inv s) (h : exec step s as = some t)
    (hg : Along step guard s as) : inv t := by
  induction as generalizing s with
  | nil => cases Option.some.inj h; exact hs
  | cons a as ih =>
    obtain ⟨r, hr, h⟩ := exec_cons_iff.mp h
    exact ih (preserve s a r hs hg.1 hr) h (hg.2 r hr)

theorem along_trivial (s : σ) (as : List α) : Along step (fun _ _ => True) s as := by
  induction as generalizing s with
  | nil => trivial
  | cons a as ih => exact ⟨trivial, fun t _ => ih t⟩

/-- An execution of steps each of which is one of `step` that the guard allows. -/
theorem exec_of_allowed {checked : σ → α → Option σ} {guard : σ → α → Prop}
    (allowed : ∀ s a t, checked s a = some t → step s a = some t ∧ guard s a) {s t : σ} {as : List α}
    (h : exec checked s as = some t) : exec step s as = some t ∧ Along step guard s as := by
  induction as generalizing s with
  | nil => exact ⟨h, trivial⟩
  | cons a as ih =>
    obtain ⟨r, hr, h⟩ := exec_cons_iff.mp h
    obtain ⟨taken, good⟩ := allowed s a r hr
    obtain ⟨run, along⟩ := ih h
    refine ⟨exec_cons_iff.mpr ⟨r, taken, run⟩, good, fun u hu => ?_⟩
    cases taken.symm.trans hu
    exact along

theorem exec_mono {other : σ → α → Option σ} (sub : ∀ s a t, step s a = some t → other s a = some t) {s t : σ}
    {as : List α} (h : exec step s as = some t) : exec other s as = some t := by
  induction as generalizing s with
  | nil => exact h
  | cons a as ih =>
    obtain ⟨r, hr, h⟩ := exec_cons_iff.mp h
    exact exec_cons_iff.mpr ⟨r, sub s a r hr, ih h⟩

theorem exec_invariant {inv : σ → Prop} (preserve : ∀ s a t, inv s → step s a = some t → inv t)
    {s t : σ} {as : List α} (hs : inv s) (h : exec step s as = some t) : inv t :=
  exec_preserves (fun s a t hi _ hst => preserve s a t hi hst) hs h (along_trivial s as)

end

end TermLinks
