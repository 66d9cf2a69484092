import TermLinks.ViewerExclusion

namespace TermLinks.Viewer

/-- Only a show launches, and the window it opens is its own. -/
def Pc.OfShow (i : Nat) (request : Request) : Pc → Prop
  | .launching window => request = .show ∧ ∀ w, window = some w → w = i
  | .failing | .checking => request = .show
  | .close (.late call) => request = .show ∧ call = i
  | _ => True

def State.Launched (s : State) : Prop :=
  ∀ (i : Nat) (c : Call), s.calls[i]? = some c → c.pc.OfShow i c.request

/-- The hide at position `k` has cleared the slot and no show came after it. -/
structure State.Hidden (k : Nat) (s : State) : Prop where
  unwanted : s.found.desired = false
  calm : ∀ (i : Nat) (c : Call) (w : Option Nat), s.calls[i]? = some c → c.pc ≠ .expiring w
  last : ∀ (i : Nat) (c : Call), k < i → s.calls[i]? = some c → c.request ≠ .show
  hide : ∃ pc, s.calls[k]? = some ⟨.hide, pc⟩
  recorded : ∀ w, s.handle = some w → (∃ cause, s.calls[k]? = some ⟨.hide, .close cause⟩) ∨
    ∃ c : Call, s.calls[w]? = some c ∧ c.request = .show ∧ (c.pc = .checking ∨ ∃ cause, c.pc = .close cause)

section

variable {s t : State}

theorem State.Launched.moved (h : s.Launched) {k : Nat} {c : Call} (m : Moved s t k c)
    (here : c.pc.OfShow k c.request) : t.Launched := by
  intro i d hd
  rcases m.cases hd with ⟨rfl, rfl⟩ | ⟨_, old⟩
  · exact here
  · exact h i d old

theorem State.Launched.begin (h : s.Launched) (request : Request) : (begin s request).Launched := by
  have add : ∀ {t : State} {c : Call}, t.calls = s.calls ++ [c] → c.pc.OfShow s.calls.length c.request →
      t.Launched := fun calls here => h.moved (moved_add calls) here
  rcases begin_cases s request with ⟨_, ht⟩ | ⟨_, ht⟩ | ⟨cause, early, ht⟩ | ⟨state, answer, ht, _⟩
  · rw [ht]
    exact add rfl trivial
  · rw [ht]
    exact add rfl ⟨rfl, (by rintro _ ⟨⟩)⟩
  · rw [ht]
    refine add rfl ?_
    cases cause with
    | late call => exact absurd rfl (early call)
    | _ => trivial
  · rw [ht]
    exact add rfl trivial

theorem launched_step {label : Label} (h : s.Launched) (ht : step s label = some t) : t.Launched := by
  cases label with
  | request request =>
    simp only [step] at ht
    split at ht
    next => cases ht
    next =>
      cases ht
      exact h.begin request
  | expired k =>
    simp only [step] at ht
    split at ht
    next request window here =>
      cases ht
      obtain ⟨pc, calls, place⟩ := expiredStep_calls s k request window
      refine h.moved (moved_set here calls) ?_
      rcases place with ⟨asked, launching⟩ | ⟨_, answer, returned⟩
      · subst launching
        exact ⟨asked, (by rintro _ ⟨⟩)⟩
      · subst returned
        trivial
    next => cases ht
  | opened k =>
    simp only [step] at ht
    split at ht
    next here =>
      cases ht
      have asked := (h k _ here).1
      exact h.moved (moved_set here rfl) ⟨asked, fun w opened => (Option.some.inj opened).symm⟩
    next => cases ht
  | recorded k =>
    simp only [step] at ht
    split at ht
    next here =>
      cases ht
      have asked := (h k _ here).1
      exact h.moved (moved_set here rfl) asked
    next => cases ht
  | launchFails k =>
    simp only [step] at ht
    split at ht
    next here =>
      cases ht
      have asked := (h k _ here).1
      exact h.moved (moved_set here rfl) asked
    next => cases ht
  | launchError k =>
    simp only [step] at ht
    split at ht
    next here =>
      split at ht
      next => cases ht
      next =>
        cases ht
        exact h.moved (c := ⟨_, .returned .failed⟩) (moved_set here rfl) trivial
    next => cases ht
  | check k =>
    simp only [step] at ht
    split at ht
    next here =>
      split at ht
      next => cases ht
      next =>
        cases ht
        refine h.moved (moved_set here rfl) ?_
        dsimp only
        split
        next => trivial
        next => exact ⟨h k _ here, rfl⟩
    next => cases ht
  | close k =>
    simp only [step] at ht
    split at ht
    next here =>
      cases ht
      refine h.moved (moved_set here rfl) ?_
      cases s.handle <;> trivial
    next => cases ht
  | closed k =>
    simp only [step] at ht
    split at ht
    next here =>
      cases ht
      exact h.moved (moved_set here rfl) trivial
    next => cases ht
  | tick now =>
    simp only [step] at ht
    split at ht
    next =>
      cases ht
      exact h
    next => cases ht

theorem State.Hidden.moved {k j : Nat} {c : Call} (h : s.Hidden k) (m : Moved s t j c)
    (same : ∀ d, s.calls[j]? = some d → c.request = d.request) (new : s.calls[j]? = none → c.request ≠ .show)
    (concluded : ∀ w, c.pc ≠ .expiring w) (unwanted : t.found.desired = false)
    (recorded : ∀ w, t.handle = some w → (∃ cause, t.calls[k]? = some ⟨.hide, .close cause⟩) ∨
      ∃ c : Call, t.calls[w]? = some c ∧ c.request = .show ∧
      (c.pc = .checking ∨ ∃ cause, c.pc = .close cause)) :
    t.Hidden k := by
  refine ⟨unwanted, ?_, ?_, ?_, recorded⟩
  · intro i d w hd
    rcases m.cases hd with ⟨rfl, rfl⟩ | ⟨_, old⟩
    · exact concluded w
    · exact h.calm i d w old
  · intro i d later hd
    rcases m.cases hd with ⟨rfl, rfl⟩ | ⟨_, old⟩
    · cases before : s.calls[i]? with
      | none => exact new before
      | some e =>
        rw [same e before]
        exact h.last i e later before
    · exact h.last i d later old
  · obtain ⟨pc, there⟩ := h.hide
    by_cases moves : k = j
    · subst moves
      obtain ⟨request, pc'⟩ := c
      have asked : request = .hide := same _ there
      subst asked
      exact ⟨pc', m.here⟩
    · exact ⟨pc, by rw [m.other k moves, there]⟩

/-- A move of a request that is neither at its check nor at its `close`. -/
theorem State.Hidden.recorded_moved {k j : Nat} {c : Call} (h : s.Hidden k) (m : Moved s t j c)
    (handle : t.handle = s.handle)
    (idle : ∀ d, s.calls[j]? = some d → d.pc ≠ .checking ∧ ∀ cause, d.pc ≠ .close cause) (w : Nat)
    (hw : t.handle = some w) : (∃ cause, t.calls[k]? = some ⟨.hide, .close cause⟩) ∨
      ∃ c : Call, t.calls[w]? = some c ∧ c.request = .show ∧
      (c.pc = .checking ∨ ∃ cause, c.pc = .close cause) := by
  rw [handle] at hw
  rcases h.recorded w hw with ⟨cause, there⟩ | ⟨d, there, asked, place⟩
  · refine Or.inl ⟨cause, ?_⟩
    rw [m.other k, there]
    intro moves
    subst moves
    exact (idle _ there).2 cause rfl
  · refine Or.inr ⟨d, ?_, asked, place⟩
    rw [m.other w, there]
    intro moves
    subst moves
    rcases place with checks | ⟨cause, closes⟩
    · exact (idle _ there).1 checks
    · exact (idle _ there).2 cause closes

theorem State.Hidden.begin {k : Nat} (h : s.Hidden k) (request : Request) (other : request ≠ .show) :
    (begin s request).Hidden k := by
  have add : ∀ {t : State} {c : Call}, t.calls = s.calls ++ [c] → c.request = request → (∀ w, c.pc ≠ .expiring w) →
      t.found.desired = false → t.handle = s.handle → t.Hidden k := by
    intro t c calls asked concluded unwanted handle
    have absent : ∀ d, s.calls[s.calls.length]? ≠ some d := by
      intro d hd
      rw [fresh_call] at hd
      cases hd
    refine h.moved (moved_add calls) ?_ ?_ concluded unwanted ?_
    · exact fun d hd => absurd hd (absent d)
    · intro _
      rw [asked]
      exact other
    · exact h.recorded_moved (moved_add calls) handle fun d hd => absurd hd (absent d)
  rcases begin_cases s request with ⟨expires, _⟩ | ⟨asked, _⟩ | ⟨cause, _, ht⟩ | ⟨state, answer, ht, wanted⟩
  · simp [State.expires, h.unwanted] at expires
  · exact absurd asked other
  · rw [ht]
    exact add rfl rfl (by rintro _ ⟨⟩) rfl rfl
  · rw [ht]
    refine add rfl rfl (by rintro _ ⟨⟩) ?_ rfl
    have unwanted := h.unwanted
    cases there : (state.getD .new).desired with
    | false => exact there
    | true =>
      rw [wanted there] at unwanted
      cases unwanted

theorem hidden_step {k : Nat} {label : Label} (h : s.Hidden k) (launched : s.Launched)
    (other : label ≠ .request .show) (ht : step s label = some t) : t.Hidden k := by
  have same : ∀ {j : Nat} {request : Request} {pc pc' : Pc}, s.calls[j]? = some ⟨request, pc⟩ → ∀ d : Call,
      s.calls[j]? = some d → (Call.mk request pc').request = d.request := by
    intro j request pc pc' here d hd
    cases here.symm.trans hd
    rfl
  have there : ∀ {j : Nat} {request : Request} {pc : Pc} {P : Prop}, s.calls[j]? = some ⟨request, pc⟩ →
      s.calls[j]? = none → P := by
    intro j request pc P here absent
    cases here.symm.trans absent
  cases label with
  | request request =>
    simp only [step] at ht
    split at ht
    next => cases ht
    next =>
      cases ht
      exact h.begin request fun asked => other (by rw [asked])
  | expired j =>
    simp only [step] at ht
    split at ht
    next request window here => exact absurd rfl (h.calm j _ window here)
    next => cases ht
  | opened j =>
    simp only [step] at ht
    split at ht
    next here =>
      cases ht
      refine h.moved (moved_set here rfl) (same here) (there here) (by rintro _ ⟨⟩) h.unwanted ?_
      refine h.recorded_moved (moved_set here rfl) rfl ?_
      intro d hd
      cases here.symm.trans hd
      exact ⟨(by rintro ⟨⟩), (by rintro _ ⟨⟩)⟩
    next => cases ht
  | recorded j =>
    simp only [step] at ht
    split at ht
    next request window here =>
      cases ht
      obtain ⟨asked, own⟩ := launched j _ here
      have m : Moved s { s.setPc j ⟨request, .launching (some window)⟩ .checking with handle := some window } j
        ⟨request, .checking⟩ := moved_set here rfl
      refine h.moved m (same here) (there here) (by rintro _ ⟨⟩) h.unwanted ?_
      intro w hw
      have mine : w = j := (Option.some.inj hw).symm.trans (own window rfl)
      subst mine
      exact Or.inr ⟨_, m.here, asked, Or.inl rfl⟩
    next => cases ht
  | launchFails j =>
    simp only [step] at ht
    split at ht
    next here =>
      cases ht
      refine h.moved (moved_set here rfl) (same here) (there here) (by rintro _ ⟨⟩) h.unwanted ?_
      refine h.recorded_moved (moved_set here rfl) rfl ?_
      intro d hd
      cases here.symm.trans hd
      exact ⟨(by rintro ⟨⟩), (by rintro _ ⟨⟩)⟩
    next => cases ht
  | launchError j =>
    simp only [step] at ht
    split at ht
    next request here =>
      split at ht
      next => cases ht
      next =>
        cases ht
        have m : Moved s (launchErrorStep s j ⟨request, .failing⟩) j ⟨request, .returned .failed⟩ := moved_set here rfl
        refine h.moved m (same here) (there here) (by rintro _ ⟨⟩) ?_ ?_
        · unfold launchErrorStep State.found
          dsimp only [State.setPc]
          split <;> rfl
        · refine h.recorded_moved m rfl ?_
          intro d hd
          cases here.symm.trans hd
          exact ⟨(by rintro ⟨⟩), (by rintro _ ⟨⟩)⟩
    next => cases ht
  | check j =>
    simp only [step] at ht
    split at ht
    next request here =>
      split at ht
      next => cases ht
      next =>
        cases ht
        have asked : request = .show := launched j _ here
        simp only [h.unwanted, Bool.false_eq_true, ↓reduceIte]
        have m : Moved s ({ s with state := some s.found }.setPc j ⟨request, .checking⟩ (.close (.late j))) j
          ⟨request, .close (.late j)⟩ := moved_set here rfl
        refine h.moved m (same here) (there here) (by rintro _ ⟨⟩) h.unwanted ?_
        intro w hw
        rcases h.recorded w hw with ⟨cause, hides⟩ | ⟨d, shows, shown, place⟩
        · refine Or.inl ⟨cause, ?_⟩
          rw [m.other k, hides]
          intro moves
          subst moves
          cases here.symm.trans hides
        · by_cases moves : w = j
          · subst moves
            exact Or.inr ⟨_, m.here, asked, Or.inr ⟨_, rfl⟩⟩
          · exact Or.inr ⟨d, by rw [m.other w moves, shows], shown, place⟩
    next => cases ht
  | close j =>
    simp only [step] at ht
    split at ht
    next here =>
      cases ht
      refine h.moved (moved_set here rfl) (same here) (there here) ?_ h.unwanted (by rintro _ ⟨⟩)
      intro w
      cases s.handle <;> rintro ⟨⟩
    next => cases ht
  | closed j =>
    simp only [step] at ht
    split at ht
    next here =>
      cases ht
      refine h.moved (moved_set here rfl) (same here) (there here) (by rintro _ ⟨⟩) h.unwanted ?_
      refine h.recorded_moved (moved_set here rfl) rfl ?_
      intro d hd
      cases here.symm.trans hd
      exact ⟨(by rintro ⟨⟩), (by rintro _ ⟨⟩)⟩
    next => cases ht
  | tick now =>
    simp only [step] at ht
    split at ht
    next =>
      cases ht
      exact ⟨h.unwanted, h.calm, h.last, h.hide, h.recorded⟩
    next => cases ht

theorem launched_run {labels : List Label} (run : exec step State.initial labels = some s) : s.Launched := by
  refine @exec_invariant _ _ step State.Launched ?_ _ _ _ ?_ run
  · intro s label t h ht
    exact launched_step h ht
  · intro i c hc
    simp [State.initial] at hc

/-- A hide that has begun and that no show follows. -/
theorem hidden_run {u : State} {after : List Label} (held : u.Held) (launched : u.Launched)
    (run : exec step u (.request .hide :: after) = some s) (last : ∀ label ∈ after, label ≠ .request .show) :
    s.Hidden u.calls.length := by
  obtain ⟨t, ht, run⟩ := exec_cons_iff.mp run
  have free : u.locked = false := by
    simp only [step] at ht
    split at ht
    next => cases ht
    next free => simpa using free
  have begun : t = Viewer.begin u .hide := by
    rw [step, free] at ht
    exact (Option.some.inj ht).symm
  have m : Moved u t u.calls.length ⟨.hide, .close (.hide u.calls.length)⟩ := by
    rw [begun]
    exact moved_add rfl
  have start : t.Hidden u.calls.length := by
    refine ⟨?_, ?_, ?_, ⟨_, m.here⟩, fun w _ => Or.inl ⟨_, m.here⟩⟩
    · rw [begun]
      rfl
    · intro i c w hc expiring
      rcases m.cases hc with ⟨rfl, rfl⟩ | ⟨_, old⟩
      · cases expiring
      · rw [held.owner i c w old expiring] at free
        cases free
    · intro i c later hc
      rcases m.cases hc with ⟨rfl, rfl⟩ | ⟨_, old⟩
      · exact absurd later (Nat.lt_irrefl _)
      · have inside := (List.getElem?_eq_some_iff.mp old).1
        omega
  have both := @exec_preserves _ _ step (fun _ label => label ≠ .request .show)
    (fun s => s.Hidden u.calls.length ∧ s.Launched) ?_ _ _ _ ⟨start, launched_step launched ht⟩ run
    (along_of_labels (fun label hl _ => last label hl) t)
  · exact both.1
  · intro s label t h other ht
    exact ⟨hidden_step h.1 h.2 other ht, launched_step h.2 ht⟩

theorem length_le_one {α : Type} {a : α} {xs : List α} (distinct : xs.Nodup) (same : ∀ x ∈ xs, x = a) :
    xs.length ≤ 1 := by
  match xs with
  | [] => simp
  | [x] => simp
  | x :: y :: rest =>
    have hx := same x (by simp)
    have hy := same y (by simp)
    rw [hx, hy] at distinct
    simp at distinct

/-- An open window that no `Close` is closing belongs to the current show. -/
theorem Current.of_open {cur : Option Nat} (h : Current cur s) {w : Nat} (hw : w ∈ s.openWindows) :
    cur = some w := by
  obtain ⟨opened, unclosed⟩ := List.mem_filter.mp hw
  obtain ⟨_, place⟩ := h.windows w opened
  rcases place with closes | recorded | ⟨c, hc, launching⟩
  · simp [closes] at unclosed
  · exact h.handle w recorded
  · have placed := h.placed w c hc
    rw [launching] at placed
    exact placed.1

theorem Current.none_open {cur : Option Nat} {k : Nat} (h : Current cur s) (hidden : s.Hidden k)
    (launched : s.Launched) (hides : ∃ answer, s.calls[k]? = some ⟨.hide, .returned answer⟩)
    (shows : ∀ (i : Nat) (c : Call), i < k → s.calls[i]? = some c → c.request = .show →
      ∃ answer, c.pc = .returned answer) : s.openWindows = [] := by
  obtain ⟨answer, hides⟩ := hides
  have concluded : ∀ (w : Nat) (c : Call), s.calls[w]? = some c → c.request = .show →
    ∃ answer, c.pc = .returned answer := by
    intro w c hc asked
    rcases Nat.lt_trichotomy w k with before | same | later
    · exact shows w c before hc asked
    · subst same
      cases hides.symm.trans hc
      cases asked
    · exact absurd asked (hidden.last w c later hc)
  refine List.eq_nil_iff_forall_not_mem.mpr ?_
  intro w hw
  obtain ⟨opened, unclosed⟩ := List.mem_filter.mp hw
  obtain ⟨_, place⟩ := h.windows w opened
  rcases place with closes | recorded | ⟨c, hc, launching⟩
  · simp [closes] at unclosed
  · rcases hidden.recorded w recorded with ⟨cause, there⟩ | ⟨c, hc, asked, place⟩
    · cases hides.symm.trans there
    · obtain ⟨answer, returned⟩ := concluded w c hc asked
      rw [returned] at place
      rcases place with checks | ⟨cause, closes⟩
      · cases checks
      · cases closes
  · have shown := launched w c hc
    rw [launching] at shown
    obtain ⟨answer, returned⟩ := concluded w c hc shown.1
    rw [launching] at returned
    cases returned

end

/-- At most one window, and none once the last request of the user, a hide, has returned. -/
theorem one_window_until_hidden {labels : List Label} {s : State}
    (run : exec step State.initial labels = some s)
    (exclusive : Along step State.Exclusive State.initial labels) :
    s.openWindows.length ≤ 1 ∧
      ∀ (before after : List Label) (u : State), labels = before ++ .request .hide :: after →
        exec step State.initial before = some u → (∀ label ∈ after, label ≠ .request .show) →
        (∃ answer, s.calls[u.calls.length]? = some ⟨.hide, .returned answer⟩) →
        (∀ (i : Nat) (c : Call), i < u.calls.length → s.calls[i]? = some c → c.request = .show →
          ∃ answer, c.pc = .returned answer) →
        s.openWindows = [] := by
  obtain ⟨⟨cur, current⟩, _⟩ := current_run run exclusive
  refine ⟨?_, ?_⟩
  · have distinct : s.openWindows.Nodup := current.distinct.sublist List.filter_sublist
    cases opened : s.openWindows with
    | nil => exact Nat.zero_le 1
    | cons v rest =>
      rw [opened] at distinct
      refine length_le_one (a := v) distinct ?_
      intro w hw
      have same : cur = some w := current.of_open (opened ▸ hw)
      have first : cur = some v := current.of_open (by simp [opened])
      exact Option.some.inj (same.symm.trans first)
  · intro before after u split prior last hides shows
    subst split
    obtain ⟨v, hv, rest⟩ := exec_append_iff.mp run
    cases prior.symm.trans hv
    have held := (current_run prior (along_front exclusive)).2
    exact current.none_open (hidden_run held (launched_run prior) rest last) (launched_run run) hides shows

def shownOnce : List Label := [.request .show, .opened 0, .recorded 0, .check 0]

def hiddenOnce : List Label := shownOnce ++ .request .hide :: [.close 1, .closed 1]

theorem one_window_until_hidden_after_show : ∃ u s, exec step State.initial shownOnce = some u ∧
    u.openWindows = [0] ∧ exec step State.initial hiddenOnce = some s ∧
    s.openWindows.length ≤ 1 ∧ s.openWindows = [] := by
  have exclusive : Along step State.Exclusive State.initial hiddenOnce := by decide
  have first : (exec step State.initial shownOnce).any (fun u => u.openWindows = [0] ∧ u.calls.length = 1) = true := by
    decide
  have run : (exec step State.initial hiddenOnce).any (fun s =>
      s.calls = [⟨.show, .returned .opening⟩, ⟨.hide, .returned .hidden⟩]) = true := by decide
  obtain ⟨u, first, shown⟩ := (Option.any_eq_true _ _).mp first
  obtain ⟨s, run, calls⟩ := (Option.any_eq_true _ _).mp run
  obtain ⟨shown, length⟩ := of_decide_eq_true shown
  have calls := of_decide_eq_true calls
  obtain ⟨single, hidden⟩ := one_window_until_hidden run exclusive
  refine ⟨u, s, first, shown, run, single, hidden shownOnce [.close 1, .closed 1] u rfl first (by decide) ?_ ?_⟩
  · exact ⟨.hidden, by rw [length, calls]; rfl⟩
  · intro i c earlier hc _
    have zero : i = 0 := by omega
    rw [zero, calls] at hc
    cases hc
    exact ⟨.opening, rfl⟩

/-- A second show comes between a hide and the end of the launch it found: two windows are open, and a hide after
both has only one of them to close. -/
theorem second_show_orphans_window : ∃ s t,
    exec step State.initial [.request .show, .request .hide, .close 1, .request .show, .opened 0, .recorded 0,
      .opened 2, .recorded 2, .check 0, .check 2] = some s ∧ s.openWindows.length = 2 ∧
    exec step s [.request .hide, .close 3, .closed 3] = some t ∧ t.openWindows = [0] ∧
    t.calls.map Call.pc = [.returned .opening, .returned .hidden, .returned .opening, .returned .hidden] := by
  exact ⟨_, _, rfl, by decide, rfl, by decide, by decide⟩

end TermLinks.Viewer
