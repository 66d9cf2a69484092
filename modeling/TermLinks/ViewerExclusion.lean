import TermLinks.ViewerController

namespace TermLinks.Viewer

/-- The show is undone by a hide that began after it, by its own timeout or by the disconnect of a viewer
registered for it. -/
def Cause.genuine (viewer : Nat) : Cause → Prop
  | .hide call => viewer < call
  | .timeout owner => owner = some viewer
  | .disconnect owner => owner = some viewer
  | .failure _ | .late _ => False

/-- What may undo a show; its own late close only carries out what undid it before. -/
def Undo.Allowed (undos : List Undo) (undo : Undo) : Prop :=
  match undo.cause with
  | .failure call => call = undo.viewer
  | .late call => call = undo.viewer ∧ ∃ earlier ∈ undos, earlier.viewer = call ∧ earlier.cause.genuine call
  | cause => cause.genuine undo.viewer

/-- Everything in the slot is about the current show. -/
structure ViewerState.Fits (cur : Option Nat) (state : ViewerState) : Prop where
  owner : ∀ m, state.owner = some m → cur = some m
  desired : state.desired = true → state.owner ≠ none
  clients : ∀ client ∈ state.clients, client.viewer = state.owner ∧ state.owner ≠ none

/-- The show is still wanted, or what undid it is known. -/
def State.Answered (s : State) (viewer : Nat) : Prop :=
  s.found.desired = true ∨ ∃ undo ∈ s.undos, undo.viewer = viewer ∧ undo.cause.genuine viewer

/-- What holds while a request stands at this point. -/
def Placed (cur : Option Nat) (s : State) (i : Nat) : Pc → Prop
  | .expiring _ => i ∉ s.windows
  | .launching none => cur = some i ∧ s.handle = none ∧ s.Answered i ∧ i ∉ s.windows
  | .launching (some window) => cur = some i ∧ s.handle = none ∧ s.Answered i ∧ window = i
  | .failing => cur = some i ∧ s.handle = none
  | .checking => cur = some i ∧ s.Answered i
  | .close (.hide call) => call = i ∧ ∀ m, cur = some m → m < i
  | .close (.disconnect viewer) => viewer = cur ∧ cur ≠ none
  | .close (.late call) => call = i ∧ cur = some i ∧
      ∃ undo ∈ s.undos, undo.viewer = i ∧ undo.cause.genuine i
  | .close (.timeout _) | .close (.failure _) => False
  | .closing _ | .returned _ => True

/-- Everything in flight belongs to the current show. -/
structure Current (cur : Option Nat) (s : State) : Prop where
  bound : ∀ m, cur = some m → m < s.calls.length
  handle : ∀ w, s.handle = some w → cur = some w
  fits : s.found.Fits cur
  placed : ∀ (i : Nat) (c : Call), s.calls[i]? = some c → Placed cur s i c.pc
  kept : ∀ w, s.handle = some w → s.found.desired = true ∨
    (∃ (i : Nat) (c : Call) (cause : Cause), s.calls[i]? = some c ∧ c.pc = .close cause) ∨
    ∃ c : Call, s.calls[w]? = some c ∧ c.pc = .checking
  windows : ∀ w ∈ s.windows, w < s.calls.length ∧
    (w ∈ s.closing ∨ s.handle = some w ∨ ∃ c : Call, s.calls[w]? = some c ∧ c.pc = .launching (some w))
  distinct : s.windows.Nodup
  allowed : ∀ undo ∈ s.undos, undo.Allowed s.undos

section

variable {cur : Option Nat} {s t : State}

theorem fits_new (cur : Option Nat) : ViewerState.new.Fits cur := by
  refine ⟨?_, ?_, ?_⟩
  · intro m hm
    cases hm
  · intro hd
    cases hd
  · intro client hc
    cases hc

theorem allowed_append {undos more : List Undo} (h : ∀ undo ∈ undos, undo.Allowed undos)
    (new : ∀ undo ∈ more, undo.Allowed undos) : ∀ undo ∈ undos ++ more, undo.Allowed (undos ++ more) := by
  have weaken : ∀ undo : Undo, undo.Allowed undos → undo.Allowed (undos ++ more) := by
    intro undo hu
    unfold Undo.Allowed at hu ⊢
    split
    next => simpa [*] using hu
    next call hc =>
      rw [hc] at hu
      obtain ⟨same, earlier, he, rest⟩ := hu
      exact ⟨same, earlier, List.mem_append_left _ he, rest⟩
    next => simp_all
  intro undo hu
  rcases List.mem_append.mp hu with old | added
  · exact weaken undo (h undo old)
  · exact weaken undo (new undo added)

theorem mem_cleared {state : ViewerState} {cause : Cause} {undo : Undo} (h : undo ∈ state.cleared cause) :
    state.desired = true ∧ state.owner = some undo.viewer ∧ undo.cause = cause := by
  unfold ViewerState.cleared at h
  split at h
  next hd =>
    obtain ⟨viewer, hv, rfl⟩ := List.mem_map.mp h
    exact ⟨hd, by simpa using hv, rfl⟩
  next => cases h

/-- Clearing the flag of the current show leaves a trace. -/
theorem cleared_of_desired {state : ViewerState} (fits : state.Fits cur) (hd : state.desired = true) {m : Nat}
    (hm : cur = some m) (cause : Cause) : ⟨m, cause⟩ ∈ state.cleared cause := by
  obtain ⟨owner, ho⟩ := Option.ne_none_iff_exists'.mp (fits.desired hd)
  have same : owner = m := Option.some.inj ((fits.owner owner ho).symm.trans hm)
  simp [ViewerState.cleared, hd, ho, same]

/-- A request stays placed when the window of the current show is forgotten and nothing it knows is lost. -/
theorem Placed.keep {i : Nat} {pc : Pc} (h : Placed cur s i pc) (handle : t.handle = s.handle ∨ t.handle = none)
    (windows : i ∈ t.windows → i ∈ s.windows) (undos : ∀ undo ∈ s.undos, undo ∈ t.undos)
    (answered : cur = some i → s.Answered i → t.Answered i) : Placed cur t i pc := by
  have forgotten : s.handle = none → t.handle = none := by
    intro hn
    rcases handle with same | gone
    · rw [same, hn]
    · exact gone
  cases pc with
  | expiring window => exact fun hi => h (windows hi)
  | launching window =>
    cases window with
    | none => exact ⟨h.1, forgotten h.2.1, answered h.1 h.2.2.1, fun hi => h.2.2.2 (windows hi)⟩
    | some window => exact ⟨h.1, forgotten h.2.1, answered h.1 h.2.2.1, h.2.2.2⟩
  | failing => exact ⟨h.1, forgotten h.2⟩
  | checking => exact ⟨h.1, answered h.1 h.2⟩
  | close cause =>
    cases cause with
    | late call =>
      obtain ⟨same, current, undo, hu, rest⟩ := h
      exact ⟨same, current, undo, undos undo hu, rest⟩
    | hide call => exact h
    | disconnect viewer => exact h
    | timeout viewer => exact h
    | failure call => exact h
  | closing window => trivial
  | returned answer => trivial

/-- The request at position `k` now stands at `c`; the others stand where they stood. -/
structure Moved (s t : State) (k : Nat) (c : Call) : Prop where
  other : ∀ i, i ≠ k → t.calls[i]? = s.calls[i]?
  here : t.calls[k]? = some c
  longer : s.calls.length ≤ t.calls.length

theorem moved_add {c : Call} (calls : t.calls = s.calls ++ [c]) : Moved s t s.calls.length c := by
  refine ⟨?_, ?_, ?_⟩
  · intro i hi
    rw [calls]
    by_cases hl : i < s.calls.length
    · rw [List.getElem?_append_left hl]
    · rw [List.getElem?_eq_none (by simp; omega), List.getElem?_eq_none (by omega)]
  · rw [calls]
    simp
  · rw [calls]
    simp

theorem moved_set {k : Nat} {c d : Call} (here : s.calls[k]? = some d) (calls : t.calls = s.calls.set k c) :
    Moved s t k c := by
  have inside := (List.getElem?_eq_some_iff.mp here).1
  refine ⟨?_, ?_, ?_⟩
  · intro i hi
    rw [calls, List.getElem?_set_ne (Ne.symm hi)]
  · rw [calls, List.getElem?_set_self inside]
  · have same : t.calls.length = s.calls.length := by rw [calls, List.length_set]
    omega

theorem Moved.inside {k : Nat} {c : Call} (m : Moved s t k c) : k < t.calls.length :=
  (List.getElem?_eq_some_iff.mp m.here).1

theorem Moved.cases {k : Nat} {c : Call} (m : Moved s t k c) {i : Nat} {d : Call} (h : t.calls[i]? = some d) :
    i = k ∧ d = c ∨ i ≠ k ∧ s.calls[i]? = some d := by
  by_cases hi : i = k
  · subst hi
    exact Or.inl ⟨rfl, Option.some.inj (h.symm.trans m.here)⟩
  · rw [m.other i hi] at h
    exact Or.inr ⟨hi, h⟩

/-- What keeps the recorded window is still there after a move of another request. -/
theorem Current.kept_moved {k w : Nat} {c : Call} (h : Current cur s) (m : Moved s t k c)
    (hw : s.handle = some w)
    (idle : ∀ d, s.calls[k]? = some d → d.pc ≠ .checking ∧ ∀ cause, d.pc ≠ .close cause) :
    s.found.desired = true ∨
      (∃ (i : Nat) (c : Call) (cause : Cause), t.calls[i]? = some c ∧ c.pc = .close cause) ∨
      ∃ c : Call, t.calls[w]? = some c ∧ c.pc = .checking := by
  rcases h.kept w hw with wanted | ⟨i, d, cause, hd, at_close⟩ | ⟨d, hd, at_check⟩
  · exact Or.inl wanted
  · refine Or.inr (Or.inl ⟨i, d, cause, ?_, at_close⟩)
    rw [m.other i, hd]
    intro same
    subst same
    exact (idle d hd).2 cause at_close
  · refine Or.inr (Or.inr ⟨d, ?_, at_check⟩)
    rw [m.other w, hd]
    intro same
    subst same
    exact (idle d hd).1 at_check

/-- A window that is not being closed is recorded or belongs to a launch that goes on. -/
theorem Current.windows_moved {k w : Nat} {c : Call} (h : Current cur s) (m : Moved s t k c)
    (hw : w ∈ s.windows) (closing : ∀ w, w ∈ s.closing ∨ s.handle = some w → w ∈ t.closing ∨ t.handle = some w)
    (idle : ∀ d window, s.calls[k]? = some d → d.pc ≠ .launching (some window)) :
    w < t.calls.length ∧
      (w ∈ t.closing ∨ t.handle = some w ∨ ∃ c : Call, t.calls[w]? = some c ∧
        c.pc = .launching (some w)) := by
  obtain ⟨inside, place⟩ := h.windows w hw
  refine ⟨Nat.lt_of_lt_of_le inside m.longer, ?_⟩
  rcases place with closes | recorded | ⟨d, hd, launching⟩
  · rcases closing w (Or.inl closes) with h | h
    · exact Or.inl h
    · exact Or.inr (Or.inl h)
  · rcases closing w (Or.inr recorded) with h | h
    · exact Or.inl h
    · exact Or.inr (Or.inl h)
  · refine Or.inr (Or.inr ⟨d, ?_, launching⟩)
    rw [m.other w, hd]
    intro same
    subst same
    exact idle d w hd launching

/-- A move that opens no window and records none. -/
theorem Current.move {k : Nat} {c : Call} {more : List Undo} (h : Current cur s) (m : Moved s t k c)
    (fits : t.found.Fits cur) (here : Placed cur t k c.pc) (handle : t.handle = s.handle ∨ t.handle = none)
    (windows : t.windows.Sublist s.windows) (undos : t.undos = s.undos ++ more)
    (allowed : ∀ undo ∈ more, undo.Allowed s.undos)
    (answered : ∀ i, i ≠ k → cur = some i → s.Answered i → t.Answered i)
    (kept : ∀ w, t.handle = some w → s.handle = some w → t.found.desired = true ∨
      (∃ (i : Nat) (c : Call) (cause : Cause), t.calls[i]? = some c ∧ c.pc = .close cause) ∨
      ∃ c : Call, t.calls[w]? = some c ∧ c.pc = .checking)
    (closing : ∀ w, w ∈ s.closing ∨ s.handle = some w → w ∈ t.closing ∨ t.handle = some w)
    (idle : ∀ d window, s.calls[k]? = some d → d.pc ≠ .launching (some window)) : Current cur t where
  bound := fun v hv => Nat.lt_of_lt_of_le (h.bound v hv) m.longer
  handle := by
    intro w hw
    rcases handle with same | gone
    · exact h.handle w (same ▸ hw)
    · rw [gone] at hw
      cases hw
  fits := fits
  placed := by
    intro i d hd
    rcases m.cases hd with ⟨rfl, rfl⟩ | ⟨other, old⟩
    · exact here
    · refine (h.placed i d old).keep handle (fun hi => windows.subset hi) ?_ (answered i other)
      rw [undos]
      exact fun undo hu => List.mem_append_left _ hu
  kept := by
    intro w hw
    refine kept w hw ?_
    rcases handle with same | gone
    · rwa [← same]
    · rw [gone] at hw
      cases hw
  windows := fun w hw => h.windows_moved m (windows.subset hw) closing idle
  distinct := h.distinct.sublist windows
  allowed := by
    rw [undos]
    exact allowed_append h.allowed allowed

theorem answered_append {more : List Undo} {i : Nat} (undos : t.undos = s.undos ++ more)
    (wanted : s.found.desired = true → t.Answered i) (h : s.Answered i) : t.Answered i := by
  rcases h with desired | ⟨undo, hu, rest⟩
  · exact wanted desired
  · refine Or.inr ⟨undo, ?_, rest⟩
    rw [undos]
    exact List.mem_append_left _ hu

/-- A request that returns at once, with the flag as it was. -/
theorem Current.answered {k : Nat} {c : Call} {answer : Answer} (h : Current cur s) (m : Moved s t k c)
    (returned : c.pc = .returned answer) (fresh : s.calls[k]? = none) (fits : t.found.Fits cur)
    (desired : s.found.desired = true → t.found.desired = true) (handle : t.handle = s.handle)
    (windows : t.windows = s.windows) (closing : t.closing = s.closing) (undos : t.undos = s.undos) :
    Current cur t := by
  refine @Current.move _ _ _ _ _ [] h m fits ?_ (Or.inl handle) ?_ ?_ nofun ?_ ?_ ?_ ?_
  · rw [returned]
    trivial
  · simp [windows]
  · rw [undos, List.append_nil]
  · intro i _ _
    refine @answered_append _ _ [] _ ?_ fun wanted => Or.inl (desired wanted)
    rw [undos, List.append_nil]
  · intro w _ hw
    refine (h.kept_moved m hw ?_).imp_left desired
    intro d hd
    rw [fresh] at hd
    cases hd
  · rw [closing, handle]
    exact fun _ h => h
  · intro d window hd
    rw [fresh] at hd
    cases hd

/-- Clearing the flag for a good reason leaves the current show answered. -/
theorem Current.answered_cleared {i : Nat} {cause : Cause} {more : List Undo} (h : Current cur s)
    (undos : t.undos = s.undos ++ (s.found.cleared cause ++ more))
    (genuine : ∀ m, s.found.owner = some m → cause.genuine m) (current : cur = some i)
    (answered : s.Answered i) :
    t.Answered i := by
  refine answered_append undos (fun wanted => ?_) answered
  obtain ⟨m, hm⟩ := Option.ne_none_iff_exists'.mp (h.fits.desired wanted)
  have same : i = m := Option.some.inj (current.symm.trans (h.fits.owner m hm))
  subst same
  refine Or.inr ⟨⟨i, cause⟩, ?_, rfl, genuine i hm⟩
  rw [undos]
  have cleared := cleared_of_desired h.fits wanted current cause
  exact List.mem_append_right _ (List.mem_append_left _ cleared)

theorem allowed_genuine {undos : List Undo} {undo : Undo} (h : undo.cause.genuine undo.viewer) :
    undo.Allowed undos := by
  unfold Undo.Allowed
  split
  next call hc =>
    rw [hc] at h
    exact h.elim
  next call hc =>
    rw [hc] at h
    exact h.elim
  next => exact h

theorem allowed_cleared {cause : Cause} (genuine : ∀ m, s.found.owner = some m → cause.genuine m) :
    ∀ undo ∈ s.found.cleared cause, undo.Allowed s.undos := by
  intro undo hu
  obtain ⟨-, owner, same⟩ := mem_cleared hu
  refine allowed_genuine ?_
  rw [same]
  exact genuine undo.viewer owner

/-- The opening timeout closes the window of the show it belongs to. -/
theorem Current.expire (h : Current cur s) (request : Request) (expires : s.expires s.found = true) :
    Current cur (s.expire request s.found) := by
  have facts : s.found.desired = true ∧ s.found.clients = [] := by
    simp only [State.expires, Bool.and_eq_true, decide_eq_true_eq] at expires
    exact expires.1
  obtain ⟨m, hm⟩ := Option.ne_none_iff_exists'.mp (h.fits.desired facts.1)
  have current := h.fits.owner m hm
  have m' : Moved s (s.expire request s.found) s.calls.length ⟨request, .expiring s.handle⟩ := moved_add rfl
  have fresh : s.calls[s.calls.length]? = none := List.getElem?_eq_none (Nat.le_refl _)
  have genuine : ∀ n, s.found.owner = some n → (Cause.timeout s.found.owner).genuine n := fun _ hn => hn
  refine h.move m' ⟨?_, nofun, ?_⟩ ?_ (Or.inr rfl) (List.Sublist.refl _) (List.append_assoc _ _ _) ?_ ?_ nofun ?_ ?_
  · exact h.fits.owner
  · intro client hc
    exact h.fits.clients client hc
  · intro hw
    exact absurd (h.windows _ hw).1 (Nat.lt_irrefl _)
  · intro undo hu
    rcases List.mem_append.mp hu with flag | window
    · exact allowed_cleared genuine undo flag
    · obtain ⟨w, hw, rfl⟩ := List.mem_map.mp window
      have here : s.handle = some w := by simpa using hw
      have same : w = m := Option.some.inj ((h.handle w here).symm.trans current)
      subst same
      exact allowed_genuine hm
  · intro i _ current answered
    exact h.answered_cleared (List.append_assoc _ _ _) genuine current answered
  · rintro w (closes | recorded)
    · exact Or.inl (List.mem_append_left _ closes)
    · exact Or.inl (List.mem_append_right _ (by simp [recorded]))
  · intro d window hd
    rw [fresh] at hd
    cases hd

/-- A show that starts a launch becomes the current one. -/
theorem Current.launch {k : Nat} {c : Call} (h : Current cur s) (m : Moved s t k c) (settled : s.Settled)
    (at_launch : c.pc = .launching none) (unwanted : s.found.desired = false)
    (state : t.found.desired = true ∧ t.found.owner = some k ∧ t.found.clients = []) (fresh : k ∉ t.windows)
    (handle : t.handle = s.handle) (windows : t.windows.Sublist s.windows) (closing : t.closing = s.closing)
    (undos : t.undos = s.undos) : Current (some k) t := by
  have unrecorded : s.handle = none := by
    cases hs : s.handle with
    | none => rfl
    | some w =>
      rcases h.kept w hs with wanted | ⟨i, d, cause, hd, at_close⟩ | ⟨d, hd, at_check⟩
      · rw [unwanted] at wanted
        cases wanted
      · have busy := settled d (List.mem_of_getElem? hd)
        rw [at_close] at busy
        cases busy
      · have busy := settled d (List.mem_of_getElem? hd)
        rw [at_check] at busy
        cases busy
  have gone : t.handle = none := handle.trans unrecorded
  have quiet : ∀ (i : Nat) (d : Call), s.calls[i]? = some d → d.pc.busy = false :=
    fun i d hd => settled d (List.mem_of_getElem? hd)
  obtain ⟨wanted, owner, clients⟩ := state
  refine ⟨?_, ?_, ⟨?_, ?_, ?_⟩, ?_, ?_, ?_, h.distinct.sublist windows, ?_⟩
  · intro v hv
    cases hv
    exact m.inside
  · intro w hw
    rw [gone] at hw
    cases hw
  · intro v hv
    exact owner.symm.trans hv
  · intro _
    rw [owner]
    exact nofun
  · intro client hc
    rw [clients] at hc
    exact absurd hc List.not_mem_nil
  · intro i d hd
    rcases m.cases hd with ⟨rfl, rfl⟩ | ⟨other, old⟩
    · rw [at_launch]
      exact ⟨rfl, gone, Or.inl wanted, fresh⟩
    · have before := h.placed i d old
      have idle := quiet i d old
      generalize d.pc = pc at before idle ⊢
      cases pc with
      | expiring window => exact fun hi => before (windows.subset hi)
      | closing window => trivial
      | returned answer => trivial
      | _ => cases idle
  · intro w hw
    rw [gone] at hw
    cases hw
  · intro w hw
    refine h.windows_moved m (windows.subset hw) ?_ ?_
    · rw [closing, handle]
      exact fun _ h => h
    · intro d window hd at_launch
      have idle := quiet k d hd
      rw [at_launch] at idle
      cases idle
  · rw [undos]
    exact h.allowed

theorem fits_without {state : ViewerState} (h : state.Fits cur) (connection : Nat) :
    (state.without connection).Fits cur :=
  ⟨h.owner, h.desired, fun client hc => h.clients client ((List.mem_filter.mp hc).1)⟩

theorem fits_register {state : ViewerState} (h : state.Fits cur) (wanted : state.desired = true)
    (connection : Nat) :
    (state.register connection).Fits cur := by
  refine ⟨h.owner, h.desired, ?_⟩
  intro client hc
  rcases List.mem_append.mp hc with old | new
  · exact h.clients client ((List.mem_filter.mp old).1)
  · rw [List.mem_singleton.mp new]
    exact ⟨rfl, h.desired wanted⟩

theorem fresh_call (s : State) : s.calls[s.calls.length]? = none := List.getElem?_eq_none (Nat.le_refl _)

/-- A request that clears the slot and goes on to its `close`. -/
theorem Current.clear (h : Current cur s) (request : Request) {cause : Cause} (state : t.state = none)
    (calls : t.calls = s.calls ++ [⟨request, .close cause⟩])
    (undos : t.undos = s.undos ++ s.found.cleared cause)
    (genuine : ∀ m, s.found.owner = some m → cause.genuine m)
    (here : Placed cur t s.calls.length (.close cause))
    (handle : t.handle = s.handle) (windows : t.windows = s.windows) (closing : t.closing = s.closing) :
    Current cur t := by
  have found : t.found = .new := by
    unfold State.found
    rw [state]
    rfl
  refine h.move (moved_add calls) ?_ here (Or.inl handle) ?_ undos (allowed_cleared genuine) ?_ ?_ ?_ ?_
  · rw [found]
    exact fits_new cur
  · simp [windows]
  · intro i _ current answered
    refine @Current.answered_cleared _ _ _ _ _ [] h ?_ genuine current answered
    rw [undos, List.append_nil]
  · intro w _ _
    exact Or.inr (Or.inl ⟨_, _, cause, (moved_add calls).here, rfl⟩)
  · rw [closing, handle]
    exact fun _ h => h
  · intro d window hd
    rw [fresh_call] at hd
    cases hd

/-- The first section of a request. -/
theorem Current.begin (h : Current cur s) (request : Request) (exclusive : s.Exclusive (.request request)) :
    ∃ cur, Current cur (begin s request) := by
  cases request with
  | «show» =>
    unfold Viewer.begin
    dsimp only
    split
    next expires => exact ⟨cur, h.expire .show expires⟩
    next lasts =>
      cases launches : State.launches s.found with
      | true =>
        have facts : s.found.clients = [] ∧ s.found.desired = false := by
          simpa [State.launches] using launches
        rw [showSection_launches launches]
        refine ⟨_, h.launch (moved_add rfl) (exclusive (by simpa using lasts) launches) rfl facts.2
          ⟨rfl, rfl, facts.1⟩ ?_ rfl (List.Sublist.refl _) rfl rfl⟩
        intro opened
        exact absurd (h.windows _ opened).1 (Nat.lt_irrefl _)
      | false =>
        rw [showSection_returns launches]
        exact ⟨cur, h.answered (moved_add rfl) rfl (fresh_call s) h.fits (fun wanted => wanted) rfl rfl rfl rfl⟩
  | hide =>
    have genuine : ∀ m, s.found.owner = some m → (Cause.hide s.calls.length).genuine m :=
      fun m hm => h.bound m (h.fits.owner m hm)
    exact ⟨cur, h.clear .hide rfl rfl rfl genuine ⟨rfl, h.bound⟩ rfl rfl rfl⟩
  | status =>
    unfold Viewer.begin
    dsimp only
    split
    next => exact ⟨cur, h.answered (moved_add rfl) rfl (fresh_call s) h.fits (fun wanted => wanted) rfl rfl rfl rfl⟩
    next state there =>
      have found := found_of_some there
      subst found
      split
      next expires => exact ⟨cur, h.expire .status expires⟩
      next =>
        split
        next => exact ⟨cur, h.answered (moved_add rfl) rfl (fresh_call s) h.fits (fun wanted => wanted) rfl rfl rfl rfl⟩
        next =>
          split
          next => exact ⟨cur, h.answered (moved_add rfl) rfl (fresh_call s) h.fits
                    (fun wanted => wanted) rfl rfl rfl rfl⟩
          next unwanted =>
            refine ⟨cur, h.answered (moved_add rfl) rfl (fresh_call s) (fits_new cur) ?_ rfl rfl rfl rfl⟩
            exact fun wanted => absurd wanted unwanted
  | register connection =>
    unfold Viewer.begin
    dsimp only
    split
    next expires => exact ⟨cur, h.expire (.register connection) expires⟩
    next =>
      split
      next => exact ⟨cur, h.answered (moved_add rfl) rfl (fresh_call s) h.fits (fun wanted => wanted) rfl rfl rfl rfl⟩
      next wanted =>
        have wanted : s.found.desired = true := by simpa using wanted
        exact ⟨cur, h.answered (moved_add rfl) rfl (fresh_call s) (fits_register h.fits wanted connection)
          (fun wanted => wanted) rfl rfl rfl rfl⟩
  | unregister connection =>
    unfold Viewer.begin
    dsimp only
    split
    next => exact ⟨cur, h.answered (moved_add rfl) rfl (fresh_call s) h.fits (fun wanted => wanted) rfl rfl rfl rfl⟩
    next state there =>
      have found := found_of_some there
      subst found
      split
      next => exact ⟨cur, h.answered (moved_add rfl) rfl (fresh_call s) h.fits (fun wanted => wanted) rfl rfl rfl rfl⟩
      next client registered =>
        obtain ⟨viewer, owned⟩ := h.fits.clients client (List.mem_of_find?_eq_some registered)
        split
        next =>
          obtain ⟨m, hm⟩ := Option.ne_none_iff_exists'.mp owned
          have current := h.fits.owner m hm
          refine ⟨cur, @Current.clear _ _ _ h (.unregister connection) (.disconnect client.viewer)
            rfl rfl rfl ?_ ⟨?_, ?_⟩
            rfl rfl rfl⟩
          · exact fun n hn => viewer.trans hn
          · rw [viewer, hm, current]
          · rw [current]
            rintro ⟨⟩
        next =>
          exact ⟨cur, h.answered (moved_add rfl) rfl (fresh_call s) (fits_without h.fits connection)
            (fun wanted => wanted) rfl rfl rfl rfl⟩

theorem Current.opened (h : Current cur s) {k : Nat} {request : Request}
    (here : s.calls[k]? = some ⟨request, .launching none⟩) (ht : step s (.opened k) = some t) :
    Current cur t := by
  simp only [step, here, Option.some.injEq] at ht
  subst ht
  obtain ⟨current, unrecorded, answered, fresh⟩ := h.placed k _ here
  have m : Moved s { s.setPc k ⟨request, .launching none⟩ (.launching (some k)) with windows := s.windows ++ [k] } k
      ⟨request, .launching (some k)⟩ := moved_set here rfl
  refine ⟨?_, h.handle, h.fits, ?_, ?_, ?_, ?_, h.allowed⟩
  · exact fun v hv => Nat.lt_of_lt_of_le (h.bound v hv) m.longer
  · intro i d hd
    rcases m.cases hd with ⟨rfl, rfl⟩ | ⟨other, old⟩
    · exact ⟨current, unrecorded, answered, rfl⟩
    · refine (h.placed i d old).keep (Or.inl rfl) ?_ (fun _ hu => hu) fun _ answered => answered
      intro hi
      rcases List.mem_append.mp hi with old | new
      · exact old
      · exact absurd (List.mem_singleton.mp new) other
  · intro w hw
    have impossible : s.handle = some w := hw
    rw [unrecorded] at impossible
    cases impossible
  · intro w hw
    rcases List.mem_append.mp hw with old | new
    · refine h.windows_moved m old (fun _ h => h) ?_
      intro d window hd at_launch
      cases here.symm.trans hd
      cases at_launch
    · rw [List.mem_singleton.mp new]
      exact ⟨m.inside, Or.inr (Or.inr ⟨_, m.here, rfl⟩)⟩
  · refine List.nodup_append.mpr ⟨h.distinct, by simp, ?_⟩
    intro w old k' new same
    rw [List.mem_singleton.mp new] at same
    exact fresh (same ▸ old)

theorem Current.recorded (h : Current cur s) {k window : Nat} {request : Request}
    (here : s.calls[k]? = some ⟨request, .launching (some window)⟩) (ht : step s (.recorded k) = some t) :
    Current cur t := by
  simp only [step, here, Option.some.injEq] at ht
  subst ht
  obtain ⟨current, unrecorded, answered, same⟩ := h.placed k _ here
  subst same
  have m : Moved s { s.setPc window ⟨request, .launching (some window)⟩ .checking with handle := some window } window
      ⟨request, .checking⟩ := moved_set here rfl
  refine ⟨?_, ?_, h.fits, ?_, ?_, ?_, h.distinct, h.allowed⟩
  · exact fun v hv => Nat.lt_of_lt_of_le (h.bound v hv) m.longer
  · intro w hw
    cases hw
    exact current
  · intro i d hd
    rcases m.cases hd with ⟨rfl, rfl⟩ | ⟨other, old⟩
    · exact ⟨current, answered⟩
    · have before := h.placed i d old
      generalize d.pc = pc at before ⊢
      have elsewhere : cur ≠ some i := by
        intro same
        exact other (Option.some.inj (same.symm.trans current))
      cases pc with
      | launching window =>
        cases window with
        | none => exact absurd before.1 elsewhere
        | some window => exact absurd before.1 elsewhere
      | failing => exact absurd before.1 elsewhere
      | checking => exact absurd before.1 elsewhere
      | close cause => cases cause <;> exact before
      | expiring window => exact before
      | closing window => trivial
      | returned answer => trivial
  · intro w hw
    cases hw
    exact Or.inr (Or.inr ⟨_, m.here, rfl⟩)
  · intro w hw
    obtain ⟨inside, place⟩ := h.windows w hw
    refine ⟨Nat.lt_of_lt_of_le inside m.longer, ?_⟩
    rcases place with closes | recorded | ⟨d, hd, launching⟩
    · exact Or.inl closes
    · rw [unrecorded] at recorded
      cases recorded
    · by_cases same : w = window
      · subst same
        exact Or.inr (Or.inl rfl)
      · exact Or.inr (Or.inr ⟨d, by rw [m.other w same, hd], launching⟩)

theorem Current.launchFails (h : Current cur s) {k : Nat} {request : Request}
    (here : s.calls[k]? = some ⟨request, .launching none⟩) (ht : step s (.launchFails k) = some t) :
    Current cur t := by
  simp only [step, here, Option.some.injEq] at ht
  subst ht
  obtain ⟨current, unrecorded, answered, fresh⟩ := h.placed k _ here
  refine @Current.move _ _ _ _ _ [] h (moved_set here rfl) h.fits ⟨current, unrecorded⟩ (Or.inl rfl)
    (List.Sublist.refl _)
    (List.append_nil _).symm nofun ?_ ?_ (fun _ h => h) ?_
  · exact fun i _ _ answered => answered
  · intro w hw
    have impossible : s.handle = some w := hw
    rw [unrecorded] at impossible
    cases impossible
  · intro d window hd at_launch
    cases here.symm.trans hd
    cases at_launch

theorem Current.launchError (h : Current cur s) {k : Nat} {request : Request}
    (here : s.calls[k]? = some ⟨request, .failing⟩) :
    Current cur (launchErrorStep s k ⟨request, .failing⟩) := by
  obtain ⟨current, unrecorded⟩ := h.placed k _ here
  refine h.move (c := ⟨request, .returned .failed⟩) (moved_set here rfl) ?_ trivial (Or.inl rfl) (List.Sublist.refl _)
    rfl ?_ ?_ ?_ (fun _ h => h) ?_
  · unfold launchErrorStep State.found
    dsimp only [State.setPc]
    split
    next => exact fits_new cur
    next => exact ⟨h.fits.owner, nofun, h.fits.clients⟩
  · intro undo hu
    obtain ⟨-, owner, same⟩ := mem_cleared hu
    have mine : k = undo.viewer := Option.some.inj (current.symm.trans (h.fits.owner undo.viewer owner))
    unfold Undo.Allowed
    rw [same]
    exact mine
  · intro i other mine
    exact absurd (Option.some.inj (mine.symm.trans current)) other
  · intro w hw
    have impossible : s.handle = some w := hw
    rw [unrecorded] at impossible
    cases impossible
  · intro d window hd at_launch
    cases here.symm.trans hd
    cases at_launch

theorem Current.check (h : Current cur s) {k : Nat} {request : Request}
    (here : s.calls[k]? = some ⟨request, .checking⟩) (ht : step s (.check k) = some t) : Current cur t := by
  simp only [step, here] at ht
  split at ht
  next => cases ht
  next =>
    cases ht
    obtain ⟨current, answered⟩ := h.placed k _ here
    refine @Current.move _ _ _ _ _ [] h (moved_set here rfl) h.fits ?_ (Or.inl rfl) (List.Sublist.refl _)
      (List.append_nil _).symm nofun ?_ ?_ (fun _ h => h) ?_
    · dsimp only
      split
      next => trivial
      next unwanted =>
        rcases answered with wanted | undone
        · exact absurd wanted unwanted
        · exact ⟨rfl, current, undone⟩
    · exact fun i _ _ answered => answered
    · intro w hw _
      by_cases wanted : s.found.desired = true
      · exact Or.inl wanted
      · refine Or.inr (Or.inl ⟨k, _, .late k, (moved_set here rfl).here, ?_⟩)
        simp [wanted]
    · intro d window hd at_launch
      cases here.symm.trans hd
      cases at_launch

theorem Current.close (h : Current cur s) {k : Nat} {request : Request} {cause : Cause}
    (here : s.calls[k]? = some ⟨request, .close cause⟩) (ht : step s (.close k) = some t) :
    Current cur t := by
  simp only [step, here, Option.some.injEq] at ht
  subst ht
  have placed := h.placed k _ here
  refine h.move (moved_set here rfl) h.fits ?_ (Or.inr rfl) (List.Sublist.refl _) rfl ?_ ?_ nofun ?_ ?_
  · cases s.handle <;> trivial
  · intro undo hu
    obtain ⟨w, hw, rfl⟩ := List.mem_map.mp hu
    have recorded : s.handle = some w := by simpa using hw
    have current := h.handle w recorded
    cases cause with
    | hide call =>
      obtain ⟨same, before⟩ := placed
      subst same
      exact before w current
    | disconnect viewer =>
      have same : viewer = some w := placed.1.trans current
      exact same
    | late call =>
      obtain ⟨same, mine, undone⟩ := placed
      subst same
      have itself : call = w := Option.some.inj (mine.symm.trans current)
      exact ⟨itself, undone⟩
    | timeout viewer => exact placed.elim
    | failure call => exact placed.elim
  · intro i _ _
    exact answered_append rfl fun wanted => Or.inl wanted
  · rintro w (closes | recorded)
    · exact Or.inl (List.mem_append_left _ closes)
    · exact Or.inl (List.mem_append_right _ (by simp [recorded]))
  · intro d window hd at_launch
    cases here.symm.trans hd
    cases at_launch

theorem Current.closed (h : Current cur s) {k window : Nat} {request : Request}
    (here : s.calls[k]? = some ⟨request, .closing window⟩) (ht : step s (.closed k) = some t) :
    Current cur t := by
  simp only [step, here, Option.some.injEq] at ht
  subst ht
  refine @Current.move _ _ _ _ _ [] h (moved_set here rfl) h.fits trivial (Or.inl rfl) List.filter_sublist
    (List.append_nil _).symm nofun (fun i _ _ answered => answered) ?_ (fun _ h => h) ?_
  · intro w hw _
    refine h.kept_moved (moved_set here rfl) hw ?_
    intro d hd
    cases here.symm.trans hd
    exact ⟨nofun, nofun⟩
  · intro d window hd at_launch
    cases here.symm.trans hd
    cases at_launch

theorem Current.expired (h : Current cur s) {k : Nat} {request : Request} {window : Option Nat}
    (here : s.calls[k]? = some ⟨request, .expiring window⟩) (exclusive : s.Exclusive (.expired k))
    (unwanted : s.found.desired = false) :
    ∃ cur, Current cur (expiredStep s k ⟨request, .expiring window⟩ window) := by
  have fresh : k ∉ s.windows := h.placed k _ here
  have kept : ((window.elim s s.closeWindow).handle = s.handle ∧ (window.elim s s.closeWindow).closing = s.closing ∧
      (window.elim s s.closeWindow).undos = s.undos ∧ (window.elim s s.closeWindow).calls = s.calls) ∧
      (window.elim s s.closeWindow).windows.Sublist s.windows := by
    cases window with
    | none => exact ⟨⟨rfl, rfl, rfl, rfl⟩, List.Sublist.refl _⟩
    | some w => exact ⟨⟨rfl, rfl, rfl, rfl⟩, List.filter_sublist⟩
  obtain ⟨⟨handle, closing, undos, calls⟩, windows⟩ := kept
  by_cases launching : request = .show
  · subst launching
    refine ⟨_, h.launch (c := ⟨.show, .launching none⟩) (moved_set here ?_) ?_ rfl unwanted ⟨rfl, rfl, rfl⟩ ?_ handle
      windows closing undos⟩
    · simp [expiredStep, State.setPc, calls, showSection, State.launches, ViewerState.new]
    · exact exclusive (by simp [here])
    · exact fun opened => fresh (windows.subset opened)
  · have found : (expiredStep s k ⟨request, .expiring window⟩ window).found = .new := by
      unfold State.found expiredStep
      simp [launching]
    obtain ⟨pc, hc, place⟩ := expiredStep_calls s k request window
    rcases place with ⟨asked, _⟩ | ⟨_, answer, rfl⟩
    · exact absurd asked launching
    refine ⟨cur, @Current.move _ _ _ _ _ [] h (moved_set here hc) ?_ trivial (Or.inl handle) windows
      ?_ (by rintro _ ⟨⟩) ?_ ?_ ?_ ?_⟩
    · rw [found]
      exact fits_new cur
    · exact undos.trans (List.append_nil _).symm
    · intro i _ _
      refine @answered_append _ _ [] _ (undos.trans (List.append_nil _).symm) fun wanted => ?_
      rw [unwanted] at wanted
      cases wanted
    · intro w _ hw
      have rest := h.kept_moved (moved_set here hc) hw (by
        intro d hd
        cases here.symm.trans hd
        exact ⟨(by rintro ⟨⟩), (by rintro _ ⟨⟩)⟩)
      refine rest.imp_left fun wanted => ?_
      rw [unwanted] at wanted
      cases wanted
    · change ∀ w, _ → w ∈ (window.elim s s.closeWindow).closing ∨ (window.elim s s.closeWindow).handle = some w
      rw [closing, handle]
      exact fun _ h => h
    · intro d w hd at_launch
      cases here.symm.trans hd
      cases at_launch

theorem Current.tick (h : Current cur s) (now : Nat) : Current cur { s with now } :=
  ⟨h.bound, h.handle, h.fits, fun i c hc => (h.placed i c hc).keep (Or.inl rfl) (fun hi => hi) (fun _ hu => hu)
    fun _ answered => answered, h.kept, h.windows, h.distinct, h.allowed⟩

/-- Whoever is in the `close` of `expireOpening` has the lock, and the flag is cleared. -/
structure State.Held (s : State) : Prop where
  flag : s.locked = true → s.found.desired = false
  owner : ∀ (i : Nat) (c : Call) (w : Option Nat), s.calls[i]? = some c → c.pc = .expiring w → s.locked = true
  single : ∀ (i j : Nat) (c d : Call) (v w : Option Nat), s.calls[i]? = some c → s.calls[j]? = some d →
    c.pc = .expiring v → d.pc = .expiring w → i = j

theorem State.Held.moved (h : s.Held) {k : Nat} {c : Call} (m : Moved s t k c)
    (concluded : ∀ w, c.pc ≠ .expiring w)
    (locked : t.locked = s.locked) (flag : s.locked = true → t.found.desired = s.found.desired) : t.Held := by
  have back : ∀ (i : Nat) (d : Call) (w : Option Nat), t.calls[i]? = some d → d.pc = .expiring w →
      s.calls[i]? = some d := by
    intro i d w hd expiring
    rcases m.cases hd with ⟨rfl, rfl⟩ | ⟨_, old⟩
    · exact absurd expiring (concluded w)
    · exact old
  refine ⟨?_, ?_, ?_⟩
  · intro taken
    rw [locked] at taken
    rw [flag taken]
    exact h.flag taken
  · intro i d w hd expiring
    rw [locked]
    exact h.owner i d w (back i d w hd expiring) expiring
  · intro i j d e v w hd he first second
    exact h.single i j d e v w (back i d v hd first) (back j e w he second) first second

theorem State.Held.expire (h : s.Held) (free : s.locked = false) (request : Request) :
    (s.expire request s.found).Held := by
  have m : Moved s (s.expire request s.found) s.calls.length ⟨request, .expiring s.handle⟩ := moved_add rfl
  have here : ∀ (i : Nat) (d : Call) (w : Option Nat), (s.expire request s.found).calls[i]? = some d →
      d.pc = .expiring w → i = s.calls.length := by
    intro i d w hd expiring
    rcases m.cases hd with ⟨rfl, rfl⟩ | ⟨_, old⟩
    · rfl
    · rw [h.owner i d w old expiring] at free
      cases free
  refine ⟨fun _ => rfl, fun _ _ _ _ _ => rfl, ?_⟩
  intro i j d e v w hd he first second
  rw [here i d v hd first, here j e w he second]

theorem State.Held.begin (h : s.Held) (free : s.locked = false) (request : Request) :
    (begin s request).Held := by
  have quiet : ∀ {t : State} {c : Call}, t.calls = s.calls ++ [c] → (∀ w, c.pc ≠ .expiring w) → t.locked = s.locked →
      t.Held := by
    intro t c calls concluded locked
    refine h.moved (moved_add calls) concluded locked ?_
    intro taken
    rw [free] at taken
    cases taken
  rcases begin_cases s request with ⟨_, ht⟩ | ⟨_, ht⟩ | ⟨cause, _, ht⟩ | ⟨state, answer, ht, _⟩
  · rw [ht]
    exact h.expire free request
  · rw [ht]
    exact quiet rfl (by rintro _ ⟨⟩) rfl
  · rw [ht]
    exact quiet rfl (by rintro _ ⟨⟩) rfl
  · rw [ht]
    exact quiet rfl (by rintro _ ⟨⟩) rfl

theorem State.Held.expired (h : s.Held) {k : Nat} {request : Request} {window : Option Nat}
    (here : s.calls[k]? = some ⟨request, .expiring window⟩) :
    (expiredStep s k ⟨request, .expiring window⟩ window).Held := by
  obtain ⟨pc, hc, place⟩ := expiredStep_calls s k request window
  have concluded : ∀ w, pc ≠ .expiring w := by
    rcases place with ⟨_, rfl⟩ | ⟨_, answer, rfl⟩ <;> rintro _ ⟨⟩
  have quiet : ∀ (i : Nat) (d : Call) (w : Option Nat),
      (expiredStep s k ⟨request, .expiring window⟩ window).calls[i]? = some d → d.pc ≠ .expiring w := by
    intro i d w hd expiring
    rcases (moved_set here hc).cases hd with ⟨rfl, rfl⟩ | ⟨other, old⟩
    · exact concluded w expiring
    · exact other (h.single i k d _ w window old here expiring rfl)
  refine ⟨(by rintro ⟨⟩), ?_, ?_⟩
  · intro i d w hd expiring
    exact absurd expiring (quiet i d w hd)
  · intro i j d e v w hd _ expiring
    exact absurd expiring (quiet i d v hd)

/-- One step whose show, if it launches one, waits for the earlier requests. -/
theorem current_step {label : Label} (h : (∃ cur, Current cur s) ∧ s.Held) (exclusive : s.Exclusive label)
    (ht : step s label = some t) : (∃ cur, Current cur t) ∧ t.Held := by
  obtain ⟨⟨cur, h⟩, held⟩ := h
  cases label with
  | request request =>
    simp only [step] at ht
    split at ht
    next => cases ht
    next free =>
      cases ht
      exact ⟨h.begin request exclusive, held.begin (by simpa using free) request⟩
  | expired k =>
    simp only [step] at ht
    split at ht
    next here =>
      cases ht
      have unwanted := held.flag (held.owner k _ _ here rfl)
      exact ⟨h.expired here exclusive unwanted, held.expired here⟩
    next => cases ht
  | opened k =>
    have ht' := ht
    simp only [step] at ht
    split at ht
    next here =>
      cases ht
      exact ⟨⟨cur, h.opened here ht'⟩, held.moved (moved_set here rfl) nofun rfl fun _ => rfl⟩
    next => cases ht
  | recorded k =>
    have ht' := ht
    simp only [step] at ht
    split at ht
    next here =>
      cases ht
      exact ⟨⟨cur, h.recorded here ht'⟩, held.moved (moved_set here rfl) nofun rfl fun _ => rfl⟩
    next => cases ht
  | launchFails k =>
    have ht' := ht
    simp only [step] at ht
    split at ht
    next here =>
      cases ht
      exact ⟨⟨cur, h.launchFails here ht'⟩, held.moved (moved_set here rfl) nofun rfl fun _ => rfl⟩
    next => cases ht
  | launchError k =>
    simp only [step] at ht
    split at ht
    next here =>
      split at ht
      next => cases ht
      next free =>
        cases ht
        refine ⟨⟨cur, h.launchError here⟩, held.moved (c := ⟨_, .returned .failed⟩) (moved_set here rfl) nofun rfl ?_⟩
        exact fun taken => absurd taken free
    next => cases ht
  | check k =>
    have ht' := ht
    simp only [step] at ht
    split at ht
    next here =>
      split at ht
      next => cases ht
      next free =>
        cases ht
        refine ⟨⟨cur, h.check here ht'⟩, held.moved (moved_set here rfl) ?_ rfl fun taken => absurd taken free⟩
        intro w
        dsimp only
        split <;> exact nofun
    next => cases ht
  | close k =>
    have ht' := ht
    simp only [step] at ht
    split at ht
    next here =>
      cases ht
      refine ⟨⟨cur, h.close here ht'⟩, held.moved (moved_set here rfl) ?_ rfl fun _ => rfl⟩
      intro w
      cases s.handle <;> exact nofun
    next => cases ht
  | closed k =>
    have ht' := ht
    simp only [step] at ht
    split at ht
    next here =>
      cases ht
      exact ⟨⟨cur, h.closed here ht'⟩, held.moved (moved_set here rfl) nofun rfl fun _ => rfl⟩
    next => cases ht
  | tick now =>
    simp only [step] at ht
    split at ht
    next =>
      cases ht
      exact ⟨⟨cur, h.tick now⟩, held.flag, held.owner, held.single⟩
    next => cases ht

theorem current_initial : (∃ cur, Current cur State.initial) ∧ State.initial.Held := by
  refine ⟨⟨none, nofun, nofun, fits_new none, ?_, nofun, ?_, List.nodup_nil, ?_⟩, nofun, ?_, ?_⟩
  all_goals simp [State.initial]

theorem current_run {labels : List Label} (run : exec step State.initial labels = some s)
    (exclusive : Along step State.Exclusive State.initial labels) : (∃ cur, Current cur s) ∧ s.Held := by
  refine @exec_preserves _ _ step State.Exclusive (fun s => (∃ cur, Current cur s) ∧ s.Held) ?_ _ _ _
    current_initial run exclusive
  intro s label t h exclusive ht
  exact current_step h exclusive ht

end

/-- A show is undone only by what is its own to answer for. -/
theorem shows_are_undone_by_their_own {labels : List Label} {s : State}
    (run : exec step State.initial labels = some s)
    (exclusive : Along step State.Exclusive State.initial labels) :
    ∀ undo ∈ s.undos, undo.Allowed s.undos := by
  obtain ⟨⟨cur, current⟩, -⟩ := current_run run exclusive
  exact current.allowed

/-- Two shows in turn: the socket of the first one goes, the second one is hidden. -/
def twoViewers : List Label :=
  [.request .show, .opened 0, .recorded 0, .check 0, .request (.register 7), .request (.unregister 7), .close 2,
    .closed 2, .request .show, .opened 3, .recorded 3, .check 3, .request .hide, .close 4, .closed 4]

theorem two_viewers_are_undone_by_their_own : ∃ s, exec step State.initial twoViewers = some s ∧
    s.undos.length = 4 ∧ ∀ undo ∈ s.undos, undo.Allowed s.undos := by
  have run : (exec step State.initial twoViewers).any (fun s => s.undos.length = 4) = true := by decide
  obtain ⟨s, run, undone⟩ := (Option.any_eq_true _ _).mp run
  exact ⟨s, run, by simpa using undone, shows_are_undone_by_their_own run (by decide)⟩

/-- The disconnect of the first viewer closes the window of the second, and the failed launch of a hidden show
clears the flag of the next one. -/
theorem later_show_is_undone_by_earlier_viewer :
    (∃ s, exec step State.initial
        [.request .show, .opened 0, .recorded 0, .check 0, .request (.register 7), .request (.unregister 7),
          .request .show, .opened 3, .recorded 3, .check 3, .close 2] = some s ∧
      ∃ undo ∈ s.undos, undo = ⟨3, .disconnect (some 0)⟩ ∧ ¬ undo.Allowed s.undos) ∧
    ∃ s, exec step State.initial
        [.request .show, .request .hide, .close 1, .request .show, .opened 2, .launchFails 0,
          .launchError 0] = some s ∧
      ∃ undo ∈ s.undos, undo = ⟨2, .failure 0⟩ ∧ ¬ undo.Allowed s.undos := by
  refine ⟨⟨_, rfl, ⟨3, .disconnect (some 0)⟩, by decide, rfl, ?_⟩, _, rfl, ⟨2, .failure 0⟩, by decide, rfl, ?_⟩
  · intro own
    cases own
  · intro own
    cases own

end TermLinks.Viewer
