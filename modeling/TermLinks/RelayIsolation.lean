import TermLinks.RelaySteps

namespace TermLinks.Relay

def Happening.socket : Happening → Nat
  | .arrived i _ _ => i
  | .sent i _ _ => i

def Happening.attachment : Happening → Attachment
  | .arrived _ a _ => a
  | .sent _ a _ => a

/-- The frames sent on a socket, in order. -/
def framesTo (i : Nat) (trace : List Happening) : List Frame :=
  trace.filterMap fun
    | .sent j _ frame => if j = i then some frame else none
    | .arrived _ _ _ => none

/-- The data of the `e2e_from_browser` messages sent for a channel. -/
def forwarded (channel : String) (trace : List Happening) : List String :=
  trace.filterMap fun
    | .sent _ _ (.json (.fromBrowser id data)) => if id = channel then some data else none
    | _ => none

/-- The texts that arrived on the browser sockets of a channel. -/
def heardFrom (channel : String) (trace : List Happening) : List String :=
  trace.filterMap fun
    | .arrived _ (.browser c) (.text data) => if c = channel then some data else none
    | _ => none

/-- The texts passed on to the browser sockets of a channel. -/
def delivered (channel : String) (trace : List Happening) : List String :=
  trace.filterMap fun
    | .sent _ (.browser c) (.text data) => if c = channel then some data else none
    | _ => none

/-- The data of the `e2e_to_browser` messages of connectors for a channel. -/
def addressedTo (channel : String) (trace : List Happening) : List String :=
  trace.filterMap fun
    | .arrived _ .connector (.text data) =>
      match relayed data with
      | some message => if message.id = channel then some message.data else none
      | none => none
    | _ => none

/-- A frame that may go to the sockets of a role. -/
def Fits : Attachment → Frame → Prop
  | .connector, frame => ∃ message, frame = .json message
  | .browser channel, frame => frame = .json (.bridgeReady channel) ∨ ∃ data, frame = .text data

/-- What holds of the sockets between events. -/
structure Exclusive (σ : State) : Prop where
  listed : ∀ s ∈ σ.sockets, s.isOpen → s.listed
  one : ∀ {i j : Nat} {s t : Socket}, σ.sockets[i]? = some s → σ.sockets[j]? = some t → s.attachment = .connector →
    t.attachment = .connector → s.isOpen → t.isOpen → i = j
  eight : (σ.sockets.filter Socket.ofBrowser).length ≤ maxBrowserSockets
  announced : ∀ {k b : Nat} {s t : Socket} {channel : String}, σ.sockets[k]? = some s → σ.sockets[b]? = some t →
    s.attachment = .connector → t.attachment = .browser channel → s.isOpen → t.isOpen →
    .sent k .connector (.json (.channelOpen channel)) ∈ σ.trace

/-- What holds of the frames sent. -/
structure Greeted (σ : State) : Prop where
  known : ∀ h ∈ σ.trace, ∃ s, σ.sockets[h.socket]? = some s ∧ s.attachment = h.attachment
  fitting : ∀ {i : Nat} {a : Attachment} {frame : Frame}, .sent i a frame ∈ σ.trace → Fits a frame
  greeting : ∀ {i : Nat} {s : Socket} {channel : String}, σ.sockets[i]? = some s →
    s.attachment = .browser channel → (framesTo i σ.trace = [] ∧ s.isOpen = false) ∨
      ∃ texts : List String, framesTo i σ.trace = .json (.bridgeReady channel) :: texts.map .text

/-- Both directions of every channel pass on what arrived, in order and once. -/
structure Faithful (trace : List Happening) : Prop where
  outward : ∀ channel, (forwarded channel trace).Sublist (heardFrom channel trace)
  inward : ∀ channel, (delivered channel trace).Sublist (addressedTo channel trace)

theorem faithful_append {a b : List Happening} (ha : Faithful a) (hb : Faithful b) : Faithful (a ++ b) := by
  constructor
  · intro channel
    have both := (ha.outward channel).append (hb.outward channel)
    simpa [forwarded, heardFrom, List.filterMap_append] using both
  · intro channel
    have both := (ha.inward channel).append (hb.inward channel)
    simpa [delivered, addressedTo, List.filterMap_append] using both

/-- Sends of the relay's own messages concern no stream. -/
theorem faithful_of_own {block : List Happening}
    (h : ∀ x ∈ block, ∃ i a message, x = .sent i a (.json message) ∧
      ∀ id data, message ≠ .fromBrowser id data) :
    Faithful block := by
  constructor
  · intro channel
    have nothing : forwarded channel block = [] := by
      unfold forwarded
      rw [List.filterMap_eq_nil_iff]
      intro x mem
      obtain ⟨i, a, message, rfl, other⟩ := h x mem
      cases message with
      | fromBrowser id data => exact absurd rfl (other id data)
      | _ => rfl
    rw [nothing]
    exact List.nil_sublist _
  · intro channel
    have nothing : delivered channel block = [] := by
      unfold delivered
      rw [List.filterMap_eq_nil_iff]
      intro x mem
      obtain ⟨i, a, message, rfl, -⟩ := h x mem
      cases a <;> rfl
    rw [nothing]
    exact List.nil_sublist _

theorem faithful_block {σ : State} {block : List Happening} (h : Block σ block) : Faithful block := by
  cases h with
  | nothing => exact ⟨fun _ => List.Sublist.refl _, fun _ => List.Sublist.refl _⟩
  | heard here message =>
    exact ⟨fun _ => List.nil_sublist _, fun _ => List.nil_sublist _⟩
  | forwarded here role connector proper =>
    refine ⟨fun channel => ?_, fun _ => List.nil_sublist _⟩
    simp [forwarded, heardFrom, List.filterMap_cons]
  | delivered here role parsed browser =>
    refine ⟨fun _ => List.nil_sublist _, fun channel => ?_⟩
    simp [delivered, addressedTo, List.filterMap_cons, parsed]
  | pong here role data =>
    exact ⟨fun _ => List.nil_sublist _, fun _ => List.nil_sublist _⟩
  | notified connector proper =>
    exact faithful_of_own (by simp)

theorem faithful_advance {σ σ' : State} (h : Advance σ σ') (before : Faithful σ.trace) :
    Faithful σ'.trace := by
  cases h with
  | handled softer shape => exact faithful_append before (faithful_block shape)
  | connected softer shut shape =>
    refine faithful_append before (faithful_of_own ?_)
    rcases shape with rfl | rfl <;> simp
  | greeted connector room valid => exact faithful_append before (faithful_of_own (by simp))
  | refused connector room valid role shut shape =>
    refine faithful_append before (faithful_of_own ?_)
    rcases shape with rfl | rfl <;> simp

theorem ofBrowser_of_softer {s s' : Socket} (h : Softer s s') (theirs : s'.ofBrowser) : s.ofBrowser := by
  simp only [Socket.ofBrowser, Bool.and_eq_true] at theirs ⊢
  have role := theirs.2
  rw [h.attachment] at role
  exact ⟨h.listed theirs.1, role⟩

theorem count_of_allSofter {before after : List Socket} (h : AllSofter before after) :
    (after.filter Socket.ofBrowser).length ≤ (before.filter Socket.ofBrowser).length := by
  induction h with
  | nil => exact Nat.le_refl _
  | @cons s s' rest rest' head _ ih =>
    by_cases theirs : s'.ofBrowser
    · have mine := ofBrowser_of_softer head theirs
      rw [List.filter_cons_of_pos theirs, List.filter_cons_of_pos mine, List.length_cons, List.length_cons]
      omega
    · rw [List.filter_cons_of_neg theirs]
      have grows : (rest.filter Socket.ofBrowser).length ≤ ((s :: rest).filter Socket.ofBrowser).length :=
        ((List.sublist_cons_self s rest).filter _).length_le
      omega

theorem exclusive_softer {σ : State} {sockets : List Socket} {trace : List Happening} (h : Exclusive σ)
    (softer : AllSofter σ.sockets sockets) (kept : ∀ x ∈ σ.trace, x ∈ trace) :
    Exclusive ⟨sockets, trace⟩ := by
  refine ⟨?_, ?_, ?_, ?_⟩
  · intro s' mem opened
    obtain ⟨i, here⟩ := List.mem_iff_getElem?.mp mem
    obtain ⟨s, before, soft⟩ := softer.getElem? here
    obtain ⟨was, same⟩ := soft.opened opened
    rw [same]
    exact h.listed s (List.mem_of_getElem? before) was
  · intro i j s' t' hi hj roles rolet opens opent
    obtain ⟨s, before, softs⟩ := softer.getElem? hi
    obtain ⟨t, beforet, softt⟩ := softer.getElem? hj
    exact h.one before beforet (softs.attachment.symm.trans roles) (softt.attachment.symm.trans rolet)
      (softs.opened opens).1 (softt.opened opent).1
  · have fewer := count_of_allSofter softer
    have bound := h.eight
    exact Nat.le_trans fewer bound
  · intro k b s' t' channel hk hb roles rolet opens opent
    obtain ⟨s, before, softs⟩ := softer.getElem? hk
    obtain ⟨t, beforet, softt⟩ := softer.getElem? hb
    exact kept _ (h.announced before beforet (softs.attachment.symm.trans roles) (softt.attachment.symm.trans rolet)
      (softs.opened opens).1 (softt.opened opent).1)

/-- A socket of the list with one more at its end. -/
theorem getElem?_concat {sockets : List Socket} {new s : Socket} {i : Nat}
    (h : (sockets ++ [new])[i]? = some s) : sockets[i]? = some s ∨ i = sockets.length ∧ s = new := by
  by_cases bound : i < sockets.length
  · rw [List.getElem?_append_left bound] at h
    exact Or.inl h
  · rw [List.getElem?_append_right (by omega)] at h
    have zero : i - sockets.length = 0 := by
      have small := (List.getElem?_eq_some_iff.mp h).1
      rw [List.length_singleton] at small
      omega
    rw [zero] at h
    exact Or.inr ⟨by omega, (Option.some.inj h).symm⟩

theorem exclusive_advance {σ σ' : State} (h : Advance σ σ') (before : Exclusive σ) : Exclusive σ' := by
  cases h with
  | handled softer shape => exact exclusive_softer before softer fun x mem => List.mem_append_left _ mem
  | @connected sockets block softer shut shape =>
    have rest : Exclusive ⟨sockets, σ.trace ++ block⟩ :=
      exclusive_softer before softer fun x mem => List.mem_append_left _ mem
    have closed : ∀ s ∈ sockets, s.isOpen = false := by
      intro s mem
      by_contra opened
      have opened : s.isOpen = true := by simpa using opened
      have listed := rest.listed s mem opened
      rw [shut s mem listed] at opened
      exact absurd opened (by simp)
    have last : ∀ {i : Nat} {s : Socket}, (sockets ++ [⟨.connector, true, none, false⟩])[i]? = some s → s.isOpen →
        i = sockets.length ∧ s = ⟨.connector, true, none, false⟩ := by
      intro i s here opened
      rcases getElem?_concat here with old | new
      · rw [closed s (List.mem_of_getElem? old)] at opened
        exact absurd opened (by simp)
      · exact new
    refine ⟨?_, ?_, ?_, ?_⟩
    · intro s mem opened
      obtain ⟨i, here⟩ := List.mem_iff_getElem?.mp mem
      obtain ⟨-, rfl⟩ := last here opened
      rfl
    · intro i j s t hi hj _ _ opens opent
      have first := (last hi opens).1
      have second := (last hj opent).1
      omega
    · have same := rest.eight
      simpa [List.filter_append, Socket.ofBrowser, Attachment.isBrowser] using same
    · intro k b s t channel _ hb _ rolet _ opent
      obtain ⟨-, rfl⟩ := last hb opent
      simp at rolet
  | @greeted k connector room channel valid =>
    obtain ⟨s, here, -, role, opened⟩ := find_eq_some connector
    refine ⟨?_, ?_, ?_, ?_⟩
    · intro t mem isOpen
      rcases List.mem_append.mp mem with old | new
      · exact before.listed t old isOpen
      · rw [List.mem_singleton.mp new]
    · intro i j t u hi hj rolet roleu opent openu
      rcases getElem?_concat hi with oldi | ⟨-, rfl⟩
      · rcases getElem?_concat hj with oldj | ⟨-, rfl⟩
        · exact before.one oldi oldj rolet roleu opent openu
        · simp at roleu
      · simp at rolet
    · have one : [(⟨.browser channel, true, none, false⟩ : Socket)].filter Socket.ofBrowser =
        [⟨.browser channel, true, none, false⟩] := rfl
      rw [List.filter_append, List.length_append, one, List.length_singleton]
      exact room
    · intro k' b t u c hk hb rolet roleu opent openu
      rcases getElem?_concat hk with oldk | ⟨-, rfl⟩
      · rcases getElem?_concat hb with oldb | ⟨-, rfl⟩
        · exact List.mem_append_left _ (before.announced oldk oldb rolet roleu opent openu)
        · have same : k' = k := before.one oldk here rolet role opent opened
          cases roleu
          rw [same]
          exact List.mem_append_right _ List.mem_cons_self
      · simp at rolet
  | @refused k new block connector room channel valid role shut shape =>
    refine ⟨?_, ?_, ?_, ?_⟩
    · intro t mem isOpen
      rcases List.mem_append.mp mem with old | added
      · exact before.listed t old isOpen
      · rw [List.mem_singleton.mp added, shut] at isOpen
        exact absurd isOpen (by simp)
    · intro i j t u hi hj rolet roleu opent openu
      rcases getElem?_concat hi with oldi | ⟨-, rfl⟩
      · rcases getElem?_concat hj with oldj | ⟨-, rfl⟩
        · exact before.one oldi oldj rolet roleu opent openu
        · simp [role] at roleu
      · simp [role] at rolet
    · have one : ([new].filter Socket.ofBrowser).length ≤ 1 := List.length_filter_le _ [new]
      rw [List.filter_append, List.length_append]
      omega
    · intro k' b t u c hk hb rolet roleu opent openu
      rcases getElem?_concat hk with oldk | ⟨-, rfl⟩
      · rcases getElem?_concat hb with oldb | ⟨-, rfl⟩
        · exact List.mem_append_left _ (before.announced oldk oldb rolet roleu opent openu)
        · rw [shut] at openu
          exact absurd openu (by simp)
      · simp [role] at rolet

theorem framesTo_append (i : Nat) (a b : List Happening) :
    framesTo i (a ++ b) = framesTo i a ++ framesTo i b :=
  List.filterMap_append

theorem framesTo_absent {i : Nat} {trace : List Happening} (h : ∀ x ∈ trace, x.socket ≠ i) :
    framesTo i trace = [] := by
  unfold framesTo
  rw [List.filterMap_eq_nil_iff]
  intro x mem
  have other := h x mem
  cases x with
  | arrived j a message => rfl
  | sent j a frame => exact if_neg other

theorem block_known {σ : State} {block : List Happening} (h : Block σ block) :
    ∀ x ∈ block, ∃ s, σ.sockets[x.socket]? = some s ∧ s.attachment = x.attachment := by
  intro x mem
  cases h with
  | nothing => simp at mem
  | heard here message =>
    rw [List.mem_singleton.mp mem]
    exact ⟨_, here, rfl⟩
  | forwarded here role connector proper =>
    obtain ⟨t, there, -, role', -⟩ := find_eq_some connector
    simp only [List.mem_cons, List.not_mem_nil, or_false] at mem
    rcases mem with rfl | rfl
    · exact ⟨_, here, role⟩
    · exact ⟨t, there, role'⟩
  | delivered here role parsed browser =>
    obtain ⟨t, there, -, role', -⟩ := find_eq_some browser
    simp only [List.mem_cons, List.not_mem_nil, or_false] at mem
    rcases mem with rfl | rfl
    · exact ⟨_, here, role⟩
    · exact ⟨t, there, role'⟩
  | pong here role data =>
    simp only [List.mem_cons, List.not_mem_nil, or_false] at mem
    rcases mem with rfl | rfl <;> exact ⟨_, here, role⟩
  | notified connector proper =>
    obtain ⟨t, there, -, role', -⟩ := find_eq_some connector
    rw [List.mem_singleton.mp mem]
    exact ⟨t, there, role'⟩

theorem block_fitting {σ : State} {block : List Happening} (h : Block σ block) {i : Nat} {a : Attachment}
    {frame : Frame} (mem : .sent i a frame ∈ block) : Fits a frame := by
  cases h with
  | nothing => simp at mem
  | heard here message => simp at mem
  | forwarded here role connector proper =>
    simp only [List.mem_cons, List.not_mem_nil, or_false, reduceCtorEq, false_or, Happening.sent.injEq] at mem
    obtain ⟨-, rfl, rfl⟩ := mem
    exact ⟨_, rfl⟩
  | delivered here role parsed browser =>
    simp only [List.mem_cons, List.not_mem_nil, or_false, reduceCtorEq, false_or, Happening.sent.injEq] at mem
    obtain ⟨-, rfl, rfl⟩ := mem
    exact Or.inr ⟨_, rfl⟩
  | pong here role data =>
    simp only [List.mem_cons, List.not_mem_nil, or_false, reduceCtorEq, false_or, Happening.sent.injEq] at mem
    obtain ⟨-, rfl, rfl⟩ := mem
    exact ⟨_, rfl⟩
  | notified connector proper =>
    simp only [List.mem_singleton, Happening.sent.injEq] at mem
    obtain ⟨-, rfl, rfl⟩ := mem
    exact ⟨_, rfl⟩

/-- On a browser socket a block sends nothing, or one text while the socket is open. -/
theorem block_texts {σ : State} {block : List Happening} (h : Block σ block) {i : Nat} {s : Socket}
    {channel : String} (here : σ.sockets[i]? = some s) (role : s.attachment = .browser channel) :
    framesTo i block = [] ∨ s.isOpen ∧ ∃ data, framesTo i block = [.text data] := by
  have apart : ∀ {k : Nat}, σ.connector = some k → k ≠ i := by
    rintro k connector rfl
    obtain ⟨t, there, -, role', -⟩ := find_eq_some connector
    cases Option.some.inj (there.symm.trans here)
    rw [role] at role'
    simp at role'
  cases h with
  | nothing => exact Or.inl rfl
  | heard here message => exact Or.inl rfl
  | forwarded here role connector proper =>
    have other := apart connector
    exact Or.inl (by simp [framesTo, other])
  | @delivered j b t data message there _ parsed browser =>
    by_cases same : b = i
    · obtain ⟨u, found, -, -, opened⟩ := find_eq_some browser
      rw [same] at found
      cases Option.some.inj (found.symm.trans here)
      exact Or.inr ⟨opened, message.data, by simp [framesTo, same]⟩
    · exact Or.inl (by simp [framesTo, same])
  | @pong j t there role' data =>
    have other : j ≠ i := by
      rintro rfl
      cases Option.some.inj (there.symm.trans here)
      rw [role] at role'
      simp at role'
    exact Or.inl (by simp [framesTo, other])
  | notified connector proper =>
    have other := apart connector
    exact Or.inl (by simp [framesTo, other])

theorem known_softer {sockets sockets' : List Socket} (softer : AllSofter sockets sockets') {x : Happening}
    (h : ∃ s, sockets[x.socket]? = some s ∧ s.attachment = x.attachment) :
    ∃ s, sockets'[x.socket]? = some s ∧ s.attachment = x.attachment := by
  obtain ⟨s, here, role⟩ := h
  obtain ⟨s', after, soft⟩ := softer.stays here
  exact ⟨s', after, soft.attachment.trans role⟩

theorem greeted_handled {σ : State} {sockets : List Socket} {block : List Happening} (h : Greeted σ)
    (softer : AllSofter σ.sockets sockets) (shape : Block σ block) : Greeted ⟨sockets, σ.trace ++ block⟩ := by
  refine ⟨?_, ?_, ?_⟩
  · intro x mem
    rcases List.mem_append.mp mem with old | new
    · exact known_softer softer (h.known x old)
    · exact known_softer softer (block_known shape x new)
  · intro i a frame mem
    rcases List.mem_append.mp mem with old | new
    · exact h.fitting old
    · exact block_fitting shape new
  · intro i s' channel here role
    obtain ⟨s, before, soft⟩ := softer.getElem? here
    have was : s.attachment = .browser channel := soft.attachment.symm.trans role
    have texts := block_texts shape before was
    rw [framesTo_append]
    rcases h.greeting before was with ⟨none, shut⟩ | ⟨sent, eq⟩
    · rcases texts with nothing | ⟨opened, -⟩
      · refine Or.inl ⟨by rw [none, nothing, List.append_nil], ?_⟩
        by_contra opened
        have again := (soft.opened (by simpa using opened)).1
        rw [shut] at again
        exact absurd again (by simp)
      · rw [shut] at opened
        exact absurd opened (by simp)
    · rcases texts with nothing | ⟨-, data, one⟩
      · exact Or.inr ⟨sent, by rw [eq, nothing, List.append_nil]⟩
      · exact Or.inr ⟨sent ++ [data], by rw [eq, one, List.map_append]; rfl⟩

/-- One more socket, with the first sends that concern it. -/
theorem greeted_added {σ : State} {new : Socket} {block : List Happening} (h : Greeted σ)
    (sends : ∀ x ∈ block, ∃ i a message, x = .sent i a (.json message) ∧ Fits a (.json message) ∧
      (i = σ.sockets.length ∧ a = new.attachment ∨ ∃ s, σ.sockets[i]? = some s ∧ s.attachment = .connector ∧
        a = .connector))
    (first : ∀ channel, new.attachment = .browser channel →
      (framesTo σ.sockets.length block = [] ∧ new.isOpen = false) ∨
        framesTo σ.sockets.length block = [.json (.bridgeReady channel)]) :
    Greeted ⟨σ.sockets ++ [new], σ.trace ++ block⟩ := by
  have old_known : ∀ x ∈ σ.trace, x.socket ≠ σ.sockets.length := by
    intro x mem same
    obtain ⟨s, here, -⟩ := h.known x mem
    have bound := (List.getElem?_eq_some_iff.mp here).1
    omega
  refine ⟨?_, ?_, ?_⟩
  · intro x mem
    rcases List.mem_append.mp mem with old | added
    · obtain ⟨s, here, role⟩ := h.known x old
      have bound := (List.getElem?_eq_some_iff.mp here).1
      exact ⟨s, by rw [List.getElem?_append_left bound]; exact here, role⟩
    · obtain ⟨i, a, message, rfl, -, ⟨rfl, rfl⟩ | ⟨s, here, role, rfl⟩⟩ := sends x added
      · exact ⟨new, List.getElem?_concat_length, rfl⟩
      · have bound := (List.getElem?_eq_some_iff.mp here).1
        refine ⟨s, ?_, role⟩
        have same := @List.getElem?_append_left _ _ [new] _ bound
        exact same.trans here
  · intro i a frame mem
    rcases List.mem_append.mp mem with old | added
    · exact h.fitting old
    · obtain ⟨j, b, message, eq, fits, -⟩ := sends _ added
      cases eq
      exact fits
  · intro i s channel here role
    rw [framesTo_append]
    rcases getElem?_concat here with old | ⟨rfl, rfl⟩
    · have bound := (List.getElem?_eq_some_iff.mp old).1
      have nothing : framesTo i block = [] := by
        apply framesTo_absent
        intro x mem same
        obtain ⟨j, a, message, rfl, -, ⟨rfl, -⟩ | ⟨t, there, role', -⟩⟩ := sends x mem
        · have eq : σ.sockets.length = i := same
          omega
        · have eq : j = i := same
          rw [eq] at there
          cases Option.some.inj (there.symm.trans old)
          rw [role] at role'
          simp at role'
      rw [nothing, List.append_nil]
      exact h.greeting old role
    · have nothing := framesTo_absent old_known
      rw [nothing, List.nil_append]
      rcases first channel role with closed | greeted
      · exact Or.inl closed
      · exact Or.inr ⟨[], greeted⟩

theorem greeted_advance {σ σ' : State} (h : Advance σ σ') (before : Greeted σ) : Greeted σ' := by
  cases h with
  | handled softer shape => exact greeted_handled before softer shape
  | @connected sockets block softer shut shape =>
    have rest := greeted_handled before softer Block.nothing
    rw [List.append_nil] at rest
    have size := softer.length_eq
    refine greeted_added rest ?_ ?_
    · intro x mem
      rcases shape with rfl | rfl
      · simp at mem
      · rw [List.mem_singleton.mp mem]
        exact ⟨_, _, _, rfl, ⟨_, rfl⟩, Or.inl ⟨size, rfl⟩⟩
    · intro channel role
      simp at role
  | @greeted k connector room channel valid =>
    obtain ⟨s, here, -, role, -⟩ := find_eq_some connector
    have bound := (List.getElem?_eq_some_iff.mp here).1
    refine greeted_added before ?_ ?_
    · intro x mem
      simp only [List.mem_cons, List.not_mem_nil, or_false] at mem
      rcases mem with rfl | rfl
      · exact ⟨_, _, _, rfl, ⟨_, rfl⟩, Or.inr ⟨s, here, role, rfl⟩⟩
      · exact ⟨_, _, _, rfl, Or.inl rfl, Or.inl ⟨rfl, rfl⟩⟩
    · intro c role
      cases role
      have other : k ≠ σ.sockets.length := by omega
      exact Or.inr (by simp [framesTo, other])
  | @refused k new block connector room channel valid role shut shape =>
    obtain ⟨s, here, -, role', -⟩ := find_eq_some connector
    have bound := (List.getElem?_eq_some_iff.mp here).1
    refine greeted_added before ?_ ?_
    · intro x mem
      rcases shape with rfl | rfl
      · simp at mem
      · rw [List.mem_singleton.mp mem]
        exact ⟨_, _, _, rfl, ⟨_, rfl⟩, Or.inr ⟨s, here, role', rfl⟩⟩
    · intro c _
      have other : k ≠ σ.sockets.length := by omega
      refine Or.inl ⟨?_, shut⟩
      rcases shape with rfl | rfl
      · rfl
      · simp [framesTo, other]

theorem exclusive_initial : Exclusive initial := by
  refine ⟨by simp [initial], ?_, by simp [initial], ?_⟩
  · intro i j s t hi
    simp [initial] at hi
  · intro k b s t channel hk
    simp [initial] at hk

theorem greeted_initial : Greeted initial := by
  refine ⟨by simp [initial], ?_, ?_⟩
  · intro i a frame mem
    simp [initial] at mem
  · intro i s channel here
    simp [initial] at here

theorem relay_run {labels : List Label} {σ : State} (run : exec step initial labels = some σ) :
    Exclusive σ ∧ Greeted σ ∧ Faithful σ.trace := by
  have start : Exclusive initial ∧ Greeted initial ∧ Faithful initial.trace :=
    ⟨exclusive_initial, greeted_initial, fun _ => List.Sublist.refl _, fun _ => List.Sublist.refl _⟩
  have preserve : ∀ s label t, (Exclusive s ∧ Greeted s ∧ Faithful s.trace) → step s label = some t →
      Exclusive t ∧ Greeted t ∧ Faithful t.trace := by
    intro s label t ⟨exclusive, greeted, faithful⟩ stepped
    have moved := step_advance stepped
    exact ⟨exclusive_advance moved exclusive, greeted_advance moved greeted, faithful_advance moved faithful⟩
  exact exec_invariant preserve start run

/-- Isolation and routing, in every state that events lead to. -/
theorem relay_isolates_and_routes {labels : List Label} {σ : State} (run : exec step initial labels = some σ) :
    (∀ {i j : Nat} {s t : Socket}, σ.sockets[i]? = some s → σ.sockets[j]? = some t →
      s.attachment = .connector →
      t.attachment = .connector → s.isOpen → t.isOpen → i = j) ∧
    (σ.sockets.filter fun s => s.listed && s.attachment.isBrowser).length ≤ 8 ∧
    (∀ {k b : Nat} {s t : Socket} {channel : String}, σ.sockets[k]? = some s → σ.sockets[b]? = some t →
      s.attachment = .connector → t.attachment = .browser channel → s.isOpen → t.isOpen →
      .sent k .connector (.json (.channelOpen channel)) ∈ σ.trace) ∧
    (∀ x ∈ σ.trace, ∃ s, σ.sockets[x.socket]? = some s ∧ s.attachment = x.attachment) ∧
    (∀ {i : Nat} {a : Attachment} {id data : String},
      .sent i a (.json (.fromBrowser id data)) ∈ σ.trace → a = .connector) ∧
    (∀ {i : Nat} {s : Socket} {channel : String}, σ.sockets[i]? = some s → s.attachment = .browser channel →
      framesTo i σ.trace = [] ∨
        ∃ texts : List String, framesTo i σ.trace = .json (.bridgeReady channel) :: texts.map .text) ∧
    (∀ channel, (forwarded channel σ.trace).Sublist (heardFrom channel σ.trace)) ∧
    (∀ channel, (delivered channel σ.trace).Sublist (addressedTo channel σ.trace)) := by
  obtain ⟨exclusive, greeted, faithful⟩ := relay_run run
  refine ⟨exclusive.one, exclusive.eight, exclusive.announced, greeted.known, ?_, ?_, faithful.outward,
    faithful.inward⟩
  · intro i a id data mem
    have fits := greeted.fitting mem
    cases a with
    | connector => rfl
    | browser channel =>
      rcases fits with greeting | ⟨text, eq⟩
      · simp at greeting
      · simp at eq
  · intro i s channel here role
    rcases greeted.greeting here role with ⟨none, -⟩ | some
    · exact Or.inl none
    · exact Or.inr some

def exampleChannel : UUID := ⟨"0123abcd-0000-4000-8000-00000000beef", by decide⟩

def exampleUpgrade (pathname : String) : Request := ⟨"GET", pathname, some "websocket", some "authorized"⟩

/-- A connector, a browser that sends and receives a packet, and a second connector in the place of the first. -/
def exampleLabels : List Label :=
  [⟨[], .fetch (exampleUpgrade "/connector") exampleChannel⟩,
   ⟨[], .fetch (exampleUpgrade "/ws/bridge") exampleChannel⟩,
   ⟨[], .message 1 (.text "AAAA")⟩,
   ⟨[], .message 0 (.text
     "\x7b\"type\":\"e2e_to_browser\",\"id\":\"0123abcd-0000-4000-8000-00000000beef\",\"data\":\"BBBB\"\x7d")⟩,
   ⟨[], .fetch (exampleUpgrade "/connector") exampleChannel⟩,
   ⟨[], .close 0 1012 "Replaced by a new connector"⟩]

theorem relay_isolates_and_routes_example :
    ∃ σ, exec step initial exampleLabels = some σ ∧ forwarded exampleChannel.text σ.trace = ["AAAA"] ∧
      delivered exampleChannel.text σ.trace = ["BBBB"] ∧
      (forwarded exampleChannel.text σ.trace).Sublist (heardFrom exampleChannel.text σ.trace) ∧
      (delivered exampleChannel.text σ.trace).Sublist (addressedTo exampleChannel.text σ.trace) := by
  have run : (exec step initial exampleLabels).any (fun σ =>
      decide (forwarded exampleChannel.text σ.trace = ["AAAA"] ∧
        delivered exampleChannel.text σ.trace = ["BBBB"])) = true := by decide +kernel
  obtain ⟨σ, run, facts⟩ := (Option.any_eq_true _ _).mp run
  have facts := of_decide_eq_true facts
  obtain ⟨-, -, -, -, -, -, outward, inward⟩ := relay_isolates_and_routes run
  exact ⟨σ, run, facts.1, facts.2, outward _, inward _⟩

end TermLinks.Relay
