import TermLinks.ConnectorResources
import TermLinks.ConnectorTasks
import TermLinks.InnerMessages

namespace TermLinks.Connector

/-- The goroutine has still to end the resource, or to take it out of the maps. -/
def Pc.Keeps (c : Nat) (file : Bool) (r : Nat) : Pc → Prop
  | .handling _ c' handler => c' = c ∧ handler.keeps file = some r
  | .disposing c' rest _ => c' = c ∧ file = true ∧ .upload r ∈ rest
  | _ => False

/-- The channel is about to enter the table, or has just left it. -/
def Pc.Holds (c : Nat) (pc : Pc) : Prop := (∃ id, pc.awaits = some (id, c)) ∨ ∃ next, pc = .taking c next

/-- The goroutine still works on the channel. -/
def Pc.Concerns (c : Nat) : Pc → Prop
  | .replacing _ c' | .inserting _ c' | .found _ _ c' | .decrypting _ _ c' _ | .decrypted _ _ _ c' _
  | .accepted _ _ c' | .login _ c' | .granting _ c' | .handling _ c' _ => c' = c
  | .closing _ next => next.map Prod.snd = some c
  | .taking c' next | .disposing c' _ next => c' = c ∨ next.map Prod.snd = some c
  | .looking _ _ | .returned => False

/-- Every open resource is in the care of a goroutine, or of a `closeChannel` to come. -/
structure State.Accounted (s : State) : Prop where
  placed : ∀ (c : Nat) (channel : BrowserChannel), s.channels[c]? = some channel → channel.taken = false →
    (∃ id, s.table.lookup id = some c) ∨ ∃ (i : Nat) (a : Task), s.tasks[i]? = some a ∧ a.pc.Holds c
  kept : ∀ (c : Nat) (channel : BrowserChannel) (file : Bool) (r : Nat), s.channels[c]? = some channel →
    channel.Open file r → channel.Stored file r ∨ ∃ (i : Nat) (a : Task), s.tasks[i]? = some a ∧ a.pc.Keeps c file r

/-- The condition on a step of a handler. -/
def State.careful (s : State) : Label → Bool
  | .run k ok =>
    match s.tasks[k]? with
    | some ⟨_, .handling id c handler⟩ =>
      match s.channels[c]? with
      | some channel => handler.careful channel (s.table.lookup id).isSome ok
      | none => true
    | _ => true
  | _ => true

/-- The guard of a run. -/
def State.Careful (s : State) (label : Label) : Prop := s.careful label = true

instance (s : State) (label : Label) : Decidable (s.Careful label) :=
  inferInstanceAs (Decidable (s.careful label = true))

section

variable {s t : State} {k : Nat} {task : Task} {pc : Pc} {more : List Task}

theorem concerns_of_holds {c : Nat} (h : pc.Holds c) : pc.Concerns c := by
  rcases h with ⟨id, waits⟩ | ⟨next, rfl⟩
  · cases pc with
    | replacing id' c' => exact congrArg Prod.snd (Option.some.inj waits)
    | inserting id' c' => exact congrArg Prod.snd (Option.some.inj waits)
    | closing id' next =>
      have same : next = some (id, c) := waits
      rw [same]
      rfl
    | taking c' next =>
      have same : next = some (id, c) := waits
      rw [same]
      exact Or.inr rfl
    | disposing c' rest next =>
      have same : next = some (id, c) := waits
      rw [same]
      exact Or.inr rfl
    | _ => cases waits
  · exact Or.inl rfl

theorem concerns_of_keeps {c r : Nat} {file : Bool} (h : pc.Keeps c file r) : pc.Concerns c := by
  cases pc with
  | handling id c' handler => exact h.1
  | disposing c' rest next => exact Or.inl h.1
  | _ => cases h

theorem channel_after {c d : Nat} {channel after : BrowserChannel} (here : s.channels[c]? = some channel)
    {found : BrowserChannel} (h : (s.channels.set c after)[d]? = some found) :
    (d = c ∧ found = after) ∨ (d ≠ c ∧ s.channels[d]? = some found) := by
  have inside := (List.getElem?_eq_some_iff.mp here).1
  by_cases same : d = c
  · subst same
    rw [List.getElem?_set_self inside] at h
    exact Or.inl ⟨rfl, (Option.some.inj h).symm⟩
  · rw [List.getElem?_set_ne (Ne.symm same)] at h
    exact Or.inr ⟨same, h⟩

/-- What another goroutine held is still held. -/
theorem Advance.holds {c : Nat} (adv : Advance s t k task pc more)
    (h : ∃ (i : Nat) (a : Task), s.tasks[i]? = some a ∧ a.pc.Holds c) :
    task.pc.Holds c ∨ ∃ (i : Nat) (a : Task), t.tasks[i]? = some a ∧ a.pc.Holds c := by
  obtain ⟨i, a, ha, holds⟩ := h
  by_cases same : i = k
  · subst same
    cases adv.here.symm.trans ha
    exact Or.inl holds
  · exact Or.inr ⟨i, a, adv.other same ha, holds⟩

theorem Advance.keeps {c r : Nat} {file : Bool} (adv : Advance s t k task pc more)
    (h : ∃ (i : Nat) (a : Task), s.tasks[i]? = some a ∧ a.pc.Keeps c file r) :
    task.pc.Keeps c file r ∨ ∃ (i : Nat) (a : Task), t.tasks[i]? = some a ∧ a.pc.Keeps c file r := by
  obtain ⟨i, a, ha, keeps⟩ := h
  by_cases same : i = k
  · subst same
    cases adv.here.symm.trans ha
    exact Or.inl keeps
  · exact Or.inr ⟨i, a, adv.other same ha, keeps⟩

/-- A channel stays in the table or in the hands of a goroutine. -/
theorem placed_advance {c : Nat} (adv : Advance s t k task pc more)
    (h : (∃ id, s.table.lookup id = some c) ∨ ∃ (i : Nat) (a : Task), s.tasks[i]? = some a ∧ a.pc.Holds c)
    (table : ∀ id, s.table.lookup id = some c → (∃ id', t.table.lookup id' = some c) ∨ pc.Holds c)
    (holds : task.pc.Holds c → (∃ id, t.table.lookup id = some c) ∨ pc.Holds c) :
    (∃ id, t.table.lookup id = some c) ∨ ∃ (i : Nat) (a : Task), t.tasks[i]? = some a ∧ a.pc.Holds c := by
  have now : (∃ id, t.table.lookup id = some c) ∨ pc.Holds c →
      (∃ id, t.table.lookup id = some c) ∨ ∃ (i : Nat) (a : Task), t.tasks[i]? = some a ∧ a.pc.Holds c := by
    rintro (there | mine)
    · exact Or.inl there
    · exact Or.inr ⟨k, _, adv.now, mine⟩
  rcases h with ⟨id, there⟩ | held
  · exact now (table id there)
  · rcases adv.holds held with mine | other
    · exact now (holds mine)
    · exact Or.inr other

/-- What a step has to say about one channel, when the goroutine neither held it nor kept anything of it. -/
structure SameCare (channel other : BrowserChannel) : Prop where
  resources : other.resources = channel.resources
  uploads : SameUploads channel other

theorem SameCare.refl (channel : BrowserChannel) : SameCare channel channel := ⟨rfl, SameUploads.refl channel⟩

/-- A step that neither moves a channel nor touches a resource. -/
theorem State.Accounted.quiet (h : s.Accounted) (adv : Advance s t k task pc more) (table : t.table = s.table)
    (channels : ∀ (c : Nat) (channel : BrowserChannel), t.channels[c]? = some channel →
      ∃ before, s.channels[c]? = some before ∧ SameCare before channel)
    (awaits : pc.awaits = task.pc.awaits) (taking : ∀ c next, task.pc ≠ .taking c next)
    (keeps : ∀ c file r, ¬ task.pc.Keeps c file r) : t.Accounted := by
  refine ⟨?_, ?_⟩
  · intro c channel there closed
    obtain ⟨before, old, care⟩ := channels c channel there
    refine placed_advance adv (h.placed c before old (care.uploads.taken.symm.trans closed)) ?_ ?_
    · intro id found
      exact Or.inl ⟨id, by rw [table]; exact found⟩
    · rintro (⟨id, waits⟩ | ⟨next, taken⟩)
      · exact Or.inr (Or.inl ⟨id, awaits.trans waits⟩)
      · exact absurd taken (taking c next)
  · intro c channel file r there live
    obtain ⟨before, old, care⟩ := channels c channel there
    rcases h.kept c before file r old (open_of_resources care.resources live) with stored | kept
    · exact Or.inl (care.uploads.stored stored)
    · rcases adv.keeps kept with mine | other
      · exact absurd mine (keeps c file r)
      · exact Or.inr other

theorem same_channels : ∀ (c : Nat) (channel : BrowserChannel), s.channels[c]? = some channel →
    ∃ before, s.channels[c]? = some before ∧ SameCare before channel :=
  fun _ channel there => ⟨channel, there, SameCare.refl channel⟩

theorem care_setChannel {c : Nat} {channel after : BrowserChannel} (here : s.channels[c]? = some channel)
    (care : SameCare channel after) : ∀ (d : Nat) (found : BrowserChannel),
      (s.channels.set c after)[d]? = some found → ∃ before, s.channels[d]? = some before ∧
      SameCare before found := by
  intro d found there
  rcases channel_after here there with ⟨rfl, rfl⟩ | ⟨_, old⟩
  · exact ⟨channel, here, care⟩
  · exact ⟨found, old, SameCare.refl found⟩

/-- `openChannel` puts its channel into the table. -/
theorem State.Accounted.insert (h : s.Accounted) {id : String} {c : Nat}
    (adv : Advance s t k task .returned []) (channels : t.channels = s.channels)
    (table : t.table = s.table.insert id c) (free : s.table.lookup id = none)
    (awaits : task.pc.awaits = some (id, c)) (taking : ∀ c next, task.pc ≠ .taking c next)
    (keeps : ∀ c file r, ¬ task.pc.Keeps c file r) : t.Accounted := by
  refine ⟨?_, ?_⟩
  · intro d channel there closed
    rw [channels] at there
    refine placed_advance adv (h.placed d channel there closed) ?_ ?_
    · intro id' found
      have apart : id' ≠ id := by
        intro same
        rw [same, free] at found
        cases found
      exact Or.inl ⟨id', by rw [table, AList.lookup_insert_ne apart]; exact found⟩
    · rintro (⟨id', waits⟩ | ⟨next, taken⟩)
      · cases awaits.symm.trans waits
        exact Or.inl ⟨id, by rw [table]; exact AList.lookup_insert _⟩
      · exact absurd taken (taking d next)
  · intro d channel file r there live
    rw [channels] at there
    rcases h.kept d channel file r there live with stored | kept
    · exact Or.inl stored
    · rcases adv.keeps kept with mine | other
      · exact absurd mine (keeps d file r)
      · exact Or.inr other

/-- A handler's step on its own channel. -/
theorem State.Accounted.handle (h : s.Accounted) {id : String} {c : Nat} {channel : BrowserChannel}
    {handler : Handler} {reachable ok : Bool} (here : s.tasks[k]? = some task)
    (at_pc : task.pc = .handling id c handler)
    (there : s.channels[c]? = some channel) (careful : handler.careful channel reachable ok = true)
    (taken : (handler.move channel reachable ok).channel.taken = channel.taken) :
    (handleStep s k task id c (handler.move channel reachable ok)).Accounted := by
  have adv : Advance s (handleStep s k task id c (handler.move channel reachable ok)) k task _ _ := ⟨here, rfl⟩
  have covered : ∀ file r, (handler.move channel reachable ok).Covers file r → ∃ (i : Nat) (a : Task),
      (handleStep s k task id c (handler.move channel reachable ok)).tasks[i]? = some a ∧ a.pc.Keeps c file r := by
    rintro file r (⟨next, goes, keeps⟩ | ⟨spawned, starts, keeps⟩)
    · refine ⟨k, _, adv.now, ?_⟩
      rw [goes]
      exact ⟨rfl, keeps⟩
    · have new : (⟨false, .handling id c spawned⟩ : Task) ∈
          (handleStep s k task id c (handler.move channel reachable ok)).tasks := by
        refine adv.started ?_
        rw [starts]
        exact List.mem_singleton.mpr rfl
      obtain ⟨i, hi⟩ := List.mem_iff_getElem?.mp new
      exact ⟨i, _, hi, rfl, keeps⟩
  refine ⟨?_, ?_⟩
  · intro d found there' closed
    have old : ∃ before, s.channels[d]? = some before ∧ before.taken = false := by
      rcases channel_after there there' with ⟨rfl, rfl⟩ | ⟨_, old⟩
      · exact ⟨channel, there, taken.symm.trans closed⟩
      · exact ⟨found, old, closed⟩
    obtain ⟨before, old, closed⟩ := old
    refine placed_advance adv (h.placed d before old closed) (fun id' found => Or.inl ⟨id', found⟩) ?_
    rw [at_pc]
    rintro (⟨id', waits⟩ | ⟨next, taken⟩)
    · cases waits
    · cases taken
  · intro d found file r there' live
    rcases channel_after there there' with ⟨rfl, rfl⟩ | ⟨apart, old⟩
    · rcases kept_move careful live with covers | kept
      · exact Or.inr (covered file r covers)
      · have settled : (handler.move channel reachable ok).Covers file r ∨
            (handler.move channel reachable ok).channel.Stored file r →
            (handler.move channel reachable ok).channel.Stored file r ∨ ∃ (i : Nat) (a : Task),
              (handleStep s k task id d (handler.move channel reachable ok)).tasks[i]? = some a ∧
                a.pc.Keeps d file r := by
          rintro (covers | stored)
          · exact Or.inr (covered file r covers)
          · exact Or.inl stored
        rcases h.kept d channel file r there kept.was with stored | held
        · exact settled (kept.stored stored)
        · rcases adv.keeps held with mine | other
          · rw [at_pc] at mine
            exact settled (kept.kept mine.2)
          · exact Or.inr other
    · rcases h.kept d found file r old live with stored | held
      · exact Or.inl stored
      · rcases adv.keeps held with mine | other
        · rw [at_pc] at mine
          exact absurd mine.1.symm apart
        · exact Or.inr other

/-- The step of `closeChannel` that deletes the table entry. -/
theorem State.Accounted.unlink (h : s.Accounted) {id : String} {c : Nat} {next : Option (String × Nat)}
    (adv : Advance s t k task (.taking c next) []) (at_pc : task.pc = .closing id next)
    (there : s.table.lookup id = some c) (channels : t.channels = s.channels)
    (table : t.table = s.table.erase id) :
    t.Accounted := by
  refine ⟨?_, ?_⟩
  · intro d channel there' closed
    rw [channels] at there'
    refine placed_advance adv (h.placed d channel there' closed) ?_ ?_
    · intro id' found
      by_cases same : id' = id
      · subst same
        cases there.symm.trans found
        exact Or.inr (Or.inr ⟨next, rfl⟩)
      · exact Or.inl ⟨id', by rw [table, AList.lookup_erase_ne same]; exact found⟩
    · rw [at_pc]
      rintro (⟨id', waits⟩ | ⟨next', taken⟩)
      · exact Or.inr (Or.inl ⟨id', waits⟩)
      · cases taken
  · intro d channel file r there' live
    rw [channels] at there'
    rcases h.kept d channel file r there' live with stored | kept
    · exact Or.inl stored
    · rcases adv.keeps kept with mine | other
      · rw [at_pc] at mine
        cases mine
      · exact Or.inr other

theorem upload_mem_contents {channel : BrowserChannel} {id : String} {r : Nat}
    (h : channel.uploads.lookup id = some r) : .upload r ∈ channel.contents := by
  have entry : (⟨id, r⟩ : Sigma fun _ : String => Nat) ∈ channel.uploads.entries :=
    AList.mem_lookup_iff.mp h
  exact List.mem_append_right _ (List.mem_map.mpr ⟨_, entry, rfl⟩)

/-- The step of `closeChannel` that takes the maps. -/
theorem State.Accounted.take (h : s.Accounted) {c : Nat} {channel : BrowserChannel}
    {next : Option (String × Nat)}
    (adv : Advance s t k task (.disposing c channel.contents next) []) (at_pc : task.pc = .taking c next)
    (there : s.channels[c]? = some channel) (channels : t.channels = s.channels.set c channel.emptied)
    (table : t.table = s.table) : t.Accounted := by
  refine ⟨?_, ?_⟩
  · intro d found there' closed
    rw [channels] at there'
    rcases channel_after there there' with ⟨rfl, rfl⟩ | ⟨apart, old⟩
    · cases closed
    · refine placed_advance adv (h.placed d found old closed)
        (fun id found => Or.inl ⟨id, by rw [table]; exact found⟩) ?_
      rw [at_pc]
      rintro (⟨id', waits⟩ | ⟨next', taken⟩)
      · exact Or.inr (Or.inl ⟨id', waits⟩)
      · cases taken
        exact absurd rfl apart
  · intro d found file r there' live
    rw [channels] at there'
    have others : ∀ {channel : BrowserChannel}, s.channels[d]? = some channel → channel.Open file r →
        ¬ channel.Stored file r → ∃ (i : Nat) (a : Task), t.tasks[i]? = some a ∧ a.pc.Keeps d file r := by
      intro channel old live lost
      rcases h.kept d channel file r old live with stored | kept
      · exact absurd stored lost
      · rcases adv.keeps kept with mine | other
        · rw [at_pc] at mine
          cases mine
        · exact other
    rcases channel_after there there' with ⟨rfl, rfl⟩ | ⟨apart, old⟩
    · by_cases stored : channel.Stored file r
      · obtain ⟨kind, _, id, found⟩ := stored
        exact Or.inr ⟨k, _, adv.now, rfl, kind, upload_mem_contents found⟩
      · exact Or.inr (others there (open_of_resources rfl live) stored)
    · by_cases stored : found.Stored file r
      · exact Or.inl stored
      · exact Or.inr (others old live stored)

theorem open_dispose {channel : BrowserChannel} {item : Taken} {file : Bool} {r : Nat}
    (h : (channel.dispose item).Open file r) : channel.Open file r ∧ (file = true → item ≠ .upload r) := by
  cases item with
  | line line q => exact ⟨open_shut h, fun _ => nofun⟩
  | upload q =>
    obtain ⟨old, other⟩ := open_cleanup h
    refine ⟨old, ?_⟩
    intro kind same
    cases same
    exact other kind rfl

theorem sameUploads_dispose (channel : BrowserChannel) (item : Taken) :
    SameUploads channel (channel.dispose item) := by
  cases item with
  | line line q => exact sameUploads_shut channel line q
  | upload q => exact sameUploads_cleanup channel q

/-- One resource of a closed channel is disposed of. -/
theorem State.Accounted.dispose (h : s.Accounted) {c : Nat} {channel : BrowserChannel} {item : Taken}
    {rest : List Taken} {next : Option (String × Nat)} (adv : Advance s t k task (.disposing c rest next) [])
    (at_pc : task.pc = .disposing c (item :: rest) next) (there : s.channels[c]? = some channel)
    (channels : t.channels = s.channels.set c (channel.dispose item)) (table : t.table = s.table) :
    t.Accounted := by
  have uploads := sameUploads_dispose channel item
  refine ⟨?_, ?_⟩
  · intro d found there' closed
    rw [channels] at there'
    have old : ∃ before, s.channels[d]? = some before ∧ before.taken = false := by
      rcases channel_after there there' with ⟨rfl, rfl⟩ | ⟨_, old⟩
      · exact ⟨channel, there, uploads.taken.symm.trans closed⟩
      · exact ⟨found, old, closed⟩
    obtain ⟨before, old, closed⟩ := old
    refine placed_advance adv (h.placed d before old closed)
      (fun id found => Or.inl ⟨id, by rw [table]; exact found⟩) ?_
    rw [at_pc]
    rintro (⟨id', waits⟩ | ⟨next', taken⟩)
    · exact Or.inr (Or.inl ⟨id', waits⟩)
    · cases taken
  · intro d found file r there' live
    rw [channels] at there'
    have held : ∀ {before : BrowserChannel}, s.channels[d]? = some before → before.Open file r →
        (d = c → file = true → item ≠ .upload r) →
        before.Stored file r ∨ ∃ (i : Nat) (a : Task), t.tasks[i]? = some a ∧ a.pc.Keeps d file r := by
      intro before old live left
      rcases h.kept d before file r old live with stored | kept
      · exact Or.inl stored
      · rcases adv.keeps kept with mine | other
        · rw [at_pc] at mine
          obtain ⟨same, kind, listed⟩ := mine
          rcases List.mem_cons.mp listed with first | later
          · exact absurd first.symm (left same.symm kind)
          · exact Or.inr ⟨k, _, adv.now, same, kind, later⟩
        · exact Or.inr other
    rcases channel_after there there' with ⟨rfl, rfl⟩ | ⟨apart, old⟩
    · obtain ⟨old, left⟩ := open_dispose live
      rcases held there old fun _ => left with stored | kept
      · exact Or.inl (uploads.stored stored)
      · exact Or.inr kept
    · exact held old live fun same => absurd same apart

theorem accounted_taskStep {decrypt : String → UInt32 → String → Option Bytes}
    {unmarshal : Unmarshal} {ok : Bool} (h : s.Accounted) (orderly : s.Orderly) (here : s.tasks[k]? = some task)
    (careful : s.Careful (.run k ok)) (ht : taskStep decrypt unmarshal s k task ok task.pc = some t) :
    t.Accounted := by
  have quiet : ∀ {u : State} {pc : Pc}, u.tasks = s.tasks → u.table = s.table →
      (∀ (c : Nat) (channel : BrowserChannel), u.channels[c]? = some channel →
        ∃ before, s.channels[c]? = some before ∧ SameCare before channel) → pc.awaits = task.pc.awaits →
      (∀ c next, task.pc ≠ .taking c next) → (∀ c file r, ¬ task.pc.Keeps c file r) → (u.setPc k task pc).Accounted :=
    fun tasks table channels awaits taking keeps =>
      h.quiet (advance_setPc here tasks) table channels awaits taking keeps
  cases at_pc : task.pc with
  | replacing id c =>
    rw [at_pc] at ht
    simp only [taskStep] at ht
    split at ht
    next =>
      cases ht
      refine quiet rfl rfl same_channels ?_ ?_ ?_ <;> rw [at_pc]
      · rfl
      · rintro _ _ ⟨⟩
      · exact fun _ _ _ keeps => keeps
    next absent =>
      cases ht
      have free : s.table.lookup id = none := by simpa using absent
      refine h.insert ⟨here, (List.append_nil _).symm⟩ rfl rfl free ?_ ?_ ?_ <;> rw [at_pc]
      · rfl
      · rintro _ _ ⟨⟩
      · exact fun _ _ _ keeps => keeps
  | inserting id c =>
    rw [at_pc] at ht
    cases ht
    have free : s.table.lookup id = none := orderly.freed k task id here (by rw [at_pc]; rfl)
    refine h.insert ⟨here, (List.append_nil _).symm⟩ rfl rfl free ?_ ?_ ?_ <;> rw [at_pc]
    · rfl
    · rintro _ _ ⟨⟩
    · exact fun _ _ _ keeps => keeps
  | looking id packet =>
    rw [at_pc] at ht
    simp only [taskStep] at ht
    split at ht <;> cases ht <;> refine quiet rfl rfl same_channels ?_ ?_ ?_ <;> rw [at_pc]
    · rfl
    · rintro _ _ ⟨⟩
    · exact fun _ _ _ keeps => keeps
    · rfl
    · rintro _ _ ⟨⟩
    · exact fun _ _ _ keeps => keeps
  | found id packet c =>
    rw [at_pc] at ht
    obtain ⟨channel, there, rfl⟩ := Option.map_eq_some_iff.mp ht
    refine quiet rfl rfl same_channels ?_ ?_ ?_ <;> rw [at_pc]
    · rfl
    · rintro _ _ ⟨⟩
    · exact fun _ _ _ keeps => keeps
  | decrypting id packet c sequence =>
    have idle : (∀ c next, task.pc ≠ .taking c next) ∧ ∀ c file r, ¬ task.pc.Keeps c file r := by
      rw [at_pc]
      exact ⟨(by rintro _ _ ⟨⟩), fun _ _ _ keeps => keeps⟩
    rw [at_pc] at ht
    simp only [taskStep] at ht
    split at ht
    next => split at ht <;> cases ht <;> exact quiet rfl rfl same_channels (by rw [at_pc]; rfl) idle.1 idle.2
    next =>
      cases ht
      exact quiet rfl rfl same_channels (by rw [at_pc]; rfl) idle.1 idle.2
  | decrypted id packet plaintext c sequence =>
    have idle : (∀ c next, task.pc ≠ .taking c next) ∧ ∀ c file r, ¬ task.pc.Keeps c file r := by
      rw [at_pc]
      exact ⟨(by rintro _ _ ⟨⟩), fun _ _ _ keeps => keeps⟩
    rw [at_pc] at ht
    obtain ⟨channel, there, rfl⟩ := Option.map_eq_some_iff.mp ht
    split
    next => exact quiet rfl rfl same_channels (by rw [at_pc]; rfl) idle.1 idle.2
    next =>
      exact h.quiet ⟨here, (List.append_nil _).symm⟩ rfl (care_setChannel there ⟨rfl, ⟨rfl, rfl⟩⟩)
        (by rw [at_pc]; rfl) idle.1 idle.2
  | accepted id plaintext c =>
    have idle : (∀ c next, task.pc ≠ .taking c next) ∧ ∀ c file r, ¬ task.pc.Keeps c file r := by
      rw [at_pc]
      exact ⟨(by rintro _ _ ⟨⟩), fun _ _ _ keeps => keeps⟩
    rw [at_pc] at ht
    obtain ⟨channel, there, rfl⟩ := Option.map_eq_some_iff.mp ht
    split
    next => exact quiet rfl rfl same_channels (by rw [at_pc]; rfl) idle.1 idle.2
    next => exact quiet rfl rfl same_channels (by rw [at_pc]; rfl) idle.1 idle.2
    next => exact quiet rfl rfl same_channels (by rw [at_pc]; rfl) idle.1 idle.2
    next handler _ =>
      exact @State.Accounted.quiet _ _ _ _ .returned [⟨false, .handling id c handler⟩] h ⟨here, rfl⟩ rfl same_channels
        (by rw [at_pc]; rfl) idle.1 idle.2
    next => exact quiet rfl rfl same_channels (by rw [at_pc]; rfl) idle.1 idle.2
  | login id c =>
    have idle : (∀ c next, task.pc ≠ .taking c next) ∧ ∀ c file r, ¬ task.pc.Keeps c file r := by
      rw [at_pc]
      exact ⟨(by rintro _ _ ⟨⟩), fun _ _ _ keeps => keeps⟩
    rw [at_pc] at ht
    simp only [taskStep] at ht
    split at ht
    next =>
      cases ht
      exact h.quiet ⟨here, (List.append_nil _).symm⟩ rfl same_channels (by rw [at_pc]; rfl) idle.1 idle.2
    next =>
      cases ht
      exact quiet rfl rfl same_channels (by rw [at_pc]; rfl) idle.1 idle.2
  | granting id c =>
    have idle : (∀ c next, task.pc ≠ .taking c next) ∧ ∀ c file r, ¬ task.pc.Keeps c file r := by
      rw [at_pc]
      exact ⟨(by rintro _ _ ⟨⟩), fun _ _ _ keeps => keeps⟩
    rw [at_pc] at ht
    obtain ⟨channel, there, rfl⟩ := Option.map_eq_some_iff.mp ht
    exact quiet rfl rfl (care_setChannel there ⟨rfl, ⟨rfl, rfl⟩⟩) (by rw [at_pc]; rfl) idle.1 idle.2
  | closing id next =>
    rw [at_pc] at ht
    simp only [taskStep] at ht
    split at ht
    next c there =>
      cases ht
      exact h.unlink ⟨here, (List.append_nil _).symm⟩ at_pc there rfl rfl
    next =>
      cases ht
      refine quiet rfl rfl same_channels ?_ ?_ ?_ <;> rw [at_pc]
      · exact awaits_resume next
      · rintro _ _ ⟨⟩
      · exact fun _ _ _ keeps => keeps
  | taking c next =>
    rw [at_pc] at ht
    obtain ⟨channel, there, rfl⟩ := Option.map_eq_some_iff.mp ht
    exact h.take (advance_setPc here rfl) at_pc there rfl rfl
  | disposing c rest next =>
    rw [at_pc] at ht
    cases rest with
    | nil =>
      cases ht
      refine quiet rfl rfl same_channels ?_ ?_ ?_ <;> rw [at_pc]
      · exact awaits_resume next
      · rintro _ _ ⟨⟩
      · exact fun _ _ _ keeps => absurd keeps.2.2 List.not_mem_nil
    | cons item rest =>
      obtain ⟨channel, there, rfl⟩ := Option.map_eq_some_iff.mp ht
      exact h.dispose (advance_setPc here rfl) at_pc there rfl rfl
  | handling id c handler =>
    rw [at_pc] at ht
    obtain ⟨channel, there, rfl⟩ := Option.map_eq_some_iff.mp ht
    have own : handler.careful channel (s.table.lookup id).isSome ok = true := by
      obtain ⟨onReader, pc⟩ := task
      subst at_pc
      simpa only [State.Careful, State.careful, here, there] using careful
    exact h.handle here at_pc there own (link_move channel _ ok handler).taken
  | returned =>
    rw [at_pc] at ht
    cases ht

/-- A goroutine that starts with nothing in its care. -/
theorem State.Accounted.start (h : s.Accounted) {a : Task} (tasks : t.tasks = s.tasks ++ [a])
    (table : t.table = s.table) (channels : t.channels = s.channels) : t.Accounted := by
  have old : ∀ (i : Nat) (b : Task), s.tasks[i]? = some b → t.tasks[i]? = some b := by
    intro i b hb
    rw [tasks, List.getElem?_append_left (List.getElem?_eq_some_iff.mp hb).1, hb]
  refine ⟨?_, ?_⟩
  · intro c channel there closed
    rw [channels] at there
    rcases h.placed c channel there closed with ⟨id, found⟩ | ⟨i, b, hb, holds⟩
    · exact Or.inl ⟨id, by rw [table]; exact found⟩
    · exact Or.inr ⟨i, b, old i b hb, holds⟩
  · intro c channel file r there live
    rw [channels] at there
    rcases h.kept c channel file r there live with stored | ⟨i, b, hb, keeps⟩
    · exact Or.inl stored
    · exact Or.inr ⟨i, b, old i b hb, keeps⟩

theorem not_open_new {id : String} {file : Bool} {r : Nat} : ¬ (BrowserChannel.new id).Open file r := by
  rintro ⟨resource, there, _⟩
  cases there

/-- `openChannel` begins with a channel of its own. -/
theorem State.Accounted.openChannel (h : s.Accounted) (id : String) {a : Task}
    (at_pc : a.pc = .replacing id s.channels.length) (tasks : t.tasks = s.tasks ++ [a])
    (table : t.table = s.table) (channels : t.channels = s.channels ++ [.new id]) : t.Accounted := by
  have old : ∀ (i : Nat) (b : Task), s.tasks[i]? = some b → t.tasks[i]? = some b := by
    intro i b hb
    rw [tasks, List.getElem?_append_left (List.getElem?_eq_some_iff.mp hb).1, hb]
  have before : ∀ (c : Nat) (channel : BrowserChannel), t.channels[c]? = some channel →
      s.channels[c]? = some channel ∨ c = s.channels.length ∧ channel = .new id := by
    intro c channel there
    rw [channels] at there
    by_cases inside : c < s.channels.length
    · rw [List.getElem?_append_left inside] at there
      exact Or.inl there
    · have bound := (List.getElem?_eq_some_iff.mp there).1
      simp only [List.length_append, List.length_singleton] at bound
      rw [List.getElem?_append_right (by omega)] at there
      exact Or.inr ⟨by omega, List.mem_singleton.mp (List.mem_of_getElem? there)⟩
  refine ⟨?_, ?_⟩
  · intro c channel there closed
    rcases before c channel there with there | ⟨rfl, rfl⟩
    · rcases h.placed c channel there closed with ⟨id, found⟩ | ⟨i, b, hb, holds⟩
      · exact Or.inl ⟨id, by rw [table]; exact found⟩
      · exact Or.inr ⟨i, b, old i b hb, holds⟩
    · refine Or.inr ⟨s.tasks.length, a, ?_, Or.inl ⟨id, by rw [at_pc]; rfl⟩⟩
      rw [tasks]
      simp
  · intro c channel file r there live
    rcases before c channel there with there | ⟨rfl, rfl⟩
    · rcases h.kept c channel file r there live with stored | ⟨i, b, hb, keeps⟩
      · exact Or.inl stored
      · exact Or.inr ⟨i, b, old i b hb, keeps⟩
    · exact absurd live not_open_new

theorem accounted_step {decrypt : String → UInt32 → String → Option Bytes} {unmarshal : Unmarshal}
    {label : Label} (h : s.Accounted) (orderly : s.Orderly) (careful : s.Careful label)
    (ht : step decrypt unmarshal s label = some t) : t.Accounted := by
  cases label with
  | channelOpen id =>
    simp only [step] at ht
    split at ht
    next =>
      obtain ⟨_, rfl⟩ := startReader_eq ht
      exact h.openChannel id rfl rfl rfl rfl
    next => cases ht
  | fromBrowser id packet =>
    simp only [step] at ht
    split at ht
    next =>
      obtain ⟨_, rfl⟩ := startReader_eq ht
      exact h.start rfl rfl rfl
    next => cases ht
  | channelClose id =>
    simp only [step] at ht
    split at ht
    next =>
      obtain ⟨_, rfl⟩ := startReader_eq ht
      exact h.start rfl rfl rfl
    next => cases ht
  | authTimeout c =>
    simp only [step] at ht
    split at ht
    next =>
      split at ht
      next => cases ht
      next =>
        cases ht
        exact h.start rfl rfl rfl
    next => cases ht
  | shutdown id =>
    cases ht
    exact h.start rfl rfl rfl
  | run k ok =>
    have run := ht
    simp only [step] at run
    split at run
    next task here => exact accounted_taskStep h orderly here careful run
    next => cases run

theorem accounted_run {decrypt : String → UInt32 → String → Option Bytes} {unmarshal : Unmarshal}
    {labels : List Label} (run : exec (step decrypt unmarshal) State.initial labels = some s)
    (careful : Along (step decrypt unmarshal) State.Careful State.initial labels) : s.Accounted ∧
    s.Orderly := by
  refine @exec_preserves _ _ (step decrypt unmarshal) State.Careful (fun s => s.Accounted ∧ s.Orderly) ?_ _ _ _
    ⟨⟨?_, ?_⟩, orderly_initial⟩ run careful
  · intro s label t both careful ht
    exact ⟨accounted_step both.1 both.2 careful ht, orderly_step both.2 ht⟩
  · intro c channel there
    simp [State.initial] at there
  · intro c channel file r there
    simp [State.initial] at there

end

/-- Once a channel is out of the table and nobody works on it any more, nothing of it is left open. -/
theorem closed_channel_leaks_nothing {decrypt : String → UInt32 → String → Option Bytes} {unmarshal : Unmarshal}
    {labels : List Label} {s : State} (run : exec (step decrypt unmarshal) State.initial labels = some s)
    (careful : Along (step decrypt unmarshal) State.Careful State.initial labels) {c : Nat}
    {channel : BrowserChannel} (there : s.channels[c]? = some channel)
    (closed : ∀ id, s.table.lookup id ≠ some c) (finished : ∀ task ∈ s.tasks, ¬ task.pc.Concerns c) :
    ∀ resource ∈ channel.resources, resource.released = true := by
  obtain ⟨accounted, _⟩ := accounted_run run careful
  intro resource member
  by_contra live
  obtain ⟨r, hr⟩ := List.mem_iff_getElem?.mp member
  have open' : channel.Open resource.isFile r := ⟨resource, hr, by simpa using live, rfl⟩
  rcases accounted.kept c channel _ r there open' with stored | ⟨i, a, ha, keeps⟩
  · rcases accounted.placed c channel there stored.2.1 with ⟨id, found⟩ | ⟨i, a, ha, holds⟩
    · exact closed id found
    · exact finished a (List.mem_of_getElem? ha) (concerns_of_holds holds)
  · exact finished a (List.mem_of_getElem? ha) (concerns_of_keeps keeps)

def browserID : String := "01234567-89ab-cdef-0123-456789abcdef"

/-- A packet stands for its plaintext. -/
def plainPacket (_ : String) (_ : UInt32) (packet : String) : Option Bytes := some (utf8 packet)

def authenticateText : String :=
  "\x7b\"v\":1,\"type\":\"authenticate\",\"challenge\":\"0123456789abcdef\"\x7d"

def windowOpenText : String :=
  "\x7b\"v\":1,\"type\":\"window_open\",\"id\":\"01234567-89ab-cdef-0123-456789abcdef\",\"windowId\":7," ++
    "\"maxWidth\":640,\"maxHeight\":480\x7d"

def uploadStartText : String :=
  "\x7b\"v\":1,\"type\":\"file_upload_start\",\"id\":\"01234567-89ab-cdef-0123-456789abcdef\"," ++
    "\"name\":\"a.txt\",\"size\":5\x7d"

/-- A goroutine takes its next steps, with the same answer to each. -/
def runs (task count : Nat) : List Label := List.replicate count (.run task true)

/-- A browser connects, logs in and sends one more message. -/
def sentAfterLogin (text : String) : List Label :=
  .channelOpen browserID :: runs 0 1 ++ .fromBrowser browserID authenticateText :: runs 1 7 ++
    .fromBrowser browserID text :: runs 2 5

def windowStreamed : List Label :=
  sentAfterLogin windowOpenText ++ runs 3 4 ++ .channelClose browserID :: runs 4 4 ++ runs 3 3

theorem idle_of_returned {s : State}
    (concluded : s.tasks.all (fun task => task.pc.isReturned) = true) {c : Nat} :
    ∀ task ∈ s.tasks, ¬ task.pc.Concerns c := by
  intro task member concerns
  have returned := List.all_eq_true.mp concluded task member
  generalize task.pc = pc at returned concerns
  cases pc with
  | returned => exact concerns
  | _ => cases returned

theorem unlisted_of_empty {s : State} (empty : s.table.entries = []) {c : Nat} :
    ∀ id, s.table.lookup id ≠ some c := by
  intro id found
  have entry := AList.mem_lookup_iff.mp found
  rw [empty] at entry
  exact absurd entry List.not_mem_nil

theorem closed_channel_leaks_nothing_after_stream : ∃ s channel,
    exec (step plainPacket innerUnmarshal) State.initial windowStreamed = some s ∧
      s.channels[0]? = some channel ∧ channel.resources ≠ [] ∧
      ∀ resource ∈ channel.resources, resource.released = true := by
  have run : (exec (step plainPacket innerUnmarshal) State.initial windowStreamed).any (fun s =>
      s.tasks.all (fun task => task.pc.isReturned) ∧ s.table.entries = [] ∧
        (s.channels[0]?).any fun channel => channel.resources ≠ []) = true := by
    decide +kernel
  have careful : Along (step plainPacket innerUnmarshal) State.Careful State.initial windowStreamed := by
    decide +kernel
  obtain ⟨s, run, facts⟩ := (Option.any_eq_true _ _).mp run
  obtain ⟨concluded, empty, found⟩ := of_decide_eq_true facts
  obtain ⟨channel, there, opened⟩ := (Option.any_eq_true _ _).mp found
  exact ⟨s, channel, run, there, of_decide_eq_true opened, closed_channel_leaks_nothing run careful there
    (unlisted_of_empty empty) (idle_of_returned concluded)⟩

/-- The relay closes the channel before `window_opened` is sent: the capture is only cancelled. -/
def windowLost : List Label :=
  sentAfterLogin windowOpenText ++ runs 3 3 ++ .channelClose browserID :: runs 4 4 ++ runs 3 2

/-- The connection breaks while an upload has its temporary file but no entry yet. -/
def uploadLost : List Label :=
  sentAfterLogin uploadStartText ++ runs 2 2 ++ .shutdown browserID :: runs 3 3 ++ runs 2 1

/-- After the run the channel is closed, every goroutine has returned, and a capture or a file is left open. -/
def LeavesOpen (labels : List Label) : Prop :=
  ∃ s channel resource,
    exec (step plainPacket innerUnmarshal) State.initial labels = some s ∧ s.channels[0]? = some channel ∧
      (∀ id, s.table.lookup id ≠ some 0) ∧ (∀ task ∈ s.tasks, ¬ task.pc.Concerns 0) ∧
      resource ∈ channel.resources ∧ resource.released = false

theorem closed_channel_leaks_capture_and_upload : LeavesOpen windowLost ∧ LeavesOpen uploadLost := by
  suffices both : ∀ labels ∈ [windowLost, uploadLost], LeavesOpen labels from
    ⟨both windowLost (List.mem_cons_self ..), both uploadLost (List.mem_cons_of_mem _ (List.mem_cons_self ..))⟩
  have run : ∀ labels ∈ [windowLost, uploadLost],
      (exec (step plainPacket innerUnmarshal) State.initial labels).any (fun s =>
        s.tasks.all (fun task => task.pc.isReturned) ∧ s.table.entries = [] ∧
          (s.channels[0]?).any fun channel => channel.resources.any fun resource => !resource.released) = true := by
    decide +kernel
  intro labels member
  obtain ⟨s, run, facts⟩ := (Option.any_eq_true _ _).mp (run labels member)
  obtain ⟨concluded, empty, found⟩ := of_decide_eq_true facts
  obtain ⟨channel, there, left⟩ := (Option.any_eq_true _ _).mp found
  obtain ⟨resource, listed, live⟩ := List.any_eq_true.mp left
  exact ⟨s, channel, resource, run, there, unlisted_of_empty empty, idle_of_returned concluded,
    listed, by simpa using live⟩

end TermLinks.Connector
