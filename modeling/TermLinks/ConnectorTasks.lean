import TermLinks.Connector

namespace TermLinks.Connector

/-- Goroutine `k` goes on at `pc`, the others stand where they stood, and `more` have started. -/
structure Advance (s t : State) (k : Nat) (task : Task) (pc : Pc) (more : List Task) : Prop where
  here : s.tasks[k]? = some task
  tasks : t.tasks = s.tasks.set k { task with pc } ++ more

/-- In the middle of a message of the relay. -/
def Task.reading (task : Task) : Prop := task.onReader = true ∧ task.pc ≠ .returned

/-- The channel `openChannel` has still to put into the table. -/
def Pc.awaits : Pc → Option (String × Nat)
  | .replacing id c | .inserting id c => some (id, c)
  | .closing _ next | .taking _ next | .disposing _ _ next => next
  | _ => none

/-- The id `openChannel` has found free, or has freed. -/
def Pc.freed : Pc → Option String
  | .inserting id _ => some id
  | .taking _ next | .disposing _ _ next => next.map Prod.fst
  | _ => none

/-- The reader is in one message at a time, and only it opens channels, each under an id that is free. -/
structure State.Orderly (s : State) : Prop where
  single : ∀ (i j : Nat) (a b : Task), s.tasks[i]? = some a → s.tasks[j]? = some b → a.reading → b.reading → i = j
  awaiting : ∀ (i : Nat) (a : Task), s.tasks[i]? = some a → a.pc.awaits ≠ none → a.onReader = true
  same : ∀ (i : Nat) (a : Task) (id id' : String) (c : Nat), s.tasks[i]? = some a →
    a.pc = .closing id (some (id', c)) → id' = id
  freed : ∀ (i : Nat) (a : Task) (id : String), s.tasks[i]? = some a → a.pc.freed = some id →
    s.table.lookup id = none

section

variable {s t : State} {k : Nat} {task : Task} {pc : Pc} {more : List Task}

theorem Advance.cases (h : Advance s t k task pc more) {j : Nat} {x : Task} (hx : t.tasks[j]? = some x) :
    (j = k ∧ x = { task with pc }) ∨ (j ≠ k ∧ s.tasks[j]? = some x) ∨ s.tasks.length ≤ j ∧ x ∈ more := by
  have inside := (List.getElem?_eq_some_iff.mp h.here).1
  rw [h.tasks] at hx
  by_cases old : j < s.tasks.length
  · rw [List.getElem?_append_left (by simpa using old)] at hx
    by_cases same : j = k
    · subst same
      rw [List.getElem?_set_self old] at hx
      exact Or.inl ⟨rfl, (Option.some.inj hx).symm⟩
    · rw [List.getElem?_set_ne (Ne.symm same)] at hx
      exact Or.inr (Or.inl ⟨same, hx⟩)
  · rw [List.getElem?_append_right (by simpa using old)] at hx
    exact Or.inr (Or.inr ⟨by omega, List.mem_of_getElem? hx⟩)

theorem Advance.now (h : Advance s t k task pc more) : t.tasks[k]? = some { task with pc } := by
  have inside := (List.getElem?_eq_some_iff.mp h.here).1
  rw [h.tasks, List.getElem?_append_left (by simpa using inside), List.getElem?_set_self inside]

theorem Advance.other (h : Advance s t k task pc more) {j : Nat} {x : Task} (apart : j ≠ k)
    (hx : s.tasks[j]? = some x) : t.tasks[j]? = some x := by
  have inside := (List.getElem?_eq_some_iff.mp hx).1
  rw [h.tasks, List.getElem?_append_left (by simpa using inside), List.getElem?_set_ne (Ne.symm apart), hx]

theorem Advance.started (h : Advance s t k task pc more) {x : Task} (hx : x ∈ more) : x ∈ t.tasks := by
  rw [h.tasks]
  exact List.mem_append_right _ hx

theorem advance_setPc {u : State} (here : s.tasks[k]? = some task) (tasks : u.tasks = s.tasks) :
    Advance s (u.setPc k task pc) k task pc [] := by
  refine ⟨here, ?_⟩
  rw [List.append_nil, ← tasks]
  rfl

theorem awaits_of_freed {id : String} (h : pc.freed = some id) : pc.awaits ≠ none := by
  cases pc with
  | inserting id c => exact nofun
  | taking c next =>
    intro none'
    have free : next.map Prod.fst = some id := h
    rw [show next = none from none'] at free
    cases free
  | disposing c rest next =>
    intro none'
    have free : next.map Prod.fst = some id := h
    rw [show next = none from none'] at free
    cases free
  | _ => cases h

theorem not_returned_of_awaits (h : pc.awaits ≠ none) : pc ≠ .returned := by
  intro same
  rw [same] at h
  exact h rfl

theorem State.Orderly.advance (h : s.Orderly) (adv : Advance s t k task pc more) (busy : task.pc ≠ .returned)
    (aside : ∀ x ∈ more, x.onReader = false ∧ x.pc.awaits = none)
    (awaits : pc.awaits = none ∨ pc.awaits = task.pc.awaits)
    (same : ∀ id id' c, pc = .closing id (some (id', c)) → id' = id)
    (freed : ∀ id, pc.freed = some id → t.table.lookup id = none)
    (table : (∀ id, s.table.lookup id = none → t.table.lookup id = none) ∨ task.pc.awaits ≠ none) :
    t.Orderly := by
  have reader : task.pc.awaits ≠ none → task.onReader = true := fun waits => h.awaiting k task adv.here waits
  have reading : ∀ (i : Nat) (a : Task), t.tasks[i]? = some a → a.reading →
      ∃ b, s.tasks[i]? = some b ∧ b.reading := by
    intro i a ha active
    rcases adv.cases ha with ⟨rfl, rfl⟩ | ⟨_, old⟩ | ⟨_, new⟩
    · exact ⟨task, adv.here, active.1, busy⟩
    · exact ⟨a, old, active⟩
    · have idle := (aside a new).1
      rw [active.1] at idle
      cases idle
  refine ⟨?_, ?_, ?_, ?_⟩
  · intro i j a b ha hb first second
    obtain ⟨a', ha', first'⟩ := reading i a ha first
    obtain ⟨b', hb', second'⟩ := reading j b hb second
    exact h.single i j a' b' ha' hb' first' second'
  · intro i a ha waits
    rcases adv.cases ha with ⟨rfl, rfl⟩ | ⟨_, old⟩ | ⟨_, new⟩
    · refine reader ?_
      rcases awaits with none' | kept
      · exact absurd none' waits
      · rw [← kept]
        exact waits
    · exact h.awaiting i a old waits
    · exact absurd (aside a new).2 waits
  · intro i a id id' c ha closing
    rcases adv.cases ha with ⟨rfl, rfl⟩ | ⟨_, old⟩ | ⟨_, new⟩
    · exact same id id' c closing
    · exact h.same i a id id' c old closing
    · have waits := (aside a new).2
      rw [closing] at waits
      cases waits
  · intro i a id ha free
    rcases adv.cases ha with ⟨rfl, rfl⟩ | ⟨apart, old⟩ | ⟨_, new⟩
    · exact freed id free
    · have vacant := h.freed i a id old free
      rcases table with shrinks | waits
      · exact shrinks id vacant
      · have mine : task.reading := ⟨reader waits, busy⟩
        have waits' := awaits_of_freed free
        have theirs : a.reading := ⟨h.awaiting i a old waits', not_returned_of_awaits waits'⟩
        exact absurd (h.single i k a task old adv.here theirs mine) apart
    · exact absurd (aside a new).2 (awaits_of_freed free)

theorem nothing_aside : ∀ x ∈ ([] : List Task), x.onReader = false ∧ x.pc.awaits = none :=
  fun _ none' => absurd none' List.not_mem_nil

/-- A step that does not open a channel. -/
theorem State.Orderly.quiet (h : s.Orderly) (adv : Advance s t k task pc more) (busy : task.pc ≠ .returned)
    (aside : ∀ x ∈ more, x.onReader = false ∧ x.pc.awaits = none) (awaits : pc.awaits = none)
    (table : ∀ id, s.table.lookup id = none → t.table.lookup id = none) : t.Orderly := by
  refine h.advance adv busy aside (Or.inl awaits) ?_ ?_ (Or.inl table)
  · intro id id' c closing
    rw [closing] at awaits
    cases awaits
  · intro id free
    exact absurd awaits (awaits_of_freed free)

theorem orderly_addTask (h : s.Orderly) (tasks : t.tasks = s.tasks ++ [⟨false, pc⟩]) (table : t.table = s.table)
    (awaits : pc.awaits = none) : t.Orderly := by
  have old : ∀ (i : Nat) (a : Task), t.tasks[i]? = some a → s.tasks[i]? = some a ∨ a = ⟨false, pc⟩ := by
    intro i a ha
    rw [tasks] at ha
    by_cases inside : i < s.tasks.length
    · rw [List.getElem?_append_left inside] at ha
      exact Or.inl ha
    · rw [List.getElem?_append_right (by omega)] at ha
      exact Or.inr (List.mem_singleton.mp (List.mem_of_getElem? ha))
  refine ⟨?_, ?_, ?_, ?_⟩
  · intro i j a b ha hb first second
    rcases old i a ha with ha' | rfl
    · rcases old j b hb with hb' | rfl
      · exact h.single i j a b ha' hb' first second
      · cases second.1
    · cases first.1
  · intro i a ha waits
    rcases old i a ha with ha' | rfl
    · exact h.awaiting i a ha' waits
    · exact absurd awaits waits
  · intro i a id id' c ha closing
    rcases old i a ha with ha' | rfl
    · exact h.same i a id id' c ha' closing
    · have waits : pc.awaits = none := awaits
      rw [show pc = .closing id (some (id', c)) from closing] at waits
      cases waits
  · intro i a id ha free
    rw [table]
    rcases old i a ha with ha' | rfl
    · exact h.freed i a id ha' free
    · exact absurd awaits (awaits_of_freed free)

theorem not_reading_of_free (free : s.readerFree = true) {i : Nat} {a : Task} (ha : s.tasks[i]? = some a) :
    ¬ a.reading := by
  rintro ⟨reader, busy⟩
  have quiet := List.all_eq_true.mp free a (List.mem_of_getElem? ha)
  rw [reader] at quiet
  generalize a.pc = pc at busy quiet
  cases pc with
  | returned => exact busy rfl
  | _ => cases quiet

theorem orderly_startReader (h : s.Orderly) (free : s.readerFree = true)
    (tasks : t.tasks = s.tasks ++ [⟨true, pc⟩]) (table : t.table = s.table) (freed : pc.freed = none)
    (same : ∀ id id' c, pc ≠ .closing id (some (id', c))) : t.Orderly := by
  have old : ∀ (i : Nat) (a : Task), t.tasks[i]? = some a → s.tasks[i]? = some a ∨ i = s.tasks.length ∧
      a = ⟨true, pc⟩ := by
    intro i a ha
    rw [tasks] at ha
    by_cases inside : i < s.tasks.length
    · rw [List.getElem?_append_left inside] at ha
      exact Or.inl ha
    · have bound := (List.getElem?_eq_some_iff.mp ha).1
      simp only [List.length_append, List.length_singleton] at bound
      rw [List.getElem?_append_right (by omega)] at ha
      exact Or.inr ⟨by omega, List.mem_singleton.mp (List.mem_of_getElem? ha)⟩
  refine ⟨?_, ?_, ?_, ?_⟩
  · intro i j a b ha hb first second
    rcases old i a ha with ha' | ⟨hi, rfl⟩
    · exact absurd first (not_reading_of_free free ha')
    · rcases old j b hb with hb' | ⟨hj, rfl⟩
      · exact absurd second (not_reading_of_free free hb')
      · omega
  · intro i a ha waits
    rcases old i a ha with ha' | ⟨_, rfl⟩
    · exact h.awaiting i a ha' waits
    · rfl
  · intro i a id id' c ha closing
    rcases old i a ha with ha' | ⟨_, rfl⟩
    · exact h.same i a id id' c ha' closing
    · exact absurd closing (same id id' c)
  · intro i a id ha free
    rw [table]
    rcases old i a ha with ha' | ⟨_, rfl⟩
    · exact h.freed i a id ha' free
    · rw [show (Task.mk true pc).pc.freed = none from freed] at free
      cases free

theorem awaits_resume (next : Option (String × Nat)) : (Pc.resume next).awaits = next := by
  cases next with
  | none => rfl
  | some pair => rfl

theorem freed_resume (next : Option (String × Nat)) : (Pc.resume next).freed = next.map Prod.fst := by
  cases next with
  | none => rfl
  | some pair => rfl

theorem resume_ne_closing (next : Option (String × Nat)) (id : String) (other : Option (String × Nat)) :
    Pc.resume next ≠ .closing id other := by
  cases next <;> exact nofun

theorem awaits_handle (id : String) (c : Nat) (handler : Option Handler) :
    (Pc.handle id c handler).awaits = none := by
  cases handler <;> rfl

theorem orderly_taskStep {decrypt : String → UInt32 → String → Option Bytes} {unmarshal : Unmarshal}
    {ok : Bool} (h : s.Orderly) (here : s.tasks[k]? = some task)
    (ht : taskStep decrypt unmarshal s k task ok task.pc = some t) :
    t.Orderly := by
  have busy : task.pc ≠ .returned := by
    intro concluded
    rw [concluded] at ht
    cases ht
  have quiet : ∀ {u : State} {pc : Pc}, u.tasks = s.tasks → u.table = s.table → pc.awaits = none →
      (u.setPc k task pc).Orderly := by
    intro u pc tasks table awaits
    refine h.quiet (advance_setPc here tasks) busy nothing_aside awaits ?_
    intro id free
    exact (congrArg (fun table => AList.lookup id table) table).trans free
  cases at_pc : task.pc with
  | replacing id c =>
    rw [at_pc] at ht
    simp only [taskStep] at ht
    split at ht
    next =>
      cases ht
      refine h.advance (advance_setPc here rfl) busy nothing_aside (Or.inr (by rw [at_pc]; rfl)) ?_ nofun
        (Or.inl fun _ free => free)
      intro id id' c closing
      cases closing
      rfl
    next =>
      cases ht
      refine h.advance ⟨here, (List.append_nil _).symm⟩ busy nothing_aside (Or.inl rfl) nofun nofun (Or.inr ?_)
      rw [at_pc]
      exact nofun
  | inserting id c =>
    rw [at_pc] at ht
    cases ht
    refine h.advance ⟨here, (List.append_nil _).symm⟩ busy nothing_aside (Or.inl rfl) nofun nofun (Or.inr ?_)
    rw [at_pc]
    exact nofun
  | looking id packet =>
    rw [at_pc] at ht
    simp only [taskStep] at ht
    split at ht <;> cases ht <;> exact quiet rfl rfl rfl
  | found id packet c =>
    rw [at_pc] at ht
    obtain ⟨channel, there, rfl⟩ := Option.map_eq_some_iff.mp ht
    exact quiet rfl rfl rfl
  | decrypting id packet c sequence =>
    rw [at_pc] at ht
    simp only [taskStep] at ht
    split at ht
    next => split at ht <;> cases ht <;> exact quiet rfl rfl rfl
    next =>
      cases ht
      exact quiet rfl rfl rfl
  | decrypted id packet plaintext c sequence =>
    rw [at_pc] at ht
    obtain ⟨channel, there, rfl⟩ := Option.map_eq_some_iff.mp ht
    split
    next => exact quiet rfl rfl rfl
    next => exact h.quiet ⟨here, (List.append_nil _).symm⟩ busy nothing_aside rfl fun _ free => free
  | accepted id plaintext c =>
    rw [at_pc] at ht
    obtain ⟨channel, there, rfl⟩ := Option.map_eq_some_iff.mp ht
    split
    next => exact quiet rfl rfl rfl
    next => exact quiet rfl rfl rfl
    next => exact quiet rfl rfl rfl
    next handler _ =>
      refine @State.Orderly.quiet _ _ _ _ _ [⟨false, .handling id c handler⟩] h ⟨here, rfl⟩ busy ?_
        rfl fun _ free => free
      intro x hx
      rw [List.mem_singleton.mp hx]
      exact ⟨rfl, rfl⟩
    next => exact quiet rfl rfl rfl
  | login id c =>
    rw [at_pc] at ht
    simp only [taskStep] at ht
    split at ht
    next =>
      cases ht
      exact h.quiet ⟨here, (List.append_nil _).symm⟩ busy nothing_aside rfl fun _ free => free
    next =>
      cases ht
      exact quiet rfl rfl rfl
  | granting id c =>
    rw [at_pc] at ht
    obtain ⟨channel, there, rfl⟩ := Option.map_eq_some_iff.mp ht
    exact quiet rfl rfl rfl
  | closing id next =>
    rw [at_pc] at ht
    simp only [taskStep] at ht
    have mine : ∀ id', next.map Prod.fst = some id' → id' = id := by
      intro id' first
      cases next with
      | none => cases first
      | some pair =>
        obtain ⟨id'', c⟩ := pair
        have equal : id'' = id' := Option.some.inj first
        rw [← equal]
        exact h.same k task id id'' c here at_pc
    split at ht
    next c there =>
      cases ht
      refine h.advance ⟨here, (List.append_nil _).symm⟩ busy nothing_aside
        (Or.inr (by rw [at_pc]; rfl)) nofun ?_ (Or.inl ?_)
      · intro id' first
        rw [mine id' first]
        exact AList.lookup_erase id s.table
      · intro id' free
        by_cases same : id' = id
        · subst same
          exact AList.lookup_erase id' s.table
        · exact (AList.lookup_erase_ne same).trans free
    next absent =>
      cases ht
      refine h.advance (advance_setPc here rfl) busy nothing_aside (Or.inr ?_) ?_ ?_ (Or.inl fun _ free => free)
      · rw [at_pc, awaits_resume]
        rfl
      · intro id id' c closing
        exact absurd closing (resume_ne_closing next id _)
      · intro id' first
        rw [freed_resume] at first
        rw [mine id' first]
        exact absent
  | taking c next =>
    rw [at_pc] at ht
    obtain ⟨channel, there, rfl⟩ := Option.map_eq_some_iff.mp ht
    refine h.advance (advance_setPc here rfl) busy nothing_aside (Or.inr (by rw [at_pc]; rfl)) nofun ?_
      (Or.inl fun _ free => free)
    intro id first
    exact h.freed k task id here (by rw [at_pc]; exact first)
  | disposing c rest next =>
    rw [at_pc] at ht
    have free : ∀ id, next.map Prod.fst = some id → s.table.lookup id = none := by
      intro id first
      exact h.freed k task id here (by rw [at_pc]; exact first)
    cases rest with
    | nil =>
      cases ht
      refine h.advance (advance_setPc here rfl) busy nothing_aside (Or.inr ?_) ?_ ?_ (Or.inl fun _ free => free)
      · rw [at_pc, awaits_resume]
        rfl
      · intro id id' c closing
        exact absurd closing (resume_ne_closing next id _)
      · intro id first
        rw [freed_resume] at first
        exact free id first
    | cons item rest =>
      obtain ⟨channel, there, rfl⟩ := Option.map_eq_some_iff.mp ht
      exact h.advance (advance_setPc here rfl) busy nothing_aside (Or.inr (by rw [at_pc]; rfl)) nofun free
        (Or.inl fun _ free => free)
  | handling id c handler =>
    rw [at_pc] at ht
    obtain ⟨channel, there, rfl⟩ := Option.map_eq_some_iff.mp ht
    refine h.quiet ⟨here, rfl⟩ busy ?_ (awaits_handle id c _) fun _ free => free
    intro x hx
    obtain ⟨spawned, _, rfl⟩ := List.mem_map.mp hx
    exact ⟨rfl, rfl⟩
  | returned => exact absurd at_pc busy

theorem startReader_eq {u : State} (h : u.startReader pc = some t) :
    u.readerFree = true ∧ t = u.addTask ⟨true, pc⟩ := by
  unfold State.startReader at h
  split at h
  next free => exact ⟨free, (Option.some.inj h).symm⟩
  next => cases h

theorem orderly_step {decrypt : String → UInt32 → String → Option Bytes} {unmarshal : Unmarshal} {label : Label}
    (h : s.Orderly) (ht : step decrypt unmarshal s label = some t) : t.Orderly := by
  cases label with
  | channelOpen id =>
    simp only [step] at ht
    split at ht
    next =>
      obtain ⟨free, rfl⟩ := startReader_eq ht
      exact orderly_startReader h free rfl rfl rfl nofun
    next => cases ht
  | fromBrowser id packet =>
    simp only [step] at ht
    split at ht
    next =>
      obtain ⟨free, rfl⟩ := startReader_eq ht
      exact orderly_startReader h free rfl rfl rfl nofun
    next => cases ht
  | channelClose id =>
    simp only [step] at ht
    split at ht
    next =>
      obtain ⟨free, rfl⟩ := startReader_eq ht
      exact orderly_startReader h free rfl rfl rfl nofun
    next => cases ht
  | authTimeout c =>
    simp only [step] at ht
    split at ht
    next =>
      split at ht
      next => cases ht
      next =>
        cases ht
        exact orderly_addTask h rfl rfl rfl
    next => cases ht
  | shutdown id =>
    cases ht
    exact orderly_addTask h rfl rfl rfl
  | run k ok =>
    simp only [step] at ht
    split at ht
    next task here => exact orderly_taskStep h here ht
    next => cases ht

theorem orderly_initial : State.initial.Orderly := by
  refine ⟨?_, ?_, ?_, ?_⟩
  all_goals simp [State.initial]

end

end TermLinks.Connector
