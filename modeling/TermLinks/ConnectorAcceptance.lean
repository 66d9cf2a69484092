import TermLinks.ConnectorTasks

namespace TermLinks.Connector

/-- Between the receipt of a packet and the end of its handling on the reader. -/
def Pc.middle : Pc → Bool
  | .looking _ _ | .found _ _ _ | .decrypting _ _ _ _ | .decrypted _ _ _ _ _ | .accepted _ _ _ | .login _ _
  | .granting _ _ => true
  | _ => false

/-- The channel a goroutine has, with the id it has it under. -/
def Pc.names : Pc → Option (String × Nat)
  | .replacing id c | .inserting id c | .found id _ c | .decrypting id _ c _ | .decrypted id _ _ c _
  | .accepted id _ c | .login id c | .granting id c | .handling id c _ => some (id, c)
  | .closing _ next | .taking _ next | .disposing _ _ next => next
  | .looking _ _ | .returned => none

/-- The id, the flag and the counter of a channel. -/
def BrowserChannel.link (channel : BrowserChannel) : String × Bool × UInt32 :=
  (channel.id, channel.authenticated, channel.receiveSeq)

def State.links (s : State) : List (String × Bool × UInt32) := s.channels.map BrowserChannel.link

/-- A channel is known under its own id. -/
def State.Known (s : State) (id : String) (c : Nat) : Prop := (s.links[c]?).map Prod.fst = some id

structure State.Named (decrypt : String → UInt32 → String → Option Bytes) (s : State) : Prop where
  reader : ∀ (i : Nat) (a : Task), s.tasks[i]? = some a → a.pc.middle = true → a.onReader = true
  names : ∀ (i : Nat) (a : Task) (id : String) (c : Nat), s.tasks[i]? = some a → a.pc.names = some (id, c) →
    s.Known id c
  listed : ∀ (id : String) (c : Nat), s.table.lookup id = some c → s.Known id c
  opened : ∀ (i : Nat) (a : Task) (id packet : String) (plaintext : Bytes) (c : Nat) (sequence : UInt32),
    s.tasks[i]? = some a → a.pc = .decrypted id packet plaintext c sequence →
    decrypt id sequence packet = some plaintext

def State.acceptedOn (s : State) (c : Nat) : List Accepted := s.accepted.filter fun a => a.channel = c

/-- What was accepted on a channel was opened under its id, and under the sequence numbers from zero. -/
structure State.Numbered (decrypt : String → UInt32 → String → Option Bytes) (s : State) : Prop where
  accepted : ∀ a ∈ s.accepted, decrypt a.id a.sequence a.packet = some a.plaintext ∧ s.Known a.id a.channel
  sequences : ∀ (c : Nat) (link : String × Bool × UInt32), s.links[c]? = some link →
    (s.acceptedOn c).map Accepted.sequence = (List.range (s.acceptedOn c).length).map UInt32.ofNat ∧
      link.2.2 = UInt32.ofNat (s.acceptedOn c).length

section

variable {decrypt : String → UInt32 → String → Option Bytes} {s t : State} {k : Nat} {task : Task} {pc : Pc}
  {more : List Task}

theorem links_emptied {c : Nat} {channel : BrowserChannel} (here : s.channels[c]? = some channel) :
    (s.setChannel c channel.emptied).links = s.links := by
  have there : s.links[c]? = some channel.link := by
    unfold State.links
    rw [List.getElem?_map, here]
    rfl
  have inside := (List.getElem?_eq_some_iff.mp there).1
  change (s.channels.set c channel.emptied).map BrowserChannel.link = s.links
  rw [List.map_set]
  change s.links.set c channel.link = s.links
  rw [← (List.getElem?_eq_some_iff.mp there).2]
  exact List.set_getElem_self inside

theorem links_setChannel {c : Nat} {channel after : BrowserChannel} (here : s.channels[c]? = some channel)
    (same : SameLink channel after) : (s.setChannel c after).links = s.links := by
  have equal : after.link = channel.link := by
    unfold BrowserChannel.link
    rw [same.id, same.authenticated, same.receiveSeq]
  have there : s.links[c]? = some channel.link := by
    unfold State.links
    rw [List.getElem?_map, here]
    rfl
  change (s.channels.set c after).map BrowserChannel.link = s.links
  rw [List.map_set, equal]
  change s.links.set c channel.link = s.links
  have inside := (List.getElem?_eq_some_iff.mp there).1
  rw [← (List.getElem?_eq_some_iff.mp there).2]
  exact List.set_getElem_self inside

/-- What a step does to the ids, the flags and the counters: mostly nothing. -/
theorem links_taskStep {unmarshal : Unmarshal} {ok : Bool}
    (ht : taskStep decrypt unmarshal s k task ok task.pc = some t) :
    (t.links = s.links ∧ t.accepted = s.accepted) ∨
    (∃ id packet plaintext c channel, task.pc = .decrypted id packet plaintext c channel.receiveSeq ∧
      s.channels[c]? = some channel ∧
      t.accepted = s.accepted ++ [⟨c, id, channel.receiveSeq, packet, plaintext⟩] ∧
      t.links = s.links.set c (channel.id, channel.authenticated, channel.receiveSeq + 1)) ∨
    ∃ id c channel, task.pc = .granting id c ∧ s.channels[c]? = some channel ∧ t.accepted = s.accepted ∧
      t.links = s.links.set c (channel.id, true, channel.receiveSeq) := by
  cases at_pc : task.pc with
  | replacing id c =>
    rw [at_pc] at ht
    simp only [taskStep] at ht
    split at ht <;> cases ht <;> exact Or.inl ⟨rfl, rfl⟩
  | inserting id c =>
    rw [at_pc] at ht
    cases ht
    exact Or.inl ⟨rfl, rfl⟩
  | looking id packet =>
    rw [at_pc] at ht
    simp only [taskStep] at ht
    split at ht <;> cases ht <;> exact Or.inl ⟨rfl, rfl⟩
  | found id packet c =>
    rw [at_pc] at ht
    obtain ⟨channel, there, rfl⟩ := Option.map_eq_some_iff.mp ht
    exact Or.inl ⟨rfl, rfl⟩
  | decrypting id packet c sequence =>
    rw [at_pc] at ht
    simp only [taskStep] at ht
    split at ht
    next => split at ht <;> cases ht <;> exact Or.inl ⟨rfl, rfl⟩
    next =>
      cases ht
      exact Or.inl ⟨rfl, rfl⟩
  | decrypted id packet plaintext c sequence =>
    rw [at_pc] at ht
    obtain ⟨channel, there, rfl⟩ := Option.map_eq_some_iff.mp ht
    split
    next => exact Or.inl ⟨rfl, rfl⟩
    next same =>
      have same : channel.receiveSeq = sequence := by simpa using same
      subst same
      exact Or.inr (Or.inl ⟨id, packet, plaintext, c, channel, rfl, there, rfl, List.map_set⟩)
  | accepted id plaintext c =>
    rw [at_pc] at ht
    obtain ⟨channel, there, rfl⟩ := Option.map_eq_some_iff.mp ht
    split <;> exact Or.inl ⟨rfl, rfl⟩
  | login id c =>
    rw [at_pc] at ht
    simp only [taskStep] at ht
    split at ht <;> cases ht <;> exact Or.inl ⟨rfl, rfl⟩
  | granting id c =>
    rw [at_pc] at ht
    obtain ⟨channel, there, rfl⟩ := Option.map_eq_some_iff.mp ht
    exact Or.inr (Or.inr ⟨id, c, channel, rfl, there, rfl, List.map_set⟩)
  | closing id next =>
    rw [at_pc] at ht
    simp only [taskStep] at ht
    split at ht <;> cases ht <;> exact Or.inl ⟨rfl, rfl⟩
  | taking c next =>
    rw [at_pc] at ht
    obtain ⟨channel, there, rfl⟩ := Option.map_eq_some_iff.mp ht
    exact Or.inl ⟨links_emptied there, rfl⟩
  | disposing c rest next =>
    rw [at_pc] at ht
    cases rest with
    | nil =>
      cases ht
      exact Or.inl ⟨rfl, rfl⟩
    | cons item rest =>
      obtain ⟨channel, there, rfl⟩ := Option.map_eq_some_iff.mp ht
      exact Or.inl ⟨links_setChannel there (link_dispose channel item), rfl⟩
  | handling id c handler =>
    rw [at_pc] at ht
    obtain ⟨channel, there, rfl⟩ := Option.map_eq_some_iff.mp ht
    exact Or.inl ⟨links_setChannel there (link_move channel _ ok handler), rfl⟩
  | returned =>
    rw [at_pc] at ht
    cases ht

theorem known_set {u : State} {id : String} {c d : Nat} {channel : BrowserChannel} {flag : Bool}
    {sequence : UInt32}
    (here : s.channels[d]? = some channel) (links : u.links = s.links.set d (channel.id, flag, sequence))
    (h : s.Known id c) : u.Known id c := by
  unfold State.Known at h ⊢
  rw [links]
  by_cases same : d = c
  · subst same
    have there : s.links[d]? = some channel.link := by
      unfold State.links
      rw [List.getElem?_map, here]
      rfl
    rw [there] at h
    rw [List.getElem?_set_self (List.getElem?_eq_some_iff.mp there).1]
    exact h
  · rw [List.getElem?_set_ne same]
    exact h

theorem known_taskStep {unmarshal : Unmarshal} {ok : Bool} {id : String} {c : Nat}
    (ht : taskStep decrypt unmarshal s k task ok task.pc = some t) (h : s.Known id c) : t.Known id c := by
  rcases links_taskStep ht with ⟨links, _⟩ | ⟨_, _, _, d, channel, _, here, _, links⟩ |
    ⟨_, d, channel, _, here, _, links⟩
  · unfold State.Known at h ⊢
    rw [links]
    exact h
  · exact known_set here links h
  · exact known_set here links h

theorem State.Named.advance (h : s.Named decrypt) (adv : Advance s t k task pc more)
    (keep : ∀ {id : String} {c : Nat}, s.Known id c → t.Known id c)
    (middle : pc.middle = true → task.onReader = true) (names : ∀ id c, pc.names = some (id, c) → s.Known id c)
    (aside : ∀ x ∈ more, ∃ id c handler, x.pc = .handling id c handler ∧ s.Known id c)
    (table : ∀ id c, t.table.lookup id = some c → s.Known id c)
    (opened : ∀ id packet plaintext c sequence, pc = .decrypted id packet plaintext c sequence →
      decrypt id sequence packet = some plaintext) : t.Named decrypt := by
  refine ⟨?_, ?_, ?_, ?_⟩
  · intro i a ha inside
    rcases adv.cases ha with ⟨rfl, rfl⟩ | ⟨_, old⟩ | ⟨_, new⟩
    · exact middle inside
    · exact h.reader i a old inside
    · obtain ⟨id, c, handler, at_pc, _⟩ := aside a new
      rw [at_pc] at inside
      cases inside
  · intro i a id c ha has
    rcases adv.cases ha with ⟨rfl, rfl⟩ | ⟨_, old⟩ | ⟨_, new⟩
    · exact keep (names id c has)
    · exact keep (h.names i a id c old has)
    · obtain ⟨id', c', handler, at_pc, known⟩ := aside a new
      rw [at_pc] at has
      cases has
      exact keep known
  · intro id c found
    exact keep (table id c found)
  · intro i a id packet plaintext c sequence ha at_pc
    rcases adv.cases ha with ⟨rfl, rfl⟩ | ⟨_, old⟩ | ⟨_, new⟩
    · exact opened id packet plaintext c sequence at_pc
    · exact h.opened i a id packet plaintext c sequence old at_pc
    · obtain ⟨id', c', handler, at_pc', _⟩ := aside a new
      rw [at_pc] at at_pc'
      cases at_pc'

theorem no_aside : ∀ x ∈ ([] : List Task), ∃ id c handler, x.pc = .handling id c handler ∧ s.Known id c :=
  fun _ none' => absurd none' List.not_mem_nil

theorem names_resume (next : Option (String × Nat)) : (Pc.resume next).names = next := by
  cases next <;> rfl

theorem middle_resume (next : Option (String × Nat)) : (Pc.resume next).middle = false := by
  cases next <;> rfl

theorem resume_ne_decrypted (next : Option (String × Nat)) (id packet : String) (plaintext : Bytes) (c : Nat)
    (sequence : UInt32) : Pc.resume next ≠ .decrypted id packet plaintext c sequence := by
  cases next <;> exact nofun

theorem names_handle {id id' : String} {c c' : Nat} {handler : Option Handler}
    (h : (Pc.handle id c handler).names = some (id', c')) : id' = id ∧ c' = c := by
  cases handler with
  | none => cases h
  | some handler =>
    cases h
    exact ⟨rfl, rfl⟩

theorem named_taskStep {unmarshal : Unmarshal} {ok : Bool} (h : s.Named decrypt)
    (here : s.tasks[k]? = some task)
    (ht : taskStep decrypt unmarshal s k task ok task.pc = some t) : t.Named decrypt := by
  have listed := h.listed
  have mine : ∀ id c, task.pc.names = some (id, c) → s.Known id c := fun id c has => h.names k task id c here has
  have reads : task.pc.middle = true → task.onReader = true := h.reader k task here
  have keep : ∀ {id : String} {c : Nat}, s.Known id c → t.Known id c := fun known => known_taskStep ht known
  have advance : ∀ {pc : Pc}, Advance s t k task pc [] → (pc.middle = true → task.onReader = true) →
      (∀ id c, pc.names = some (id, c) → s.Known id c) → (∀ id c, t.table.lookup id = some c → s.Known id c) →
      (∀ id packet plaintext c sequence, pc = .decrypted id packet plaintext c sequence →
        decrypt id sequence packet = some plaintext) → t.Named decrypt :=
    fun adv middle names table opened => h.advance adv keep middle names no_aside table opened
  cases at_pc : task.pc with
  | replacing id c =>
    rw [at_pc] at ht mine
    simp only [taskStep] at ht
    split at ht
    next =>
      cases ht
      exact advance (advance_setPc here rfl) (by rintro ⟨⟩) mine listed (by rintro _ _ _ _ _ ⟨⟩)
    next =>
      cases ht
      refine advance ⟨here, (List.append_nil _).symm⟩ (by rintro ⟨⟩) (by rintro _ _ ⟨⟩) ?_ (by rintro _ _ _ _ _ ⟨⟩)
      intro id' c' found
      by_cases same : id' = id
      · subst same
        have own : c = c' := Option.some.inj ((AList.lookup_insert _).symm.trans found)
        exact own ▸ mine id' c rfl
      · exact listed id' c' ((AList.lookup_insert_ne same).symm.trans found)
  | inserting id c =>
    rw [at_pc] at ht mine
    cases ht
    refine advance ⟨here, (List.append_nil _).symm⟩ (by rintro ⟨⟩) (by rintro _ _ ⟨⟩) ?_ (by rintro _ _ _ _ _ ⟨⟩)
    intro id' c' found
    by_cases same : id' = id
    · subst same
      have own : c = c' := Option.some.inj ((AList.lookup_insert _).symm.trans found)
      exact own ▸ mine id' c rfl
    · exact listed id' c' ((AList.lookup_insert_ne same).symm.trans found)
  | looking id packet =>
    rw [at_pc] at ht reads
    simp only [taskStep] at ht
    split at ht
    next c found =>
      cases ht
      refine advance (advance_setPc here rfl) (fun _ => reads rfl) ?_ listed (by rintro _ _ _ _ _ ⟨⟩)
      intro id' c' has
      cases has
      exact listed id c found
    next =>
      cases ht
      exact advance (advance_setPc here rfl) (by rintro ⟨⟩) (by rintro _ _ ⟨⟩) listed (by rintro _ _ _ _ _ ⟨⟩)
  | found id packet c =>
    rw [at_pc] at ht mine reads
    obtain ⟨channel, there, rfl⟩ := Option.map_eq_some_iff.mp ht
    exact advance (advance_setPc here rfl) (fun _ => reads rfl) mine listed (by rintro _ _ _ _ _ ⟨⟩)
  | decrypting id packet c sequence =>
    rw [at_pc] at ht mine reads
    simp only [taskStep] at ht
    split at ht
    next plaintext opens =>
      split at ht
      next =>
        cases ht
        exact advance (advance_setPc here rfl) (by rintro ⟨⟩) (by rintro _ _ ⟨⟩) listed (by rintro _ _ _ _ _ ⟨⟩)
      next =>
        cases ht
        refine advance (advance_setPc here rfl) (fun _ => reads rfl) mine listed ?_
        intro id' packet' plaintext' c' sequence' same
        cases same
        exact opens
    next =>
      cases ht
      exact advance (advance_setPc here rfl) (by rintro ⟨⟩) (by rintro _ _ ⟨⟩) listed (by rintro _ _ _ _ _ ⟨⟩)
  | decrypted id packet plaintext c sequence =>
    rw [at_pc] at ht mine reads
    obtain ⟨channel, there, eq⟩ := Option.map_eq_some_iff.mp ht
    split at eq
    next =>
      subst eq
      exact advance (advance_setPc here rfl) (by rintro ⟨⟩) (by rintro _ _ ⟨⟩) listed (by rintro _ _ _ _ _ ⟨⟩)
    next =>
      subst eq
      exact advance ⟨here, (List.append_nil _).symm⟩ (fun _ => reads rfl) mine
        listed (by rintro _ _ _ _ _ ⟨⟩)
  | accepted id plaintext c =>
    rw [at_pc] at ht mine reads
    obtain ⟨channel, there, eq⟩ := Option.map_eq_some_iff.mp ht
    split at eq
    next =>
      subst eq
      exact advance (advance_setPc here rfl) (by rintro ⟨⟩) (by rintro _ _ ⟨⟩) listed (by rintro _ _ _ _ _ ⟨⟩)
    next =>
      subst eq
      exact advance (advance_setPc here rfl) (fun _ => reads rfl) mine listed (by rintro _ _ _ _ _ ⟨⟩)
    next =>
      subst eq
      exact advance (advance_setPc here rfl) (by rintro ⟨⟩) mine listed (by rintro _ _ _ _ _ ⟨⟩)
    next handler _ =>
      subst eq
      refine @State.Named.advance _ _ _ _ _ .returned [⟨false, .handling id c handler⟩] h
        ⟨here, rfl⟩ keep (by rintro ⟨⟩) (by rintro _ _ ⟨⟩) ?_
        listed (by rintro _ _ _ _ _ ⟨⟩)
      intro x hx
      exact ⟨id, c, handler, by rw [List.mem_singleton.mp hx], mine id c rfl⟩
    next =>
      subst eq
      exact advance (advance_setPc here rfl) (by rintro ⟨⟩) (by rintro _ _ ⟨⟩) listed (by rintro _ _ _ _ _ ⟨⟩)
  | login id c =>
    rw [at_pc] at ht mine reads
    simp only [taskStep] at ht
    split at ht
    next =>
      cases ht
      exact advance ⟨here, (List.append_nil _).symm⟩ (fun _ => reads rfl) mine listed (by rintro _ _ _ _ _ ⟨⟩)
    next =>
      cases ht
      exact advance (advance_setPc here rfl) (by rintro ⟨⟩) (by rintro _ _ ⟨⟩) listed (by rintro _ _ _ _ _ ⟨⟩)
  | granting id c =>
    rw [at_pc] at ht
    obtain ⟨channel, there, rfl⟩ := Option.map_eq_some_iff.mp ht
    exact advance (advance_setPc here rfl) (by rintro ⟨⟩) (by rintro _ _ ⟨⟩) listed (by rintro _ _ _ _ _ ⟨⟩)
  | closing id next =>
    rw [at_pc] at ht mine
    simp only [taskStep] at ht
    split at ht
    next c found =>
      cases ht
      refine advance ⟨here, (List.append_nil _).symm⟩ (by rintro ⟨⟩) mine ?_ (by rintro _ _ _ _ _ ⟨⟩)
      intro id' c' left
      by_cases same : id' = id
      · subst same
        cases (AList.lookup_erase id' s.table).symm.trans left
      · exact listed id' c' ((AList.lookup_erase_ne same).symm.trans left)
    next =>
      cases ht
      refine advance (advance_setPc here rfl) ?_ ?_ listed ?_
      · rw [middle_resume]
        rintro ⟨⟩
      · rw [names_resume]
        exact mine
      · exact fun id packet plaintext c sequence same =>
          absurd same (resume_ne_decrypted next id packet plaintext c sequence)
  | taking c next =>
    rw [at_pc] at ht mine
    obtain ⟨channel, there, rfl⟩ := Option.map_eq_some_iff.mp ht
    exact advance (advance_setPc here rfl) (by rintro ⟨⟩) mine listed (by rintro _ _ _ _ _ ⟨⟩)
  | disposing c rest next =>
    rw [at_pc] at ht mine
    cases rest with
    | nil =>
      cases ht
      refine advance (advance_setPc here rfl) ?_ ?_ listed ?_
      · rw [middle_resume]
        rintro ⟨⟩
      · rw [names_resume]
        exact mine
      · exact fun id packet plaintext c sequence same =>
          absurd same (resume_ne_decrypted next id packet plaintext c sequence)
    | cons item rest =>
      obtain ⟨channel, there, rfl⟩ := Option.map_eq_some_iff.mp ht
      exact advance (advance_setPc here rfl) (by rintro ⟨⟩) mine
        listed (by rintro _ _ _ _ _ ⟨⟩)
  | handling id c handler =>
    rw [at_pc] at ht mine
    obtain ⟨channel, there, rfl⟩ := Option.map_eq_some_iff.mp ht
    refine h.advance ⟨here, rfl⟩ keep ?_ ?_ ?_ listed ?_
    · generalize (handler.move channel _ ok).next = next
      cases next <;> rintro ⟨⟩
    · intro id' c' has
      obtain ⟨rfl, rfl⟩ := names_handle has
      exact mine _ _ rfl
    · intro x hx
      obtain ⟨spawned, _, rfl⟩ := List.mem_map.mp hx
      exact ⟨id, c, spawned, rfl, mine id c rfl⟩
    · generalize (handler.move channel _ ok).next = next
      cases next <;> rintro _ _ _ _ _ ⟨⟩
  | returned =>
    rw [at_pc] at ht
    cases ht

theorem State.Named.start (h : s.Named decrypt) {a : Task} (tasks : t.tasks = s.tasks ++ [a])
    (table : t.table = s.table) (keep : ∀ {id : String} {c : Nat}, s.Known id c → t.Known id c)
    (middle : a.pc.middle = true → a.onReader = true) (names : ∀ id c, a.pc.names = some (id, c) → t.Known id c)
    (fresh : ∀ id packet plaintext c sequence, a.pc ≠ .decrypted id packet plaintext c sequence) :
    t.Named decrypt := by
  have old : ∀ (i : Nat) (b : Task), t.tasks[i]? = some b → s.tasks[i]? = some b ∨ b = a := by
    intro i b hb
    rw [tasks] at hb
    by_cases inside : i < s.tasks.length
    · rw [List.getElem?_append_left inside] at hb
      exact Or.inl hb
    · rw [List.getElem?_append_right (by omega)] at hb
      exact Or.inr (List.mem_singleton.mp (List.mem_of_getElem? hb))
  refine ⟨?_, ?_, ?_, ?_⟩
  · intro i b hb inside
    rcases old i b hb with hb | rfl
    · exact h.reader i b hb inside
    · exact middle inside
  · intro i b id c hb has
    rcases old i b hb with hb | rfl
    · exact keep (h.names i b id c hb has)
    · exact names id c has
  · intro id c found
    rw [table] at found
    exact keep (h.listed id c found)
  · intro i b id packet plaintext c sequence hb at_pc
    rcases old i b hb with hb | rfl
    · exact h.opened i b id packet plaintext c sequence hb at_pc
    · exact absurd at_pc (fresh id packet plaintext c sequence)

theorem known_open {id id' : String} {c : Nat} (h : s.Known id' c) :
    ({ s with channels := s.channels ++ [.new id] } : State).Known id' c := by
  obtain ⟨link, there, own⟩ := Option.map_eq_some_iff.mp h
  have inside := (List.getElem?_eq_some_iff.mp there).1
  have before : (s.links ++ [BrowserChannel.link (.new id)])[c]? = s.links[c]? := List.getElem?_append_left inside
  have longer : ({ s with channels := s.channels ++ [.new id] } : State).links =
      s.links ++ [BrowserChannel.link (.new id)] := by
    simp [State.links]
  unfold State.Known
  rw [longer, before]
  exact h

theorem known_new (s : State) (id : String) :
    ({ s with channels := s.channels ++ [.new id] } : State).Known id s.channels.length := by
  unfold State.Known State.links
  simp [BrowserChannel.link, BrowserChannel.new]

theorem named_step {unmarshal : Unmarshal} {label : Label} (h : s.Named decrypt)
    (ht : step decrypt unmarshal s label = some t) : t.Named decrypt := by
  cases label with
  | channelOpen id =>
    simp only [step] at ht
    split at ht
    next =>
      obtain ⟨_, rfl⟩ := startReader_eq ht
      refine h.start rfl rfl known_open (by rintro ⟨⟩) ?_ (by rintro _ _ _ _ _ ⟨⟩)
      intro id' c has
      cases has
      exact known_new s id
    next => cases ht
  | fromBrowser id packet =>
    simp only [step] at ht
    split at ht
    next =>
      obtain ⟨_, rfl⟩ := startReader_eq ht
      exact h.start rfl rfl (fun known => known) (fun _ => rfl) (by rintro _ _ ⟨⟩) (by rintro _ _ _ _ _ ⟨⟩)
    next => cases ht
  | channelClose id =>
    simp only [step] at ht
    split at ht
    next =>
      obtain ⟨_, rfl⟩ := startReader_eq ht
      exact h.start rfl rfl (fun known => known) (by rintro ⟨⟩) (by rintro _ _ ⟨⟩) (by rintro _ _ _ _ _ ⟨⟩)
    next => cases ht
  | authTimeout c =>
    simp only [step] at ht
    split at ht
    next =>
      split at ht
      next => cases ht
      next =>
        cases ht
        exact h.start rfl rfl (fun known => known) (by rintro ⟨⟩) (by rintro _ _ ⟨⟩) (by rintro _ _ _ _ _ ⟨⟩)
    next => cases ht
  | shutdown id =>
    cases ht
    exact h.start rfl rfl (fun known => known) (by rintro ⟨⟩) (by rintro _ _ ⟨⟩) (by rintro _ _ _ _ _ ⟨⟩)
  | run k ok =>
    simp only [step] at ht
    split at ht
    next task here => exact named_taskStep h here ht
    next => cases ht

theorem acceptedOn_append {more : List Accepted} (h : t.accepted = s.accepted ++ more) (c : Nat) :
    t.acceptedOn c = s.acceptedOn c ++ more.filter fun a => a.channel = c := by
  unfold State.acceptedOn
  rw [h, List.filter_append]

theorem link_of_channel {c : Nat} {channel : BrowserChannel} (h : s.channels[c]? = some channel) :
    s.links[c]? = some channel.link := by
  unfold State.links
  rw [List.getElem?_map, h]
  rfl

/-- The links after one of them is set. -/
theorem link_after {u : State} {c d : Nat} {before link other : String × Bool × UInt32}
    (here : s.links[c]? = some before) (links : u.links = s.links.set c link) (h : u.links[d]? = some other) :
    (d = c ∧ other = link) ∨ (d ≠ c ∧ s.links[d]? = some other) := by
  rw [links] at h
  by_cases same : d = c
  · subst same
    rw [List.getElem?_set_self (List.getElem?_eq_some_iff.mp here).1] at h
    exact Or.inl ⟨rfl, (Option.some.inj h).symm⟩
  · rw [List.getElem?_set_ne (Ne.symm same)] at h
    exact Or.inr ⟨same, h⟩

theorem State.Numbered.same (h : s.Numbered decrypt) (accepted : t.accepted = s.accepted)
    (keep : ∀ {id : String} {c : Nat}, s.Known id c → t.Known id c)
    (links : ∀ (c : Nat) (link : String × Bool × UInt32), t.links[c]? = some link →
      ∃ before, s.links[c]? = some before ∧ link.2.2 = before.2.2) : t.Numbered decrypt := by
  have on : ∀ c, t.acceptedOn c = s.acceptedOn c := by
    intro c
    unfold State.acceptedOn
    rw [accepted]
  refine ⟨?_, ?_⟩
  · intro a ha
    rw [accepted] at ha
    exact ⟨(h.accepted a ha).1, keep (h.accepted a ha).2⟩
  · intro c link there
    obtain ⟨before, there', same⟩ := links c link there
    rw [on c, same]
    exact h.sequences c before there'

theorem numbered_taskStep {unmarshal : Unmarshal} {ok : Bool} (h : s.Numbered decrypt) (named : s.Named decrypt)
    (here : s.tasks[k]? = some task) (ht : taskStep decrypt unmarshal s k task ok task.pc = some t) :
    t.Numbered decrypt := by
  have keep : ∀ {id : String} {c : Nat}, s.Known id c → t.Known id c := fun known => known_taskStep ht known
  rcases links_taskStep ht with ⟨links, accepted⟩ | ⟨id, packet, plaintext, c, channel, at_pc, there, accepted, links⟩ |
    ⟨_, c, channel, _, there, accepted, links⟩
  · refine h.same accepted keep ?_
    intro c link found
    rw [links] at found
    exact ⟨link, found, rfl⟩
  · have opens := named.opened k task id packet plaintext c channel.receiveSeq here at_pc
    have known := named.names k task id c here (by rw [at_pc]; rfl)
    refine ⟨?_, ?_⟩
    · intro a ha
      rw [accepted] at ha
      rcases List.mem_append.mp ha with old | new
      · exact ⟨(h.accepted a old).1, keep (h.accepted a old).2⟩
      · rw [List.mem_singleton.mp new]
        exact ⟨opens, keep known⟩
    · intro d link found
      rcases link_after (link_of_channel there) links found with ⟨rfl, rfl⟩ | ⟨apart, old⟩
      · obtain ⟨numbers, next⟩ := h.sequences d _ (link_of_channel there)
        have next : channel.receiveSeq = UInt32.ofNat (s.acceptedOn d).length := next
        have longer : t.acceptedOn d = s.acceptedOn d ++ [⟨d, id, channel.receiveSeq, packet, plaintext⟩] := by
          rw [acceptedOn_append accepted]
          simp
        rw [longer, List.map_append, numbers, List.length_append, List.length_singleton, List.range_succ,
          List.map_append]
        refine ⟨?_, ?_⟩
        · rw [List.map_singleton, List.map_singleton, ← next]
        · change channel.receiveSeq + 1 = _
          rw [next, UInt32.ofNat_add]
          rfl
      · have same : t.acceptedOn d = s.acceptedOn d := by
          rw [acceptedOn_append accepted]
          simp [Ne.symm apart]
        rw [same]
        exact h.sequences d link old
  · refine h.same accepted keep ?_
    intro d link found
    rcases link_after (link_of_channel there) links found with ⟨rfl, rfl⟩ | ⟨_, old⟩
    · exact ⟨_, link_of_channel there, rfl⟩
    · exact ⟨link, old, rfl⟩

theorem numbered_step {unmarshal : Unmarshal} {label : Label} (h : s.Numbered decrypt) (named : s.Named decrypt)
    (ht : step decrypt unmarshal s label = some t) : t.Numbered decrypt := by
  cases label with
  | channelOpen id =>
    simp only [step] at ht
    split at ht
    next =>
      obtain ⟨_, rfl⟩ := startReader_eq ht
      have fresh : s.acceptedOn s.channels.length = [] := by
        refine List.filter_eq_nil_iff.mpr ?_
        intro a ha
        obtain ⟨link, there, _⟩ := Option.map_eq_some_iff.mp (h.accepted a ha).2
        have inside := (List.getElem?_eq_some_iff.mp there).1
        simp only [State.links, List.length_map] at inside
        simp only [decide_eq_true_eq]
        omega
      refine ⟨fun a ha => ⟨(h.accepted a ha).1, known_open (h.accepted a ha).2⟩, ?_⟩
      intro c link found
      have found : (s.links ++ [BrowserChannel.link (.new id)])[c]? = some link := by
        rw [← found]
        simp [State.links, State.addTask]
      by_cases inside : c < s.links.length
      · rw [List.getElem?_append_left inside] at found
        exact h.sequences c link found
      · have bound := (List.getElem?_eq_some_iff.mp found).1
        simp only [List.length_append, List.length_singleton] at bound
        have last : c = s.channels.length := by
          simp only [State.links, List.length_map] at inside bound
          omega
        rw [List.getElem?_append_right (by omega)] at found
        have new := List.mem_singleton.mp (List.mem_of_getElem? found)
        rw [new, last]
        change (s.acceptedOn s.channels.length).map Accepted.sequence =
            (List.range (s.acceptedOn s.channels.length).length).map UInt32.ofNat ∧
          (0 : UInt32) = UInt32.ofNat (s.acceptedOn s.channels.length).length
        rw [fresh]
        exact ⟨rfl, rfl⟩
    next => cases ht
  | fromBrowser id packet =>
    simp only [step] at ht
    split at ht
    next =>
      obtain ⟨_, rfl⟩ := startReader_eq ht
      exact ⟨h.accepted, h.sequences⟩
    next => cases ht
  | channelClose id =>
    simp only [step] at ht
    split at ht
    next =>
      obtain ⟨_, rfl⟩ := startReader_eq ht
      exact ⟨h.accepted, h.sequences⟩
    next => cases ht
  | authTimeout c =>
    simp only [step] at ht
    split at ht
    next =>
      split at ht
      next => cases ht
      next =>
        cases ht
        exact ⟨h.accepted, h.sequences⟩
    next => cases ht
  | shutdown id =>
    cases ht
    exact ⟨h.accepted, h.sequences⟩
  | run k ok =>
    simp only [step] at ht
    split at ht
    next task here => exact numbered_taskStep h named here ht
    next => cases ht

end

end TermLinks.Connector
