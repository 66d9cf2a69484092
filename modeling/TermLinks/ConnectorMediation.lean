import TermLinks.ConnectorAcceptance
import TermLinks.InnerMessages

namespace TermLinks.Connector

/-- The plaintext is the message that logs in. -/
def Authenticates (unmarshal : Unmarshal) (plaintext : Bytes) : Prop :=
  unmarshal.kind plaintext = some (protocolVersion, "authenticate") ∧
    ∃ fields, unmarshal.fields "authenticate" plaintext = some fields ∧
      16 ≤ fields.challenge.utf8ByteSize ∧ fields.challenge.utf8ByteSize ≤ 256

/-- The channel a packet is about to be accepted on. -/
def Pc.reads : Pc → Option Nat
  | .found _ _ c | .decrypting _ _ c _ | .decrypted _ _ _ c _ => some c
  | _ => none

/-- The channel whose packet was accepted and is being looked at. -/
def Pc.judged : Pc → Option Nat
  | .accepted _ _ c | .login _ c | .granting _ c => some c
  | _ => none

/-- The first packet of the channel logged in. -/
def State.Admitted (unmarshal : Unmarshal) (s : State) (c : Nat) : Prop :=
  (∃ a, (s.acceptedOn c).head? = some a ∧ Authenticates unmarshal a.plaintext) ∧ c ∈ s.logins

/-- Nothing was accepted on the channel. -/
def State.Virgin (s : State) (c : Nat) : Prop :=
  s.acceptedOn c = [] ∧ ∀ (i : Nat) (b : Task), s.tasks[i]? = some b → b.pc.judged ≠ some c

/-- The one packet accepted on the channel is being looked at. -/
def State.Judged (unmarshal : Unmarshal) (s : State) (c : Nat) : Prop :=
  ∃ (a : Accepted) (i : Nat) (b : Task), s.acceptedOn c = [a] ∧ s.tasks[i]? = some b ∧ b.pc.judged = some c ∧
    (∀ id plaintext, b.pc = .accepted id plaintext c → plaintext = a.plaintext) ∧
    ((∃ id, b.pc = .login id c) ∨ (∃ id, b.pc = .granting id c) → Authenticates unmarshal a.plaintext) ∧
    ((∃ id, b.pc = .granting id c) → c ∈ s.logins)

/-- The channel is being closed by the reader, or out of reach. -/
def State.Spent (s : State) (c : Nat) : Prop :=
  (∀ id, s.table.lookup id = some c →
      ∃ (i : Nat) (b : Task), s.tasks[i]? = some b ∧ b.onReader = true ∧ b.pc = .closing id none) ∧
    ∀ (i : Nat) (b : Task), s.tasks[i]? = some b →
      b.pc.judged ≠ some c ∧ b.pc.reads ≠ some c ∧ ∀ id, b.pc.awaits ≠ some (id, c)

def State.Stage (unmarshal : Unmarshal) (s : State) (c : Nat) : Prop :=
  s.Virgin c ∨ s.Judged unmarshal c ∨ s.Spent c

structure State.Mediated (unmarshal : Unmarshal) (s : State) : Prop where
  stage : ∀ (c : Nat) (id : String) (sequence : UInt32), s.links[c]? = some (id, false, sequence) →
    s.Stage unmarshal c
  granted : ∀ (c : Nat) (id : String) (sequence : UInt32), s.links[c]? = some (id, true, sequence) →
    s.Admitted unmarshal c
  handlers : ∀ (i : Nat) (b : Task) (id : String) (c : Nat) (handler : Handler), s.tasks[i]? = some b →
    b.pc = .handling id c handler → ∃ id' sequence, s.links[c]? = some (id', true, sequence)
  effects : ∀ pair ∈ s.effects, ∃ id sequence, s.links[pair.1]? = some (id, true, sequence)

section

variable {decrypt : String → UInt32 → String → Option Bytes} {unmarshal : Unmarshal} {s t : State} {k : Nat}
  {task : Task} {pc : Pc} {more : List Task}

theorem dispatchFields_ne_authenticate (kind : String) (fields : Fields) (challenge : String) :
    dispatchFields kind fields ≠ .authenticate challenge := by
  unfold dispatchFields
  split
  all_goals try split
  all_goals exact nofun

/-- Before the login there is nothing but the login. -/
theorem dispatch_unauthenticated {plaintext : Bytes} :
    dispatch unmarshal false plaintext = .reject ∨
      (∃ challenge, dispatch unmarshal false plaintext = .authenticate challenge) ∧
        Authenticates unmarshal plaintext := by
  unfold dispatch
  split
  next => exact Or.inl rfl
  next version kind known =>
    split
    next => exact Or.inl rfl
    next current =>
      have current : version = protocolVersion := by simpa using current
      simp only [Bool.not_false, ↓reduceIte]
      split
      next => exact Or.inl rfl
      next named =>
        have named : kind = "authenticate" := by simpa using named
        subst named current
        split
        next fields found =>
          split
          next => exact Or.inl rfl
          next bounds =>
            simp only [Bool.or_eq_true, decide_eq_true_eq, not_or, Nat.not_lt] at bounds
            exact Or.inr ⟨⟨_, rfl⟩, known, fields, found, bounds.1, bounds.2⟩
        next => exact Or.inl rfl

theorem middle_of_judged {c : Nat} (h : pc.judged = some c) : pc.middle = true := by
  cases pc <;> first | rfl | cases h

theorem middle_of_reads {c : Nat} (h : pc.reads = some c) : pc.middle = true := by
  cases pc <;> first | rfl | cases h

theorem busy_of_middle (h : pc.middle = true) : pc ≠ .returned := by
  intro concluded
  rw [concluded] at h
  cases h

/-- Whoever is in the middle of a packet, or about to put a channel into the table, is the reader. -/
theorem reading_of (orderly : s.Orderly) (named : s.Named decrypt) {i : Nat} {b : Task}
    (hb : s.tasks[i]? = some b) (h : b.pc.middle = true ∨ b.pc.awaits ≠ none) : b.reading := by
  rcases h with middle | waits
  · exact ⟨named.reader i b hb middle, busy_of_middle middle⟩
  · exact ⟨orderly.awaiting i b hb waits, not_returned_of_awaits waits⟩

theorem judged_handling {x : Task} (h : ∃ id c handler, x.pc = .handling id c handler) :
    x.pc.judged = none ∧ x.pc.reads = none ∧ x.pc.awaits = none := by
  obtain ⟨id, c, handler, at_pc⟩ := h
  rw [at_pc]
  exact ⟨rfl, rfl, rfl⟩

theorem spent_advance {c : Nat} (adv : Advance s t k task pc more)
    (aside : ∀ x ∈ more, ∃ id c handler, x.pc = .handling id c handler)
    (table : ∀ id, t.table.lookup id = some c → s.table.lookup id = some c ∧ task.pc ≠ .closing id none)
    (judged : pc.judged ≠ some c) (reads : pc.reads = some c → task.pc.reads = some c)
    (awaits : ∀ id, pc.awaits = some (id, c) → task.pc.awaits = some (id, c)) (h : s.Spent c) :
    t.Spent c := by
  obtain ⟨closed, idle⟩ := h
  refine ⟨?_, ?_⟩
  · intro id found
    obtain ⟨before, other⟩ := table id found
    obtain ⟨i, b, hb, reader, at_pc⟩ := closed id before
    refine ⟨i, b, adv.other ?_ hb, reader, at_pc⟩
    intro same
    subst same
    cases adv.here.symm.trans hb
    exact other at_pc
  · intro i b hb
    rcases adv.cases hb with ⟨rfl, rfl⟩ | ⟨_, old⟩ | ⟨_, new⟩
    · obtain ⟨_, reads', awaits'⟩ := idle i task adv.here
      exact ⟨judged, fun has => reads' (reads has), fun id has => awaits' id (awaits id has)⟩
    · exact idle i b old
    · obtain ⟨a, b, c⟩ := judged_handling (aside b new)
      rw [a, b, c]
      exact ⟨nofun, nofun, fun _ => nofun⟩

/-- A step that does not look at the packet of this channel. -/
theorem stage_advance {c : Nat} (adv : Advance s t k task pc more)
    (aside : ∀ x ∈ more, ∃ id c handler, x.pc = .handling id c handler)
    (accepted : t.acceptedOn c = s.acceptedOn c)
    (logins : ∀ d ∈ s.logins, d ∈ t.logins) (judged : pc.judged ≠ some c) (before : task.pc.judged ≠ some c)
    (spent : s.Spent c → t.Spent c) (h : s.Stage unmarshal c) : t.Stage unmarshal c := by
  rcases h with ⟨none', quiet⟩ | ⟨a, i, b, one, hb, judges, plain, login, granting⟩ | concluded
  · refine Or.inl ⟨accepted.trans none', ?_⟩
    intro i b hb
    rcases adv.cases hb with ⟨rfl, rfl⟩ | ⟨_, old⟩ | ⟨_, new⟩
    · exact judged
    · exact quiet i b old
    · rw [(judged_handling (aside b new)).1]
      exact nofun
  · refine Or.inr (Or.inl ⟨a, i, b, accepted.trans one, adv.other ?_ hb, judges, plain, login, ?_⟩)
    · intro same
      subst same
      cases adv.here.symm.trans hb
      exact before judges
    · exact fun at_pc => logins c (granting at_pc)
  · exact Or.inr (Or.inr (spent concluded))

theorem admitted_mono {c : Nat} {later : List Accepted} (accepted : t.acceptedOn c = s.acceptedOn c ++ later)
    (logins : ∀ d ∈ s.logins, d ∈ t.logins) (h : s.Admitted unmarshal c) : t.Admitted unmarshal c := by
  obtain ⟨⟨a, first, logs⟩, login⟩ := h
  refine ⟨⟨a, ?_, logs⟩, logins c login⟩
  rw [accepted, List.head?_append, first]
  rfl

/-- The channel whose packet the reader looks at has that one packet. -/
theorem judged_of_here {c : Nat} (orderly : s.Orderly) (named : s.Named decrypt)
    (here : s.tasks[k]? = some task) (judges : task.pc.judged = some c) (h : s.Stage unmarshal c) :
    ∃ a, s.acceptedOn c = [a] ∧
    (∀ id plaintext, task.pc = .accepted id plaintext c → plaintext = a.plaintext) ∧
      ((∃ id, task.pc = .login id c) ∨ (∃ id, task.pc = .granting id c) →
        Authenticates unmarshal a.plaintext) ∧
      ((∃ id, task.pc = .granting id c) → c ∈ s.logins) := by
  rcases h with ⟨_, quiet⟩ | ⟨a, i, b, one, hb, judges', plain, login, granting⟩ | ⟨_, idle⟩
  · exact absurd judges (quiet k task here)
  · have mine := reading_of orderly named here (Or.inl (middle_of_judged judges))
    have theirs := reading_of orderly named hb (Or.inl (middle_of_judged judges'))
    have same := orderly.single i k b task hb here theirs mine
    subst same
    cases here.symm.trans hb
    exact ⟨a, one, plain, login, granting⟩
  · exact absurd judges (idle k task here).1

/-- The reader refuses the packet it looks at: it closes the channel under the only id it has. -/
theorem spent_of_refused {c : Nat} {id : String} (orderly : s.Orderly) (named : s.Named decrypt)
    (adv : Advance s t k task (.closing id none) []) (judges : task.pc.judged = some c)
    (own : task.pc.names = some (id, c)) (table : t.table = s.table) : t.Spent c := by
  have mine := reading_of orderly named adv.here (Or.inl (middle_of_judged judges))
  have known := named.names k task id c adv.here own
  refine ⟨?_, ?_⟩
  · intro id' found
    rw [table] at found
    have same : id' = id := Option.some.inj ((named.listed id' c found).symm.trans known)
    subst same
    exact ⟨k, _, adv.now, mine.1, rfl⟩
  · intro i b hb
    rcases adv.cases hb with ⟨rfl, rfl⟩ | ⟨apart, old⟩ | ⟨_, new⟩
    · exact ⟨nofun, nofun, fun _ => nofun⟩
    · have alone : b.pc.middle = true ∨ b.pc.awaits ≠ none → False := by
        intro busy
        have theirs := reading_of orderly named old busy
        exact apart (orderly.single i k b task old adv.here theirs mine)
      refine ⟨fun has => alone (Or.inl (middle_of_judged has)), fun has => alone (Or.inl (middle_of_reads has)), ?_⟩
      intro id' has
      refine alone (Or.inr ?_)
      rw [has]
      exact nofun
    · exact absurd new List.not_mem_nil

/-- A step that leaves the flags and the packets alone. -/
theorem State.Mediated.advance (h : s.Mediated unmarshal) (adv : Advance s t k task pc more)
    (aside : ∀ x ∈ more, ∃ id c handler, x.pc = .handling id c handler ∧
      ∃ id' sequence, s.links[c]? = some (id', true, sequence))
    (links : t.links = s.links) (accepted : t.accepted = s.accepted) (logins : ∀ d ∈ s.logins, d ∈ t.logins)
    (stage : ∀ (c : Nat) (id : String) (sequence : UInt32), s.links[c]? = some (id, false, sequence) →
      s.Stage unmarshal c → t.Stage unmarshal c) (handling : ∀ id c handler, pc = .handling id c handler →
      ∃ id' sequence, s.links[c]? = some (id', true, sequence)) (effects : ∀ pair ∈ t.effects,
      pair ∈ s.effects ∨ ∃ id sequence, s.links[pair.1]? = some (id, true, sequence)) :
    t.Mediated unmarshal := by
  have on : ∀ c, t.acceptedOn c = s.acceptedOn c ++ [] := by
    intro c
    unfold State.acceptedOn
    rw [accepted, List.append_nil]
  refine ⟨?_, ?_, ?_, ?_⟩
  · intro c id sequence there
    rw [links] at there
    exact stage c id sequence there (h.stage c id sequence there)
  · intro c id sequence there
    rw [links] at there
    exact admitted_mono (on c) logins (h.granted c id sequence there)
  · intro i b id c handler hb at_pc
    rw [links]
    rcases adv.cases hb with ⟨rfl, rfl⟩ | ⟨_, old⟩ | ⟨_, new⟩
    · exact handling id c handler at_pc
    · exact h.handlers i b id c handler old at_pc
    · obtain ⟨id', c', handler', at_pc', flag⟩ := aside b new
      cases at_pc'.symm.trans at_pc
      exact flag
  · intro pair member
    rw [links]
    rcases effects pair member with old | new
    · exact h.effects pair old
    · exact new

/-- A step of a goroutine that does not look at a packet. -/
theorem State.Mediated.quiet (h : s.Mediated unmarshal) (adv : Advance s t k task pc [])
    (links : t.links = s.links) (accepted : t.accepted = s.accepted) (logins : t.logins = s.logins)
    (effects : t.effects = s.effects) (handling : ∀ id c handler, pc ≠ .handling id c handler)
    (judged : pc.judged = none) (before : task.pc.judged = none)
    (spent : ∀ c, s.Spent c → t.Spent c) : t.Mediated unmarshal := by
  refine h.advance adv (fun _ new => absurd new List.not_mem_nil) links accepted (fun d hd => logins ▸ hd) ?_
    (fun id c handler at_pc => absurd at_pc (handling id c handler)) (fun pair member => Or.inl (effects ▸ member))
  intro c _ _ _ stage
  refine stage_advance adv (fun _ new => absurd new List.not_mem_nil) ?_ (fun d hd => logins ▸ hd) ?_ ?_ (spent c) stage
  · unfold State.acceptedOn
    rw [accepted]
  · rw [judged]
    exact nofun
  · rw [before]
    exact nofun

theorem no_handling_aside : ∀ x ∈ ([] : List Task), ∃ id c handler, x.pc = .handling id c handler :=
  fun _ new => absurd new List.not_mem_nil

theorem flag_of_link {c : Nat} {channel : BrowserChannel} {id : String} {flag : Bool} {sequence : UInt32}
    (here : s.channels[c]? = some channel) (link : s.links[c]? = some (id, flag, sequence)) :
    channel.authenticated = flag := by
  cases (link_of_channel here).symm.trans link
  rfl

/-- The reader looks at an accepted packet. -/
theorem mediated_accepted {ok : Bool} {id : String} {plaintext : Bytes} {c : Nat} (h : s.Mediated unmarshal)
    (orderly : s.Orderly) (named : s.Named decrypt) (here : s.tasks[k]? = some task)
    (at_pc : task.pc = .accepted id plaintext c)
    (ht : taskStep decrypt unmarshal s k task ok (.accepted id plaintext c) = some t) :
    t.Mediated unmarshal := by
  obtain ⟨channel, there, eq⟩ := Option.map_eq_some_iff.mp ht
  have judges : task.pc.judged = some c := by
    rw [at_pc]
    rfl
  have own : task.pc.names = some (id, c) := by
    rw [at_pc]
    rfl
  have elsewhere : ∀ {pc : Pc} {u : State}, Advance s u k task pc [] → u.accepted = s.accepted → u.logins = s.logins →
      u.table = s.table → (∀ d, d ≠ c → pc.judged ≠ some d) → pc.reads = none → pc.awaits = none →
      ∀ d, d ≠ c → s.Stage unmarshal d → u.Stage unmarshal d := by
    intro pc u adv accepted logins table judged reads awaits d apart stage
    refine stage_advance adv no_handling_aside ?_ (fun e he => logins ▸ he) (judged d apart) ?_ ?_ stage
    · unfold State.acceptedOn
      rw [accepted]
    · rw [judges]
      exact fun same => apart (Option.some.inj same).symm
    · refine spent_advance adv no_handling_aside ?_ (judged d apart) ?_ ?_
      · intro id' found
        rw [table] at found
        refine ⟨found, ?_⟩
        rw [at_pc]
        rintro ⟨⟩
      · rw [reads]
        rintro ⟨⟩
      · rw [awaits]
        rintro _ ⟨⟩
  have granted : channel.authenticated = true → s.links[c]? = some (channel.id, true, channel.receiveSeq) := by
    intro flag
    rw [link_of_channel there, BrowserChannel.link, flag]
  cases flag : channel.authenticated with
  | false =>
    rw [flag] at eq
    rcases @dispatch_unauthenticated unmarshal plaintext with refused |
      ⟨⟨challenge, login⟩, logs⟩
    · rw [refused] at eq
      subst eq
      have adv := @advance_setPc s _ _ (.closing id none) s here rfl
      refine h.advance adv (fun _ new => absurd new List.not_mem_nil) rfl rfl (fun _ hd => hd) ?_ (by rintro _ _ _ ⟨⟩)
        fun _ member => Or.inl member
      intro d id' sequence link stage
      by_cases same : d = c
      · subst same
        exact Or.inr (Or.inr (spent_of_refused orderly named adv judges own rfl))
      · exact elsewhere adv rfl rfl rfl (fun _ _ => (by rintro ⟨⟩)) rfl rfl d same stage
    · rw [login] at eq
      subst eq
      have adv := @advance_setPc s _ _ (.login id c) s here rfl
      refine h.advance adv (fun _ new => absurd new List.not_mem_nil) rfl rfl (fun _ hd => hd) ?_ (by rintro _ _ _ ⟨⟩)
        fun _ member => Or.inl member
      intro d id' sequence link stage
      by_cases same : d = c
      · subst same
        obtain ⟨a, one, plain, _, _⟩ := judged_of_here orderly named here judges stage
        have text := plain id plaintext at_pc
        refine Or.inr (Or.inl ⟨a, k, _, one, adv.now, rfl, (by rintro _ _ ⟨⟩), ?_, (by simp)⟩)
        intro _
        rw [← text]
        exact logs
      · refine elsewhere adv rfl rfl rfl ?_ rfl rfl d same stage
        intro e apart equal
        exact apart (Option.some.inj equal).symm
  | true =>
    have known := granted flag
    have other : ∀ (d : Nat) (id' : String) (sequence : UInt32), s.links[d]? = some (id', false, sequence) → d ≠ c := by
      intro d id' sequence link same
      subst same
      cases known.symm.trans link
    have keep : ∀ {pc : Pc} {u : State}, Advance s u k task pc [] → u.links = s.links → u.accepted = s.accepted →
        u.logins = s.logins → u.effects = s.effects → u.table = s.table → pc.judged = none → pc.reads = none →
        pc.awaits = none → (∀ id' d handler, pc = .handling id' d handler → d = c) → u.Mediated unmarshal := by
      intro pc u adv links accepted logins effects table judged reads awaits handling
      refine h.advance adv (fun _ new => absurd new List.not_mem_nil) links accepted (fun d hd => logins ▸ hd) ?_ ?_
        fun pair member => Or.inl (effects ▸ member)
      · intro d id' sequence link stage
        refine elsewhere adv accepted logins table ?_ reads awaits d (other d id' sequence link) stage
        rw [judged]
        exact fun _ _ => (by rintro ⟨⟩)
      · intro id' d handler same
        rw [handling id' d handler same]
        exact ⟨_, _, known⟩
    split at eq
    next =>
      subst eq
      exact keep (advance_setPc here rfl) rfl rfl rfl rfl rfl rfl rfl rfl (by rintro _ _ _ ⟨⟩)
    next challenge login =>
      exfalso
      rw [flag] at login
      unfold dispatch at login
      split at login
      next => cases login
      next =>
        split at login
        next => cases login
        next =>
          simp only [Bool.not_true, Bool.false_eq_true, ↓reduceIte] at login
          split at login
          next =>
            split at login
            next => exact dispatchFields_ne_authenticate _ _ _ login
            next => cases login
          next => cases login
    next handler _ =>
      subst eq
      refine keep (advance_setPc here rfl) rfl rfl rfl rfl rfl rfl rfl rfl ?_
      intro id' d handler' same
      cases same
      rfl
    next handler _ =>
      subst eq
      have adv : Advance s ((s.setPc k task .returned).addTask ⟨false, .handling id c handler⟩) k task .returned
        [⟨false, .handling id c handler⟩] := ⟨here, rfl⟩
      have aside : ∀ x ∈ [(⟨false, .handling id c handler⟩ : Task)], ∃ id' d handler', x.pc = .handling id' d handler' ∧
          ∃ id' sequence, s.links[d]? = some (id', true, sequence) := by
        intro x hx
        exact ⟨id, c, handler, by rw [List.mem_singleton.mp hx], _, _, known⟩
      have plain : ∀ x ∈ [(⟨false, .handling id c handler⟩ : Task)],
          ∃ id' d handler', x.pc = .handling id' d handler' := by
        intro x hx
        exact ⟨id, c, handler, by rw [List.mem_singleton.mp hx]⟩
      refine h.advance adv aside rfl rfl (fun _ hd => hd) ?_ (by rintro _ _ _ ⟨⟩) fun _ member => Or.inl member
      intro d id' sequence link stage
      have apart := other d id' sequence link
      refine stage_advance adv plain rfl (fun _ hd => hd) (by rintro ⟨⟩) ?_ ?_ stage
      · rw [judges]
        exact fun same => apart (Option.some.inj same).symm
      · refine spent_advance adv plain ?_ (by rintro ⟨⟩) (by rintro ⟨⟩) (by rintro _ ⟨⟩)
        intro id' found
        refine ⟨found, ?_⟩
        rw [at_pc]
        rintro ⟨⟩
    next =>
      subst eq
      exact keep (advance_setPc here rfl) rfl rfl rfl rfl rfl rfl rfl rfl (by rintro _ _ _ ⟨⟩)

/-- A packet is accepted. -/
theorem mediated_decrypted {ok : Bool} {id packet : String} {plaintext : Bytes} {c : Nat}
    {channel : BrowserChannel} (h : s.Mediated unmarshal) (orderly : s.Orderly) (named : s.Named decrypt)
    (here : s.tasks[k]? = some task) (at_pc : task.pc = .decrypted id packet plaintext c channel.receiveSeq)
    (there : s.channels[c]? = some channel) (ht : taskStep decrypt unmarshal s k task ok
      (.decrypted id packet plaintext c channel.receiveSeq) = some t) :
    t.Mediated unmarshal := by
  obtain ⟨found, there', eq⟩ := Option.map_eq_some_iff.mp ht
  cases there.symm.trans there'
  simp only [ne_eq, not_true_eq_false, ↓reduceIte] at eq
  have adv : Advance s t k task (.accepted id plaintext c) [] := by
    rw [← eq]
    exact ⟨here, (List.append_nil _).symm⟩
  have accepted : t.accepted = s.accepted ++ [⟨c, id, channel.receiveSeq, packet, plaintext⟩] := by rw [← eq]
  have logins : t.logins = s.logins := by rw [← eq]; rfl
  have table : t.table = s.table := by rw [← eq]; rfl
  have effects : t.effects = s.effects := by rw [← eq]; rfl
  have links : t.links = s.links.set c (channel.id, channel.authenticated, channel.receiveSeq + 1) := by
    rw [← eq]
    exact List.map_set
  have on : ∀ d, t.acceptedOn d = s.acceptedOn d ++
      if d = c then [⟨c, id, channel.receiveSeq, packet, plaintext⟩] else [] := by
    intro d
    rw [acceptedOn_append accepted]
    by_cases same : d = c
    · simp [same]
    · simp [same, Ne.symm same]
  have flags : ∀ (d : Nat) (id' : String) (sequence : UInt32) (flag : Bool), t.links[d]? = some (id', flag, sequence) →
      ∃ sequence', s.links[d]? = some (id', flag, sequence') := by
    intro d id' sequence flag link
    rcases link_after (link_of_channel there) links link with ⟨rfl, same⟩ | ⟨_, old⟩
    · cases same
      exact ⟨_, link_of_channel there⟩
    · exact ⟨sequence, old⟩
  have forth : ∀ (d : Nat) (id' : String) (sequence : UInt32), s.links[d]? = some (id', true, sequence) →
      ∃ id' sequence', t.links[d]? = some (id', true, sequence') := by
    intro d id' sequence link
    rw [links]
    by_cases same : d = c
    · subst same
      have flag := flag_of_link there link
      rw [List.getElem?_set_self (List.getElem?_eq_some_iff.mp link).1, flag]
      exact ⟨_, _, rfl⟩
    · rw [List.getElem?_set_ne (Ne.symm same)]
      exact ⟨id', sequence, link⟩
  refine ⟨?_, ?_, ?_, ?_⟩
  · intro d id' sequence link
    obtain ⟨sequence', old⟩ := flags d id' sequence false link
    have stage := h.stage d id' sequence' old
    by_cases same : d = c
    · subst same
      rcases stage with ⟨none', _⟩ | ⟨_, i, b, _, hb, judges, _⟩ | ⟨_, idle⟩
      · refine Or.inr (Or.inl ⟨⟨d, id, channel.receiveSeq, packet, plaintext⟩, k, _, ?_, adv.now, rfl, ?_, ?_, nofun⟩)
        · rw [on d, none']
          simp
        · intro id'' plaintext' same
          cases same
          rfl
        · rintro (⟨id'', login⟩ | ⟨id'', granting⟩)
          · cases login
          · cases granting
      · have mine := reading_of orderly named here (Or.inl (by rw [at_pc]; rfl))
        have theirs := reading_of orderly named hb (Or.inl (middle_of_judged judges))
        have equal := orderly.single i k b task hb here theirs mine
        subst equal
        cases here.symm.trans hb
        rw [at_pc] at judges
        cases judges
      · exact absurd (by rw [at_pc]; rfl) (idle k task here).2.1
    · refine stage_advance adv no_handling_aside ?_ (fun e he => logins ▸ he) ?_ ?_ ?_ stage
      · rw [on d, if_neg same, List.append_nil]
      · exact fun equal => same (Option.some.inj equal).symm
      · rw [at_pc]
        exact nofun
      · refine spent_advance adv no_handling_aside ?_ ?_ nofun (fun _ => nofun)
        · intro id'' found
          rw [table] at found
          refine ⟨found, ?_⟩
          rw [at_pc]
          exact nofun
        · exact fun equal => same (Option.some.inj equal).symm
  · intro d id' sequence link
    obtain ⟨sequence', old⟩ := flags d id' sequence true link
    exact admitted_mono (on d) (fun e he => logins ▸ he) (h.granted d id' sequence' old)
  · intro i b id' d handler hb at_pc'
    rcases adv.cases hb with ⟨rfl, rfl⟩ | ⟨_, old⟩ | ⟨_, new⟩
    · cases at_pc'
    · obtain ⟨id'', sequence, link⟩ := h.handlers i b id' d handler old at_pc'
      exact forth d id'' sequence link
    · exact absurd new List.not_mem_nil
  · intro pair member
    rw [effects] at member
    obtain ⟨id', sequence, link⟩ := h.effects pair member
    exact forth pair.1 id' sequence link

/-- The login succeeded: the channel becomes authenticated. -/
theorem mediated_granting {id : String} {c : Nat} {channel : BrowserChannel} (h : s.Mediated unmarshal)
    (orderly : s.Orderly) (named : s.Named decrypt) (here : s.tasks[k]? = some task)
    (at_pc : task.pc = .granting id c) (there : s.channels[c]? = some channel) :
    ((s.setChannel c { channel with authenticated := true }).setPc k task .returned).Mediated unmarshal := by
  have adv : Advance s ((s.setChannel c { channel with authenticated := true }).setPc k task .returned) k task
    .returned [] := advance_setPc here rfl
  have links : ((s.setChannel c { channel with authenticated := true }).setPc k task .returned).links =
      s.links.set c (channel.id, true, channel.receiveSeq) := List.map_set
  have forth : ∀ (d : Nat) (id' : String) (sequence : UInt32), s.links[d]? = some (id', true, sequence) →
      ∃ id' sequence',
        ((s.setChannel c { channel with authenticated := true }).setPc k task .returned).links[d]? =
          some (id', true, sequence') := by
    intro d id' sequence link
    rw [links]
    by_cases same : d = c
    · subst same
      rw [List.getElem?_set_self (List.getElem?_eq_some_iff.mp link).1]
      exact ⟨_, _, rfl⟩
    · rw [List.getElem?_set_ne (Ne.symm same)]
      exact ⟨id', sequence, link⟩
  have mono : ∀ d, s.Admitted unmarshal d →
      ((s.setChannel c { channel with authenticated := true }).setPc k task .returned).Admitted unmarshal d :=
    fun d admitted => admitted_mono (List.append_nil _).symm (fun _ hd => hd) admitted
  refine ⟨?_, ?_, ?_, ?_⟩
  · intro d id' sequence link
    rcases link_after (link_of_channel there) links link with ⟨rfl, same⟩ | ⟨apart, old⟩
    · cases same
    · refine stage_advance adv no_handling_aside rfl (fun _ hd => hd) nofun ?_ ?_ (h.stage d id' sequence old)
      · rw [at_pc]
        exact fun equal => apart (Option.some.inj equal).symm
      · refine spent_advance adv no_handling_aside ?_ nofun nofun (fun _ => nofun)
        intro id'' found
        refine ⟨found, ?_⟩
        rw [at_pc]
        exact nofun
  · intro d id' sequence link
    refine mono d ?_
    rcases link_after (link_of_channel there) links link with ⟨rfl, same⟩ | ⟨_, old⟩
    · cases flag : channel.authenticated with
      | true =>
        have before := link_of_channel there
        rw [BrowserChannel.link, flag] at before
        exact h.granted d _ _ before
      | false =>
        have before := link_of_channel there
        rw [BrowserChannel.link, flag] at before
        obtain ⟨a, one, _, login, granting⟩ := judged_of_here orderly named here (by rw [at_pc]; rfl)
          (h.stage d _ _ before)
        refine ⟨⟨a, ?_, login (Or.inr ⟨id, at_pc⟩)⟩, granting ⟨id, at_pc⟩⟩
        rw [one]
        rfl
    · exact h.granted d id' sequence old
  · intro i b id' d handler hb at_pc'
    rcases adv.cases hb with ⟨rfl, rfl⟩ | ⟨_, old⟩ | ⟨_, new⟩
    · cases at_pc'
    · obtain ⟨id'', sequence, link⟩ := h.handlers i b id' d handler old at_pc'
      exact forth d id'' sequence link
    · exact absurd new List.not_mem_nil
  · intro pair member
    obtain ⟨id', sequence, link⟩ := h.effects pair member
    exact forth pair.1 id' sequence link

/-- A handler does what it does on an authenticated channel. -/
theorem mediated_handling {id : String} {c : Nat} {channel : BrowserChannel} {handler : Handler}
    {reachable ok : Bool}
    (h : s.Mediated unmarshal) (here : s.tasks[k]? = some task) (at_pc : task.pc = .handling id c handler)
    (there : s.channels[c]? = some channel) :
    (handleStep s k task id c (handler.move channel reachable ok)).Mediated unmarshal := by
  have adv : Advance s (handleStep s k task id c (handler.move channel reachable ok)) k task _ _ := ⟨here, rfl⟩
  have flag := h.handlers k task id c handler here at_pc
  have aside : ∀ x ∈ (handler.move channel reachable ok).spawn.toList.map (fun spawned =>
      (⟨false, .handling id c spawned⟩ : Task)), ∃ id' d handler', x.pc = .handling id' d handler' ∧
        ∃ id' sequence, s.links[d]? = some (id', true, sequence) := by
    intro x hx
    obtain ⟨spawned, _, rfl⟩ := List.mem_map.mp hx
    exact ⟨id, c, spawned, rfl, flag⟩
  have plain : ∀ x ∈ (handler.move channel reachable ok).spawn.toList.map (fun spawned =>
      (⟨false, .handling id c spawned⟩ : Task)), ∃ id' d handler', x.pc = .handling id' d handler' := by
    intro x hx
    obtain ⟨id', d, handler', at_pc', _⟩ := aside x hx
    exact ⟨id', d, handler', at_pc'⟩
  have next : (Pc.handle id c (handler.move channel reachable ok).next).judged = none ∧
      (Pc.handle id c (handler.move channel reachable ok).next).reads = none := by
    cases (handler.move channel reachable ok).next <;> exact ⟨rfl, rfl⟩
  refine h.advance adv aside (links_setChannel there (link_move channel reachable ok handler)) rfl (fun _ hd => hd) ?_
    ?_ ?_
  · intro d id' sequence _ stage
    refine stage_advance adv plain rfl (fun _ hd => hd) ?_ ?_ ?_ stage
    · rw [next.1]
      exact nofun
    · rw [at_pc]
      exact nofun
    · refine spent_advance adv plain ?_ ?_ ?_ ?_
      · intro id'' found
        refine ⟨found, ?_⟩
        rw [at_pc]
        exact nofun
      · rw [next.1]
        exact nofun
      · rw [next.2]
        exact nofun
      · rw [awaits_handle]
        exact fun _ => nofun
  · intro id' d handler' goes
    cases hn : (handler.move channel reachable ok).next with
    | none =>
      rw [hn] at goes
      cases goes
    | some next =>
      rw [hn] at goes
      cases goes
      exact flag
  · intro pair member
    rcases List.mem_append.mp member with old | new
    · exact Or.inl old
    · obtain ⟨effect, _, rfl⟩ := List.mem_map.mp new
      exact Or.inr flag

theorem judged_resume (next : Option (String × Nat)) :
    (Pc.resume next).judged = none ∧ (Pc.resume next).reads = none := by
  cases next <;> exact ⟨rfl, rfl⟩

theorem resume_ne_handling (next : Option (String × Nat)) (id : String) (c : Nat) (handler : Handler) :
    Pc.resume next ≠ .handling id c handler := by
  cases next <;> exact nofun

theorem mediated_taskStep {ok : Bool} (h : s.Mediated unmarshal) (orderly : s.Orderly) (named : s.Named decrypt)
    (here : s.tasks[k]? = some task) (ht : taskStep decrypt unmarshal s k task ok task.pc = some t) :
    t.Mediated unmarshal := by
  -- The steps that neither touch the table nor reach the packet of a channel.
  have idle : ∀ {u : State} {pc : Pc} {c : Nat}, Advance s u k task pc [] → u.table = s.table → pc.judged ≠ some c →
      (pc.reads = some c → task.pc.reads = some c) → (∀ id, pc.awaits = some (id, c) → task.pc.awaits = some (id, c)) →
      (∀ id, task.pc = .closing id none → s.table.lookup id = none) → s.Spent c → u.Spent c := by
    intro u pc c adv table judged reads awaits closes
    refine spent_advance adv no_handling_aside ?_ judged reads awaits
    intro id found
    rw [table] at found
    refine ⟨found, ?_⟩
    intro same
    cases (closes id same).symm.trans found
  cases at_pc : task.pc with
  | replacing id c =>
    rw [at_pc] at ht idle
    simp only [taskStep] at ht
    split at ht
    next =>
      cases ht
      have adv := @advance_setPc s _ _ (.closing id (some (id, c))) s here rfl
      exact h.quiet adv rfl rfl rfl rfl (by rintro _ _ _ ⟨⟩) rfl (by rw [at_pc]; rfl) fun d =>
        idle adv rfl (by rintro ⟨⟩) (by rintro ⟨⟩) (fun _ waits => waits) (by rintro _ ⟨⟩)
    next =>
      cases ht
      have adv : Advance s { s.setPc k task .returned with table := s.table.insert id c } k task .returned [] :=
        ⟨here, (List.append_nil _).symm⟩
      refine h.quiet adv rfl rfl rfl rfl (by rintro _ _ _ ⟨⟩) rfl (by rw [at_pc]; rfl) ?_
      intro d concluded
      refine spent_advance adv no_handling_aside ?_ (by rintro ⟨⟩) (by rintro ⟨⟩) (by rintro _ ⟨⟩) concluded
      intro id' found
      refine ⟨?_, by rw [at_pc]; rintro ⟨⟩⟩
      by_cases same : id' = id
      · subst same
        have own : c = d := Option.some.inj ((AList.lookup_insert _).symm.trans found)
        subst own
        exact absurd (by rw [at_pc]; rfl) ((concluded.2 k task here).2.2 id')
      · exact (AList.lookup_insert_ne same).symm.trans found
  | inserting id c =>
    rw [at_pc] at ht
    cases ht
    have adv : Advance s { s.setPc k task .returned with table := s.table.insert id c } k task .returned [] :=
      ⟨here, (List.append_nil _).symm⟩
    refine h.quiet adv rfl rfl rfl rfl (by rintro _ _ _ ⟨⟩) rfl (by rw [at_pc]; rfl) ?_
    intro d concluded
    refine spent_advance adv no_handling_aside ?_ (by rintro ⟨⟩) (by rintro ⟨⟩) (by rintro _ ⟨⟩) concluded
    intro id' found
    refine ⟨?_, by rw [at_pc]; rintro ⟨⟩⟩
    by_cases same : id' = id
    · subst same
      have own : c = d := Option.some.inj ((AList.lookup_insert _).symm.trans found)
      subst own
      exact absurd (by rw [at_pc]; rfl) ((concluded.2 k task here).2.2 id')
    · exact (AList.lookup_insert_ne same).symm.trans found
  | looking id packet =>
    rw [at_pc] at ht idle
    simp only [taskStep] at ht
    split at ht
    next c found =>
      cases ht
      have adv := @advance_setPc s _ _ (.found id packet c) s here rfl
      refine h.quiet adv rfl rfl rfl rfl (by rintro _ _ _ ⟨⟩) rfl (by rw [at_pc]; rfl) ?_
      intro d concluded
      by_cases same : d = c
      · subst same
        obtain ⟨i, b, hb, reader, closing⟩ := concluded.1 id found
        have mine := reading_of orderly named here (Or.inl (by rw [at_pc]; rfl))
        have theirs : b.reading := ⟨reader, by rw [closing]; rintro ⟨⟩⟩
        have equal := orderly.single i k b task hb here theirs mine
        subst equal
        cases here.symm.trans hb
        cases at_pc.symm.trans closing
      · exact idle adv rfl
          (by rintro ⟨⟩) (fun reads => absurd (Option.some.inj reads).symm same)
          (by rintro _ ⟨⟩) (by rintro _ ⟨⟩) concluded
    next =>
      cases ht
      have adv := @advance_setPc s _ _ (.closing id none) s here rfl
      exact h.quiet adv rfl rfl rfl rfl (by rintro _ _ _ ⟨⟩) rfl (by rw [at_pc]; rfl) fun d =>
        idle adv rfl (by rintro ⟨⟩) (by rintro ⟨⟩) (by rintro _ ⟨⟩) (by rintro _ ⟨⟩)
  | found id packet c =>
    rw [at_pc] at ht idle
    obtain ⟨channel, there, rfl⟩ := Option.map_eq_some_iff.mp ht
    have adv := @advance_setPc s _ _ (.decrypting id packet c channel.receiveSeq) s here rfl
    exact h.quiet adv rfl rfl rfl rfl (by rintro _ _ _ ⟨⟩) rfl (by rw [at_pc]; rfl) fun d =>
      idle adv rfl (by rintro ⟨⟩) (fun reads => reads) (by rintro _ ⟨⟩) (by rintro _ ⟨⟩)
  | decrypting id packet c sequence =>
    rw [at_pc] at ht idle
    have close : (s.setPc k task (.closing id none)).Mediated unmarshal := by
      have adv := @advance_setPc s _ _ (.closing id none) s here rfl
      exact h.quiet adv rfl rfl rfl rfl (by rintro _ _ _ ⟨⟩) rfl (by rw [at_pc]; rfl) fun d =>
        idle adv rfl (by rintro ⟨⟩) (by rintro ⟨⟩) (by rintro _ ⟨⟩) (by rintro _ ⟨⟩)
    simp only [taskStep] at ht
    split at ht
    next plaintext opens =>
      split at ht
      next =>
        cases ht
        exact close
      next =>
        cases ht
        have adv := @advance_setPc s _ _ (.decrypted id packet plaintext c sequence) s here rfl
        exact h.quiet adv rfl rfl rfl rfl (by rintro _ _ _ ⟨⟩) rfl (by rw [at_pc]; rfl) fun d =>
          idle adv rfl (by rintro ⟨⟩) (fun reads => reads) (by rintro _ ⟨⟩) (by rintro _ ⟨⟩)
    next =>
      cases ht
      exact close
  | decrypted id packet plaintext c sequence =>
    rw [at_pc] at ht idle
    have run := ht
    obtain ⟨channel, there, eq⟩ := Option.map_eq_some_iff.mp ht
    by_cases same : channel.receiveSeq = sequence
    · subst same
      exact mediated_decrypted h orderly named here at_pc there run
    · rw [if_pos same] at eq
      subst eq
      have adv := @advance_setPc s _ _ (.closing id none) s here rfl
      exact h.quiet adv rfl rfl rfl rfl (by rintro _ _ _ ⟨⟩) rfl (by rw [at_pc]; rfl) fun d =>
        idle adv rfl (by rintro ⟨⟩) (by rintro ⟨⟩) (by rintro _ ⟨⟩) (by rintro _ ⟨⟩)
  | accepted id plaintext c =>
    rw [at_pc] at ht
    exact mediated_accepted h orderly named here at_pc ht
  | login id c =>
    rw [at_pc] at ht
    have judges : task.pc.judged = some c := by
      rw [at_pc]
      rfl
    simp only [taskStep] at ht
    split at ht
    next =>
      cases ht
      have adv : Advance s { s.setPc k task (.granting id c) with logins := s.logins ++ [c] } k task
        (.granting id c) [] :=
        ⟨here, (List.append_nil _).symm⟩
      refine h.advance adv (fun _ new => absurd new List.not_mem_nil) rfl rfl
        (fun _ hd => List.mem_append_left _ hd) ?_ (by rintro _ _ _ ⟨⟩) fun _ member => Or.inl member
      intro d id' sequence link stage
      by_cases same : d = c
      · subst same
        obtain ⟨a, one, _, logs, _⟩ := judged_of_here orderly named here judges stage
        refine Or.inr (Or.inl ⟨a, k, _, one, adv.now, rfl, (by rintro _ _ ⟨⟩), ?_, ?_⟩)
        · exact fun _ => logs (Or.inl ⟨id, at_pc⟩)
        · exact fun _ => List.mem_append_right _ (List.mem_singleton.mpr rfl)
      · refine stage_advance adv no_handling_aside rfl (fun _ hd => List.mem_append_left _ hd) ?_ ?_ ?_ stage
        · exact fun equal => same (Option.some.inj equal).symm
        · rw [judges]
          exact fun equal => same (Option.some.inj equal).symm
        · rw [at_pc] at idle
          refine idle adv rfl ?_ (by rintro ⟨⟩) (by rintro _ ⟨⟩) (by rintro _ ⟨⟩)
          exact fun equal => same (Option.some.inj equal).symm
    next =>
      cases ht
      have adv := @advance_setPc s _ _ (.closing id none) s here rfl
      refine h.advance adv (fun _ new => absurd new List.not_mem_nil) rfl rfl (fun _ hd => hd) ?_ (by rintro _ _ _ ⟨⟩)
        fun _ member => Or.inl member
      intro d id' sequence link stage
      by_cases same : d = c
      · subst same
        exact Or.inr (Or.inr (spent_of_refused orderly named adv judges (by rw [at_pc]; rfl) rfl))
      · refine stage_advance adv no_handling_aside rfl (fun _ hd => hd) (by rintro ⟨⟩) ?_ ?_ stage
        · rw [judges]
          exact fun equal => same (Option.some.inj equal).symm
        · rw [at_pc] at idle
          exact idle adv rfl (by rintro ⟨⟩) (by rintro ⟨⟩) (by rintro _ ⟨⟩) (by rintro _ ⟨⟩)
  | granting id c =>
    rw [at_pc] at ht
    obtain ⟨channel, there, rfl⟩ := Option.map_eq_some_iff.mp ht
    exact mediated_granting h orderly named here at_pc there
  | closing id next =>
    rw [at_pc] at ht idle
    simp only [taskStep] at ht
    split at ht
    next c found =>
      cases ht
      have adv : Advance s { s.setPc k task (.taking c next) with table := s.table.erase id } k task
        (.taking c next) [] :=
        ⟨here, (List.append_nil _).symm⟩
      refine h.quiet adv rfl rfl rfl rfl (by rintro _ _ _ ⟨⟩) rfl (by rw [at_pc]; rfl) ?_
      intro d
      refine spent_advance adv no_handling_aside ?_ (by rintro ⟨⟩) (by rintro ⟨⟩) ?_
      · intro id' left
        have other : id' ≠ id := by
          intro same
          subst same
          cases (AList.lookup_erase id' s.table).symm.trans left
        refine ⟨(AList.lookup_erase_ne other).symm.trans left, ?_⟩
        rw [at_pc]
        intro same
        cases same
        exact other rfl
      · rw [at_pc]
        exact fun _ waits => waits
    next absent =>
      cases ht
      have adv := @advance_setPc s _ _ (.resume next) s here rfl
      refine h.quiet adv rfl rfl rfl rfl (resume_ne_handling next) (judged_resume next).1 (by rw [at_pc]; rfl) ?_
      intro d
      refine idle adv rfl ?_ ?_ ?_ ?_
      · rw [(judged_resume next).1]
        rintro ⟨⟩
      · rw [(judged_resume next).2]
        rintro ⟨⟩
      · rw [awaits_resume]
        exact fun _ waits => waits
      · intro id' same
        cases same
        exact absent
  | taking c next =>
    rw [at_pc] at ht idle
    obtain ⟨channel, there, rfl⟩ := Option.map_eq_some_iff.mp ht
    have adv : Advance s ((s.setChannel c channel.emptied).setPc k task (.disposing c channel.contents next)) k task
      (.disposing c channel.contents next) [] := advance_setPc here rfl
    exact h.quiet adv (links_emptied there) rfl rfl rfl (by rintro _ _ _ ⟨⟩) rfl (by rw [at_pc]; rfl) fun d =>
      idle adv rfl (by rintro ⟨⟩) (by rintro ⟨⟩) (fun _ waits => waits) (by rintro _ ⟨⟩)
  | disposing c rest next =>
    rw [at_pc] at ht idle
    cases rest with
    | nil =>
      cases ht
      have adv := @advance_setPc s _ _ (.resume next) s here rfl
      refine h.quiet adv rfl rfl rfl rfl (resume_ne_handling next) (judged_resume next).1 (by rw [at_pc]; rfl) ?_
      intro d
      refine idle adv rfl ?_ ?_ ?_ (by rintro _ ⟨⟩)
      · rw [(judged_resume next).1]
        rintro ⟨⟩
      · rw [(judged_resume next).2]
        rintro ⟨⟩
      · rw [awaits_resume]
        exact fun _ waits => waits
    | cons item rest =>
      obtain ⟨channel, there, rfl⟩ := Option.map_eq_some_iff.mp ht
      have adv : Advance s ((s.setChannel c (channel.dispose item)).setPc k task (.disposing c rest next)) k task
        (.disposing c rest next) [] := advance_setPc here rfl
      exact h.quiet adv (links_setChannel there (link_dispose channel item)) rfl rfl rfl (by rintro _ _ _ ⟨⟩) rfl
        (by rw [at_pc]; rfl) fun d => idle adv rfl (by rintro ⟨⟩) (by rintro ⟨⟩) (fun _ waits => waits) (by rintro _ ⟨⟩)
  | handling id c handler =>
    rw [at_pc] at ht
    obtain ⟨channel, there, rfl⟩ := Option.map_eq_some_iff.mp ht
    exact mediated_handling h here at_pc there
  | returned =>
    rw [at_pc] at ht
    cases ht

/-- A goroutine starts away from the packets of this channel. -/
theorem stage_start {c : Nat} {a : Task} (tasks : t.tasks = s.tasks ++ [a]) (table : t.table = s.table)
    (accepted : t.accepted = s.accepted) (logins : t.logins = s.logins) (judged : a.pc.judged = none)
    (reads : a.pc.reads = none) (awaits : ∀ id, a.pc.awaits ≠ some (id, c)) (h : s.Stage unmarshal c) :
    t.Stage unmarshal c := by
  have keep : ∀ (i : Nat) (b : Task), s.tasks[i]? = some b → t.tasks[i]? = some b := by
    intro i b hb
    rw [tasks, List.getElem?_append_left (List.getElem?_eq_some_iff.mp hb).1, hb]
  have back : ∀ (i : Nat) (b : Task), t.tasks[i]? = some b → s.tasks[i]? = some b ∨ b = a := by
    intro i b hb
    rw [tasks] at hb
    by_cases inside : i < s.tasks.length
    · rw [List.getElem?_append_left inside] at hb
      exact Or.inl hb
    · rw [List.getElem?_append_right (by omega)] at hb
      exact Or.inr (List.mem_singleton.mp (List.mem_of_getElem? hb))
  have on : t.acceptedOn c = s.acceptedOn c := by
    unfold State.acceptedOn
    rw [accepted]
  rcases h with ⟨none', quiet⟩ | ⟨first, i, b, one, hb, judges, plain, login, granting⟩ | ⟨closed, idle⟩
  · refine Or.inl ⟨on.trans none', ?_⟩
    intro i b hb
    rcases back i b hb with old | rfl
    · exact quiet i b old
    · rw [judged]
      exact nofun
  · refine Or.inr (Or.inl ⟨first, i, b, on.trans one, keep i b hb, judges, plain, login, ?_⟩)
    rw [logins]
    exact granting
  · refine Or.inr (Or.inr ⟨?_, ?_⟩)
    · intro id found
      rw [table] at found
      obtain ⟨i, b, hb, rest⟩ := closed id found
      exact ⟨i, b, keep i b hb, rest⟩
    · intro i b hb
      rcases back i b hb with old | rfl
      · exact idle i b old
      · rw [judged, reads]
        exact ⟨nofun, nofun, awaits⟩

theorem State.Mediated.start (h : s.Mediated unmarshal) {a : Task} (tasks : t.tasks = s.tasks ++ [a])
    (table : t.table = s.table) (links : t.links = s.links) (accepted : t.accepted = s.accepted)
    (logins : t.logins = s.logins) (effects : t.effects = s.effects) (judged : a.pc.judged = none)
    (reads : a.pc.reads = none) (awaits : a.pc.awaits = none)
    (handling : ∀ id c handler, a.pc ≠ .handling id c handler) : t.Mediated unmarshal := by
  have on : ∀ c, t.acceptedOn c = s.acceptedOn c ++ [] := by
    intro c
    unfold State.acceptedOn
    rw [accepted, List.append_nil]
  refine ⟨?_, ?_, ?_, ?_⟩
  · intro c id sequence link
    rw [links] at link
    refine stage_start tasks table accepted logins judged reads ?_ (h.stage c id sequence link)
    rw [awaits]
    exact fun _ => nofun
  · intro c id sequence link
    rw [links] at link
    exact admitted_mono (on c) (fun d hd => logins ▸ hd) (h.granted c id sequence link)
  · intro i b id c handler hb at_pc
    rw [links]
    rw [tasks] at hb
    rcases List.mem_append.mp (List.mem_of_getElem? hb) with old | new
    · obtain ⟨j, hj⟩ := List.mem_iff_getElem?.mp old
      exact h.handlers j b id c handler hj at_pc
    · rw [List.mem_singleton.mp new] at at_pc
      exact absurd at_pc (handling id c handler)
  · intro pair member
    rw [effects] at member
    rw [links]
    exact h.effects pair member

/-- `openChannel` makes a channel nothing was accepted on. -/
theorem mediated_open {id : String} (h : s.Mediated unmarshal) (named : s.Named decrypt)
    (numbered : s.Numbered decrypt) :
    (({ s with channels := s.channels ++ [.new id] } : State).addTask
      ⟨true, .replacing id s.channels.length⟩).Mediated unmarshal := by
  have count : s.links.length = s.channels.length := List.length_map _
  have links : (({ s with channels := s.channels ++ [.new id] } : State).addTask
      ⟨true, .replacing id s.channels.length⟩).links = s.links ++ [BrowserChannel.link (.new id)] := by
    simp [State.links, State.addTask]
  have forth : ∀ (c : Nat) (link : String × Bool × UInt32), s.links[c]? = some link →
      (({ s with channels := s.channels ++ [.new id] } : State).addTask
        ⟨true, .replacing id s.channels.length⟩).links[c]? = some link := by
    intro c link there
    rw [links, List.getElem?_append_left (List.getElem?_eq_some_iff.mp there).1, there]
  have back : ∀ (c : Nat) (link : String × Bool × UInt32),
    (({ s with channels := s.channels ++ [.new id] } : State).addTask
      ⟨true, .replacing id s.channels.length⟩).links[c]? = some link →
      s.links[c]? = some link ∨ c = s.channels.length ∧ link = BrowserChannel.link (.new id) := by
    intro c link there
    rw [links] at there
    by_cases inside : c < s.links.length
    · rw [List.getElem?_append_left inside] at there
      exact Or.inl there
    · have bound := (List.getElem?_eq_some_iff.mp there).1
      simp only [List.length_append, List.length_singleton] at bound
      rw [List.getElem?_append_right (by omega)] at there
      exact Or.inr ⟨by omega, List.mem_singleton.mp (List.mem_of_getElem? there)⟩
  refine ⟨?_, ?_, ?_, ?_⟩
  · intro c id' sequence link
    rcases back c _ link with old | ⟨rfl, _⟩
    · refine stage_start rfl rfl rfl rfl rfl rfl ?_ (h.stage c id' sequence old)
      intro id'' waits
      have same : s.channels.length = c := congrArg Prod.snd (Option.some.inj waits)
      have inside := (List.getElem?_eq_some_iff.mp old).1
      omega
    · have outside : ∀ link, s.links[s.channels.length]? ≠ some link := by
        intro link there
        have inside := (List.getElem?_eq_some_iff.mp there).1
        omega
      refine Or.inl ⟨?_, ?_⟩
      · refine List.filter_eq_nil_iff.mpr ?_
        intro a ha same
        obtain ⟨link, there, _⟩ := Option.map_eq_some_iff.mp (numbered.accepted a ha).2
        rw [of_decide_eq_true same] at there
        exact outside link there
      · intro i b hb judges
        rcases List.mem_append.mp (List.mem_of_getElem? hb) with old | new
        · obtain ⟨j, hj⟩ := List.mem_iff_getElem?.mp old
          cases at_pc : b.pc with
          | accepted id' plaintext d =>
            rw [at_pc] at judges
            obtain ⟨link, there, _⟩ := Option.map_eq_some_iff.mp
              (named.names j b id' d hj (by rw [at_pc]; rfl))
            rw [Option.some.inj judges] at there
            exact outside link there
          | login id' d =>
            rw [at_pc] at judges
            obtain ⟨link, there, _⟩ := Option.map_eq_some_iff.mp
              (named.names j b id' d hj (by rw [at_pc]; rfl))
            rw [Option.some.inj judges] at there
            exact outside link there
          | granting id' d =>
            rw [at_pc] at judges
            obtain ⟨link, there, _⟩ := Option.map_eq_some_iff.mp
              (named.names j b id' d hj (by rw [at_pc]; rfl))
            rw [Option.some.inj judges] at there
            exact outside link there
          | _ =>
            rw [at_pc] at judges
            cases judges
        · rw [List.mem_singleton.mp new] at judges
          cases judges
  · intro c id' sequence link
    rcases back c _ link with old | ⟨_, same⟩
    · exact admitted_mono (List.append_nil _).symm (fun _ hd => hd) (h.granted c id' sequence old)
    · cases same
  · intro i b id' c handler hb at_pc
    rcases List.mem_append.mp (List.mem_of_getElem? hb) with old | new
    · obtain ⟨j, hj⟩ := List.mem_iff_getElem?.mp old
      obtain ⟨id'', sequence, link⟩ := h.handlers j b id' c handler hj at_pc
      exact ⟨id'', sequence, forth c _ link⟩
    · rw [List.mem_singleton.mp new] at at_pc
      cases at_pc
  · intro pair member
    obtain ⟨id', sequence, link⟩ := h.effects pair member
    exact ⟨id', sequence, forth pair.1 _ link⟩

theorem mediated_step {label : Label} (h : s.Mediated unmarshal) (orderly : s.Orderly) (named : s.Named decrypt)
    (numbered : s.Numbered decrypt) (ht : step decrypt unmarshal s label = some t) :
    t.Mediated unmarshal := by
  cases label with
  | channelOpen id =>
    simp only [step] at ht
    split at ht
    next =>
      obtain ⟨_, rfl⟩ := startReader_eq ht
      exact mediated_open h named numbered
    next => cases ht
  | fromBrowser id packet =>
    simp only [step] at ht
    split at ht
    next =>
      obtain ⟨_, rfl⟩ := startReader_eq ht
      exact h.start rfl rfl rfl rfl rfl rfl rfl rfl rfl (by rintro _ _ _ ⟨⟩)
    next => cases ht
  | channelClose id =>
    simp only [step] at ht
    split at ht
    next =>
      obtain ⟨_, rfl⟩ := startReader_eq ht
      exact h.start rfl rfl rfl rfl rfl rfl rfl rfl rfl (by rintro _ _ _ ⟨⟩)
    next => cases ht
  | authTimeout c =>
    simp only [step] at ht
    split at ht
    next =>
      split at ht
      next => cases ht
      next =>
        cases ht
        exact h.start rfl rfl rfl rfl rfl rfl rfl rfl rfl (by rintro _ _ _ ⟨⟩)
    next => cases ht
  | shutdown id =>
    cases ht
    exact h.start rfl rfl rfl rfl rfl rfl rfl rfl rfl (by rintro _ _ _ ⟨⟩)
  | run k ok =>
    simp only [step] at ht
    split at ht
    next task here => exact mediated_taskStep h orderly named here ht
    next => cases ht

/-- Whatever the relay sends, and whenever timers and goroutines run. -/
theorem mediated_run {labels : List Label} (run : exec (step decrypt unmarshal) State.initial labels = some s) :
    s.Mediated unmarshal ∧ s.Orderly ∧ s.Named decrypt ∧ s.Numbered decrypt := by
  refine @exec_invariant _ _ (step decrypt unmarshal)
    (fun s => s.Mediated unmarshal ∧ s.Orderly ∧ s.Named decrypt ∧ s.Numbered decrypt) ?_ _ _ _ ?_ run
  · intro s label t h ht
    obtain ⟨mediated, orderly, named, numbered⟩ := h
    exact ⟨mediated_step mediated orderly named numbered ht, orderly_step orderly ht, named_step named ht,
      numbered_step numbered named ht⟩
  · refine ⟨⟨?_, ?_, ?_, ?_⟩, orderly_initial, ⟨?_, ?_, ?_, ?_⟩, ?_, ?_⟩
    all_goals simp [State.initial, State.links]

/-- All that is left of a packet is the end of its channel. -/
def Pc.onlyCloses : Pc → Prop
  | .closing _ next | .taking _ next | .disposing _ _ next => next = none
  | .returned => True
  | _ => False

theorem taskStep_closes {ok : Bool} (closes : task.pc.onlyCloses) (here : s.tasks[k]? = some task)
    (ht : taskStep decrypt unmarshal s k task ok task.pc = some t) :
    t.links = s.links ∧ t.effects = s.effects ∧ ∃ pc, pc.onlyCloses ∧ Advance s t k task pc [] := by
  cases at_pc : task.pc with
  | closing id next =>
    rw [at_pc] at ht closes
    have last : next = none := closes
    subst last
    simp only [taskStep] at ht
    split at ht
    next =>
      cases ht
      exact ⟨rfl, rfl, .taking _ none, rfl, here, (List.append_nil _).symm⟩
    next =>
      cases ht
      exact ⟨rfl, rfl, .returned, trivial, advance_setPc here rfl⟩
  | taking c next =>
    rw [at_pc] at ht closes
    obtain ⟨channel, there, rfl⟩ := Option.map_eq_some_iff.mp ht
    exact ⟨links_emptied there, rfl, .disposing c channel.contents next, closes, advance_setPc here rfl⟩
  | disposing c rest next =>
    rw [at_pc] at ht closes
    have last : next = none := closes
    subst last
    cases rest with
    | nil =>
      cases ht
      exact ⟨rfl, rfl, .returned, trivial, advance_setPc here rfl⟩
    | cons item rest =>
      obtain ⟨channel, there, rfl⟩ := Option.map_eq_some_iff.mp ht
      exact ⟨links_setChannel there (link_dispose channel item), rfl, .disposing c rest none, rfl,
        advance_setPc here rfl⟩
  | returned =>
    rw [at_pc] at ht
    cases ht
  | _ =>
    rw [at_pc] at closes
    exact closes.elim

/-- The goroutine has a packet that does not open, or is done with it but for the close. -/
def State.Failing (decrypt : String → UInt32 → String → Option Bytes) (k : Nat) (s : State) : Prop :=
  ∃ task : Task, s.tasks[k]? = some task ∧
    (task.pc.onlyCloses ∨ ∃ id packet c sequence, task.pc = .decrypting id packet c sequence ∧
      decrypt id sequence packet = none)

theorem failing_run_step {ok : Bool} (h : s.Failing decrypt k)
    (ht : step decrypt unmarshal s (.run k ok) = some t) :
    t.links = s.links ∧ t.effects = s.effects ∧ t.Failing decrypt k := by
  obtain ⟨task, here, place⟩ := h
  simp only [step, here] at ht
  rcases place with closes | ⟨id, packet, c, sequence, at_pc, fails⟩
  · obtain ⟨links, effects, pc, after, adv⟩ := taskStep_closes closes here ht
    exact ⟨links, effects, _, adv.now, Or.inl after⟩
  · rw [at_pc] at ht
    simp only [taskStep, fails] at ht
    cases ht
    have adv := @advance_setPc s _ _ (.closing id none) s here rfl
    exact ⟨rfl, rfl, _, adv.now, Or.inl rfl⟩

theorem tasks_taskStep {ok : Bool} (here : s.tasks[k]? = some task)
    (ht : taskStep decrypt unmarshal s k task ok task.pc = some t) :
    ∃ pc more, Advance s t k task pc more := by
  cases at_pc : task.pc with
  | replacing id c =>
    rw [at_pc] at ht
    simp only [taskStep] at ht
    split at ht <;> cases ht
    · exact ⟨_, [], advance_setPc here rfl⟩
    · exact ⟨.returned, [], here, (List.append_nil _).symm⟩
  | inserting id c =>
    rw [at_pc] at ht
    cases ht
    exact ⟨.returned, [], here, (List.append_nil _).symm⟩
  | looking id packet =>
    rw [at_pc] at ht
    simp only [taskStep] at ht
    split at ht <;> cases ht <;> exact ⟨_, [], advance_setPc here rfl⟩
  | found id packet c =>
    rw [at_pc] at ht
    obtain ⟨channel, there, rfl⟩ := Option.map_eq_some_iff.mp ht
    exact ⟨_, [], advance_setPc here rfl⟩
  | decrypting id packet c sequence =>
    rw [at_pc] at ht
    simp only [taskStep] at ht
    split at ht
    next => split at ht <;> cases ht <;> exact ⟨_, [], advance_setPc here rfl⟩
    next =>
      cases ht
      exact ⟨_, [], advance_setPc here rfl⟩
  | decrypted id packet plaintext c sequence =>
    rw [at_pc] at ht
    obtain ⟨channel, there, rfl⟩ := Option.map_eq_some_iff.mp ht
    split
    · exact ⟨_, [], advance_setPc here rfl⟩
    · exact ⟨.accepted id plaintext c, [], here, (List.append_nil _).symm⟩
  | accepted id plaintext c =>
    rw [at_pc] at ht
    obtain ⟨channel, there, rfl⟩ := Option.map_eq_some_iff.mp ht
    split
    next => exact ⟨_, [], advance_setPc here rfl⟩
    next => exact ⟨_, [], advance_setPc here rfl⟩
    next => exact ⟨_, [], advance_setPc here rfl⟩
    next handler _ => exact ⟨.returned, [⟨false, .handling id c handler⟩], here, rfl⟩
    next => exact ⟨_, [], advance_setPc here rfl⟩
  | login id c =>
    rw [at_pc] at ht
    simp only [taskStep] at ht
    split at ht <;> cases ht
    · exact ⟨.granting id c, [], here, (List.append_nil _).symm⟩
    · exact ⟨_, [], advance_setPc here rfl⟩
  | granting id c =>
    rw [at_pc] at ht
    obtain ⟨channel, there, rfl⟩ := Option.map_eq_some_iff.mp ht
    exact ⟨_, [], advance_setPc here rfl⟩
  | closing id next =>
    rw [at_pc] at ht
    simp only [taskStep] at ht
    split at ht <;> cases ht
    · exact ⟨_, [], here, (List.append_nil _).symm⟩
    · exact ⟨_, [], advance_setPc here rfl⟩
  | taking c next =>
    rw [at_pc] at ht
    obtain ⟨channel, there, rfl⟩ := Option.map_eq_some_iff.mp ht
    exact ⟨_, [], advance_setPc here rfl⟩
  | disposing c rest next =>
    rw [at_pc] at ht
    cases rest with
    | nil =>
      cases ht
      exact ⟨_, [], advance_setPc here rfl⟩
    | cons item rest =>
      obtain ⟨channel, there, rfl⟩ := Option.map_eq_some_iff.mp ht
      exact ⟨_, [], advance_setPc here rfl⟩
  | handling id c handler =>
    rw [at_pc] at ht
    obtain ⟨channel, there, rfl⟩ := Option.map_eq_some_iff.mp ht
    exact ⟨_, _, here, rfl⟩
  | returned =>
    rw [at_pc] at ht
    cases ht

theorem failing_step {label : Label} (h : s.Failing decrypt k) (ht : step decrypt unmarshal s label = some t) :
    t.Failing decrypt k := by
  have added : ∀ {u : State} {a : Task}, u.tasks = s.tasks ++ [a] → u.Failing decrypt k := by
    intro u a tasks
    obtain ⟨task, here, place⟩ := h
    refine ⟨task, ?_, place⟩
    rw [tasks, List.getElem?_append_left (List.getElem?_eq_some_iff.mp here).1, here]
  cases label with
  | channelOpen id =>
    simp only [step] at ht
    split at ht
    next =>
      obtain ⟨_, rfl⟩ := startReader_eq ht
      exact added rfl
    next => cases ht
  | fromBrowser id packet =>
    simp only [step] at ht
    split at ht
    next =>
      obtain ⟨_, rfl⟩ := startReader_eq ht
      exact added rfl
    next => cases ht
  | channelClose id =>
    simp only [step] at ht
    split at ht
    next =>
      obtain ⟨_, rfl⟩ := startReader_eq ht
      exact added rfl
    next => cases ht
  | authTimeout c =>
    simp only [step] at ht
    split at ht
    next =>
      split at ht
      next => cases ht
      next =>
        cases ht
        exact added rfl
    next => cases ht
  | shutdown id =>
    cases ht
    exact added rfl
  | run j ok =>
    by_cases same : j = k
    · subst same
      exact (failing_run_step h ht).2.2
    · simp only [step] at ht
      split at ht
      next other there =>
        obtain ⟨pc, more, adv⟩ := tasks_taskStep there ht
        obtain ⟨task, here, place⟩ := h
        exact ⟨task, adv.other (Ne.symm same) here, place⟩
      next => cases ht

end

variable {Key : Type}

/-- `decryptPacket` of a packet of the browser, under the key derived from the portal token. -/
def browserPacket (decrypt : Key → Bytes → Bytes → Bytes → Option Bytes) (sha256 : Bytes → Key)
    (portalToken id : String) (sequence : UInt32) (packet : String) : Option Bytes :=
  Cloud.decryptPacket decrypt (Cloud.deriveKey sha256 (utf8 portalToken)) (utf8 id) .browser sequence packet

/-- Every effect for a channel comes after its login, its login comes with the first packet it accepted, and a packet
that does not open has no effect but the close. -/
theorem effects_follow_login (decrypt : Key → Bytes → Bytes → Bytes → Option Bytes) (sha256 : Bytes → Key)
    (portalToken : String) (unmarshal : Unmarshal) {labels : List Label} {s : State}
    (run : exec (step (browserPacket decrypt sha256 portalToken) unmarshal) State.initial labels = some s) :
    (∀ pair ∈ s.effects, ∃ channel, s.channels[pair.1]? = some channel ∧ channel.authenticated = true) ∧
    (∀ (c : Nat) (channel : BrowserChannel), s.channels[c]? = some channel → channel.authenticated = true →
      c ∈ s.logins ∧ ∃ first, (s.accepted.filter fun a => a.channel = c).head? = some first ∧
        browserPacket decrypt sha256 portalToken channel.id 0 first.packet = some first.plaintext ∧
        Authenticates unmarshal first.plaintext) ∧
    ∀ (k : Nat) (task : Task) (id packet : String) (c : Nat) (sequence : UInt32), s.tasks[k]? = some task →
      task.pc = .decrypting id packet c sequence →
      browserPacket decrypt sha256 portalToken id sequence packet = none →
      ∀ (more : List Label) (u t : State) (ok : Bool),
        exec (step (browserPacket decrypt sha256 portalToken) unmarshal) s more = some u →
        step (browserPacket decrypt sha256 portalToken) unmarshal u (.run k ok) = some t →
        t.effects = u.effects ∧ t.channels.map BrowserChannel.link = u.channels.map BrowserChannel.link := by
  obtain ⟨mediated, _, _, numbered⟩ := mediated_run run
  refine ⟨?_, ?_, ?_⟩
  · intro pair member
    obtain ⟨id, sequence, link⟩ := mediated.effects pair member
    obtain ⟨channel, there, same⟩ := (Option.map_eq_some_iff.mp ((List.getElem?_map ..).symm.trans link))
    exact ⟨channel, there, congrArg (fun link => link.2.1) same⟩
  · intro c channel there flag
    have link := link_of_channel there
    rw [BrowserChannel.link, flag] at link
    obtain ⟨⟨first, head, logs⟩, login⟩ := mediated.granted c _ _ link
    have member : first ∈ s.acceptedOn c := List.mem_of_head? head
    have own : first.channel = c := of_decide_eq_true (List.mem_filter.mp member).2
    obtain ⟨opens, known⟩ := numbered.accepted first (List.mem_filter.mp member).1
    have id : channel.id = first.id := by
      unfold State.Known at known
      rw [own, link_of_channel there] at known
      exact Option.some.inj known
    have zero : first.sequence = 0 := by
      obtain ⟨sequences, _⟩ := numbered.sequences c _ link
      cases on : s.acceptedOn c with
      | nil =>
        rw [on] at head
        cases head
      | cons a rest =>
        rw [on] at head sequences
        cases head
        rw [List.length_cons, List.range_succ_eq_map, List.map_cons, List.map_cons] at sequences
        exact (List.cons.inj sequences).1
    rw [zero, ← id] at opens
    exact ⟨login, first, head, opens, logs⟩
  · intro k task id packet c sequence here at_pc fails more u t ok later ht
    have failing : s.Failing (browserPacket decrypt sha256 portalToken) k :=
      ⟨task, here, Or.inr ⟨id, packet, c, sequence, at_pc, fails⟩⟩
    have failing := exec_invariant (fun _ _ _ h ht => failing_step h ht) failing later
    obtain ⟨links, effects, _⟩ := failing_run_step failing ht
    exact ⟨effects, links⟩

/-- `{"v":1,"type":"authenticate","challenge":"0123456789abcdef"}` and
`{"v":1,"type":"window_sources_request","id":"01234567-89ab-cdef-0123-456789abcdef"}`, sealed. -/
def loginPackets : String × String :=
  ("AAAAAAAAAAAAAAAAAAAAAHsidiI6MSwidHlwZSI6ImF1dGhlbnRpY2F0ZSIsImNoYWxsZW5nZSI6IjAxMjM0NTY3ODlhYmNkZWYifQAAAAAAAA" ++
      "AAAAAAAAAAAAA",
    "AAAAAQAAAAAAAAAAAAAAAHsidiI6MSwidHlwZSI6IndpbmRvd19zb3VyY2VzX3JlcXVlc3QiLCJpZCI6IjAxMjM0NTY3LTg5YWItY2RlZi0w" ++
      "MTIzLTQ1Njc4OWFiY2RlZiJ9AAAAAAAAAAAAAAAAAAAAAA")

def loginRun : List Label :=
  .channelOpen "01234567-89ab-cdef-0123-456789abcdef" :: .run 0 true ::
    .fromBrowser "01234567-89ab-cdef-0123-456789abcdef" loginPackets.1 :: List.replicate 7 (.run 1 true) ++
    .fromBrowser "01234567-89ab-cdef-0123-456789abcdef" loginPackets.2 :: List.replicate 5 (.run 2 true) ++
    [.run 3 true]

theorem effects_follow_login_window_list : ∃ s,
    exec (step (browserPacket (Aead.zeroTag Unit).decrypt (fun _ => ()) "portal") innerUnmarshal)
      State.initial
        loginRun = some s ∧
      (0, Effect.windowList) ∈ s.effects ∧
      ∃ channel, s.channels[0]? = some channel ∧ channel.authenticated = true := by
  have run : (exec (step (browserPacket (Aead.zeroTag Unit).decrypt (fun _ => ()) "portal") innerUnmarshal)
      State.initial loginRun).any (fun s => (0, Effect.windowList) ∈ s.effects) = true := by
    decide +kernel
  obtain ⟨s, run, listed⟩ := (Option.any_eq_true _ _).mp run
  have listed := of_decide_eq_true listed
  exact ⟨s, run, listed, (effects_follow_login (Aead.zeroTag Unit).decrypt (fun _ => ()) "portal" innerUnmarshal
    run).1 _ listed⟩

end TermLinks.Connector
