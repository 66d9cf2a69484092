import TermLinks.SessionManager

namespace TermLinks.SessionManager

open SessionStream (Session Action)

/-- The same session at a later time. -/
structure Entry.Later (before after : Entry) : Prop where
  id : after.id = before.id
  startedAt : after.startedAt = before.startedAt
  ended : before.running = false → after.running = false

theorem Entry.Later.refl (entry : Entry) : entry.Later entry := ⟨rfl, rfl, fun h => h⟩

theorem Entry.Later.trans {a b c : Entry} (ab : a.Later b) (bc : b.Later c) : a.Later c :=
  ⟨bc.id.trans ab.id, bc.startedAt.trans ab.startedAt, fun h => bc.ended (ab.ended h)⟩

/-- What the loop of `makeRoom` knows of the sessions it has seen. -/
structure Scan.Sound (sessions : List Entry) (scan : Scan) : Prop where
  full : sessions.length = maxSessions
  began : List.Forall₂ Entry.Later scan.began sessions
  unseen : scan.unseen.Nodup
  known : ∀ id ∈ scan.unseen, id ∈ sessions.map Entry.id
  found : ∀ id time, scan.oldest = some (id, time) →
    ∃ entry ∈ sessions, entry.id = id ∧ entry.startedAt = time ∧ entry.running = false
  seen : ∀ entry ∈ scan.began, entry.id ∉ scan.unseen → entry.running = false →
    ∃ id time, scan.oldest = some (id, time) ∧ time ≤ entry.startedAt

def StartPc.Sound (sessions : List Entry) : StartPc → Prop
  | .scanning _ scan => scan.Sound sessions
  | .drawing _ => sessions.length < maxSessions
  | .spawning _ id => sessions.length < maxSessions ∧ id ∉ sessions.map Entry.id
  | .inserting _ id => sessions.length < maxSessions ∧ id ∉ sessions.map Entry.id
  | _ => True

/-- The invariant of the manager. -/
structure Manager.Kept (m : Manager) : Prop where
  bounded : m.sessions.length ≤ maxSessions
  nodup : m.ids.Nodup
  start : m.start.Sound m.sessions

section

variable {m t : Manager}

theorem get_eq_some {id : String} {entry : Entry} (h : m.get id = some entry) :
    entry ∈ m.sessions ∧ entry.id = id :=
  ⟨List.mem_of_find?_eq_some h, by simpa using List.find?_some h⟩

theorem eq_of_id {a b : Entry} (nodup : m.ids.Nodup) (ha : a ∈ m.sessions) (hb : b ∈ m.sessions)
    (same : a.id = b.id) :
    a = b := List.inj_on_of_nodup_map nodup ha hb same

/-- Sessions end, and stay so. -/
theorem running_step {s u : Session} {action : Action} (h : s.step action = some u)
    (ended : s.running = false) :
    u.running = false := by
  cases action with
  | publish data =>
    simp only [Session.step] at h
    split at h
    next => cases Option.some.inj h; exact ended
    next => cases h
  | readError =>
    simp only [Session.step] at h
    split at h
    next => cases Option.some.inj h; exact ended
    next => cases h
  | finish exitCode signal =>
    simp only [Session.step] at h
    split at h
    next => cases Option.some.inj h; rfl
    next => cases h
  | subscribe => cases Option.some.inj h; exact ended
  | cancel id => cases Option.some.inj h; exact ended
  | receive id =>
    obtain ⟨⟨chunk, v⟩, hr, ht⟩ := Option.map_eq_some_iff.mp h
    obtain ⟨channel, box, ho, hb, hv⟩ := SessionStream.receive_eq_some hr
    subst ht
    subst hv
    exact ended

/-- A step of one session leaves the table with the same sessions, later. -/
theorem later_act {id : String} {entry : Entry} {action : Action} {session : Session} (nodup : m.ids.Nodup)
    (here : m.get id = some entry) (h : entry.session.step action = some session) :
    List.Forall₂ Entry.Later m.sessions (m.act id session).sessions := by
  obtain ⟨member, same⟩ := get_eq_some here
  rw [Manager.act, List.forall₂_map_right_iff]
  apply List.forall₂_same.mpr
  intro other there
  by_cases he : other.id = id
  · have eq : other = entry := eq_of_id nodup there member (he.trans same.symm)
    rw [if_pos he, eq]
    exact ⟨rfl, rfl, fun ended => running_step h ended⟩
  · rw [if_neg he]
    exact .refl other

theorem ids_of_later {before after : List Entry} (h : List.Forall₂ Entry.Later before after) :
    after.map Entry.id = before.map Entry.id := by
  induction h with
  | nil => rfl
  | cons later _ ih => rw [List.map_cons, List.map_cons, later.id, ih]

theorem exists_later {before after : List Entry} (h : List.Forall₂ Entry.Later before after) {entry : Entry}
    (member : entry ∈ before) : ∃ now ∈ after, entry.Later now := by
  induction h with
  | nil => cases member
  | cons later _ ih =>
    rcases List.mem_cons.mp member with rfl | member
    · exact ⟨_, List.mem_cons_self, later⟩
    · obtain ⟨now, there, later⟩ := ih member
      exact ⟨now, List.mem_cons_of_mem _ there, later⟩

theorem Scan.Sound.later {before after : List Entry} {scan : Scan} (h : scan.Sound before)
    (later : List.Forall₂ Entry.Later before after) : scan.Sound after where
  full := later.length_eq ▸ h.full
  began := by
    have compose : ∀ {xs ys zs : List Entry}, List.Forall₂ Entry.Later xs ys → List.Forall₂ Entry.Later ys zs →
        List.Forall₂ Entry.Later xs zs := by
      intro xs ys zs first
      induction first generalizing zs with
      | nil =>
        intro second
        cases second
        exact .nil
      | cons xy _ ih =>
        intro second
        cases second with
        | cons yz rest => exact .cons (xy.trans yz) (ih rest)
    exact compose h.began later
  unseen := h.unseen
  known := fun id member => ids_of_later later ▸ h.known id member
  found := by
    intro id time oldest
    obtain ⟨entry, member, same, started, ended⟩ := h.found id time oldest
    obtain ⟨now, there, next⟩ := exists_later later member
    exact ⟨now, there, next.id.trans same, next.startedAt.trans started, next.ended ended⟩
  seen := h.seen

theorem StartPc.Sound.later {before after : List Entry} {pc : StartPc} (h : pc.Sound before)
    (later : List.Forall₂ Entry.Later before after) : pc.Sound after := by
  have length := later.length_eq
  have ids := ids_of_later later
  cases pc with
  | scanning options scan => exact Scan.Sound.later h later
  | drawing options =>
    show after.length < maxSessions
    exact Nat.lt_of_le_of_lt (Nat.le_of_eq length.symm) h
  | spawning options id => exact ⟨length ▸ h.1, ids ▸ h.2⟩
  | inserting options id => exact ⟨length ▸ h.1, ids ▸ h.2⟩
  | _ => trivial

theorem makeRoom_kept (options : StartOptions) (bounded : m.sessions.length ≤ maxSessions)
    (nodup : m.ids.Nodup) :
    (m.makeRoom options).Kept ∧ (m.makeRoom options).sessions = m.sessions := by
  unfold Manager.makeRoom
  split
  next many =>
    refine ⟨⟨bounded, nodup, ?_⟩, rfl⟩
    refine ⟨Nat.le_antisymm bounded many, List.forall₂_same.mpr fun entry _ => .refl entry, nodup,
      fun id h => h, nofun, ?_⟩
    intro entry member unseen
    exact absurd (List.mem_map_of_mem member) unseen
  next few => exact ⟨⟨bounded, nodup, Nat.lt_of_not_le few⟩, rfl⟩

theorem visit_unseen (scan : Scan) (entry : Entry) :
    (Manager.visit scan entry).unseen = scan.unseen.erase entry.id ∧
    (Manager.visit scan entry).began = scan.began := by
  unfold Manager.visit
  dsimp only
  repeat' split
  all_goals exact ⟨rfl, rfl⟩

/-- One visit of the loop: the oldest completed session so far is still the oldest. -/
theorem visit_sound {scan : Scan} {id : String} {entry : Entry} (nodup : m.ids.Nodup)
    (h : scan.Sound m.sessions)
    (here : m.get id = some entry) : (Manager.visit scan entry).Sound m.sessions := by
  obtain ⟨member, same⟩ := get_eq_some here
  have rest := visit_unseen scan entry
  rw [same] at rest
  -- What the visit does to the oldest: nothing, or the visited session takes its place.
  have oldest : (Manager.visit scan entry).oldest = scan.oldest ∧
        (entry.running = false → ∃ id time, scan.oldest = some (id, time) ∧ time ≤ entry.startedAt) ∨
      (Manager.visit scan entry).oldest = some (entry.id, entry.startedAt) ∧ entry.running = false ∧
        ∀ id time, scan.oldest = some (id, time) → entry.startedAt ≤ time := by
    unfold Manager.visit
    dsimp only
    split
    next running => exact .inl ⟨rfl, fun ended => by rw [ended] at running; cases running⟩
    next stopped =>
      have ended : entry.running = false := by simpa using stopped
      split
      next none => exact .inr ⟨rfl, ended, by simp [none]⟩
      next old time some =>
        split
        next earlier =>
          refine .inr ⟨rfl, ended, ?_⟩
          intro id' time' same'
          rw [some] at same'
          cases same'
          omega
        next later => exact .inl ⟨some ▸ rfl, fun _ => ⟨old, time, some, by omega⟩⟩
  have known : ∀ other ∈ scan.began, other.id = id → other.Later entry := by
    intro other there eq
    obtain ⟨now, present, later⟩ := exists_later h.began there
    have one : now = entry := eq_of_id nodup present member (later.id.trans (eq.trans same.symm))
    exact one ▸ later
  constructor
  · exact h.full
  · rw [rest.2]
    exact h.began
  · rw [rest.1]
    exact h.unseen.erase id
  · rw [rest.1]
    intro other there
    exact h.known other (List.mem_of_mem_erase there)
  · intro id' time' eq
    rcases oldest with ⟨unchanged, _⟩ | ⟨changed, ended, _⟩
    · exact h.found id' time' (unchanged ▸ eq)
    · rw [changed] at eq
      cases eq
      exact ⟨entry, member, rfl, rfl, ended⟩
  · intro other there visited ended
    rw [rest.2] at there
    rw [rest.1] at visited
    by_cases before : other.id ∈ scan.unseen
    · have eq : other.id = id := by
        by_contra different
        exact visited ((List.mem_erase_of_ne different).mpr before)
      have later := known other there eq
      rcases oldest with ⟨unchanged, least⟩ | ⟨changed, _, _⟩
      · obtain ⟨id', time, found, le⟩ := least (later.ended ended)
        exact ⟨id', time, unchanged.trans found, later.startedAt ▸ le⟩
      · exact ⟨_, _, changed, Int.le_of_eq later.startedAt⟩
    · obtain ⟨id', time, found, le⟩ := h.seen other there before ended
      rcases oldest with ⟨unchanged, _⟩ | ⟨changed, _, least⟩
      · exact ⟨id', time, unchanged.trans found, le⟩
      · exact ⟨_, _, changed, Int.le_trans (least id' time found) le⟩

theorem delete_kept {options : StartOptions} {scan : Scan} {id : String} {time : Int} (nodup : m.ids.Nodup)
    (h : scan.Sound m.sessions) (oldest : scan.oldest = some (id, time)) :
    ((m.delete id).makeRoom options).Kept ∧ (m.delete id).sessions.length < maxSessions := by
  obtain ⟨entry, member, same, _⟩ := h.found id time oldest
  have fewer : (m.delete id).sessions.length < m.sessions.length := by
    apply List.length_filter_lt_length_iff_exists.mpr
    exact ⟨entry, member, by simpa using same⟩
  have full := h.full
  have kept := nodup.sublist (List.filter_sublist.map Entry.id : ((m.delete id).sessions.map Entry.id).Sublist m.ids)
  exact ⟨(@makeRoom_kept (m.delete id) options (by omega) kept).1, by omega⟩

/-- A step of the call of `Start` that holds the lock. -/
def Label.ofStart : Label → Bool
  | .check _ | .lock | .visit _ | .decide | .drawID _ | .spawn _ | .insert _ => true
  | _ => false

/-- What a step of the call can be. -/
inductive Manager.Own (m : Manager) : Manager → Prop
  | refused {host : Host} {options : StartOptions} {error : StartError} (pc : m.start = .checking options)
      (checked : options.check host = .error error) : Own m { m with start := .returned (.error error) }
  | checked {options sized : StartOptions} (pc : m.start = .checking options) :
    Own m { m with start := .makingRoom sized }
  | locked {options : StartOptions} (pc : m.start = .makingRoom options) : Own m (m.makeRoom options)
  | visited {options : StartOptions} {scan : Scan} {id : String} {entry : Entry} (pc : m.start = .scanning options scan)
      (unseen : id ∈ scan.unseen) (here : m.get id = some entry) :
      Own m { m with start := .scanning options (Manager.visit scan entry) }
  | limited {options : StartOptions} {scan : Scan} (pc : m.start = .scanning options scan) (all : scan.unseen = [])
      (oldest : scan.oldest = none) : Own m { m with start := .returned (.error .limit) }
  | dropped {options : StartOptions} {scan : Scan} {id : String} {time : Int} (pc : m.start = .scanning options scan)
      (all : scan.unseen = []) (oldest : scan.oldest = some (id, time)) : Own m ((m.delete id).makeRoom options)
  | undrawn {options : StartOptions} {error : String} (pc : m.start = .drawing options) :
      Own m { m with start := .returned (.error (.generateID error)) }
  | drawn {options : StartOptions} {id : String} (pc : m.start = .drawing options) (fresh : id ∉ m.ids) :
      Own m { m with start := .spawning options id }
  | unspawned {options : StartOptions} {id command error : String} (pc : m.start = .spawning options id) :
      Own m { m with start := .returned (.error (.start command error)) }
  | spawned {options : StartOptions} {id : String} (pc : m.start = .spawning options id) :
      Own m { m with start := .inserting options id }
  | inserted {options : StartOptions} {id : String} {now : Int} (pc : m.start = .inserting options id) :
      Own m ⟨m.sessions ++ [Manager.newEntry options id now], .returned (.ok id)⟩

/-- What a step can be. -/
inductive Manager.Moves (m : Manager) : Label → Manager → Prop
  | called {options : StartOptions} (free : m.start = .idle ∨ ∃ result, m.start = .returned result) :
      Moves m (.start options) { m with start := .checking options }
  | own {label : Label} {t : Manager} (here : label.ofStart = true) (move : m.Own t) : Moves m label t
  | acted {id : String} {entry : Entry} {action : Action} {session : Session} (here : m.get id = some entry)
      (step : entry.session.step action = some session) : Moves m (.session id action) (m.act id session)
  | read {label : Label} (other : label.ofStart = false) : Moves m label m

theorem step_moves {label : Label} (step : m.step label = some t) : m.Moves label t := by
  cases label with
  | start options =>
    simp only [Manager.step] at step
    split at step
    next pc => cases step; exact .called (.inl pc)
    next pc => cases step; exact .called (.inr ⟨_, pc⟩)
    next => cases step
  | check host =>
    simp only [Manager.step] at step
    split at step
    next options pc =>
      split at step
      next => cases step; exact .own rfl (.checked pc)
      next checked => cases step; exact .own rfl (.refused pc checked)
    next => cases step
  | lock =>
    simp only [Manager.step] at step
    split at step
    next pc => cases step; exact .own rfl (.locked pc)
    next => cases step
  | visit id =>
    simp only [Manager.step] at step
    split at step
    next pc =>
      split at step
      next unseen =>
        obtain ⟨entry, here, rfl⟩ := Option.map_eq_some_iff.mp step
        exact .own rfl (.visited pc unseen here)
      next => cases step
    next => cases step
  | decide =>
    simp only [Manager.step] at step
    split at step
    next pc =>
      split at step
      next all =>
        split at step
        next oldest => cases step; exact .own rfl (.limited pc all oldest)
        next oldest => cases step; exact .own rfl (.dropped pc all oldest)
      next => cases step
    next => cases step
  | drawID drawn =>
    simp only [Manager.step] at step
    split at step
    next pc =>
      split at step
      next => cases step; exact .own rfl (.undrawn pc)
      next =>
        split at step
        next => cases step
        next fresh => cases step; exact .own rfl (.drawn pc fresh)
    next => cases step
  | spawn failure =>
    simp only [Manager.step] at step
    split at step
    next pc =>
      split at step
      next => cases step; exact .own rfl (.unspawned pc)
      next => cases step; exact .own rfl (.spawned pc)
    next => cases step
  | insert now =>
    simp only [Manager.step] at step
    split at step
    next pc => cases step; exact .own rfl (.inserted pc)
    next => cases step
  | session id action =>
    obtain ⟨entry, here, step⟩ := Option.bind_eq_some_iff.mp step
    obtain ⟨session, acted, step⟩ := Option.bind_eq_some_iff.mp step
    cases Option.some.inj step
    exact .acted here acted
  | get id =>
    simp only [Manager.step] at step
    split at step
    next => cases step
    next => cases step; exact .read rfl
  | list =>
    simp only [Manager.step] at step
    split at step
    next => cases step
    next => cases step; exact .read rfl

theorem own_kept (h : m.Kept) (move : m.Own t) : t.Kept := by
  obtain ⟨bounded, nodup, sound⟩ := h
  cases move with
  | refused pc checked => exact ⟨bounded, nodup, trivial⟩
  | checked pc => exact ⟨bounded, nodup, trivial⟩
  | @locked options pc => exact (makeRoom_kept options bounded nodup).1
  | visited pc unseen here =>
    rw [pc] at sound
    exact ⟨bounded, nodup, visit_sound nodup sound here⟩
  | limited pc all oldest => exact ⟨bounded, nodup, trivial⟩
  | dropped pc all oldest =>
    rw [pc] at sound
    exact (delete_kept nodup sound oldest).1
  | undrawn pc => exact ⟨bounded, nodup, trivial⟩
  | drawn pc fresh =>
    rw [pc] at sound
    exact ⟨bounded, nodup, sound, fresh⟩
  | unspawned pc => exact ⟨bounded, nodup, trivial⟩
  | spawned pc =>
    rw [pc] at sound
    exact ⟨bounded, nodup, sound⟩
  | @inserted options id now pc =>
    rw [pc] at sound
    obtain ⟨room, fresh⟩ := sound
    refine ⟨?_, ?_, trivial⟩
    · rw [List.length_append, List.length_singleton]
      omega
    · show ((m.sessions ++ [Manager.newEntry options id now]).map Entry.id).Nodup
      rw [List.map_append]
      exact List.nodup_append_comm.mp (List.nodup_cons.mpr ⟨fresh, nodup⟩)

theorem step_kept {label : Label} (h : m.Kept) (step : m.step label = some t) : t.Kept := by
  cases step_moves step with
  | called free => exact ⟨h.bounded, h.nodup, trivial⟩
  | own _ move => exact own_kept h move
  | acted here acted =>
    have later := later_act h.nodup here acted
    refine ⟨later.length_eq ▸ h.bounded, ?_, h.start.later later⟩
    rw [Manager.ids, ids_of_later later]
    exact h.nodup
  | read _ => exact h

theorem kept_new : Manager.new.Kept := ⟨Nat.zero_le _, List.nodup_nil, trivial⟩

theorem kept_run {labels : List Label} (run : exec Manager.step Manager.new labels = some m) : m.Kept :=
  exec_invariant (fun _ _ _ kept step => step_kept kept step) kept_new run

theorem makeRoom_sessions (options : StartOptions) : (m.makeRoom options).sessions = m.sessions := by
  unfold Manager.makeRoom
  split
  next => rfl
  next => rfl

/-- Only the loop takes a session out. -/
theorem gone_step {label : Label} {entry : Entry} (h : m.Kept) (step : m.step label = some t)
    (here : entry ∈ m.sessions) (gone : entry.id ∉ t.ids) :
    ∃ options scan time, m.start = .scanning options scan ∧ scan.unseen = [] ∧
    scan.oldest = some (entry.id, time) := by
  have stays : t.sessions.map Entry.id = m.sessions.map Entry.id → False := by
    intro same
    rw [Manager.ids, same] at gone
    exact gone (List.mem_map_of_mem here)
  cases step_moves step with
  | called _ => exact absurd rfl stays
  | acted found acted => exact absurd (ids_of_later (later_act h.nodup found acted)) stays
  | read _ => exact absurd rfl stays
  | own _ move =>
    cases move with
    | @dropped options scan id time pc all oldest =>
      have eq : entry.id = id := by
        by_contra other
        rw [Manager.ids, makeRoom_sessions] at gone
        exact gone (List.mem_map_of_mem (List.mem_filter.mpr ⟨here, by simpa using other⟩))
      exact ⟨options, scan, time, pc, all, eq ▸ oldest⟩
    | @locked options pc => exact absurd (by rw [makeRoom_sessions]) stays
    | @inserted options id now pc =>
      rw [Manager.ids, List.map_append] at gone
      exact absurd (List.mem_append_left _ (List.mem_map_of_mem here)) gone
    | _ => exact absurd rfl stays

/-- A session that goes was the oldest completed one for the loop, and there was no room. -/
theorem dropped_step {label : Label} {entry : Entry} (h : m.Kept) (step : m.step label = some t)
    (here : entry ∈ m.sessions) (gone : entry.id ∉ t.ids) :
    m.sessions.length = maxSessions ∧ entry.running = false ∧
    ∃ options scan, m.start = .scanning options scan ∧
      ∀ other ∈ scan.began, other.running = false → entry.startedAt ≤ other.startedAt := by
  obtain ⟨options, scan, time, pc, all, oldest⟩ := gone_step h step here gone
  have sound := h.start
  rw [pc] at sound
  obtain ⟨victim, member, same, started, ended⟩ := sound.found entry.id time oldest
  have one : entry = victim := eq_of_id h.nodup here member same.symm
  refine ⟨sound.full, one ▸ ended, options, scan, pc, ?_⟩
  intro other there completed
  obtain ⟨id', time', found, le⟩ := sound.seen other there (by rw [all]; exact List.not_mem_nil) completed
  rw [oldest] at found
  cases found
  rw [one, started]
  exact le

theorem check_ne_limit (host : Host) (options : StartOptions) : options.check host ≠ .error .limit := by
  intro limit
  unfold StartOptions.check at limit
  dsimp only at limit
  split at limit
  next => cases limit
  next =>
    split at limit
    next => cases limit
    next =>
      split at limit
      next => cases limit
      next =>
        split at limit
        next => cases limit
        next =>
          split at limit
          next => cases limit
          next => cases limit

theorem makeRoom_start (options : StartOptions) (result : Except StartError String) :
    (m.makeRoom options).start ≠ .returned result := by
  unfold Manager.makeRoom
  split
  next => nofun
  next => nofun

/-- The limit is reported where every session was running as the loop began. -/
theorem limit_step {label : Label} (h : m.Kept) (step : m.step label = some t)
    (before : m.start ≠ .returned (.error .limit)) (limit : t.start = .returned (.error .limit)) :
    m.sessions.length = maxSessions ∧ ∃ options scan, m.start = .scanning options scan ∧
      ∀ entry ∈ scan.began, entry.running = true := by
  have sound := h.start
  cases step_moves step with
  | called _ => cases limit
  | acted _ _ => exact absurd limit before
  | read _ => exact absurd limit before
  | own _ move =>
    cases move with
    | @limited options scan pc all oldest =>
      rw [pc] at sound
      refine ⟨sound.full, options, scan, pc, ?_⟩
      intro entry member
      cases running : entry.running with
      | true => rfl
      | false =>
        obtain ⟨id, time, found, _⟩ := sound.seen entry member (by rw [all]; exact List.not_mem_nil) running
        rw [oldest] at found
        cases found
    | @refused host options error pc checked =>
      cases limit
      exact absurd checked (check_ne_limit host options)
    | locked pc => exact absurd limit (makeRoom_start _ _)
    | dropped pc all oldest => exact absurd limit (makeRoom_start _ _)
    | _ => cases limit

/-- How many steps the call has left at most. -/
def StartPc.work : StartPc → Nat
  | .checking _ => maxSessions + 6
  | .makingRoom _ => maxSessions + 5
  | .scanning _ scan => scan.unseen.length + 4
  | .drawing _ => 3
  | .spawning _ _ => 2
  | .inserting _ _ => 1
  | _ => 0

theorem work_makeRoom (options : StartOptions) : (m.makeRoom options).start.work ≤ m.sessions.length + 4 := by
  unfold Manager.makeRoom
  split
  next =>
    show m.ids.length + 4 ≤ _
    rw [Manager.ids, List.length_map]
  next =>
    show 3 ≤ _
    omega

theorem work_own (h : m.Kept) (move : m.Own t) : t.start.work < m.start.work := by
  have sound := h.start
  cases move with
  | refused pc checked =>
    rw [pc]
    exact Nat.zero_lt_succ _
  | checked pc =>
    rw [pc]
    exact Nat.lt_succ_self _
  | @locked options pc =>
    have work := @work_makeRoom m options
    have bounded := h.bounded
    rw [pc]
    show _ < maxSessions + 5
    omega
  | @visited options scan id entry pc unseen here =>
    have fewer := List.length_erase_of_mem unseen
    have some := List.length_pos_of_mem unseen
    rw [pc]
    show (Manager.visit scan entry).unseen.length + 4 < scan.unseen.length + 4
    rw [(visit_unseen scan entry).1, (get_eq_some here).2]
    omega
  | @limited options scan pc all oldest =>
    rw [pc]
    show 0 < scan.unseen.length + 4
    omega
  | @dropped options scan id time pc all oldest =>
    rw [pc] at sound ⊢
    have few := (@delete_kept m options _ _ _ h.nodup sound oldest).2
    rw [Manager.makeRoom, if_neg (by omega)]
    show 3 < scan.unseen.length + 4
    omega
  | _ pc =>
    rw [pc]
    simp only [StartPc.work]
    omega

/-- Each step of the call leaves it less to do, and the steps of others change nothing about it. -/
theorem work_step {label : Label} (h : m.Kept) (step : m.step label = some t) :
    (label.ofStart = true → t.start.work < m.start.work) ∧
      (label.ofStart = false → (∀ options, label ≠ .start options) → t.start = m.start) := by
  cases step_moves step with
  | called _ => exact ⟨nofun, fun _ other => absurd rfl (other _)⟩
  | own here move => exact ⟨fun _ => work_own h move, fun other => absurd other (by simp [here])⟩
  | acted _ _ => exact ⟨nofun, fun _ _ => rfl⟩
  | read other => exact ⟨fun own => absurd own (by simp [other]), fun _ _ => rfl⟩

theorem work_run {labels : List Label} (h : m.Kept) (run : exec Manager.step m labels = some t)
    (one : ∀ label ∈ labels, ∀ options, label ≠ .start options) :
    labels.countP Label.ofStart + t.start.work ≤ m.start.work := by
  induction labels generalizing m with
  | nil =>
    cases Option.some.inj run
    simp
  | cons label labels ih =>
    obtain ⟨u, step, run⟩ := exec_cons_iff.mp run
    obtain ⟨first, others⟩ := List.forall_mem_cons.mp one
    obtain ⟨own, foreign⟩ := work_step h step
    have later := ih (step_kept h step) run others
    cases kind : label.ofStart with
    | true =>
      have less := own kind
      rw [List.countP_cons_of_pos (by simpa using kind)]
      omega
    | false =>
      rw [List.countP_cons_of_neg (by simpa using kind), ← foreign kind first]
      exact later

/-- A call in progress can always take its next step. -/
theorem start_progress (h : m.Kept) (busy : 0 < m.start.work) :
    ∃ label, label.ofStart = true ∧ (m.step label).isSome = true := by
  have sound := h.start
  cases pc : m.start with
  | idle => rw [pc] at busy; exact absurd busy (Nat.lt_irrefl 0)
  | returned result => rw [pc] at busy; exact absurd busy (Nat.lt_irrefl 0)
  | checking options =>
    refine ⟨.check ⟨.error "", fun _ => .error "", fun _ => false⟩, rfl, ?_⟩
    simp only [Manager.step, pc]
    split
    next => rfl
    next => rfl
  | makingRoom options => exact ⟨.lock, rfl, by simp [Manager.step, pc]⟩
  | scanning options scan =>
    rw [pc] at sound
    cases unseen : scan.unseen with
    | nil =>
      refine ⟨.decide, rfl, ?_⟩
      simp only [Manager.step, pc, unseen, if_true]
      split
      next => rfl
      next => rfl
    | cons id rest =>
      have member : id ∈ scan.unseen := unseen ▸ List.mem_cons_self
      obtain ⟨entry, there, same⟩ := List.mem_map.mp (sound.known id member)
      have found : (m.get id).isSome = true := List.find?_isSome.mpr ⟨entry, there, by simpa using same⟩
      refine ⟨.visit id, rfl, ?_⟩
      simp only [Manager.step, pc, if_pos member]
      simpa using found
  | drawing options => exact ⟨.drawID (.error ""), rfl, by simp [Manager.step, pc]⟩
  | spawning options id => exact ⟨.spawn none, rfl, by simp [Manager.step, pc]⟩
  | inserting options id => exact ⟨.insert 0, rfl, by simp [Manager.step, pc]⟩

/-- In every run: no more than 64 sessions, none of them lost while it runs; one goes only where there is no room, and
then none that had completed as `makeRoom` began its loop is older; the limit is reported only where all were running
as the loop began; and a call of `Start` comes to its end. -/
theorem manager_retains {labels : List Label} (run : exec Manager.step Manager.new labels = some m) :
    m.sessions.length ≤ maxSessions ∧
      (∀ label t, m.step label = some t →
        (∀ entry ∈ m.sessions, entry.id ∉ t.ids →
          m.sessions.length = maxSessions ∧ entry.running = false ∧
          ∃ options scan, m.start = .scanning options scan ∧
            ∀ other ∈ scan.began, other.running = false → entry.startedAt ≤ other.startedAt) ∧
        (m.start ≠ .returned (.error .limit) → t.start = .returned (.error .limit) →
          m.sessions.length = maxSessions ∧ ∃ options scan, m.start = .scanning options scan ∧
            ∀ entry ∈ scan.began, entry.running = true)) ∧
      (0 < m.start.work → ∃ label, label.ofStart = true ∧ (m.step label).isSome = true) ∧
      ∀ later t, exec Manager.step m later = some t → (∀ label ∈ later, ∀ options, label ≠ .start options) →
        later.countP Label.ofStart + t.start.work ≤ m.start.work := by
  have kept := kept_run run
  refine ⟨kept.bounded, ?_, start_progress kept, fun later t run one => work_run kept run one⟩
  intro label t step
  exact ⟨fun entry here gone => dropped_step kept step here gone, fun before limit => limit_step kept step before limit⟩

end

def plainHost : Host := ⟨.ok "/", fun path => .ok path, fun _ => true⟩

def bash : StartOptions := ⟨"", ["/bin/bash"], "/", [], 0, 0⟩

/-- A call of `Start` that goes through at once. -/
def launch (id : String) (now : Int) : List Label :=
  [.start bash, .check plainHost, .lock, .drawID (.ok id), .spawn none, .insert now]

def sessionID (n : Nat) : String := String.singleton (Char.ofNat (48 + n))

/-- Sixty-four sessions, started one after the other. -/
def crowd : List Label := (List.range 64).flatMap fun n => launch (sessionID n) n

def exit (id : String) : List Label := [.session id .readError, .session id (.finish 0 "")]

theorem manager_retains_crowd : ∃ m, exec Manager.step Manager.new crowd = some m ∧ m.sessions.length = 64 ∧
    m.sessions.length ≤ maxSessions := by
  have run : (exec Manager.step Manager.new crowd).any (fun m => decide (m.sessions.length = 64)) = true := by
    decide +kernel
  obtain ⟨m, run, full⟩ := (Option.any_eq_true _ _).mp run
  exact ⟨m, run, of_decide_eq_true full, (manager_retains run).1⟩

/-- The oldest session ends behind the back of the loop, and the next one ahead of it. -/
def race : List Label :=
  crowd ++ [.start bash, .check plainHost, .lock, .visit (sessionID 0)] ++ exit (sessionID 0) ++ exit (sessionID 1) ++
    (List.range 63).map fun n => .visit (sessionID (n + 1))

/-- Then a younger session goes, though an older one has completed too. -/
theorem oldest_may_stay :
    ∃ m t entry other, exec Manager.step Manager.new race = some m ∧ m.step .decide = some t ∧
    entry ∈ m.sessions ∧ entry.id ∉ t.ids ∧ other ∈ m.sessions ∧ other.id ∈ t.ids ∧ other.running = false ∧
    other.startedAt < entry.startedAt := by
  have run : (exec Manager.step Manager.new race).any (fun m => (m.step .decide).any fun t =>
      m.sessions.any fun entry => m.sessions.any fun other => decide (entry.id ∉ t.ids ∧ other.id ∈ t.ids ∧
        other.running = false ∧ other.startedAt < entry.startedAt)) = true := by
    decide +kernel
  obtain ⟨m, run, rest⟩ := (Option.any_eq_true _ _).mp run
  obtain ⟨t, step, rest⟩ := (Option.any_eq_true _ _).mp rest
  obtain ⟨entry, here, rest⟩ := List.any_eq_true.mp rest
  obtain ⟨other, there, rest⟩ := List.any_eq_true.mp rest
  obtain ⟨gone, stays, ended, older⟩ := of_decide_eq_true rest
  exact ⟨m, t, entry, other, run, step, here, gone, there, stays, ended, older⟩

end TermLinks.SessionManager
