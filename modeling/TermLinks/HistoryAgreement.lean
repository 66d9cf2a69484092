import TermLinks.HistorySessions
import TermLinks.HistoryWire
import TermLinks.SessionRequest

namespace TermLinks.TerminalHistory

open HistoryClient (IsID maxTerminalNameLength maxTerminalCwdLength)
open SavedTerminal
open Remote (maxNameLength validateSessionName)

/-- The name of a rename or update request, which may not be empty. -/
def requestedName (name : String) : Option String := (validateSessionName name).filter (· ≠ "")

/-- The name `Manager.Start` gives a session that asked for one, or else that of its command. -/
def sessionName (name command : String) : String :=
  if trimSpace name = "" then command else trimSpace name

/-- The name `safeMetadata` saves. -/
def savedName (name : String) : String :=
  let name := trimSpace (String.ofList (name.toList.filter (·.val ≠ 0)))
  let name := if name = "" then "Terminal" else name
  String.ofList (name.toList.take maxNameRunes)

/-- A working directory of at most 4096 bytes. -/
def Housed (cwd : String) : Prop :=
  cwd ≠ "" ∧ byteLen cwd ≤ maxCwdBytes ∧ cwd.toList.any (·.val = 0) = false

instance (cwd : String) : Decidable (Housed cwd) := inferInstanceAs (Decidable (_ ∧ _))

/-- What the daemon sees to in its steps: sessions get ids of sixteen bytes and directories that exist, opened ones
the name of their entry, requests have passed their checks, and the clock shows days of the calendar. -/
def Daemon.Given (s : Daemon) : Label → Prop
  | .create created => IsID created.id ∧ Housed created.cwd ∧ created.startedAt.Calendar
  | .start created =>
    IsID created.id ∧ Housed created.cwd ∧ created.startedAt.Calendar ∧
      ∀ entry, s.opener = .starting entry → ∃ command, created.name = sessionName entry.name command
  | .finish _ endedAt => endedAt.Calendar
  | .rename _ name => ∃ text, requestedName text = some name
  | .renameSession _ now => now.Calendar
  | .saveSession _ now => now.Calendar
  | .update _ name _ now => (∀ text ∈ name, ∃ asked, requestedName asked = some text) ∧ now.Calendar
  | _ => True

/-- What is saved of the name a session is started with has at most 80 UTF-16 units. -/
def Label.Fits : Label → Prop
  | .create created => E2E.utf16Length (savedName created.name).toList ≤ maxTerminalNameLength
  | _ => True

instance (label : Label) : Decidable label.Fits := by
  cases label <;> unfold Label.Fits <;> infer_instance

theorem units_cons (c : Char) (cs : List Char) :
    E2E.utf16Length (c :: cs) = (if c.toNat < 0x10000 then 1 else 2) + E2E.utf16Length cs := by
  simp [E2E.utf16Length]

theorem units_sublist {xs ys : List Char} (h : xs.Sublist ys) :
    E2E.utf16Length xs ≤ E2E.utf16Length ys := by
  induction h with
  | slnil => exact Nat.le_refl _
  | cons c _ ih =>
    rw [units_cons]
    omega
  | cons_cons c _ ih =>
    rw [units_cons, units_cons]
    omega

theorem units_pos {xs : List Char} (h : xs ≠ []) : 1 ≤ E2E.utf16Length xs := by
  cases xs with
  | nil => exact absurd rfl h
  | cons c xs =>
    rw [units_cons]
    split
    next => omega
    next => omega

/-- The saved name is no longer than the name, but for the word that stands for none. -/
theorem units_savedName (name : String) :
    E2E.utf16Length (savedName name).toList ≤ max 8 (E2E.utf16Length name.toList) := by
  unfold savedName
  dsimp only
  rw [String.toList_ofList]
  refine Nat.le_trans (units_sublist (List.take_sublist _ _)) ?_
  split
  next => exact Nat.le_max_left _ _
  next =>
    have trimmed := units_sublist (sublist_trimSpace (String.ofList (name.toList.filter (·.val ≠ 0))))
    rw [String.toList_ofList] at trimmed
    have filtered := units_sublist (List.filter_sublist (p := (·.val ≠ 0)) (l := name.toList))
    omega

/-- A text that starts with something other than a space. -/
def Spoken (text : String) : Prop := ∃ c ∈ text.toList.head?, isSpace c = false

theorem spoken_trimSpace {text : String} (h : trimSpace text ≠ "") : Spoken (trimSpace text) := by
  unfold trimSpace at h ⊢
  have some : ((text.toList.dropWhile isSpace).reverse.dropWhile isSpace).reverse ≠ [] := by
    intro none
    rw [none] at h
    exact h rfl
  have split := congrArg List.reverse
    (List.takeWhile_append_dropWhile (p := isSpace) (l := (text.toList.dropWhile isSpace).reverse))
  rw [List.reverse_append, List.reverse_reverse] at split
  have first := @List.head?_append_of_ne_nil _ _
    ((text.toList.dropWhile isSpace).reverse.takeWhile isSpace).reverse some
  rw [split] at first
  have plain := List.head?_dropWhile_not isSpace text.toList
  unfold Spoken
  rw [String.toList_ofList, ← first]
  cases head : (text.toList.dropWhile isSpace).head? with
  | none =>
    rw [List.head?_eq_none_iff.mp head] at some
    exact absurd rfl some
  | some c =>
    rw [head] at plain
    exact ⟨c, rfl, by simpa using plain⟩

theorem trimSpace_spoken {text : String} (h : Spoken text) : trimSpace text ≠ "" := by
  obtain ⟨c, first, plain⟩ := h
  intro empty
  have none := congrArg String.toList empty
  unfold trimSpace at none
  rw [String.toList_ofList] at none
  cases chars : text.toList with
  | nil =>
    rw [chars] at first
    cases first
  | cons d cs =>
    rw [chars] at first none
    cases first
    rw [List.dropWhile_cons_of_neg (by simp [plain]), List.reverse_cons] at none
    have gone : (cs.reverse ++ [c]).dropWhile isSpace = [] := by simpa using none
    have space := List.dropWhile_eq_nil_iff.mp gone c (by simp)
    rw [plain] at space
    cases space

theorem spoken_savedName (name : String) : Spoken (savedName name) := by
  have spoken : ∀ text : String, Spoken text → Spoken (String.ofList (text.toList.take maxNameRunes)) := by
    rintro text ⟨c, first, plain⟩
    refine ⟨c, ?_, plain⟩
    rw [String.toList_ofList, List.head?_take, if_neg (by decide)]
    exact first
  unfold savedName
  apply spoken
  split
  next => exact ⟨'T', by decide, by decide⟩
  next some => exact spoken_trimSpace some

/-- A name a saved terminal may have. -/
structure Named (name : String) : Prop where
  spoken : Spoken name
  short : E2E.utf16Length name.toList ≤ maxTerminalNameLength

theorem named_requestedName {text name : String} (h : requestedName text = some name) :
    Named name := by
  obtain ⟨valid, nonempty⟩ := Option.filter_eq_some_iff.mp h
  simp only [decide_eq_true_eq] at nonempty
  unfold validateSessionName at valid
  dsimp only at valid
  split at valid
  next => cases valid
  next admitted =>
    cases valid
    refine ⟨spoken_trimSpace nonempty, ?_⟩
    have units := E2E.utf16Length_le (trimSpace text).toList
    rw [byteCount_toList] at units
    have limit : maxNameLength = maxTerminalNameLength := rfl
    have short : byteLen (trimSpace text) = (trimSpace text).utf8ByteSize := rfl
    omega

theorem Named.nonempty {name : String} (h : Named name) : 1 ≤ E2E.utf16Length name.toList := by
  obtain ⟨c, first, _⟩ := h.spoken
  apply units_pos
  intro empty
  rw [empty] at first
  cases first

/-- The session of a request or an end: its saved name fits, and the rest of it can be saved. -/
structure SessionInfo.Sound (info : SessionInfo) : Prop where
  id : IsID info.id
  housed : Housed info.cwd
  name : E2E.utf16Length (savedName info.name).toList ≤ maxTerminalNameLength
  started : info.startedAt.Calendar
  ended : ∀ ended ∈ info.endedAt, ended.Calendar

theorem safeMetadata_sound {info : SessionInfo} (h : info.Sound) :
    safeMetadata info = .ok (savedName info.name, info.cwd) := by
  obtain ⟨nonempty, short, clear⟩ := h.housed
  unfold safeMetadata savedName
  dsimp only
  rw [if_neg]
  rintro (empty | long | nul)
  · exact nonempty empty
  · omega
  · rw [clear] at nul
    cases nul

/-- What the daemon's steps give the store. -/
def daemonArguments : Arguments := ⟨SessionInfo.Sound, Named, IsID, Time.Calendar⟩

theorem named_savedName {info : SessionInfo} (h : info.Sound) : Named (savedName info.name) :=
  ⟨spoken_savedName info.name, h.name⟩

theorem units_cwd {cwd : String} (h : Housed cwd) :
    1 ≤ E2E.utf16Length cwd.toList ∧ E2E.utf16Length cwd.toList ≤ maxTerminalCwdLength := by
  obtain ⟨nonempty, short, _⟩ := h
  have units := E2E.utf16Length_le cwd.toList
  rw [byteCount_toList] at units
  have limit : maxCwdBytes = maxTerminalCwdLength := rfl
  have bytes : byteLen cwd = cwd.utf8ByteSize := rfl
  refine ⟨units_pos fun empty => nonempty (String.toList_eq_nil_iff.mp empty), ?_⟩
  omega

theorem Named.units {name : String} (h : Named name) :
    1 ≤ E2E.utf16Length name.toList ∧ E2E.utf16Length name.toList ≤ maxTerminalNameLength :=
  ⟨h.nonempty, h.short⟩

/-- A row whose entry can be shown and opened again. -/
def Good (row : SavedTerminal) : Prop := row.Presentable ∧ Spoken row.name

theorem calendar_ended {info : SessionInfo} {ended : Time} (h : info.Sound) (he : info.ended = some ended) :
    ended.Calendar := by
  unfold SessionInfo.ended at he
  split at he
  next => cases he
  next => exact h.ended ended he

theorem good_inserted {id : Nat} {info : SessionInfo} {ended : Time} (h : info.Sound)
    (he : info.ended = some ended) : Good (ofEnded id info (savedName info.name) info.cwd ended) := by
  have named := named_savedName h
  have concluded := calendar_ended h he
  refine ⟨⟨h.id, Or.inl rfl, named.units, units_cwd h.housed, ⟨info.startedAt, h.started, rfl⟩, ⟨ended, concluded, rfl⟩,
    ⟨info.startedAt, h.started, rfl⟩, ?_⟩, named.spoken⟩
  intro text ht
  cases Option.some.inj ht
  exact ⟨ended, concluded, rfl⟩

theorem good_saved {id : Nat} {info : SessionInfo} {favorite : Bool} {now : Time} (h : info.Sound)
    (time : now.Calendar) :
    Good ⟨id, info.id, "", savedName info.name, info.cwd, favorite, encodeTime now, encodeTime now,
      encodeTime now, none⟩ := by
  have named := named_savedName h
  exact ⟨⟨h.id, Or.inl rfl, named.units, units_cwd h.housed, ⟨now, time, rfl⟩, ⟨now, time, rfl⟩,
    ⟨now, time, rfl⟩, nofun⟩, named.spoken⟩

theorem good_closed {row : SavedTerminal} {sessionID : String} {ended : Time} (h : Good row)
    (concluded : ended.Calendar) :
    Good (row.close sessionID (encodeTime ended)) := by
  obtain ⟨h, spoken⟩ := h
  refine ⟨⟨h.source, ?_, h.name, h.cwd, h.created, ⟨ended, concluded, rfl⟩, h.opened, ?_⟩, spoken⟩
  · by_cases own : row.activeSessionID = sessionID
    · exact Or.inl (if_pos own)
    · have kept : (row.close sessionID (encodeTime ended)).activeSessionID = row.activeSessionID := if_neg own
      rw [kept]
      exact h.active
  · intro text ht
    cases Option.some.inj ht
    exact ⟨ended, concluded, rfl⟩

theorem good_changed {row : SavedTerminal} {name : String} {favorite : Bool} {now : Time} (h : Good row)
    (time : now.Calendar) (named : Named name ∨ ∃ other, Good other ∧ other.name = name) :
    Good { row with name, favorite, updatedAt := encodeTime now } := by
  obtain ⟨h, _⟩ := h
  rcases named with named | ⟨other, ⟨ho, spoken⟩, rfl⟩
  · exact ⟨⟨h.source, h.active, named.units, h.cwd, h.created, ⟨now, time, rfl⟩, h.opened, h.closed⟩, named.spoken⟩
  · exact ⟨⟨h.source, h.active, ho.name, h.cwd, h.created, ⟨now, time, rfl⟩, h.opened, h.closed⟩, spoken⟩

theorem good_opened {row : SavedTerminal} {sessionID : String} {now : Time} (h : Good row)
    (opened : IsID sessionID) (time : now.Calendar) :
    Good { row with
      activeSessionID := sessionID, lastOpenedAt := encodeTime now, updatedAt := encodeTime now } := by
  obtain ⟨h, spoken⟩ := h
  exact ⟨⟨h.source, Or.inr opened, h.name, h.cwd, h.created, ⟨now, time, rfl⟩, ⟨now, time, rfl⟩, h.closed⟩, spoken⟩

theorem good_admits : Admits daemonArguments Good where
  inserted := by
    intro id info name cwd ended session metadata he
    obtain ⟨rfl, rfl⟩ := Prod.mk.inj (Except.ok.inj ((safeMetadata_sound session).symm.trans metadata))
    exact good_inserted session he
  saved := by
    intro id info name cwd favorite now session metadata time
    obtain ⟨rfl, rfl⟩ := Prod.mk.inj (Except.ok.inj ((safeMetadata_sound session).symm.trans metadata))
    exact good_saved session time
  closed := fun row info ended session he h => good_closed h (calendar_ended session he)
  unlinked := by
    intro row ⟨h, spoken⟩
    exact ⟨⟨h.source, Or.inl rfl, h.name, h.cwd, h.created, h.updated, h.opened, h.closed⟩, spoken⟩
  changed := fun row name favorite now time named h => good_changed h time named
  opened := fun row sessionID now opened time h => good_opened h opened time

/-- What a run with fitting names keeps. -/
structure Daemon.Sound (s : Daemon) : Prop where
  objects : ∀ info ∈ s.objects, info.Sound
  held : ∀ info, s.Holds info → info.Sound
  renamed : ∀ pair ∈ s.renamed, Named pair.2
  rows : ∀ row ∈ s.store.rows, Good row
  entry : ∀ entry, s.opener = .got entry ∨ s.opener = .starting entry → Good entry
  marking : ∀ id created, s.opener = .marking id created → created.Sound
  bounded : s.store.Bounded

theorem sound_initial : Daemon.initial.Sound where
  objects := nofun
  held := by
    intro info h
    rcases h with ended | favorite | ⟨call, hc, _⟩
    · cases ended
    · cases favorite
    · cases hc
  renamed := nofun
  rows := nofun
  entry := by
    intro entry h
    rcases h with got | starting
    · cases got
    · cases starting
  marking := nofun
  bounded := bounded_empty

section

variable {s t : Daemon}

theorem sound_info {id : String} {info : SessionInfo} (h : s.Sound)
    (found : s.info id = some info) : info.Sound :=
  h.objects info (findRow_mem found).1

/-- A step that leaves the store alone. -/
theorem sound_of_quiet (h : s.Sound) (store : t.store = s.store) (objects : ∀ info ∈ t.objects, info.Sound)
    (held : ∀ info, t.Holds info → s.Holds info ∨ info.Sound)
    (renamed : ∀ pair ∈ t.renamed, pair ∈ s.renamed ∨ Named pair.2)
    (entry : ∀ entry, t.opener = .got entry ∨ t.opener = .starting entry →
      s.opener = .got entry ∨ s.opener = .starting entry ∨ Good entry)
    (marking : ∀ id created, t.opener = .marking id created → s.opener = .marking id created ∨
      created.Sound) :
    t.Sound where
  objects := objects
  held := fun info hi => (held info hi).elim (h.held info) id
  renamed := fun pair hp => (renamed pair hp).elim (h.renamed pair) id
  rows := store ▸ h.rows
  entry := by
    intro row hr
    rcases entry row hr with got | starting | good
    · exact h.entry row (Or.inl got)
    · exact h.entry row (Or.inr starting)
    · exact good
  marking := fun id created hm => (marking id created hm).elim (h.marking id created) (fun sound => sound)
  bounded := store ▸ h.bounded

/-- A step that is one call on the store. -/
theorem sound_of_apply (h : s.Sound) (op : Op) (within : op.Within daemonArguments)
    (store : t.store = s.store.apply op)
    (objects : t.objects = s.objects) (held : ∀ info, t.Holds info → s.Holds info)
    (renamed : ∀ pair ∈ t.renamed, pair ∈ s.renamed) (opener : t.opener = s.opener ∨ t.opener = .idle) :
    t.Sound where
  objects := objects ▸ h.objects
  held := fun info hi => h.held info (held info hi)
  renamed := fun pair hp => h.renamed pair (renamed pair hp)
  rows := store ▸ good_admits.apply h.rows op within
  entry := by
    intro row hr
    rcases opener with same | idle
    · exact h.entry row (same ▸ hr)
    · rw [idle] at hr
      rcases hr with got | starting
      · cases got
      · cases starting
  marking := by
    intro id created hm
    rcases opener with same | idle
    · exact h.marking id created (same ▸ hm)
    · rw [idle] at hm
      cases hm
  bounded := store ▸ bounded_apply h.bounded op

theorem sound_started {created : SessionInfo} (h : s.Sound) (sound : created.Sound)
    (started : s.start created = some t) :
    (∀ info ∈ t.objects, info.Sound) ∧ t.store = s.store ∧ (∀ info, t.Holds info → s.Holds info) ∧
      t.renamed = s.renamed ∧ t.opener = s.opener := by
  obtain ⟨_, _, rfl⟩ := start_eq_some started
  refine ⟨?_, rfl, fun _ hi => hi, rfl, rfl⟩
  intro info hi
  rcases List.mem_append.mp hi with old | new
  · exact h.objects info old
  · rw [List.mem_singleton.mp new]
    exact sound

theorem endedAt_of_start {created : SessionInfo} (started : s.start created = some t) :
    created.endedAt = none := by
  unfold Daemon.start at started
  split at started
  next can => exact can.2.2.1
  next => cases started

theorem sound_setInfo {id : String} {f : SessionInfo → SessionInfo} (h : s.Sound)
    (hf : ∀ info : SessionInfo, info.Sound → (f info).Sound) :
    ∀ info ∈ (s.setInfo id f).objects, info.Sound := by
  intro info hi
  obtain ⟨old, ho, rfl⟩ := mem_updateWhere.mp hi
  split
  next => exact hf old (h.objects old ho)
  next => exact h.objects old ho

end

theorem sound_step {s t : Daemon} {label : Label} (h : s.Sound) (given : s.Given label) (fits : label.Fits)
    (ht : step s label = some t) : t.Sound := by
  have old : ∀ info, s.Holds info → s.Holds info ∨ info.Sound := fun _ => Or.inl
  have kept : ∀ pair ∈ s.renamed, pair ∈ s.renamed ∨ Named pair.2 := fun _ => Or.inl
  have entries : ∀ entry, s.opener = .got entry ∨ s.opener = .starting entry →
      s.opener = .got entry ∨ s.opener = .starting entry ∨ Good entry := fun entry he => he.imp_right Or.inl
  have marks : ∀ id created, s.opener = .marking id created →
      s.opener = .marking id created ∨ created.Sound := fun _ _ => Or.inl
  cases label with
  | «open» id =>
    simp only [step] at ht
    split at ht
    next entry _ found =>
      cases ht
      refine sound_of_quiet h rfl h.objects old kept ?_ (by rintro _ _ ⟨⟩)
      intro other ho
      rcases ho with got | starting
      · cases got
        unfold Store.get at found
        split at found
        next => cases found
        next there =>
          cases found
          exact Or.inr (Or.inr (h.rows _ (findRow_mem there).1))
      · cases starting
    next => cases ht; exact h
    next => cases ht
  | check =>
    simp only [step] at ht
    split at ht
    next entry pc =>
      split at ht
      next =>
        cases ht
        refine sound_of_quiet h rfl h.objects old kept ?_ (by rintro _ _ ⟨⟩)
        intro other ho
        rcases ho with got | starting
        · cases got
        · cases starting
      next =>
        cases ht
        refine sound_of_quiet h rfl h.objects old kept ?_ (by rintro _ _ ⟨⟩)
        intro other ho
        rcases ho with got | starting
        · cases got
        · cases starting
          exact Or.inl pc
    next => cases ht
  | start created =>
    simp only [step] at ht
    split at ht
    next entry pc =>
      obtain ⟨u, started, rfl⟩ := Option.map_eq_some_iff.mp ht
      obtain ⟨hid, housed, time, names⟩ := given
      obtain ⟨command, named⟩ := names entry pc
      obtain ⟨presentable, spoken⟩ := h.entry entry (Or.inr pc)
      -- The entry has a name, so the session does not fall back on that of its command.
      have short : E2E.utf16Length (savedName created.name).toList ≤ maxTerminalNameLength := by
        rw [named, sessionName, if_neg (trimSpace_spoken spoken)]
        have saved := units_savedName (trimSpace entry.name)
        have trimmed := units_sublist (sublist_trimSpace entry.name)
        have bound := presentable.name.2
        have limit : maxTerminalNameLength = 80 := rfl
        omega
      have sound : created.Sound := ⟨hid, housed, short, time, by rw [endedAt_of_start started]; rintro _ ⟨⟩⟩
      obtain ⟨objects, store, held, renamed, _⟩ := sound_started h sound started
      refine sound_of_quiet h store objects (fun info hi => Or.inl (held info hi)) ?_ ?_ ?_
      · intro pair hp
        exact Or.inl (renamed ▸ hp)
      · intro other ho
        rcases ho with got | starting
        · cases got
        · cases starting
      · intro id other hm
        cases hm
        exact Or.inr sound
    next => cases ht
  | startFails =>
    simp only [step] at ht
    split at ht
    next =>
      cases ht
      refine sound_of_quiet h rfl h.objects old kept ?_ (by rintro _ _ ⟨⟩)
      intro other ho
      rcases ho with got | starting
      · cases got
      · cases starting
    next => cases ht
  | mark =>
    simp only [step] at ht
    split at ht
    next id created pc =>
      cases ht
      have sound := h.marking id created pc
      exact sound_of_apply h (.markOpened id created.id created.startedAt) ⟨sound.id, sound.started⟩ rfl rfl
        (fun _ hi => hi) (fun _ hp => hp) (Or.inr rfl)
    next => cases ht
  | create created =>
    obtain ⟨hid, housed, time⟩ := given
    have started : s.start created = some t := ht
    have sound : created.Sound := ⟨hid, housed, fits, time, by rw [endedAt_of_start started]; rintro _ ⟨⟩⟩
    obtain ⟨objects, store, held, renamed, opener⟩ := sound_started h sound started
    refine sound_of_quiet h store objects (fun info hi => Or.inl (held info hi)) ?_ ?_ ?_
    · intro pair hp
      exact Or.inl (renamed ▸ hp)
    · intro entry he
      rw [opener] at he
      exact he.imp_right Or.inl
    · intro id other hm
      exact Or.inl (opener ▸ hm)
  | makeRoom id =>
    simp only [step] at ht
    split at ht
    next => cases ht; exact sound_of_quiet h rfl h.objects old kept entries marks
    next => cases ht
  | finish id endedAt =>
    obtain ⟨info, found, ht⟩ := Option.bind_eq_some_iff.mp ht
    have concluded : ∀ other : SessionInfo, other.Sound → (other.finished endedAt).Sound := by
      intro other ho
      refine ⟨ho.id, ho.housed, ho.name, ho.started, ?_⟩
      intro ended he
      cases Option.some.inj he
      exact given
    split at ht
    next =>
      cases ht
      refine sound_of_quiet h rfl (sound_setInfo h concluded) ?_ kept entries marks
      intro other ho
      rcases ho with ended | rest
      · rcases List.mem_append.mp ended with past | new
        · exact Or.inl (Or.inl past)
        · rw [List.mem_singleton.mp new]
          exact Or.inr (concluded info (sound_info h found))
      · exact Or.inl (Or.inr rest)
    next => cases ht
  | recordEnded call =>
    obtain ⟨info, pending, ht⟩ := Option.bind_eq_some_iff.mp ht
    cases ht
    refine sound_of_apply h (.recordEnded info) (h.held info (Or.inl (List.mem_of_getElem? pending))) rfl rfl ?_
      (fun _ hp => hp) (Or.inl rfl)
    intro other hi
    rcases hi with ended | rest
    · exact Or.inl (List.mem_of_mem_eraseIdx ended)
    · exact Or.inr rest
  | rename id name =>
    obtain ⟨text, valid⟩ := given
    have named := named_requestedName valid
    have short : E2E.utf16Length (savedName name).toList ≤ maxTerminalNameLength := by
      have saved := units_savedName name
      have bound := named.short
      have limit : maxTerminalNameLength = 80 := rfl
      omega
    simp only [step] at ht
    split at ht
    next =>
      cases ht
      refine sound_of_quiet h rfl (sound_setInfo h ?_) old ?_ entries marks
      · intro info hi
        exact ⟨hi.id, hi.housed, short, hi.started, hi.ended⟩
      · intro pair hp
        rcases List.mem_append.mp hp with past | new
        · exact Or.inl past
        · rw [List.mem_singleton.mp new]
          exact Or.inr named
    next => cases ht
  | renameSession call now =>
    obtain ⟨⟨id, name⟩, pending, ht⟩ := Option.bind_eq_some_iff.mp ht
    cases ht
    exact sound_of_apply h (.renameSession id name now) ⟨h.renamed _ (List.mem_of_getElem? pending), given⟩ rfl rfl
      (fun _ hi => hi) (fun _ hp => List.mem_of_mem_eraseIdx hp) (Or.inl rfl)
  | list ids =>
    simp only [step] at ht
    split at ht
    next =>
      cases ht
      refine sound_of_quiet h rfl h.objects ?_ kept entries marks
      intro info hi
      rcases hi with ended | favorite | ⟨call, hc, hm⟩
      · exact Or.inl (Or.inl ended)
      · exact Or.inl (Or.inr (Or.inl favorite))
      · rcases List.mem_append.mp hc with past | new
        · exact Or.inl (Or.inr (Or.inr ⟨call, past, hm⟩))
        · cases List.mem_singleton.mp new
          cases hm
    next => cases ht
  | readInfo call =>
    obtain ⟨request, pending, ht⟩ := Option.bind_eq_some_iff.mp ht
    obtain ⟨id, _, ht⟩ := Option.bind_eq_some_iff.mp ht
    obtain ⟨read, found, ht⟩ := Option.bind_eq_some_iff.mp ht
    cases ht
    refine sound_of_quiet h rfl h.objects ?_ kept entries marks
    intro info hi
    rcases hi with ended | favorite | ⟨other, hc, hm⟩
    · exact Or.inl (Or.inl ended)
    · exact Or.inl (Or.inr (Or.inl favorite))
    · rcases List.mem_or_eq_of_mem_set hc with past | rfl
      · exact Or.inl (Or.inr (Or.inr ⟨other, past, hm⟩))
      · rcases List.mem_append.mp hm with past | new
        · exact Or.inl (Or.inr (Or.inr ⟨request, List.mem_of_getElem? pending, past⟩))
        · rw [List.mem_singleton.mp new]
          exact Or.inr (sound_info h found)
  | reconcile call =>
    obtain ⟨request, pending, ht⟩ := Option.bind_eq_some_iff.mp ht
    split at ht
    next =>
      cases ht
      refine sound_of_apply h (.reconcile request.infos) ?_ rfl rfl ?_ (fun _ hp => hp) (Or.inl rfl)
      · intro info hi
        exact h.held info (Or.inr (Or.inr ⟨request, List.mem_of_getElem? pending, hi⟩))
      · intro info hi
        rcases hi with ended | favorite | ⟨other, hc, hm⟩
        · exact Or.inl ended
        · exact Or.inr (Or.inl favorite)
        · exact Or.inr (Or.inr ⟨other, List.mem_of_mem_eraseIdx hc, hm⟩)
    next => cases ht
  | favorite id =>
    obtain ⟨info, found, ht⟩ := Option.bind_eq_some_iff.mp ht
    split at ht
    next =>
      cases ht
      refine sound_of_quiet h rfl h.objects ?_ kept entries marks
      intro other ho
      rcases ho with ended | favorite | listed
      · exact Or.inl (Or.inl ended)
      · rcases List.mem_append.mp favorite with past | new
        · exact Or.inl (Or.inr (Or.inl past))
        · rw [List.mem_singleton.mp new]
          exact Or.inr (sound_info h found)
      · exact Or.inl (Or.inr (Or.inr listed))
    next => cases ht
  | saveSession call now =>
    obtain ⟨info, pending, ht⟩ := Option.bind_eq_some_iff.mp ht
    cases ht
    refine sound_of_apply h (.saveSession info true now)
      ⟨h.held info (Or.inr (Or.inl (List.mem_of_getElem? pending))), given⟩ rfl rfl ?_ (fun _ hp => hp) (Or.inl rfl)
    intro other ho
    rcases ho with ended | favorite | listed
    · exact Or.inl ended
    · exact Or.inr (Or.inl (List.mem_of_mem_eraseIdx favorite))
    · exact Or.inr (Or.inr listed)
  | update id name favorite now =>
    cases ht
    refine sound_of_apply h (.update id name favorite now) ⟨?_, given.2⟩ rfl rfl (fun _ hi => hi)
      (fun _ hp => hp) (Or.inl rfl)
    intro text member
    obtain ⟨asked, valid⟩ := given.1 text member
    exact named_requestedName valid
  | delete id =>
    cases ht
    exact sound_of_apply h (.delete id) trivial rfl rfl (fun _ hi => hi) (fun _ hp => hp) (Or.inl rfl)
  | restart =>
    cases ht
    refine sound_of_quiet h rfl ?_ ?_ (by rintro _ ⟨⟩) ?_ (by rintro _ _ ⟨⟩)
    · intro info hi
      obtain ⟨past, ho, rfl⟩ := mem_updateWhere.mp hi
      have sound := h.objects past ho
      split
      next => exact ⟨sound.id, sound.housed, sound.name, sound.started, sound.ended⟩
      next => exact sound
    · intro info hi
      rcases hi with ended | favorite | ⟨call, hc, _⟩
      · cases ended
      · cases favorite
      · cases hc
    · intro entry he
      rcases he with got | starting
      · cases got
      · cases starting

theorem sound_run {labels : List Label} {s : Daemon} (run : exec step Daemon.initial labels = some s)
    (given : Along step Daemon.Given Daemon.initial labels) (fits : ∀ label ∈ labels, label.Fits) :
    s.Sound := by
  induction labels using List.reverseRecOn generalizing s with
  | nil =>
    cases Option.some.inj run
    exact sound_initial
  | append_singleton labels label ih =>
    obtain ⟨r, before, last⟩ := exec_snoc_iff.mp run
    have sound := ih before (along_front given) fun other ho => fits other (List.mem_append_left _ ho)
    have here := along_append given before
    exact sound_step sound here.1 (fits label (by simp)) last

/-- A list request of sessions that can be saved is not turned down. -/
theorem reconcile_ok {s : Store} {sessions : List SessionInfo} (h : ∀ info ∈ sessions, info.Sound) :
    ∃ t, s.reconcile sessions = .ok t := by
  have fold : ∃ t, sessions.foldlM Store.reconcileSession s = .ok t := by
    induction sessions generalizing s with
    | nil => exact ⟨s, rfl⟩
    | cons info sessions ih =>
      obtain ⟨first, rest⟩ := List.forall_mem_cons.mp h
      obtain ⟨u, hu⟩ : ∃ u, s.reconcileSession info = .ok u := by
        unfold Store.reconcileSession
        split
        next => exact ⟨s, rfl⟩
        next ended _ =>
          unfold Store.reconcileEnded
          rw [safeMetadata_sound first]
          cases s.rows.find? (ofSession info.id) with
          | none => exact ⟨_, rfl⟩
          | some row =>
            by_cases settled : row.settled info.id = true
            · exact ⟨_, if_pos settled⟩
            · exact ⟨_, if_neg settled⟩
      obtain ⟨t, ht⟩ := @ih u rest
      exact ⟨t, by rw [List.foldlM_cons, hu]; exact ht⟩
  obtain ⟨t, ht⟩ := fold
  exact ⟨_, by rw [Store.reconcile, ht]; rfl⟩

/-- However sessions were started, named, saved, opened and ended: as long as what is saved of the names they were
started with fits 80 units, the browser takes the list the daemon answers with, entry for entry, and no session
keeps the daemon from answering. -/
theorem history_is_accepted (draw : Nat → Fin 16 → UInt8) (dates : HistoryClient.Dates)
    {labels : List Label} {s : Daemon} (run : exec step Daemon.initial labels = some s)
    (given : Along step Daemon.Given Daemon.initial labels) (fits : ∀ label ∈ labels, label.Fits) :
    (∃ entries body, s.store.list.mapM (scanEntry draw) = some entries ∧
      listBody draw s.store = some body ∧
      (Json.parse body).bind (HistoryClient.decodeTerminalHistory dates) =
        some (entries.map HistoryClient.ofEntry)) ∧
    ∀ call ∈ s.lists, ∃ t, s.store.reconcile call.infos = .ok t := by
  have sound := sound_run run given fits
  refine ⟨decode_listBody draw dates sound.bounded fun row hr => (sound.rows row hr).1, ?_⟩
  intro call hc
  exact reconcile_ok fun info hi => sound.held info (Or.inr (Or.inr ⟨call, hc, hi⟩))

/-- A shell started on the command line under the name. -/
def namedShell (name : String) : SessionInfo :=
  ⟨"0123456789abcdef0123456789abcdef", name, "/tmp/work", beforeNoon, none, true, by decide⟩

def favored (name : String) : List Label :=
  [.create (namedShell name), .favorite "0123456789abcdef0123456789abcdef", .saveSession 0 noon]

theorem favored_given (name : String) : Along step Daemon.Given Daemon.initial (favored name) := by
  apply along_of_labels
  intro label hl s
  simp only [favored, List.mem_cons, List.not_mem_nil, or_false] at hl
  rcases hl with rfl | rfl | rfl
  · exact ⟨(by decide : IsID "0123456789abcdef0123456789abcdef"), (by decide : Housed "/tmp/work"),
      (by decide : beforeNoon.Calendar)⟩
  · trivial
  · exact (by decide : noon.Calendar)

def anyDates : HistoryClient.Dates := ⟨fun _ => true, fun _ _ => rfl⟩

theorem history_is_accepted_work :
    ∃ (s : Daemon) (entries : List Entry) (body : String), exec step Daemon.initial
      (favored "work") = some s ∧
    listBody (fun _ _ => 0) s.store = some body ∧
    (Json.parse body).bind (HistoryClient.decodeTerminalHistory anyDates) =
      some (entries.map HistoryClient.ofEntry) := by
  have run : (exec step Daemon.initial (favored "work")).isSome = true := by decide
  obtain ⟨s, run⟩ := Option.isSome_iff_exists.mp run
  have fits : ∀ label ∈ favored "work", label.Fits := by decide
  obtain ⟨⟨entries, body, _, answer, decoded⟩, _⟩ :=
    history_is_accepted (fun _ _ => 0) anyDates run (favored_given "work") fits
  exact ⟨s, entries, body, run, answer, decoded⟩

/-- A name of 41 characters outside the basic plane: 41 runes for the daemon, 82 units for the browser. -/
def wideName : String := String.ofList (List.replicate 41 '😀')

def wideEntry : Entry :=
  ⟨"00000000000000000000000000000000", "0123456789abcdef0123456789abcdef", "", wideName, "/tmp/work", true, noon, noon,
    noon, none⟩

/-- The row that is saved under the name. -/
def namedRow (name : String) : SavedTerminal :=
  { id := 0, sourceSessionID := "0123456789abcdef0123456789abcdef", activeSessionID := "", name := savedName name
    cwd := "/tmp/work", favorite := true, createdAt := encodeTime noon, updatedAt := encodeTime noon
    lastOpenedAt := encodeTime noon, lastClosedAt := none }

theorem favored_store (name : String) :
    (exec step Daemon.initial (favored name)).map Daemon.store = some ⟨[namedRow name], 1⟩ := by
  have housed : ¬("/tmp/work" = "" ∨ byteLen "/tmp/work" > maxCwdBytes ∨
      ("/tmp/work".toList.any fun c => decide (c.val = 0)) = true) := by decide
  have metadata : safeMetadata (namedShell name) = .ok (savedName name, "/tmp/work") := if_neg housed
  have saved : Store.empty.apply (.saveSession (namedShell name) true noon) = ⟨[namedRow name], 1⟩ := by
    simp only [Store.apply, Store.saveSession, metadata]
    rfl
  exact congrArg some saved

theorem savedName_wideName : savedName wideName = wideName := by
  have chars : wideName.toList = List.replicate 41 '😀' := String.toList_ofList
  have face : isSpace '😀' = false := by decide
  have shown : trimSpace wideName = wideName := by
    rw [trimSpace, chars, List.dropWhile_replicate, face, if_neg Bool.false_ne_true, List.reverse_replicate,
      List.dropWhile_replicate, face, if_neg Bool.false_ne_true, List.reverse_replicate]
    rfl
  have clear : String.ofList (wideName.toList.filter (·.val ≠ 0)) = wideName := by
    rw [chars]
    rfl
  have nonempty : wideName ≠ "" := by
    intro empty
    rw [empty] at chars
    cases chars
  rw [savedName, clear, shown, if_neg nonempty, chars]
  rfl

theorem scan_wideRow : scanEntry (fun _ _ => 0) (namedRow wideName) = some wideEntry := by
  have time : decodeTime (encodeTime noon) = some noon := decodeTime_encodeTime (by decide)
  have drawn : idText (fun _ _ => 0) 0 = "00000000000000000000000000000000" := by decide
  simp only [scanEntry, namedRow, time, drawn, savedName_wideName]
  rfl

/-- One entry with such a name and the browser rejects the list. -/
theorem wide_name_rejects_list :
    ¬ ∀ (draw : Nat → Fin 16 → UInt8) (dates : HistoryClient.Dates) (labels : List Label)
      (s : Daemon),
      exec step Daemon.initial labels = some s → Along step Daemon.Given Daemon.initial labels →
      ∃ entries body, s.store.list.mapM (scanEntry draw) = some entries ∧
      listBody draw s.store = some body ∧
        (Json.parse body).bind (HistoryClient.decodeTerminalHistory dates) =
          some (entries.map HistoryClient.ofEntry) := by
  intro h
  obtain ⟨s, run, stored⟩ := Option.map_eq_some_iff.mp (favored_store wideName)
  have scanned : s.store.list.mapM (scanEntry fun _ _ => 0) = some [wideEntry] := by
    have listed : s.store.list = [namedRow wideName] := by
      rw [stored]
      rfl
    rw [listed, List.mapM_cons, scan_wideRow]
    rfl
  obtain ⟨entries, body, read, answer, decoded⟩ := h (fun _ _ => 0) anyDates _ s run (favored_given wideName)
  rw [listBody, scanned] at answer
  cases Option.some.inj answer
  rw [TerminalReconnect.parse_writeJSON] at decoded
  have rejected : HistoryClient.decodeTerminalHistory anyDates (listValue [wideEntry]) = none := by decide +kernel
  rw [Option.bind_some, rejected] at decoded
  cases decoded

end TermLinks.TerminalHistory
