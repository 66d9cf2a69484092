import TermLinks.ConnectorLeaks

namespace TermLinks.Connector

/-- The three maps of a channel with a bound. -/
inductive Slot
  | view (view : View)
  | upload
deriving DecidableEq

def BrowserChannel.slot (channel : BrowserChannel) : Slot → Table
  | .view .desktop => channel.desktops
  | .view .window => channel.windows
  | .upload => channel.uploads

/-- The check under the lock before an entry is made. -/
def BrowserChannel.full (channel : BrowserChannel) (id : String) : Slot → Bool
  | .view _ => channel.viewing
  | .upload => channel.uploadsFull id

/-- What one section under the lock of a channel does to the three maps. -/
inductive Edit (channel : BrowserChannel) : BrowserChannel → Prop
  | kept {after : BrowserChannel} (same : ∀ m, after.slot m = channel.slot m) : Edit channel after
  | entered {after : BrowserChannel} {m : Slot} {id : String} {r : Nat} (free : channel.full id m = false)
      (here : after.slot m = (channel.slot m).insert id r)
      (rest : ∀ n, n ≠ m → after.slot n = channel.slot n) :
      Edit channel after
  | removed {after : BrowserChannel} {m : Slot} {id : String}
      (here : after.slot m = (channel.slot m).erase id)
      (rest : ∀ n, n ≠ m → after.slot n = channel.slot n) : Edit channel after
  | emptied {after : BrowserChannel} (empty : ∀ m, after.slot m = ∅) : Edit channel after

/-- `len(desktops) + len(windows)` is at most one and `len(uploads)` at most two. -/
structure BrowserChannel.Limited (channel : BrowserChannel) : Prop where
  views : channel.desktops.entries.length + channel.windows.entries.length ≤ 1
  uploads : channel.uploads.entries.length ≤ 2

section

variable {channel after : BrowserChannel}

theorem Edit.same (desktops : after.desktops = channel.desktops) (windows : after.windows = channel.windows)
    (uploads : after.uploads = channel.uploads) : Edit channel after := by
  refine .kept ?_
  intro m
  cases m with
  | view view =>
    cases view with
    | desktop => exact desktops
    | window => exact windows
  | upload => exact uploads

theorem slot_setLines (channel : BrowserChannel) (table : Table) (view : View) :
    (channel.setLines table view.line).slot (.view view) = table ∧
      ∀ n, n ≠ .view view → (channel.setLines table view.line).slot n = channel.slot n := by
  cases view with
  | desktop =>
    refine ⟨rfl, ?_⟩
    intro n other
    cases n with
    | view v =>
      cases v with
      | desktop => exact absurd rfl other
      | window => rfl
    | upload => rfl
  | window =>
    refine ⟨rfl, ?_⟩
    intro n other
    cases n with
    | view v =>
      cases v with
      | desktop => rfl
      | window => exact absurd rfl other
    | upload => rfl

theorem lines_view (channel : BrowserChannel) (view : View) :
    channel.lines view.line = channel.slot (.view view) := by
  cases view <;> rfl

theorem slot_close (channel : BrowserChannel) (r : Nat) (m : Slot) :
    (channel.close r).slot m = channel.slot m := by
  unfold BrowserChannel.close
  split <;> rfl

theorem slot_setUpload (channel : BrowserChannel) (r : Nat) (upload : FileUpload) (m : Slot) :
    (channel.setUpload r upload).slot m = channel.slot m := by
  unfold BrowserChannel.setUpload
  split <;> rfl

theorem slot_cleanup (channel : BrowserChannel) (r : Nat) (m : Slot) :
    (channel.cleanup r).slot m = channel.slot m := by
  unfold BrowserChannel.cleanup
  split <;> rfl

theorem slot_finalize (channel : BrowserChannel) (r : Nat) (m : Slot) :
    (channel.finalize r).slot m = channel.slot m := by
  unfold BrowserChannel.finalize
  split <;> rfl

theorem slot_shut (channel : BrowserChannel) (line : Line) (r : Nat) (m : Slot) :
    (channel.shut line r).slot m = channel.slot m := by
  cases line with
  | terminal => exact slot_close channel r m
  | desktop => exact slot_close channel r m
  | window => rfl

theorem slot_dispose (channel : BrowserChannel) (item : Taken) (m : Slot) :
    (channel.dispose item).slot m = channel.slot m := by
  cases item with
  | line line r => exact slot_shut channel line r m
  | upload r => exact slot_cleanup channel r m

theorem slot_emptied (channel : BrowserChannel) (m : Slot) : channel.emptied.slot m = ∅ := by
  cases m with
  | view view => cases view <;> rfl
  | upload => rfl

theorem edit_erase (channel : BrowserChannel) (line : Line) (id : String) :
    Edit channel (channel.setLines ((channel.lines line).erase id) line) := by
  cases line with
  | terminal => exact .kept fun m => rfl
  | desktop =>
    obtain ⟨here, rest⟩ := slot_setLines channel (channel.desktops.erase id) .desktop
    exact .removed here rest
  | window =>
    obtain ⟨here, rest⟩ := slot_setLines channel (channel.windows.erase id) .window
    exact .removed here rest

theorem edit_eraseUpload (channel : BrowserChannel) (id : String) :
    Edit channel { channel with uploads := channel.uploads.erase id } := by
  refine @Edit.removed _ _ .upload id rfl ?_
  intro n other
  cases n with
  | view v => cases v <;> rfl
  | upload => exact absurd rfl other

/-- The step of a handler edits the three maps as one section under the lock does. -/
theorem edit_move (channel : BrowserChannel) (reachable ok : Bool) (handler : Handler) :
    Edit channel (handler.move channel reachable ok).channel := by
  have same : Edit channel channel := .kept fun _ => rfl
  cases handler with
  | registerTerminal id r =>
    simp only [Handler.move]
    split
    next previous there =>
      have closed := slot_close channel previous
      exact .same (closed (.view .desktop)) (closed (.view .window)) (closed .upload)
    next => exact .same rfl rfl rfl
  | registerView view id r =>
    simp only [Handler.move]
    split
    next => exact same
    next free =>
      obtain ⟨here, rest⟩ := slot_setLines channel ((channel.lines view.line).insert id r) view
      rw [lines_view] at here rest
      refine @Edit.entered _ _ (.view view) id r (Bool.not_eq_true _ ▸ free) ?_ ?_
      · rw [Move.goto, lines_view]
        exact here
      · rw [Move.goto, lines_view]
        exact rest
  | announceView view id r =>
    simp only [Handler.move]
    cases view <;> dsimp only <;> split <;> exact same
  | remove line id r =>
    simp only [Handler.move]
    split
    next => exact edit_erase channel line id
    next => exact same
  | closeLine line id =>
    simp only [Handler.move]
    split
    next => exact edit_erase channel line id
    next => exact same
  | registerUpload id r =>
    simp only [Handler.move]
    split
    next => exact same
    next free =>
      refine @Edit.entered _ _ .upload id r (Bool.not_eq_true _ ▸ free) rfl ?_
      intro n other
      cases n with
      | view v => cases v <;> rfl
      | upload => exact absurd rfl other
  | writeChunk id r offset data =>
    simp only [Handler.move]
    split
    next =>
      split
      next => exact .kept fun m => slot_setUpload channel _ _ m
      next => exact same
    next => exact same
  | dropUpload id r =>
    simp only [Handler.move]
    split
    next => exact edit_eraseUpload channel id
    next => exact same
  | finishUpload id =>
    simp only [Handler.move]
    split
    next => exact edit_eraseUpload channel id
    next => exact same
  | cancelUpload id =>
    simp only [Handler.move]
    split
    next => exact edit_eraseUpload channel id
    next => exact same
  | syncFile r =>
    simp only [Handler.move]
    split
    next => split <;> exact same
    next => exact same
  | closeFile r =>
    simp only [Handler.move]
    split
    next => exact .kept fun m => slot_setUpload channel _ _ m
    next => exact same
  | reserve r =>
    simp only [Handler.move]
    split
    next => exact .kept fun m => slot_finalize channel r m
    next => exact same
  | release r => exact .kept fun m => slot_close channel r m
  | shut line r => exact .kept fun m => slot_shut channel line r m
  | cleanup r => exact .kept fun m => slot_cleanup channel r m
  | listWindows | announceTerminal | stream => exact same
  | httpRequest | dialTerminal | openView | acquireView | write | startUpload | createTemp | chunk =>
    simp only [Handler.move]
    split <;> exact .same rfl rfl rfl

theorem length_insert {table : Table} {id : String} {r : Nat} (h : table.lookup id = none) :
    (table.insert id r).entries.length = table.entries.length + 1 := by
  rw [AList.entries_insert_of_notMem (AList.lookup_eq_none.mp h), List.length_cons]

theorem length_erase_le (table : Table) (id : String) :
    (table.erase id).entries.length ≤ table.entries.length :=
  (List.kerase_sublist id table.entries).length_le

theorem lookup_of_empty {table : Table} (h : table.entries.length = 0) (id : String) :
    table.lookup id = none := by
  have empty : table = ∅ := AList.ext (List.length_eq_zero_iff.mp h)
  rw [empty, AList.lookup_empty]

/-- A map with room for an entry has none under its id. -/
theorem lookup_of_free {m : Slot} {id : String} (free : channel.full id m = false) :
    (channel.slot m).lookup id = none := by
  cases m with
  | view view =>
    simp only [BrowserChannel.full, BrowserChannel.viewing, ne_eq, Bool.or_eq_false_iff, decide_eq_false_iff_not,
      Decidable.not_not] at free
    cases view with
    | desktop => exact lookup_of_empty free.1 id
    | window => exact lookup_of_empty free.2 id
  | upload =>
    simp only [BrowserChannel.full, BrowserChannel.uploadsFull, Bool.or_eq_false_iff] at free
    exact Option.not_isSome_iff_eq_none.mp (by rw [BrowserChannel.slot, free.1]; exact Bool.false_ne_true)

theorem limited_edit (h : channel.Limited) (edit : Edit channel after) : after.Limited := by
  obtain ⟨views, uploads⟩ := h
  cases edit with
  | kept same =>
    have desktops : after.desktops = channel.desktops := same (.view .desktop)
    have windows : after.windows = channel.windows := same (.view .window)
    have files : after.uploads = channel.uploads := same .upload
    exact ⟨by rw [desktops, windows]; exact views, by rw [files]; exact uploads⟩
  | @entered m id r free here rest =>
    have absent := lookup_of_free free
    have grown := length_insert (r := r) absent
    rw [← here] at grown
    cases m with
    | view view =>
      have files : after.uploads = channel.uploads := rest .upload nofun
      simp only [BrowserChannel.full, BrowserChannel.viewing, ne_eq, Bool.or_eq_false_iff, decide_eq_false_iff_not,
        Decidable.not_not] at free
      obtain ⟨noDesktop, noWindow⟩ := free
      refine ⟨?_, by rw [files]; exact uploads⟩
      cases view with
      | desktop =>
        have windows : after.windows = channel.windows := rest (.view .window) nofun
        have one : after.desktops.entries.length = channel.desktops.entries.length + 1 := grown
        rw [windows]
        omega
      | window =>
        have desktops : after.desktops = channel.desktops := rest (.view .desktop) nofun
        have one : after.windows.entries.length = channel.windows.entries.length + 1 := grown
        rw [desktops]
        omega
    | upload =>
      have desktops : after.desktops = channel.desktops := rest (.view .desktop) nofun
      have windows : after.windows = channel.windows := rest (.view .window) nofun
      have one : after.uploads.entries.length = channel.uploads.entries.length + 1 := grown
      simp only [BrowserChannel.full, BrowserChannel.uploadsFull, Bool.or_eq_false_iff, decide_eq_false_iff_not] at free
      refine ⟨by rw [desktops, windows]; exact views, ?_⟩
      omega
  | @removed m id here rest =>
    have fewer := length_erase_le (channel.slot m) id
    rw [← here] at fewer
    cases m with
    | view view =>
      have files : after.uploads = channel.uploads := rest .upload nofun
      refine ⟨?_, by rw [files]; exact uploads⟩
      cases view with
      | desktop =>
        have windows : after.windows = channel.windows := rest (.view .window) nofun
        have less : after.desktops.entries.length ≤ channel.desktops.entries.length := fewer
        rw [windows]
        omega
      | window =>
        have desktops : after.desktops = channel.desktops := rest (.view .desktop) nofun
        have less : after.windows.entries.length ≤ channel.windows.entries.length := fewer
        rw [desktops]
        omega
    | upload =>
      have desktops : after.desktops = channel.desktops := rest (.view .desktop) nofun
      have windows : after.windows = channel.windows := rest (.view .window) nofun
      have less : after.uploads.entries.length ≤ channel.uploads.entries.length := fewer
      refine ⟨by rw [desktops, windows]; exact views, ?_⟩
      omega
  | emptied empty =>
    have desktops : after.desktops = ∅ := empty (.view .desktop)
    have windows : after.windows = ∅ := empty (.view .window)
    have files : after.uploads = ∅ := empty .upload
    constructor
    · rw [desktops, windows]
      exact Nat.zero_le 1
    · rw [files]
      exact Nat.zero_le 2

/-- No edit puts an entry in the place of another with the same id. -/
theorem edit_keeps_entry (edit : Edit channel after) {m : Slot} {id : String} {r q : Nat}
    (before : (channel.slot m).lookup id = some r) (now : (after.slot m).lookup id = some q) : q = r := by
  cases edit with
  | kept same =>
    rw [same, before] at now
    exact (Option.some.inj now).symm
  | @entered n key p free here rest =>
    by_cases hm : m = n
    · subst hm
      have absent := lookup_of_free free
      have apart : id ≠ key := by
        rintro rfl
        rw [absent] at before
        cases before
      rw [here, AList.lookup_insert_ne apart, before] at now
      exact (Option.some.inj now).symm
    · rw [rest m hm, before] at now
      exact (Option.some.inj now).symm
  | @removed n key here rest =>
    by_cases hm : m = n
    · subst hm
      by_cases hk : id = key
      · subst hk
        rw [here, AList.lookup_erase] at now
        cases now
      · rw [here, AList.lookup_erase_ne hk, before] at now
        exact (Option.some.inj now).symm
    · rw [rest m hm, before] at now
      exact (Option.some.inj now).symm
  | emptied empty =>
    rw [empty, AList.lookup_empty] at now
    cases now

end

/-- The entry a removal is for: `removeDesktop`, `removeWindow` and `removeFileUpload`. -/
def Handler.removes : Handler → Option (Slot × String × Nat)
  | .remove .desktop id r => some (.view .desktop, id, r)
  | .remove .window id r => some (.view .window, id, r)
  | .dropUpload id r => some (.upload, id, r)
  | _ => none

theorem lookup_erase_apart {table : Table} {id key : String} {r q : Nat} (mine : table.lookup id = some r)
    (other : table.lookup key = some q) (apart : q ≠ r) : (table.erase id).lookup key = some q := by
  have differ : key ≠ id := by
    rintro rfl
    rw [mine] at other
    exact apart (Option.some.inj other).symm
  rw [AList.lookup_erase_ne differ]
  exact other

/-- A removal leaves every entry but its own, under whichever id it stands. -/
theorem removal_keeps_others {channel : BrowserChannel} {reachable ok : Bool} {handler : Handler} {m : Slot}
    {id : String} {r : Nat} (removal : handler.removes = some (m, id, r)) {key : String} {q : Nat}
    (there : (channel.slot m).lookup key = some q) (apart : q ≠ r) :
    ((handler.move channel reachable ok).channel.slot m).lookup key = some q := by
  unfold Handler.removes at removal
  split at removal
  next =>
    cases removal
    simp only [Handler.move, Move.goto]
    split
    next mine => exact lookup_erase_apart mine there apart
    next => exact there
  next =>
    cases removal
    simp only [Handler.move, Move.goto]
    split
    next mine => exact lookup_erase_apart mine there apart
    next => exact there
  next =>
    cases removal
    simp only [Handler.move, Move.goto]
    split
    next mine => exact lookup_erase_apart mine there apart
    next => exact there
  next => cases removal

section

variable {decrypt : String → UInt32 → String → Option Bytes} {unmarshal : Unmarshal} {s t : State}

/-- The channels after a step, each beside what it was. -/
structure Edits (s t : State) : Prop where
  before : ∀ (c : Nat) (channel : BrowserChannel), s.channels[c]? = some channel →
    ∃ after, t.channels[c]? = some after ∧ Edit channel after
  new : ∀ (c : Nat) (after : BrowserChannel), s.channels.length ≤ c → t.channels[c]? = some after →
    ∃ id, after = .new id

theorem none_beyond (length : t.channels.length = s.channels.length) (c : Nat) (after : BrowserChannel)
    (beyond : s.channels.length ≤ c) (now : t.channels[c]? = some after) : ∃ id, after = .new id := by
  have inside := (List.getElem?_eq_some_iff.mp now).1
  omega

theorem edits_same (h : t.channels = s.channels) : Edits s t := by
  refine ⟨?_, none_beyond (congrArg List.length h)⟩
  intro c channel here
  exact ⟨channel, by rw [h]; exact here, .kept fun _ => rfl⟩

theorem edits_set {c : Nat} {channel after : BrowserChannel} (here : s.channels[c]? = some channel)
    (edit : Edit channel after) (h : t.channels = s.channels.set c after) : Edits s t := by
  refine ⟨?_, none_beyond (by rw [h, List.length_set])⟩
  intro d found there
  have inside := (List.getElem?_eq_some_iff.mp here).1
  by_cases same : d = c
  · subst same
    cases here.symm.trans there
    exact ⟨after, by rw [h, List.getElem?_set_self inside], edit⟩
  · exact ⟨found, by rw [h, List.getElem?_set_ne (Ne.symm same)]; exact there, .kept fun _ => rfl⟩

theorem edits_taskStep {k : Nat} {task : Task} {ok : Bool} {pc : Pc}
    (ht : taskStep decrypt unmarshal s k task ok pc = some t) : Edits s t := by
  cases pc with
  | replacing id c =>
    simp only [taskStep] at ht
    split at ht
    next => cases ht; exact edits_same rfl
    next => cases ht; exact edits_same rfl
  | inserting id c => cases ht; exact edits_same rfl
  | looking id packet =>
    simp only [taskStep] at ht
    split at ht
    next => cases ht; exact edits_same rfl
    next => cases ht; exact edits_same rfl
  | found id packet c =>
    obtain ⟨channel, _, rfl⟩ := Option.map_eq_some_iff.mp ht
    exact edits_same rfl
  | decrypting id packet c sequence =>
    simp only [taskStep] at ht
    split at ht
    next =>
      split at ht
      next => cases ht; exact edits_same rfl
      next => cases ht; exact edits_same rfl
    next => cases ht; exact edits_same rfl
  | decrypted id packet plaintext c sequence =>
    obtain ⟨channel, here, rfl⟩ := Option.map_eq_some_iff.mp ht
    split
    next => exact edits_same rfl
    next =>
      have edit : Edit channel { channel with receiveSeq := channel.receiveSeq + 1 } := .same rfl rfl rfl
      exact edits_set here edit rfl
  | accepted id plaintext c =>
    obtain ⟨channel, _, rfl⟩ := Option.map_eq_some_iff.mp ht
    split <;> exact edits_same rfl
  | login id c =>
    simp only [taskStep] at ht
    split at ht
    next => cases ht; exact edits_same rfl
    next => cases ht; exact edits_same rfl
  | granting id c =>
    obtain ⟨channel, here, rfl⟩ := Option.map_eq_some_iff.mp ht
    have edit : Edit channel { channel with authenticated := true } := .same rfl rfl rfl
    exact edits_set here edit rfl
  | closing id next =>
    simp only [taskStep] at ht
    split at ht
    next => cases ht; exact edits_same rfl
    next => cases ht; exact edits_same rfl
  | taking c next =>
    obtain ⟨channel, here, rfl⟩ := Option.map_eq_some_iff.mp ht
    exact edits_set here (.emptied (slot_emptied channel)) rfl
  | disposing c rest next =>
    cases rest with
    | nil => cases ht; exact edits_same rfl
    | cons item rest =>
      obtain ⟨channel, here, rfl⟩ := Option.map_eq_some_iff.mp ht
      exact edits_set here (.kept (slot_dispose channel item)) rfl
  | handling id c handler =>
    obtain ⟨channel, here, rfl⟩ := Option.map_eq_some_iff.mp ht
    exact edits_set here (edit_move channel _ ok handler) rfl
  | returned => cases ht

theorem edits_step {label : Label} (ht : step decrypt unmarshal s label = some t) : Edits s t := by
  have reading : ∀ {u : State} {pc : Pc}, u.channels = s.channels → u.startReader pc = some t → Edits s t := by
    intro u pc same started
    obtain ⟨_, rfl⟩ := startReader_eq started
    exact edits_same same
  cases label with
  | channelOpen id =>
    simp only [step] at ht
    split at ht
    next =>
      obtain ⟨_, rfl⟩ := startReader_eq ht
      constructor
      · intro c channel here
        have old : (s.channels ++ [BrowserChannel.new id])[c]? = some channel := by
          rw [List.getElem?_append_left (List.getElem?_eq_some_iff.mp here).1]
          exact here
        exact ⟨channel, old, .kept fun _ => rfl⟩
      · intro c after beyond now
        change (s.channels ++ [BrowserChannel.new id])[c]? = some after at now
        rw [List.getElem?_append_right beyond] at now
        obtain ⟨_, same⟩ := List.getElem?_eq_some_iff.mp now
        exact ⟨id, by rw [← same, List.getElem_singleton]⟩
    next => cases ht
  | fromBrowser id packet =>
    simp only [step] at ht
    split at ht
    next => exact reading rfl ht
    next => cases ht
  | channelClose id =>
    simp only [step] at ht
    split at ht
    next => exact reading rfl ht
    next => cases ht
  | authTimeout c =>
    simp only [step] at ht
    split at ht
    next =>
      split at ht
      next => cases ht
      next => cases ht; exact edits_same rfl
    next => cases ht
  | shutdown id => cases ht; exact edits_same rfl
  | run k ok =>
    simp only [step] at ht
    split at ht
    next => exact edits_taskStep ht
    next => cases ht

theorem edits_handling {k : Nat} {task : Task} {ok : Bool} {id : String} {c : Nat} {handler : Handler}
    {channel : BrowserChannel} (at_pc : s.tasks[k]? = some task) (pc : task.pc = .handling id c handler)
    (here : s.channels[c]? = some channel) (ht : step decrypt unmarshal s (.run k ok) = some t) :
    ∃ reachable, t.channels[c]? = some (handler.move channel reachable ok).channel := by
  simp only [step, at_pc] at ht
  rw [pc] at ht
  obtain ⟨found, there, rfl⟩ := Option.map_eq_some_iff.mp ht
  cases here.symm.trans there
  have inside := (List.getElem?_eq_some_iff.mp here).1
  exact ⟨_, List.getElem?_set_self inside⟩

def State.Limited (s : State) : Prop :=
  ∀ (c : Nat) (channel : BrowserChannel), s.channels[c]? = some channel →
  channel.Limited

theorem limited_step {label : Label} (h : s.Limited)
    (ht : step decrypt unmarshal s label = some t) : t.Limited := by
  obtain ⟨before, new⟩ := edits_step ht
  intro c after now
  by_cases inside : c < s.channels.length
  · have here : s.channels[c]? = some s.channels[c] := List.getElem?_eq_getElem inside
    obtain ⟨found, there, edit⟩ := before c _ here
    cases now.symm.trans there
    exact limited_edit (h c _ here) edit
  · obtain ⟨id, rfl⟩ := new c after (Nat.le_of_not_lt inside) now
    exact ⟨Nat.zero_le 1, Nat.zero_le 2⟩

/-- In every state the connector reaches, each channel has at most one view and at most two uploads; no step puts
an entry of the three maps in the place of another, and a removal takes no entry but its own. -/
theorem views_and_uploads_limited {labels : List Label}
    (run : exec (step decrypt unmarshal) State.initial labels = some s) :
    (∀ (c : Nat) (channel : BrowserChannel), s.channels[c]? = some channel →
      channel.desktops.entries.length + channel.windows.entries.length ≤ 1 ∧
        channel.uploads.entries.length ≤ 2) ∧
    (∀ label t, step decrypt unmarshal s label = some t → ∀ (c : Nat) (channel : BrowserChannel),
      s.channels[c]? = some channel → ∃ after, t.channels[c]? = some after ∧
        ∀ m id r q, (channel.slot m).lookup id = some r → (after.slot m).lookup id = some q → q = r) ∧
    ∀ k ok t (task : Task) id c handler m key r, step decrypt unmarshal s (.run k ok) = some t →
      s.tasks[k]? = some task → task.pc = .handling id c handler → handler.removes = some (m, key, r) →
      ∀ channel, s.channels[c]? = some channel → ∃ after, t.channels[c]? = some after ∧
        ∀ other q, (channel.slot m).lookup other = some q → q ≠ r → (after.slot m).lookup other = some q := by
  refine ⟨?_, ?_, ?_⟩
  · have preserve : ∀ s label t, s.Limited → step decrypt unmarshal s label = some t → t.Limited :=
      fun _ _ _ => limited_step
    have start : State.initial.Limited := nofun
    intro c channel here
    obtain ⟨views, uploads⟩ := exec_invariant preserve start run c channel here
    exact ⟨views, uploads⟩
  · intro label t ht c channel here
    obtain ⟨after, now, edit⟩ := (edits_step ht).before c channel here
    exact ⟨after, now, fun m id r q => edit_keeps_entry edit⟩
  · intro k ok t task id c handler m key r ht at_pc pc removal channel here
    obtain ⟨reachable, now⟩ := edits_handling at_pc pc here ht
    exact ⟨_, now, fun other q there apart => removal_keeps_others removal there apart⟩

end

def secondID : String := "89abcdef-0123-4567-89ab-cdef01234567"

def secondStartText : String :=
  "\x7b\"v\":1,\"type\":\"file_upload_start\",\"id\":\"89abcdef-0123-4567-89ab-cdef01234567\"," ++
    "\"name\":\"b.txt\",\"size\":5\x7d"

/-- The first upload expects offset 0. -/
def lateChunkText : String :=
  "\x7b\"v\":1,\"type\":\"file_upload_chunk\",\"id\":\"01234567-89ab-cdef-0123-456789abcdef\"," ++
    "\"offset\":3,\"data\":\"aGk\"\x7d"

/-- A window is streamed and two uploads have begun when a chunk comes that the first one does not expect: its goroutine
is about to drop the entry. -/
def crowdedRun : List Label :=
  sentAfterLogin windowOpenText ++ runs 3 4 ++ .fromBrowser browserID uploadStartText :: runs 4 8 ++
    .fromBrowser browserID secondStartText :: runs 5 8 ++ .fromBrowser browserID lateChunkText :: runs 6 7

/-- The goroutine is about to drop the entry of an upload. -/
def Task.drops (task : Task) (id : String) (r : Nat) : Bool :=
  match task.pc with
  | .handling _ c (.dropUpload id' r') => c = 0 && id' = id && r' = r
  | _ => false

theorem views_and_uploads_limited_streaming : ∃ s channel,
    exec (step plainPacket innerUnmarshal) State.initial crowdedRun = some s ∧ s.channels[0]? = some channel ∧
    channel.windows.entries.length = 1 ∧ channel.uploads.lookup secondID = some 2 ∧
    channel.desktops.entries.length + channel.windows.entries.length ≤ 1 ∧
    channel.uploads.entries.length ≤ 2 ∧
    ∀ t, step plainPacket innerUnmarshal s (.run 6 true) = some t → ∃ after, t.channels[0]? = some after ∧
      after.uploads.lookup secondID = some 2 ∧
      ∀ m id r q, (channel.slot m).lookup id = some r → (after.slot m).lookup id = some q → q = r := by
  have run : (exec (step plainPacket innerUnmarshal) State.initial crowdedRun).any (fun s =>
      (s.channels[0]?).any (fun channel => channel.windows.entries.length = 1 ∧
        channel.uploads.lookup secondID = some 2) ∧ (s.tasks[6]?).any fun task => task.drops browserID 1) = true := by
    decide +kernel
  obtain ⟨s, run, facts⟩ := (Option.any_eq_true _ _).mp run
  obtain ⟨found, dropping⟩ := of_decide_eq_true facts
  obtain ⟨channel, here, facts⟩ := (Option.any_eq_true _ _).mp found
  obtain ⟨streamed, second⟩ := of_decide_eq_true facts
  obtain ⟨task, there, drops⟩ := (Option.any_eq_true _ _).mp dropping
  obtain ⟨id, at_pc⟩ : ∃ id, task.pc = .handling id 0 (.dropUpload browserID 1) := by
    unfold Task.drops at drops
    split at drops
    next id c id' r' at_pc =>
      simp only [Bool.and_eq_true, decide_eq_true_eq] at drops
      obtain ⟨⟨rfl, rfl⟩, rfl⟩ := drops
      exact ⟨id, at_pc⟩
    next => cases drops
  obtain ⟨limits, kept, removal⟩ := views_and_uploads_limited run
  obtain ⟨views, uploads⟩ := limits 0 channel here
  refine ⟨s, channel, run, here, streamed, second, views, uploads, fun t ht => ?_⟩
  obtain ⟨after, now, same⟩ := kept _ t ht 0 channel here
  obtain ⟨after', now', others⟩ := removal 6 true t task id 0 _ .upload browserID 1 ht there at_pc rfl channel here
  cases now.symm.trans now'
  exact ⟨after, now, others secondID 2 second (by decide), same⟩

end TermLinks.Connector
