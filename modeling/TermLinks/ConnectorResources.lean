import TermLinks.Connector

namespace TermLinks.Connector

def Resource.isFile : Resource → Bool
  | .connection _ _ => false
  | .upload _ _ => true

/-- A connection, or with `file` a temporary file, that is still open. -/
def BrowserChannel.Open (channel : BrowserChannel) (file : Bool) (r : Nat) : Prop :=
  ∃ resource, channel.resources[r]? = some resource ∧ resource.released = false ∧ resource.isFile = file

/-- An upload that `closeChannel` will find. -/
def BrowserChannel.Stored (channel : BrowserChannel) (file : Bool) (r : Nat) : Prop :=
  file = true ∧ channel.taken = false ∧ ∃ id, channel.uploads.lookup id = some r

/-- The connection, or with `file` the temporary file, that the handler has still to end. -/
def Handler.keeps (file : Bool) : Handler → Option Nat
  | .registerTerminal _ r | .announceTerminal _ r | .registerView _ _ r | .announceView _ _ r | .stream _ _ r
  | .remove _ _ r | .release r => if file then none else some r
  | .registerUpload _ r | .dropUpload _ r | .cleanup r | .syncFile r | .closeFile r | .reserve r =>
    if file then some r else none
  | _ => none

def Move.Covers (move : Move) (file : Bool) (r : Nat) : Prop :=
  (∃ handler, move.next = some handler ∧ handler.keeps file = some r) ∨
    ∃ handler, move.spawn = some handler ∧ handler.keeps file = some r

/-- The `window_opened` send of a capture succeeds, and an upload is put into the map of a channel that is not
closed. -/
def Handler.careful (channel : BrowserChannel) (reachable ok : Bool) : Handler → Bool
  | .announceView .window _ _ => ok && reachable
  | .registerUpload id _ => channel.uploadsFull id || !channel.taken
  | _ => true

section

variable {channel : BrowserChannel} {file : Bool} {r q : Nat}

theorem open_of_resources {other : BrowserChannel} (same : other.resources = channel.resources)
    (h : other.Open file r) : channel.Open file r := by
  obtain ⟨resource, there, live, kind⟩ := h
  rw [same] at there
  exact ⟨resource, there, live, kind⟩

theorem open_setLines {table : Table} {line : Line} (h : (channel.setLines table line).Open file r) :
    channel.Open file r := by
  cases line <;> exact open_of_resources rfl h

theorem open_acquire {resource : Resource} (h : (channel.acquire resource).Open file r) :
    channel.Open file r ∨ r = channel.resources.length ∧ resource.isFile = file := by
  obtain ⟨found, there, live, kind⟩ := h
  rcases Nat.lt_trichotomy r channel.resources.length with inside | same | beyond
  · refine Or.inl ⟨found, ?_, live, kind⟩
    have old : (channel.resources ++ [resource])[r]? = channel.resources[r]? := List.getElem?_append_left inside
    exact old.symm.trans there
  · subst same
    have new : (channel.resources ++ [resource])[channel.resources.length]? = some resource := by simp
    have same : resource = found := Option.some.inj (new.symm.trans there)
    exact Or.inr ⟨rfl, same ▸ kind⟩
  · have outside : (channel.resources ++ [resource])[r]? = none := by
      rw [List.getElem?_eq_none_iff]
      simp only [List.length_append, List.length_singleton]
      omega
    cases outside.symm.trans there

/-- Setting a resource leaves no other one open, and this one only as it was. -/
theorem open_setResource {resource : Resource} {before : Resource} (here : channel.resources[q]? = some before)
    (h : (channel.setResource q resource).Open file r) :
    r ≠ q ∧ channel.Open file r ∨ r = q ∧ resource.released = false ∧ resource.isFile = file := by
  obtain ⟨found, there, live, kind⟩ := h
  have inside : q < channel.resources.length := (List.getElem?_eq_some_iff.mp here).1
  by_cases same : r = q
  · subst same
    have set : (channel.resources.set r resource)[r]? = some resource := List.getElem?_set_self inside
    have equal : resource = found := Option.some.inj (set.symm.trans there)
    exact Or.inr ⟨rfl, equal ▸ live, equal ▸ kind⟩
  · have old : (channel.resources.set q resource)[r]? = channel.resources[r]? :=
      List.getElem?_set_ne (Ne.symm same)
    exact Or.inl ⟨same, found, old.symm.trans there, live, kind⟩

theorem open_close (h : (channel.close q).Open file r) : channel.Open file r ∧ (file = false → r ≠ q) := by
  unfold BrowserChannel.close at h
  split at h
  next item closed here =>
    rcases open_setResource here h with ⟨other, old⟩ | ⟨_, live, _⟩
    · exact ⟨old, fun _ => other⟩
    · cases live
  next absent =>
    refine ⟨h, ?_⟩
    intro connection same
    subst same
    obtain ⟨resource, there, live, kind⟩ := h
    cases resource with
    | connection item closed => exact absent item closed there
    | upload upload fate =>
      rw [connection] at kind
      cases kind

/-- What `cleanup` and `finalize` have in common: the temporary file is gone. -/
theorem open_ended {upload : FileUpload} {fate : Option Fate} {after : FileUpload} {other : Fate}
    (here : channel.resources[q]? = some (.upload upload fate))
    (h : (channel.setResource q (.upload after (fate.or (some other)))).Open file r) :
    channel.Open file r ∧ r ≠ q := by
  rcases open_setResource here h with ⟨other, old⟩ | ⟨_, live, _⟩
  · exact ⟨old, other⟩
  · cases fate <;> cases live

theorem open_of_no_upload (absent : ∀ upload fate, channel.resources[q]? ≠ some (.upload upload fate))
    (h : channel.Open file r) : file = true → r ≠ q := by
  intro kind same
  subst same
  obtain ⟨resource, there, live, kind'⟩ := h
  cases resource with
  | connection item closed =>
    rw [kind] at kind'
    cases kind'
  | upload upload fate => exact absent upload fate there

theorem open_cleanup (h : (channel.cleanup q).Open file r) : channel.Open file r ∧ (file = true → r ≠ q) := by
  unfold BrowserChannel.cleanup at h
  split at h
  next upload fate here =>
    obtain ⟨old, other⟩ := open_ended here h
    exact ⟨old, fun _ => other⟩
  next absent => exact ⟨h, open_of_no_upload absent h⟩

theorem open_finalize (h : (channel.finalize q).Open file r) :
    channel.Open file r ∧ (file = true → r ≠ q) := by
  unfold BrowserChannel.finalize at h
  split at h
  next upload fate here =>
    obtain ⟨old, other⟩ := open_ended here h
    exact ⟨old, fun _ => other⟩
  next absent => exact ⟨h, open_of_no_upload absent h⟩

theorem open_setUpload {upload : FileUpload} (h : (channel.setUpload q upload).Open file r) :
    channel.Open file r := by
  unfold BrowserChannel.setUpload at h
  split at h
  next before fate here =>
    rcases open_setResource here h with ⟨_, old⟩ | ⟨same, live, kind⟩
    · exact old
    · subst same
      exact ⟨.upload before fate, here, live, kind⟩
  next => exact h

theorem open_shut {line : Line} (h : (channel.shut line q).Open file r) : channel.Open file r := by
  cases line with
  | terminal => exact (open_close h).1
  | desktop => exact (open_close h).1
  | window => exact h

theorem open_upload (h : channel.Open true r) : channel.upload r ≠ none := by
  obtain ⟨resource, there, _, kind⟩ := h
  unfold BrowserChannel.upload
  rw [there]
  cases resource with
  | connection item closed => cases kind
  | upload upload fate => exact nofun

/-- The parts of a channel that `Stored` looks at. -/
structure SameUploads (channel other : BrowserChannel) : Prop where
  uploads : other.uploads = channel.uploads
  taken : other.taken = channel.taken

theorem SameUploads.refl (channel : BrowserChannel) : SameUploads channel channel := ⟨rfl, rfl⟩

theorem sameUploads_setLines (channel : BrowserChannel) (table : Table) (line : Line) :
    SameUploads channel (channel.setLines table line) := by
  cases line <;> exact ⟨rfl, rfl⟩

theorem sameUploads_close (channel : BrowserChannel) (r : Nat) : SameUploads channel (channel.close r) := by
  unfold BrowserChannel.close
  split <;> exact ⟨rfl, rfl⟩

theorem sameUploads_cleanup (channel : BrowserChannel) (r : Nat) :
    SameUploads channel (channel.cleanup r) := by
  unfold BrowserChannel.cleanup
  split <;> exact ⟨rfl, rfl⟩

theorem sameUploads_finalize (channel : BrowserChannel) (r : Nat) :
    SameUploads channel (channel.finalize r) := by
  unfold BrowserChannel.finalize
  split <;> exact ⟨rfl, rfl⟩

theorem sameUploads_setUpload (channel : BrowserChannel) (r : Nat) (upload : FileUpload) :
    SameUploads channel (channel.setUpload r upload) := by
  unfold BrowserChannel.setUpload
  split <;> exact ⟨rfl, rfl⟩

theorem sameUploads_shut (channel : BrowserChannel) (line : Line) (r : Nat) :
    SameUploads channel (channel.shut line r) := by
  cases line with
  | terminal => exact sameUploads_close channel r
  | desktop => exact sameUploads_close channel r
  | window => exact SameUploads.refl channel

theorem SameUploads.stored {other : BrowserChannel} (h : SameUploads channel other)
    (stored : channel.Stored file r) :
    other.Stored file r := by
  obtain ⟨kind, open', there⟩ := stored
  exact ⟨kind, h.taken.trans open', by rw [h.uploads]; exact there⟩

/-- A resource open after a step of the handler was open before, and what the handler or the map had to end is still
theirs. -/
structure Handler.Kept (handler : Handler) (channel : BrowserChannel) (move : Move) (file : Bool)
    (r : Nat) : Prop where
  was : channel.Open file r
  kept : handler.keeps file = some r → move.Covers file r ∨ move.channel.Stored file r
  stored : channel.Stored file r → move.Covers file r ∨ move.channel.Stored file r

variable {handler : Handler} {move : Move}

theorem kept_of (was : channel.Open file r) (same : SameUploads channel move.channel)
    (kept : handler.keeps file = some r → move.Covers file r) : handler.Kept channel move file r :=
  ⟨was, fun keeps => Or.inl (kept keeps), fun stored => Or.inr (same.stored stored)⟩

/-- A step that leaves the channel alone, of a handler with nothing to end. -/
theorem kept_idle (same : move.channel = channel) (idle : handler.keeps file = none)
    (h : move.channel.Open file r) : handler.Kept channel move file r := by
  rw [same] at h
  refine kept_of h (same ▸ SameUploads.refl channel) ?_
  intro keeps
  cases idle.symm.trans keeps

/-- A handler that goes on with the resource it has. -/
theorem kept_next {next : Handler} (was : channel.Open file r) (same : SameUploads channel move.channel)
    (goes : move.next = some next) (keeps : next.keeps file = handler.keeps file) :
    handler.Kept channel move file r :=
  kept_of was same fun h => Or.inl ⟨next, goes, keeps.trans h⟩

/-- A handler that ends the resource it has. -/
theorem kept_ended (was : channel.Open file r) (same : SameUploads channel move.channel)
    (ended : handler.keeps file ≠ some r) : handler.Kept channel move file r :=
  kept_of was same fun keeps => absurd keeps ended

/-- Taking an upload out of the map hands it to the handler. -/
theorem kept_erased {id : String} {next : Handler} (there : channel.uploads.lookup id = some q)
    (was : channel.Open file r) (uploads : move.channel.uploads = channel.uploads.erase id)
    (taken : move.channel.taken = channel.taken) (goes : move.next = some next)
    (keeps : next.keeps true = some q)
    (kept : handler.keeps file = some r → next.keeps file = some r) : handler.Kept channel move file r := by
  refine ⟨was, fun mine => Or.inl (Or.inl ⟨next, goes, kept mine⟩), ?_⟩
  intro stored
  obtain ⟨kind, open', other, found⟩ := stored
  by_cases same : other = id
  · subst same
    have equal : r = q := Option.some.inj (found.symm.trans there)
    subst equal
    exact Or.inl (Or.inl ⟨next, goes, kind ▸ keeps⟩)
  · refine Or.inr ⟨kind, taken.trans open', other, ?_⟩
    rw [uploads, AList.lookup_erase_ne same]
    exact found

/-- Every connection and file a careful step leaves open is somebody's to end. -/
theorem kept_move {reachable ok : Bool} (careful : handler.careful channel reachable ok = true)
    (live : (handler.move channel reachable ok).channel.Open file r) :
    (handler.move channel reachable ok).Covers file r ∨
      handler.Kept channel (handler.move channel reachable ok) file r := by
  cases handler with
  | httpRequest method path =>
    refine Or.inr (kept_idle ?_ rfl live)
    simp only [Handler.move]
    split <;> rfl
  | listWindows => exact Or.inr (kept_idle rfl rfl live)
  | dialTerminal id =>
    simp only [Handler.move] at live ⊢
    split
    next dialed =>
      simp only [dialed, ↓reduceIte] at live
      rcases open_acquire live with old | ⟨new, kind⟩
      · exact Or.inr (kept_of old ⟨rfl, rfl⟩ (by rintro ⟨⟩))
      · subst new kind
        exact Or.inl (Or.inl ⟨_, rfl, rfl⟩)
    next failed =>
      simp only [failed] at live
      exact Or.inr (kept_idle rfl rfl live)
  | registerTerminal id q =>
    simp only [Handler.move] at live ⊢
    split
    next previous there =>
      simp only [there] at live
      have old := (open_close (open_of_resources rfl live)).1
      exact Or.inr (kept_next old ⟨(sameUploads_close channel previous).uploads,
        (sameUploads_close channel previous).taken⟩ rfl rfl)
    next absent =>
      simp only [absent] at live
      exact Or.inr (kept_next (open_of_resources rfl live) ⟨rfl, rfl⟩ rfl rfl)
  | announceTerminal id q =>
    refine Or.inr (kept_of live (SameUploads.refl channel) ?_)
    exact fun keeps => Or.inr ⟨_, rfl, keeps⟩
  | openView view id =>
    refine Or.inr (kept_idle ?_ rfl live)
    simp only [Handler.move]
    split <;> rfl
  | acquireView view id =>
    simp only [Handler.move] at live ⊢
    split
    next acquired =>
      simp only [acquired, ↓reduceIte] at live
      rcases open_acquire live with old | ⟨new, kind⟩
      · exact Or.inr (kept_of old ⟨rfl, rfl⟩ (by rintro ⟨⟩))
      · subst new kind
        exact Or.inl (Or.inl ⟨_, rfl, rfl⟩)
    next failed =>
      simp only [failed] at live
      exact Or.inr (kept_idle rfl rfl live)
  | registerView view id q =>
    simp only [Handler.move] at live ⊢
    split
    next viewing =>
      simp only [viewing, ↓reduceIte] at live
      exact Or.inr (kept_next live (SameUploads.refl channel) rfl rfl)
    next free =>
      simp only [free] at live
      exact Or.inr (kept_next (open_setLines live) (sameUploads_setLines channel _ _) rfl rfl)
  | announceView view id q =>
    cases view with
    | desktop =>
      simp only [Handler.move] at live ⊢
      split
      next sent =>
        simp only [sent, ↓reduceIte] at live
        refine Or.inr (kept_of live (SameUploads.refl channel) ?_)
        exact fun keeps => Or.inr ⟨_, rfl, keeps⟩
      next failed =>
        simp only [failed] at live
        exact Or.inr (kept_next live (SameUploads.refl channel) rfl rfl)
    | window =>
      have sent : (ok && reachable) = true := careful
      simp only [Handler.move] at live ⊢
      simp only [sent, ↓reduceIte] at live ⊢
      exact Or.inr (kept_next live (SameUploads.refl channel) rfl rfl)
  | stream line id q => exact Or.inr (kept_next live (SameUploads.refl channel) rfl rfl)
  | remove line id q =>
    simp only [Handler.move] at live ⊢
    split
    next mine =>
      simp only [mine, ↓reduceIte] at live
      exact Or.inr (kept_next (open_setLines live) (sameUploads_setLines channel _ _) rfl rfl)
    next gone =>
      simp only [gone, ↓reduceIte] at live
      exact Or.inr (kept_next live (SameUploads.refl channel) rfl rfl)
  | release q =>
    obtain ⟨old, other⟩ := open_close live
    refine Or.inr (kept_ended old (sameUploads_close channel q) ?_)
    intro keeps
    cases file with
    | false => exact other rfl (Option.some.inj keeps).symm
    | true => cases keeps
  | write line id fits =>
    refine Or.inr (kept_idle ?_ rfl live)
    simp only [Handler.move]
    split <;> rfl
  | closeLine line id =>
    simp only [Handler.move] at live ⊢
    split
    next q there =>
      simp only [there] at live
      exact Or.inr (kept_of (open_setLines live) (sameUploads_setLines channel _ _) (by rintro ⟨⟩))
    next absent =>
      simp only [absent] at live
      exact Or.inr (kept_idle rfl rfl live)
  | shut line q => exact Or.inr (kept_of (open_shut live) (sameUploads_shut channel line q) (by rintro ⟨⟩))
  | startUpload id name size =>
    refine Or.inr (kept_idle ?_ rfl live)
    simp only [Handler.move]
    split <;> rfl
  | createTemp id name size =>
    simp only [Handler.move] at live ⊢
    split
    next created =>
      simp only [created, ↓reduceIte] at live
      rcases open_acquire live with old | ⟨new, kind⟩
      · exact Or.inr (kept_of old ⟨rfl, rfl⟩ (by rintro ⟨⟩))
      · subst new kind
        exact Or.inl (Or.inl ⟨_, rfl, rfl⟩)
    next failed =>
      simp only [failed] at live
      exact Or.inr (kept_idle rfl rfl live)
  | registerUpload id q =>
    simp only [Handler.move] at live ⊢
    split
    next full =>
      simp only [full, ↓reduceIte] at live
      exact Or.inr (kept_next live (SameUploads.refl channel) rfl rfl)
    next room =>
      simp only [room] at live
      have room : channel.uploadsFull id = false := by simpa using room
      have fresh : channel.uploads.lookup id = none := by
        simp only [BrowserChannel.uploadsFull, Bool.or_eq_false_iff, Option.isSome_eq_false_iff,
          Option.isNone_iff_eq_none] at room
        exact room.1
      refine Or.inr ⟨open_of_resources rfl live, ?_, ?_⟩
      · intro keeps
        cases file with
        | false => cases keeps
        | true =>
          have closed : channel.taken = false := by
            have careful : (channel.uploadsFull id || !channel.taken) = true := careful
            simpa [room] using careful
          exact Or.inr ⟨rfl, closed, id, by rw [← Option.some.inj keeps]; exact AList.lookup_insert _⟩
      · intro stored
        obtain ⟨kind, open', other, found⟩ := stored
        refine Or.inr ⟨kind, open', other, ?_⟩
        have apart : other ≠ id := by
          intro same
          rw [same, fresh] at found
          cases found
        exact (AList.lookup_insert_ne apart).trans found
  | chunk id offset data =>
    refine Or.inr (kept_idle ?_ rfl live)
    simp only [Handler.move]
    split <;> rfl
  | writeChunk id q offset data =>
    simp only [Handler.move] at live ⊢
    split
    next upload data there =>
      simp only [there] at live
      split
      next written =>
        simp only [written, ↓reduceIte] at live
        exact Or.inr (kept_of (open_setUpload live) (sameUploads_setUpload channel _ _) (by rintro ⟨⟩))
      next refused =>
        simp only [refused] at live
        exact Or.inr (kept_idle rfl rfl live)
    next absent =>
      refine Or.inr (kept_idle rfl rfl ?_)
      split at live
      next upload data there => exact absurd rfl (absent upload data there)
      next => exact live
  | dropUpload id q =>
    simp only [Handler.move] at live ⊢
    split
    next mine =>
      simp only [mine, ↓reduceIte] at live
      exact Or.inr (kept_erased mine (open_of_resources rfl live) rfl rfl rfl rfl fun keeps => keeps)
    next gone =>
      simp only [gone, ↓reduceIte] at live
      exact Or.inr (kept_next live (SameUploads.refl channel) rfl rfl)
  | cleanup q =>
    obtain ⟨old, other⟩ := open_cleanup live
    refine Or.inr (kept_ended old (sameUploads_cleanup channel q) ?_)
    intro keeps
    cases file with
    | false => cases keeps
    | true => exact other rfl (Option.some.inj keeps).symm
  | finishUpload id =>
    simp only [Handler.move] at live ⊢
    split
    next q there =>
      simp only [there] at live
      exact Or.inr (kept_erased there (open_of_resources rfl live) rfl rfl rfl rfl (by rintro ⟨⟩))
    next absent =>
      simp only [absent] at live
      exact Or.inr (kept_idle rfl rfl live)
  | syncFile q =>
    simp only [Handler.move] at live ⊢
    split
    next upload there =>
      simp only [there] at live
      split
      next bad =>
        simp only [bad, ↓reduceIte] at live
        exact Or.inr (kept_next live (SameUploads.refl channel) rfl rfl)
      next good =>
        simp only [good] at live
        exact Or.inr (kept_next live (SameUploads.refl channel) rfl rfl)
    next absent =>
      simp only [absent] at live
      refine Or.inr (kept_ended live (SameUploads.refl channel) ?_)
      intro keeps
      cases file with
      | false => cases keeps
      | true => exact open_upload live (Option.some.inj keeps ▸ absent)
  | closeFile q =>
    simp only [Handler.move] at live ⊢
    split
    next upload there =>
      simp only [there] at live
      have old := open_setUpload live
      refine Or.inr ⟨old, ?_, fun stored => Or.inr ((sameUploads_setUpload channel _ _).stored stored)⟩
      intro keeps
      refine Or.inl (Or.inl ⟨_, rfl, ?_⟩)
      split <;> exact keeps
    next absent =>
      simp only [absent] at live
      refine Or.inr (kept_ended live (SameUploads.refl channel) ?_)
      intro keeps
      cases file with
      | false => cases keeps
      | true => exact open_upload live (Option.some.inj keeps ▸ absent)
  | reserve q =>
    simp only [Handler.move] at live ⊢
    split
    next reserved =>
      simp only [reserved, ↓reduceIte] at live
      obtain ⟨old, other⟩ := open_finalize live
      refine Or.inr (kept_ended old (sameUploads_finalize channel q) ?_)
      intro keeps
      cases file with
      | false => cases keeps
      | true => exact other rfl (Option.some.inj keeps).symm
    next failed =>
      simp only [failed] at live
      exact Or.inr (kept_next live (SameUploads.refl channel) rfl rfl)
  | cancelUpload id =>
    simp only [Handler.move] at live ⊢
    split
    next q there =>
      simp only [there] at live
      exact Or.inr (kept_erased there (open_of_resources rfl live) rfl rfl rfl rfl (by rintro ⟨⟩))
    next absent =>
      simp only [absent] at live
      exact Or.inr (kept_idle rfl rfl live)

end

end TermLinks.Connector
