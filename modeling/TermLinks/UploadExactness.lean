import TermLinks.Uploads

namespace TermLinks.Uploads

open Connector (Handler validUploadName maxUploadSize maxUploadChunk reserveUploadPath)
open FilePath (clean)

theorem consecutive_append {start : Int} {chunks : List (Int × Bytes)} {offset : Int} {data : Bytes}
    (h : Consecutive start chunks) (next : offset = start + (joined chunks).length) :
    Consecutive start (chunks ++ [(offset, data)]) := by
  induction chunks generalizing start with
  | nil =>
    refine ⟨?_, trivial⟩
    rw [next]
    exact Int.add_zero start
  | cons chunk chunks ih =>
    obtain ⟨here, rest⟩ := h
    refine ⟨here, ih rest ?_⟩
    rw [next, joined, List.map_cons, List.flatten_cons, List.length_append, joined]
    omega

theorem joined_append (chunks : List (Int × Bytes)) (offset : Int) (data : Bytes) :
    joined (chunks ++ [(offset, data)]) = joined chunks ++ data := by
  simp [joined]

/-- The temporary file of an upload is gone; other files and names are as they were. -/
structure Lost (files : Files) (upload : FileUpload) (after : Files) : Prop where
  length : after.data.length = files.data.length
  data : ∀ file, file ≠ upload.file → after.data[file]? = files.data[file]?
  gone : after.find upload.tempPath = none
  others : ∀ p, clean p ≠ clean upload.tempPath → after.find p = files.find p

/-- What handling a message does, with its entry. -/
inductive Act (s : State) : State → Option Entry → Prop
  | nothing : Act s s none
  | began {id name temp : String} {size : Int} {files : Files} (made : s.files.create temp = some files)
      (named : temp ≠ "") (valid : validUploadName name = true) (free : s.uploads.lookup id = none) :
      Act s { s with files, uploads := s.uploads.insert id ⟨s.files.data.length, temp, name, size, 0, false⟩ }
        (some (.began s.files.data.length size))
  | took {id : String} {upload : FileUpload} {data : Bytes} (here : s.uploads.lookup id = some upload) :
      Act s
        { s with
          files := s.files.append upload.file data
          uploads := s.uploads.insert id { upload with received := upload.received + data.length } }
        (some (.accepted upload.file upload.received data))
  | dropped {id : String} {upload : FileUpload} {files : Files} (here : s.uploads.lookup id = some upload)
      (lost : Lost s.files upload files) : Act s { s with files, uploads := s.uploads.erase id } none
  | completed {id path : String} {upload : FileUpload} {files : Files} (here : s.uploads.lookup id = some upload)
      (whole : upload.received = upload.size) (data : files.data = s.files.data) (free : s.files.find path = none)
      (linked : files.find path = s.files.find upload.tempPath) (gone : files.find upload.tempPath = none)
      (others : ∀ p, clean p ≠ clean upload.tempPath → clean p ≠ clean path → files.find p = s.files.find p) :
      Act s { s with files, uploads := s.uploads.erase id } (some (.completed upload.file path))

/-- The uploads of a state have a name that passed the check and a temporary file. -/
def State.Named (s : State) : Prop := ∀ id upload, s.uploads.lookup id = some upload →
  validUploadName upload.name = true ∧ upload.tempPath ≠ ""

section

variable {s : State}

theorem lost_remove {files : Files} {upload : FileUpload} {after : Files}
    (length : after.data.length = files.data.length)
    (data : ∀ file, file ≠ upload.file → after.data[file]? = files.data[file]?)
    (others : ∀ p, clean p ≠ clean upload.tempPath → after.find p = files.find p) :
    Lost files upload (after.remove upload.tempPath) :=
  ⟨length, data, Files.find_remove after upload.tempPath,
    fun p apart => (Files.find_remove_other apart).trans (others p apart)⟩

theorem cleanup_eq {upload : FileUpload} (named : upload.tempPath ≠ "") (s : State) :
    s.cleanupFileUpload upload = { s with files := s.files.remove upload.tempPath } := by
  rw [State.cleanupFileUpload, if_pos named]

theorem act_dropped {id : String} {upload : FileUpload} {files : Files} (named : upload.tempPath ≠ "")
    (here : s.uploads.lookup id = some upload) (length : files.data.length = s.files.data.length)
    (data : ∀ file, file ≠ upload.file → files.data[file]? = s.files.data[file]?)
    (others : ∀ p, clean p ≠ clean upload.tempPath → files.find p = s.files.find p) :
    Act s (({ s with files, uploads := s.uploads.erase id } : State).cleanupFileUpload upload) none := by
  rw [cleanup_eq named]
  exact .dropped here (lost_remove length data others)

theorem tempPath_ne (directory random : String) : tempPath directory random ≠ "" := by
  intro same
  have length := congrArg (fun text : String => text.toList.length) same
  have pattern : ".termlinks-upload-".toList.length = 18 := by decide
  simp only [tempPath, String.toList_append, List.length_append, pattern] at length
  have blank : "".toList.length = 0 := rfl
  omega

theorem act_start (io : Io) (id name : String) (size : Int) :
    Act s (s.startFileUpload io id name size).1
      (s.entry (.startUpload id name size) (some (s.startFileUpload io id name size).2)) := by
  unfold State.startFileUpload
  split
  next => exact .nothing
  next checked =>
    split
    next => exact .nothing
    next =>
      split
      next => exact .nothing
      next room =>
        split
        next => exact .nothing
        next =>
          split
          next => exact .nothing
          next files made =>
            have made : s.files.create (tempPath s.directory io.random) = some files := by
              split at made
              next => exact made
              next => cases made
            have again : ¬({ s with files } : State).full id = true := room
            rw [if_neg again]
            have valid : validUploadName name = true := by
              simp only [Bool.or_eq_true, Bool.not_eq_true', decide_eq_true_eq, not_or, Bool.not_eq_false] at checked
              exact checked.1.1
            have free : s.uploads.lookup id = none := by
              simp only [State.full, Bool.or_eq_true, not_or] at room
              exact Option.not_isSome_iff_eq_none.mp room.1
            exact .began made (tempPath_ne _ _) valid free

theorem act_reject {id : String} {upload : FileUpload} {files : Files} (named : upload.tempPath ≠ "")
    (here : s.uploads.lookup id = some upload) (length : files.data.length = s.files.data.length)
    (data : ∀ file, file ≠ upload.file → files.data[file]? = s.files.data[file]?)
    (same : ∀ p, files.find p = s.files.find p) :
    Act s (({ s with files } : State).rejectChunk id upload).1 none :=
  act_dropped named here length data fun p _ => same p

theorem act_write (named : s.Named) (io : Io) (id : String) (offset : Int) (data : Option Bytes) :
    Act s (s.writeFileUpload io id offset data).1
      (s.entry (.chunk id offset data) (some (s.writeFileUpload io id offset data).2)) := by
  unfold State.writeFileUpload
  split
  next =>
    cases data <;> exact .nothing
  next upload here =>
    have temp := (named id upload here).2
    cases data with
    | none => exact @act_reject _ _ _ s.files temp here rfl (fun _ _ => rfl) fun _ => rfl
    | some data =>
      dsimp only
      split
      next => exact @act_reject _ _ _ s.files temp here rfl (fun _ _ => rfl) fun _ => rfl
      next admitted =>
        split
        next written _ =>
          refine @act_reject _ _ _ (s.files.append upload.file (data.take written)) temp here
            (Files.length_append _ _ _) ?_ fun _ => rfl
          exact fun file apart => Files.data_append_other apart
        next =>
          have at_end : offset = upload.received := by
            simp only [Bool.or_eq_true, decide_eq_true_eq, not_or, ne_eq, Decidable.not_not] at admitted
            exact admitted.1.2
          subst at_end
          simp only [State.entry, here, Option.map_some]
          exact .took here

theorem act_conclude {id : String} {upload : FileUpload} (temp : upload.tempPath ≠ "")
    (here : s.uploads.lookup id = some upload) (whole : upload.received = upload.size)
    {outcome : Files × Except Connector.ReserveError String} {rounds : Nat}
    (reserved : Connector.Reserved s.files upload.tempPath s.directory upload.name 0 rounds outcome) :
    Act s (({ s with uploads := s.uploads.erase id } : State).concludeUpload id upload outcome).1
      (s.entry (.finishUpload id)
        (some (({ s with uploads := s.uploads.erase id } : State).concludeUpload id upload outcome).2)) := by
  obtain ⟨data, done, failed⟩ := reserved
  obtain ⟨files, result⟩ := outcome
  change files.data = s.files.data at data
  cases result with
  | error error =>
    refine act_dropped temp here (congrArg List.length data) (fun file _ => by rw [data]) ?_
    exact fun p apart => failed error rfl p apart
  | ok path =>
    obtain ⟨k, _, _, _, _, free, _, _, linked, gone, others⟩ := done path rfl
    simp only [State.entry, State.concludeUpload, here, Option.map_some]
    exact .completed here whole data free linked gone others

theorem act_finish (named : s.Named) (io : Io) (id : String) :
    Act s (s.finishFileUpload io id).1 (s.entry (.finishUpload id) (some (s.finishFileUpload io id).2)) := by
  unfold State.finishFileUpload
  split
  next => exact .nothing
  next upload here =>
    obtain ⟨valid, temp⟩ := named id upload here
    dsimp only
    have kept : Act s (({ s with uploads := s.uploads.erase id } : State).cleanupFileUpload upload) none :=
      @act_dropped _ _ _ s.files temp here rfl (fun _ _ => rfl) fun _ _ => rfl
    split
    next => exact kept
    next whole =>
      split
      next => exact kept
      next =>
        have whole : upload.received = upload.size := by
          simp only [Bool.or_eq_true, decide_eq_true_eq, not_or, ne_eq, Decidable.not_not] at whole
          exact whole.2
        exact act_conclude temp here whole
          (Connector.reserved_upload (Connector.isEntry_of_valid valid) rfl s.files upload.tempPath s.directory)

theorem act_cancel (named : s.Named) (id : String) : Act s (s.cancelFileUpload id) none := by
  unfold State.cancelFileUpload
  split
  next => exact .nothing
  next upload here =>
    exact @act_dropped _ _ _ s.files (named id upload here).2 here rfl (fun _ _ => rfl) fun _ _ => rfl

/-- Every message acts on the state in one of five ways. -/
theorem act_handle (named : s.Named) (io : Io) (message : Handler) :
    Act s (s.handle io message).1 (s.entry message (s.handle io message).2) := by
  cases message with
  | startUpload id name size => exact act_start io id name size
  | chunk id offset data => exact act_write named io id offset data
  | finishUpload id => exact act_finish named io id
  | cancelUpload id => exact act_cancel named id
  | _ => exact .nothing

end

/-- An upload in the map: its temporary file has no other name and holds what was accepted for it. -/
structure Active (j : Journal) (upload : FileUpload) : Prop where
  declared : (upload.file, upload.size) ∈ j.begun
  valid : validUploadName upload.name = true
  named : upload.tempPath ≠ ""
  temp : j.state.files.find upload.tempPath = some upload.file
  only : ∀ p, j.state.files.find p = some upload.file → clean p = clean upload.tempPath
  order : Consecutive 0 (j.chunksOf upload.file)
  count : upload.received = (joined (j.chunksOf upload.file)).length
  content : j.state.files.data[upload.file]? = some (joined (j.chunksOf upload.file))
  unfinished : ∀ path, (upload.file, path) ∉ j.completed

/-- A completed upload: the file has its final name only and holds what was accepted for it. -/
structure Finished (j : Journal) (file : Nat) (path : String) : Prop where
  whole : ∃ size, (file, size) ∈ j.begun ∧ (joined (j.chunksOf file)).length = size
  order : Consecutive 0 (j.chunksOf file)
  found : j.state.files.find path = some file
  only : ∀ p, j.state.files.find p = some file → clean p = clean path
  content : j.state.files.data[file]? = some (joined (j.chunksOf file))

structure Sound (j : Journal) : Prop where
  below : ∀ file size, (file, size) ∈ j.begun → file < j.state.files.data.length
  declared : ∀ file size size', (file, size) ∈ j.begun → (file, size') ∈ j.begun → size = size'
  strewn : ∀ chunk ∈ j.accepted, chunk.1 < j.state.files.data.length
  active : ∀ id upload, j.state.uploads.lookup id = some upload → Active j upload
  apart : ∀ id id' upload upload', j.state.uploads.lookup id = some upload →
    j.state.uploads.lookup id' = some upload' → upload.file = upload'.file → id = id'
  finished : ∀ file path, (file, path) ∈ j.completed → Finished j file path
  settled : ∀ file size, (file, size) ∈ j.begun →
    (∃ id upload, j.state.uploads.lookup id = some upload ∧ upload.file = file) ∨
      (∃ path, (file, path) ∈ j.completed) ∨ ∀ p, j.state.files.find p ≠ some file

/-- What a step leaves alone about a file. -/
structure Untouched (j j' : Journal) (file : Nat) : Prop where
  begun : ∀ size, (file, size) ∈ j.begun → (file, size) ∈ j'.begun
  chunks : j'.chunksOf file = j.chunksOf file
  names : ∀ p, j'.state.files.find p = some file ↔ j.state.files.find p = some file
  data : j'.state.files.data[file]? = j.state.files.data[file]?
  completed : ∀ path, (file, path) ∈ j'.completed → (file, path) ∈ j.completed

section

variable {j j' : Journal}

theorem Active.frame {upload : FileUpload} (h : Active j upload) (same : Untouched j j' upload.file) :
    Active j' upload := by
  obtain ⟨begun, chunks, names, data, completed⟩ := same
  refine ⟨begun _ h.declared, h.valid, h.named, (names _).mpr h.temp, ?_, ?_, ?_, ?_, ?_⟩
  · exact fun p there => h.only p ((names p).mp there)
  · rw [chunks]
    exact h.order
  · rw [chunks]
    exact h.count
  · rw [data, chunks]
    exact h.content
  · exact fun path done => h.unfinished path (completed path done)

theorem Finished.frame {file : Nat} {path : String} (h : Finished j file path) (same : Untouched j j' file) :
    Finished j' file path := by
  obtain ⟨begun, chunks, names, data, _⟩ := same
  obtain ⟨size, declared, length⟩ := h.whole
  refine ⟨⟨size, begun size declared, ?_⟩, ?_, (names path).mpr h.found, ?_, ?_⟩
  · rw [chunks]
    exact length
  · rw [chunks]
    exact h.order
  · exact fun p there => h.only p ((names p).mp there)
  · rw [data, chunks]
    exact h.content

theorem chunksOf_other {file other : Nat} {offset : Int} {data : Bytes} (apart : other ≠ file)
    (grown : j'.accepted = j.accepted ++ [(file, offset, data)]) : j'.chunksOf other = j.chunksOf other := by
  simp [Journal.chunksOf, grown, List.filter_append, Ne.symm apart]

theorem chunksOf_same {file : Nat} {offset : Int} {data : Bytes}
    (grown : j'.accepted = j.accepted ++ [(file, offset, data)]) :
    j'.chunksOf file = j.chunksOf file ++ [(offset, data)] := by
  simp [Journal.chunksOf, grown, List.filter_append]

theorem chunksOf_new (h : Sound j) : j.chunksOf j.state.files.data.length = [] := by
  unfold Journal.chunksOf
  rw [List.map_eq_nil_iff, List.filter_eq_nil_iff]
  intro chunk member
  have below := h.strewn chunk member
  simp only [decide_eq_true_eq]
  omega

theorem sound_named (h : Sound j) : j.state.Named :=
  fun id upload here => ⟨(h.active id upload here).valid, (h.active id upload here).named⟩

/-- A file that has begun is settled as before, when its upload stays in the map. -/
theorem settled_frame {file : Nat}
    (h : (∃ id upload, j.state.uploads.lookup id = some upload ∧ upload.file = file) ∨
      (∃ path, (file, path) ∈ j.completed) ∨ ∀ p, j.state.files.find p ≠ some file)
    (uploads : ∀ id upload, j.state.uploads.lookup id = some upload → upload.file = file →
      ∃ id upload, j'.state.uploads.lookup id = some upload ∧ upload.file = file)
    (completed : ∀ path, (file, path) ∈ j.completed → (file, path) ∈ j'.completed)
    (names : ∀ p, j'.state.files.find p = some file ↔ j.state.files.find p = some file) :
    (∃ id upload, j'.state.uploads.lookup id = some upload ∧ upload.file = file) ∨
      (∃ path, (file, path) ∈ j'.completed) ∨ ∀ p, j'.state.files.find p ≠ some file := by
  rcases h with ⟨id, upload, here, mine⟩ | ⟨path, done⟩ | gone
  · exact Or.inl (uploads id upload here mine)
  · exact Or.inr (Or.inl ⟨path, completed path done⟩)
  · exact Or.inr (Or.inr fun p there => gone p ((names p).mp there))

theorem sound_began (h : Sound j) {id name temp : String} {size : Int} {files : Files} {answers : List Response}
    (made : j.state.files.create temp = some files) (named : temp ≠ "") (valid : validUploadName name = true)
    (free : j.state.uploads.lookup id = none) :
    Sound { j with
      state := { j.state with
        files
        uploads := j.state.uploads.insert id ⟨j.state.files.data.length, temp, name, size, 0, false⟩ }
      answers
      begun := j.begun ++ [(j.state.files.data.length, size)] } := by
  obtain ⟨unused, data, there, others⟩ := Files.create_eq made
  have longer : files.data.length = j.state.files.data.length + 1 := by rw [data, List.length_append]; rfl
  have new := chunksOf_new h
  generalize hn : j.state.files.data.length = n at there longer new
  have names : ∀ file, file < n → ∀ p, files.find p = some file ↔ j.state.files.find p = some file := by
    intro file bound p
    by_cases same : clean p = clean temp
    · rw [Files.find_same same, Files.find_same same, there, unused]
      simp only [Option.some.injEq, reduceCtorEq, iff_false]
      omega
    · rw [others p same]
  have kept : ∀ file, file < n → files.data[file]? = j.state.files.data[file]? := by
    intro file bound
    rw [data, List.getElem?_append_left (by omega)]
  have untouched : ∀ file, file < n → Untouched j
      { j with
        state := { j.state with files, uploads := j.state.uploads.insert id ⟨n, temp, name, size, 0, false⟩ }
        answers
        begun := j.begun ++ [(n, size)] } file := fun file bound =>
    ⟨fun size => List.mem_append_left _, rfl, names file bound, kept file bound, fun _ done => done⟩
  have old : ∀ file size, (file, size) ∈ j.begun → file < n := fun file size begun => hn ▸ h.below file size begun
  constructor
  case below =>
    intro file size' begun
    change file < files.data.length
    rcases List.mem_append.mp begun with begun | begun
    · have bound := old file size' begun
      omega
    · cases List.mem_singleton.mp begun
      omega
  case declared =>
    intro file size' size'' begun begun'
    rcases List.mem_append.mp begun with begun | begun
    · have bound := old file size' begun
      rcases List.mem_append.mp begun' with begun' | begun'
      · exact h.declared file size' size'' begun begun'
      · cases List.mem_singleton.mp begun'
        omega
    · cases List.mem_singleton.mp begun
      rcases List.mem_append.mp begun' with begun' | begun'
      · have bound := old n size'' begun'
        omega
      · cases List.mem_singleton.mp begun'
        rfl
  case strewn =>
    intro chunk member
    have bound := h.strewn chunk member
    change chunk.1 < files.data.length
    omega
  case active =>
    intro id' upload here
    by_cases same : id' = id
    · subst same
      have made : (⟨n, temp, name, size, 0, false⟩ : FileUpload) = upload := by simpa using here
      subst made
      refine ⟨List.mem_append_right _ (List.mem_singleton.mpr rfl), valid, named, there, ?_, ?_, ?_, ?_, ?_⟩
      · intro p found
        by_contra apart
        have found : j.state.files.find p = some n := (others p apart).symm.trans found
        have bound := Files.find_stored found
        omega
      · exact new ▸ trivial
      · exact (congrArg (fun chunks => ((joined chunks).length : Int)) new).symm
      · have last : files.data[n]? = some [] := by
          rw [data, List.getElem?_append_right (by omega), hn, Nat.sub_self]
          rfl
        exact last.trans (congrArg (fun chunks => some (joined chunks)) new).symm
      · intro path done
        obtain ⟨size', begun, _⟩ := (h.finished n path done).whole
        have bound := old n size' begun
        omega
    · have here : j.state.uploads.lookup id' = some upload := (AList.lookup_insert_ne same).symm.trans here
      have before := h.active id' upload here
      exact before.frame (untouched upload.file (old _ _ before.declared))
  case apart =>
    have mine : ∀ i u, (j.state.uploads.insert id (⟨n, temp, name, size, 0, false⟩ : FileUpload)).lookup i = some u →
        (i = id ∧ u.file = n) ∨ (j.state.uploads.lookup i = some u ∧ u.file < n) := by
      intro i u here
      by_cases same : i = id
      · subst same
        have made : (⟨n, temp, name, size, 0, false⟩ : FileUpload) = u := by simpa using here
        exact Or.inl ⟨rfl, by rw [← made]⟩
      · rw [AList.lookup_insert_ne same] at here
        exact Or.inr ⟨here, old _ _ (h.active i u here).declared⟩
    intro i i' u u' here here' same
    rcases mine i u here with ⟨rfl, at_n⟩ | ⟨before, bound⟩
    · rcases mine i' u' here' with ⟨rfl, _⟩ | ⟨_, bound'⟩
      · rfl
      · omega
    · rcases mine i' u' here' with ⟨_, at_n⟩ | ⟨before', _⟩
      · omega
      · exact h.apart i i' u u' before before' same
  case finished =>
    intro file path done
    have before := h.finished file path done
    obtain ⟨size', begun, _⟩ := before.whole
    exact before.frame (untouched file (old file size' begun))
  case settled =>
    intro file size' begun
    rcases List.mem_append.mp begun with begun | begun
    · have bound := old file size' begun
      refine settled_frame (h.settled file size' begun) ?_ (fun _ done => done) (names file bound)
      intro i u here mine
      have other : i ≠ id := by
        rintro rfl
        rw [free] at here
        cases here
      exact ⟨i, u, (AList.lookup_insert_ne other).trans here, mine⟩
    · cases List.mem_singleton.mp begun
      exact Or.inl ⟨id, _, AList.lookup_insert _, rfl⟩

theorem sound_took (h : Sound j) {id : String} {upload : FileUpload} {data : Bytes} {answers : List Response}
    (here : j.state.uploads.lookup id = some upload) :
    Sound { j with
      state := { j.state with
        files := j.state.files.append upload.file data
        uploads := j.state.uploads.insert id { upload with received := upload.received + data.length } }
      answers
      accepted := j.accepted ++ [(upload.file, upload.received, data)] } := by
  have mine := h.active id upload here
  have length := Files.length_append j.state.files upload.file data
  generalize hj : ({ j with
      state := { j.state with
        files := j.state.files.append upload.file data
        uploads := j.state.uploads.insert id { upload with received := upload.received + data.length } }
      answers
      accepted := j.accepted ++ [(upload.file, upload.received, data)] } : Journal) = after
  have grown : after.accepted = j.accepted ++ [(upload.file, upload.received, data)] := by rw [← hj]
  have untouched : ∀ file, file ≠ upload.file → Untouched j after file := by
    intro file apart
    refine ⟨?_, chunksOf_other apart grown, ?_, ?_, ?_⟩
    · rw [← hj]
      exact fun _ begun => begun
    · rw [← hj]
      exact fun _ => Iff.rfl
    · rw [← hj]
      exact Files.data_append_other apart
    · rw [← hj]
      exact fun _ done => done
  have chunks := chunksOf_same (j := j) grown
  have uploads : ∀ i, i ≠ id → after.state.uploads.lookup i = j.state.uploads.lookup i := by
    intro i other
    rw [← hj]
    exact AList.lookup_insert_ne other
  have here' : after.state.uploads.lookup id = some { upload with received := upload.received + data.length } := by
    rw [← hj]
    exact AList.lookup_insert _
  have file_of : ∀ i u, after.state.uploads.lookup i = some u →
      ∃ before, j.state.uploads.lookup i = some before ∧ before.file = u.file := by
    intro i u found
    by_cases same : i = id
    · subst same
      cases here'.symm.trans found
      exact ⟨upload, here, rfl⟩
    · exact ⟨u, (uploads i same).symm.trans found, rfl⟩
  constructor
  case below =>
    rw [← hj]
    exact fun file size begun => length ▸ h.below file size begun
  case declared =>
    rw [← hj]
    exact h.declared
  case strewn =>
    rw [← hj]
    intro chunk member
    change chunk.1 < (j.state.files.append upload.file data).data.length
    rw [length]
    rcases List.mem_append.mp member with member | member
    · exact h.strewn chunk member
    · rw [List.mem_singleton.mp member]
      exact h.below _ _ mine.declared
  case active =>
    intro i u found
    by_cases same : i = id
    · subst same
      cases here'.symm.trans found
      have content : after.state.files.data[upload.file]? = some (joined (j.chunksOf upload.file) ++ data) := by
        rw [← hj]
        exact Files.data_append mine.content
      refine ⟨?_, mine.valid, mine.named, ?_, ?_, ?_, ?_, ?_, ?_⟩
      · rw [← hj]
        exact mine.declared
      · rw [← hj]
        exact mine.temp
      · rw [← hj]
        exact mine.only
      · rw [chunks]
        exact consecutive_append mine.order (by rw [mine.count, Int.zero_add])
      · rw [chunks, joined_append, List.length_append, mine.count]
        exact (Int.natCast_add _ _).symm
      · rw [chunks, joined_append]
        exact content
      · rw [← hj]
        exact mine.unfinished
    · have before := (uploads i same).symm.trans found
      have other : u.file ≠ upload.file := fun equal => same (h.apart i id u upload before here equal)
      exact (h.active i u before).frame (untouched u.file other)
  case apart =>
    intro i i' u u' found found' same
    obtain ⟨v, before, equal⟩ := file_of i u found
    obtain ⟨v', before', equal'⟩ := file_of i' u' found'
    exact h.apart i i' v v' before before' (by rw [equal, equal', same])
  case finished =>
    intro file path done
    have done : (file, path) ∈ j.completed := by rw [← hj] at done; exact done
    have apart : file ≠ upload.file := by
      rintro rfl
      exact mine.unfinished path done
    exact (h.finished file path done).frame (untouched file apart)
  case settled =>
    intro file size begun
    have begun : (file, size) ∈ j.begun := by rw [← hj] at begun; exact begun
    refine settled_frame (h.settled file size begun) ?_ ?_ ?_
    · intro i u found equal
      by_cases same : i = id
      · subst same
        cases here.symm.trans found
        exact ⟨i, _, here', equal⟩
      · exact ⟨i, u, (uploads i same).trans found, equal⟩
    · rw [← hj]
      exact fun _ done => done
    · rw [← hj]
      exact fun _ => Iff.rfl

/-- An upload leaves the map: its file is finished or gone, and the others are as they were. -/
theorem sound_left (h : Sound j) {id : String} {upload : FileUpload}
    (here : j.state.uploads.lookup id = some upload)
    (uploads : j'.state.uploads = j.state.uploads.erase id) (begun : j'.begun = j.begun)
    (accepted : j'.accepted = j.accepted) (length : j'.state.files.data.length = j.state.files.data.length)
    (data : ∀ file, file ≠ upload.file → j'.state.files.data[file]? = j.state.files.data[file]?)
    (names : ∀ file, file ≠ upload.file →
      ∀ p, j'.state.files.find p = some file ↔ j.state.files.find p = some file)
    (completed : ∀ file, file ≠ upload.file → ∀ path, (file, path) ∈ j'.completed ↔
      (file, path) ∈ j.completed)
    (finished : ∀ path, (upload.file, path) ∈ j'.completed → Finished j' upload.file path)
    (settled : (∃ path, (upload.file, path) ∈ j'.completed) ∨ ∀ p, j'.state.files.find p ≠ some upload.file) :
    Sound j' := by
  have untouched : ∀ file, file ≠ upload.file → Untouched j j' file := by
    intro file apart
    refine ⟨fun _ member => begun ▸ member, ?_, names file apart, data file apart, fun path =>
      (completed file apart path).mp⟩
    rw [Journal.chunksOf, accepted, Journal.chunksOf]
  have before : ∀ i u, j'.state.uploads.lookup i = some u → i ≠ id ∧ j.state.uploads.lookup i = some u := by
    intro i u found
    rw [uploads] at found
    by_cases same : i = id
    · subst same
      rw [AList.lookup_erase] at found
      cases found
    · rw [AList.lookup_erase_ne same] at found
      exact ⟨same, found⟩
  constructor
  case below =>
    rw [begun, length]
    exact h.below
  case declared =>
    rw [begun]
    exact h.declared
  case strewn =>
    rw [accepted, length]
    exact h.strewn
  case active =>
    intro i u found
    obtain ⟨other, found⟩ := before i u found
    have apart : u.file ≠ upload.file := fun equal => other (h.apart i id u upload found here equal)
    exact (h.active i u found).frame (untouched u.file apart)
  case apart =>
    intro i i' u u' found found' same
    exact h.apart i i' u u' (before i u found).2 (before i' u' found').2 same
  case finished =>
    intro file path done
    by_cases mine : file = upload.file
    · subst mine
      exact finished path done
    · exact (h.finished file path ((completed file mine path).mp done)).frame (untouched file mine)
  case settled =>
    intro file size member
    rw [begun] at member
    by_cases mine : file = upload.file
    · subst mine
      exact Or.inr settled
    · refine settled_frame (h.settled file size member) ?_
        (fun path => (completed file mine path).mpr) (names file mine)
      intro i u found equal
      have other : i ≠ id := by
        rintro rfl
        cases here.symm.trans found
        exact mine equal.symm
      exact ⟨i, u, by rw [uploads, AList.lookup_erase_ne other]; exact found, equal⟩

theorem sound_dropped (h : Sound j) {id : String} {upload : FileUpload} {files : Files}
    {answers : List Response}
    (here : j.state.uploads.lookup id = some upload) (lost : Lost j.state.files upload files) :
    Sound { j with state := { j.state with files, uploads := j.state.uploads.erase id }, answers } := by
  have mine := h.active id upload here
  obtain ⟨length, data, gone, others⟩ := lost
  refine sound_left h here rfl rfl rfl length data ?_ (fun _ _ _ => Iff.rfl) ?_ ?_
  · intro file apart p
    change files.find p = some file ↔ _
    by_cases same : clean p = clean upload.tempPath
    · rw [Files.find_same same, Files.find_same same, gone, mine.temp]
      simp only [reduceCtorEq, Option.some.injEq, false_iff]
      exact Ne.symm apart
    · rw [others p same]
  · exact fun path done => absurd done (mine.unfinished path)
  · refine Or.inr ?_
    intro p found
    change files.find p = some upload.file at found
    by_cases same : clean p = clean upload.tempPath
    · rw [Files.find_same same, gone] at found
      cases found
    · rw [others p same] at found
      exact same (mine.only p found)

theorem sound_completed (h : Sound j) {id path : String} {upload : FileUpload} {files : Files}
    {answers : List Response} (here : j.state.uploads.lookup id = some upload)
    (whole : upload.received = upload.size) (data : files.data = j.state.files.data)
    (free : j.state.files.find path = none) (linked : files.find path = j.state.files.find upload.tempPath)
    (gone : files.find upload.tempPath = none)
    (others : ∀ p, clean p ≠ clean upload.tempPath → clean p ≠ clean path →
      files.find p = j.state.files.find p) :
    Sound { j with
      state := { j.state with files, uploads := j.state.uploads.erase id }
      answers
      completed := j.completed ++ [(upload.file, path)] } := by
  have mine := h.active id upload here
  rw [mine.temp] at linked
  have names : ∀ file, file ≠ upload.file → ∀ p, files.find p = some file ↔ j.state.files.find p = some file := by
    intro file apart p
    by_cases at_temp : clean p = clean upload.tempPath
    · rw [Files.find_same at_temp, Files.find_same at_temp, gone, mine.temp]
      simp only [reduceCtorEq, Option.some.injEq, false_iff]
      exact Ne.symm apart
    · by_cases at_path : clean p = clean path
      · rw [Files.find_same at_path, Files.find_same at_path, linked, free]
        simp only [reduceCtorEq, Option.some.injEq, iff_false]
        exact Ne.symm apart
      · rw [others p at_temp at_path]
  have only : ∀ p, files.find p = some upload.file → clean p = clean path := by
    intro p found
    by_contra at_path
    by_cases at_temp : clean p = clean upload.tempPath
    · rw [Files.find_same at_temp, gone] at found
      cases found
    · rw [others p at_temp at_path] at found
      exact at_temp (mine.only p found)
  refine sound_left h here rfl rfl rfl (congrArg List.length data) (fun file _ => ?_) names ?_ ?_ ?_
  · change files.data[file]? = _
    rw [data]
  · intro file apart other
    rw [List.mem_append]
    constructor
    · rintro (done | new)
      · exact done
      · cases List.mem_singleton.mp new
        exact absurd rfl apart
    · exact Or.inl
  · intro other done
    have same : other = path := by
      rcases List.mem_append.mp done with done | new
      · exact absurd done (mine.unfinished other)
      · cases List.mem_singleton.mp new
        rfl
    subst same
    refine ⟨⟨upload.size, mine.declared, ?_⟩, mine.order, linked, only, ?_⟩
    · rw [← whole, mine.count]
      rfl
    · change files.data[upload.file]? = _
      rw [data]
      exact mine.content
  · exact Or.inl ⟨path, List.mem_append_right _ (List.mem_singleton.mpr rfl)⟩

theorem sound_answers (h : Sound j) (answers : List Response) : Sound { j with answers } := by
  have untouched : ∀ file, Untouched j { j with answers } file := fun file =>
    ⟨fun _ begun => begun, rfl, fun _ => Iff.rfl, rfl, fun _ done => done⟩
  refine ⟨h.below, h.declared, h.strewn, ?_, h.apart, ?_, h.settled⟩
  · exact fun id upload here => (h.active id upload here).frame (untouched upload.file)
  · exact fun file path done => (h.finished file path done).frame (untouched file)

theorem sound_act (h : Sound j) {after : State} {entry : Option Entry} (answers : List Response)
    (act : Act j.state after entry) : Sound { j.enter entry with state := after, answers } := by
  cases act with
  | nothing => exact sound_answers h answers
  | began made named valid free => exact sound_began h made named valid free
  | took here => exact sound_took h here
  | dropped here lost => exact sound_dropped h here lost
  | completed here whole data free linked gone others =>
    exact sound_completed h here whole data free linked gone others

theorem sound_record (h : Sound j) (event : Handler × Io) : Sound (j.record event) :=
  sound_act h _ (act_handle (sound_named h) event.2 event.1)

theorem sound_start (directory : String) (files : Files) : Sound (Journal.start directory files) := by
  refine ⟨nofun, nofun, nofun, nofun, nofun, nofun, nofun⟩

theorem sound_run (h : Sound j) (events : List (Handler × Io)) : Sound (events.foldl Journal.record j) := by
  induction events generalizing j with
  | nil => exact h
  | cons event events ih => exact ih (sound_record h event)

end

end TermLinks.Uploads
