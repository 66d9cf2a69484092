import TermLinks.UploadExactness

namespace TermLinks.Uploads

open Connector (Handler validUploadName maxUploadSize maxUploadChunk reserveUploadPath candidateName maxSuffixes)
open FilePath (clean join child)

def Response.isError : Response → Bool
  | .error _ _ => true
  | _ => false

/-- An inner message of a browser that is logged in, as the reader takes it. -/
def Journal.deliver (io : Io) (j : Journal) (message : String × Connector.Fields) : Journal :=
  match Connector.dispatchFields message.1 message.2 with
  | .handle handler => j.record (handler, io)
  | _ => j

/-- The answers after `j` are all accepting ones, one for each message. -/
structure Accepts (j : Journal) (messages : Nat) (after : Journal) (more : List Response) : Prop where
  answers : after.answers = j.answers ++ more
  each : more.length = messages
  fine : ∀ answer ∈ more, answer.isError = false

theorem Accepts.trans {j k l : Journal} {m n : Nat} {first second : List Response} (h : Accepts j m k first)
    (next : Accepts k n l second) : Accepts j (m + n) l (first ++ second) := by
  refine ⟨?_, ?_, ?_⟩
  · rw [next.answers, h.answers, List.append_assoc]
  · rw [List.length_append, h.each, next.each]
  · intro answer member
    rcases List.mem_append.mp member with member | member
    · exact h.fine answer member
    · exact next.fine answer member

theorem accepts_record {j : Journal} {handler : Handler} {io : Io} {answer : Response}
    (given : (j.state.handle io handler).2 = some answer) (fine : answer.isError = false) :
    Accepts j 1 (j.record (handler, io)) [answer] := by
  refine ⟨?_, rfl, ?_⟩
  · simp [Journal.record, given]
  · intro other member
    rw [List.mem_singleton.mp member]
    exact fine

theorem record_state {j : Journal} {handler : Handler} {io : Io} {state : State} {answer : Response}
    (handled : j.state.handle io handler = (state, some answer)) : (j.record (handler, io)).state = state :=
  congrArg Prod.fst handled

/-- Without a failing call the loop ends at a free name, if there is one. -/
theorem reserve_finds {name tempPath directory : String} {files : Files} (there : files.find tempPath ≠ none)
    (rounds suffix : Nat) (free : ∃ k, suffix ≤ k ∧ k < suffix + rounds ∧
      files.find (join directory (candidateName name k)) = none) :
    ∃ path, (Connector.reserveFrom ⟨fun _ => true, true, true⟩ tempPath directory name rounds suffix
      files).2 =
      .ok path := by
  induction rounds generalizing suffix with
  | zero =>
    obtain ⟨k, low, high, _⟩ := free
    omega
  | succ rounds ih =>
    simp only [Connector.reserveFrom, if_true]
    cases attempt : files.link tempPath (join directory (candidateName name suffix)) with
    | ok linked => exact ⟨_, rfl⟩
    | error error =>
      cases error with
      | other => exact absurd (Files.link_other attempt) there
      | exist =>
        have taken := Files.link_exist attempt
        obtain ⟨k, low, high, unused⟩ := free
        have other : k ≠ suffix := by
          rintro rfl
          exact taken unused
        exact ih (suffix + 1) ⟨k, by omega, by omega, unused⟩

theorem reserve_crowded {name tempPath directory : String} {files : Files} (rounds suffix : Nat)
    (there : files.find tempPath ≠ none) (taken : ∀ k, suffix ≤ k → k < suffix + rounds →
      files.find (join directory (candidateName name k)) ≠ none) :
    Connector.reserveFrom ⟨fun _ => true, true, true⟩ tempPath directory name rounds suffix files =
      (files, .error .tooMany) := by
  induction rounds generalizing suffix with
  | zero => rfl
  | succ rounds ih =>
    simp only [Connector.reserveFrom, if_true]
    cases attempt : files.link tempPath (join directory (candidateName name suffix)) with
    | ok linked => exact absurd (Files.link_ok attempt).1 (taken suffix (Nat.le_refl _) (by omega))
    | error error =>
      cases error with
      | other => exact absurd (Files.link_other attempt) there
      | exist => exact ih (suffix + 1) fun k low high => taken k (by omega) (by omega)

/-- An upload in the middle of its chunks. -/
structure Halfway (j : Journal) (id : String) (upload : FileUpload) (content : Bytes)
    (offset : Nat) : Prop where
  here : j.state.uploads.lookup id = some upload
  live : upload.closed = false
  size : upload.size = content.length
  received : upload.received = min offset content.length
  written : j.state.files.data[upload.file]? = some (content.take offset)

theorem record_chunk {j : Journal} {id : String} {upload : FileUpload} {content : Bytes} {offset : Nat}
    (h : Halfway j id upload content offset) (random : String) (more : offset < content.length) :
    ∃ after answer, Accepts j 1 (after) [answer] ∧
      after = j.record (.chunk id offset (some ((content.drop offset).take chunkSize)), Io.fine random) ∧
      Halfway after id { upload with received :=
        ((min (offset + chunkSize) content.length : Nat) : Int) } content
        (offset + chunkSize) ∧
      after.state.directory = j.state.directory ∧ after.state.files.names = j.state.files.names := by
  obtain ⟨here, live, size, received, written⟩ := h
  have length : ((content.drop offset).take chunkSize).length = min (offset + chunkSize) content.length - offset := by
    rw [List.length_take, List.length_drop]
    omega
  have small : ((content.drop offset).take chunkSize).length ≤ maxUploadChunk := by
    rw [List.length_take]
    exact Nat.min_le_left _ _
  generalize hb : (content.drop offset).take chunkSize = bytes at length small
  have whole : content.take offset ++ bytes = content.take (offset + chunkSize) := by
    rw [← hb, List.take_add]
  have start : (offset : Int) = upload.received := by
    rw [received, Nat.min_eq_left (Nat.le_of_lt more)]
  have next : upload.received + bytes.length = ((min (offset + chunkSize) content.length : Nat) : Int) := by
    rw [← start, length]
    omega
  have admitted : ¬(upload.closed || decide (bytes.length > maxUploadChunk) ||
    decide ((offset : Int) ≠ upload.received) ||
      decide (upload.received + bytes.length > upload.size)) = true := by
    simp only [live, Bool.false_or, Bool.or_eq_true, decide_eq_true_eq, not_or, Nat.not_lt, ne_eq, Decidable.not_not]
    refine ⟨⟨small, start⟩, ?_⟩
    rw [next, size]
    omega
  have handled : j.state.handle (Io.fine random) (.chunk id offset (some bytes)) =
      ({ j.state with
        files := j.state.files.append upload.file bytes
        uploads := j.state.uploads.insert id { upload with received := upload.received + bytes.length } },
        some (.progress id (upload.received + bytes.length) upload.size)) := by
    simp only [State.handle, State.answering, State.writeFileUpload, here]
    rw [if_neg admitted]
    rfl
  have state := record_state handled
  refine ⟨_, _, accepts_record (congrArg Prod.snd handled) rfl, rfl, ?_, ?_, ?_⟩
  · refine ⟨?_, live, size, rfl, ?_⟩
    · rw [state, ← next]
      exact AList.lookup_insert _
    · rw [state, ← whole]
      exact Files.data_append written
  · rw [state]
  · rw [state]
    rfl

theorem deliver_chunk (j : Journal) (io : Io) (id : String) (offset : Nat) (bytes : Bytes) :
    j.deliver io ("file_upload_chunk", { blank with id, offset, data := E2E.bytesToBase64URL bytes }) =
      j.record (.chunk id offset (some bytes), io) := by
  have decoded : Cloud.rawURLDecode (E2E.bytesToBase64URL bytes) = some bytes := by
    rw [E2E.bytesToBase64URL_eq]
    exact Cloud.rawURLDecode_rawURLEncode bytes
  simp only [Journal.deliver, Connector.dispatchFields, decoded]

/-- The chunks of `uploadFile` are accepted one after the other, up to the last byte. -/
theorem chunks_accepted {j : Journal} {id : String} {upload : FileUpload} {content : Bytes} {offset : Nat}
    (h : Halfway j id upload content offset) (random : String) :
    ∃ more final, Accepts j (chunkMessages id content offset).length
        ((chunkMessages id content offset).foldl (Journal.deliver (Io.fine random)) j) more ∧
      Halfway ((chunkMessages id content offset).foldl (Journal.deliver (Io.fine random)) j) id
        { upload with received := content.length } content final ∧ content.length ≤ final ∧
      ((chunkMessages id content offset).foldl (Journal.deliver (Io.fine random)) j).state.directory =
        j.state.directory ∧
      ((chunkMessages id content offset).foldl (Journal.deliver (Io.fine random)) j).state.files.names =
        j.state.files.names := by
  induction left : content.length - offset using Nat.strong_induction_on generalizing j upload offset with
  | _ left ih =>
    rw [chunkMessages]
    by_cases more : offset < content.length
    · rw [if_pos more]
      have positive : 0 < chunkSize := by decide
      obtain ⟨after, answer, accepted, recorded, halfway, directory, names⟩ := record_chunk h random more
      have shown := ih (content.length - (offset + chunkSize)) (by omega) halfway rfl
      generalize chunkMessages id content (offset + chunkSize) = later at shown
      obtain ⟨rest, final, acceptedRest, done, past, directory', names'⟩ := shown
      have first := deliver_chunk j (Io.fine random) id offset ((content.drop offset).take chunkSize)
      rw [← recorded] at first
      dsimp only
      rw [List.foldl_cons, first, List.length_cons, Nat.add_comm]
      exact ⟨[answer] ++ rest, final, accepted.trans acceptedRest, done, past, directory'.trans directory,
        names'.trans names⟩
    · rw [if_neg more]
      have received : upload.received = content.length := by
        rw [h.received, Nat.min_eq_right (Nat.le_of_not_lt more)]
      refine ⟨[], offset, ⟨by simp, rfl, nofun⟩, ?_, Nat.le_of_not_lt more, rfl, rfl⟩
      have same : { upload with received := (content.length : Int) } = upload := by rw [← received]
      rw [same]
      exact h

section

variable {j : Journal} {id name random : String} {content : Bytes}

theorem start_accepted (valid : validUploadName name = true) (small : content.length ≤ 100 * 1024 * 1024)
    (directory : j.state.directory ≠ "") (room : j.state.full id = false)
    (unused : j.state.files.find (tempPath j.state.directory random) = none) :
    ∃ after upload, j.deliver (Io.fine random)
        ("file_upload_start", { blank with id, name, size := content.length }) = after ∧
      Accepts j 1 after [.ready id content.length] ∧ Halfway after id upload content 0 ∧
      upload.tempPath = tempPath j.state.directory random ∧ upload.name = name ∧
      after.state.directory = j.state.directory ∧ after.state.files.find upload.tempPath = some upload.file ∧
      ∀ p, clean p ≠ clean upload.tempPath → after.state.files.find p = j.state.files.find p := by
  obtain ⟨files, made⟩ : ∃ files, j.state.files.create (tempPath j.state.directory random) = some files := by
    unfold Files.create
    rw [unused]
    exact ⟨_, rfl⟩
  obtain ⟨_, data, there, others⟩ := Files.create_eq made
  have fits : ¬(!validUploadName name || decide ((content.length : Int) < 0) ||
      decide ((content.length : Int) > maxUploadSize)) = true := by
    have limit : maxUploadSize = 100 * 1024 * 1024 := rfl
    rw [limit, valid]
    simp only [Bool.not_true, Bool.false_or, Bool.or_eq_true, decide_eq_true_eq, not_or]
    omega
  have empty : ¬j.state.full id = true := by rw [room]; exact Bool.false_ne_true
  have again : ¬({ j.state with files } : State).full id = true := empty
  have handled : j.state.handle (Io.fine random) (.startUpload id name content.length) =
      ({ j.state with
        files
        uploads := j.state.uploads.insert id
          ⟨j.state.files.data.length, tempPath j.state.directory random, name, content.length, 0, false⟩ },
        some (.ready id content.length)) := by
    simp only [State.handle, State.answering, State.startFileUpload]
    rw [if_neg fits, if_neg directory, if_neg empty]
    simp only [Io.fine, Bool.not_true, Bool.false_eq_true, if_false, if_true, made]
    rw [if_neg again]
  have state := record_state handled
  refine ⟨j.record (.startUpload id name content.length, Io.fine random),
    ⟨j.state.files.data.length, tempPath j.state.directory random, name, content.length, 0, false⟩, rfl,
    accepts_record (congrArg Prod.snd handled) rfl, ?_, rfl, rfl, ?_, ?_, ?_⟩
  · refine ⟨?_, rfl, rfl, rfl, ?_⟩
    · rw [state]
      exact AList.lookup_insert _
    · rw [state]
      change files.data[j.state.files.data.length]? = some (content.take 0)
      rw [data, List.getElem?_append_right (Nat.le_refl _), Nat.sub_self]
      rfl
  · rw [state]
  · rw [state]
    exact there
  · rw [state]
    exact others

theorem finish_accepted {upload : FileUpload} {final : Nat} (valid : validUploadName upload.name = true)
    (h : Halfway j id { upload with received := content.length } content final)
    (past : content.length ≤ final) (there : j.state.files.find upload.tempPath = some upload.file)
    (free : ∃ k < maxSuffixes, j.state.files.find
      (join j.state.directory (candidateName upload.name k)) = none) :
    ∃ after path, j.deliver (Io.fine random) ("file_upload_finish", { blank with id }) = after ∧
      Accepts j 1 after [.complete id content.length content.length path] ∧
      after.state.files.content path = some content := by
  obtain ⟨k, below, unused⟩ := free
  obtain ⟨here, live, size, _, written⟩ := h
  rw [List.take_of_length_le past] at written
  have whole : ¬(upload.closed || decide ((content.length : Int) ≠ upload.size)) = true := by
    have live : upload.closed = false := live
    have size : upload.size = content.length := size
    simp [live, size]
  have rollback : (⟨fun _ => true, true, true⟩ : Connector.Faults).rollback = true := rfl
  obtain ⟨data, done, _⟩ := Connector.reserved_upload (Connector.isEntry_of_valid valid) rollback j.state.files
    upload.tempPath j.state.directory
  have found := @reserve_finds upload.name upload.tempPath j.state.directory j.state.files
    (by rw [there]; exact Option.some_ne_none _) maxSuffixes 0
    ⟨k, Nat.zero_le k, by omega, unused⟩
  change ∃ path, (reserveUploadPath ⟨fun _ => true, true, true⟩ upload.tempPath j.state.directory upload.name
    j.state.files).2 = .ok path at found
  have handled : j.state.handle (Io.fine random) (.finishUpload id) = State.answering
      (({ j.state with uploads := j.state.uploads.erase id } : State).concludeUpload id
        { upload with received := content.length }
        (reserveUploadPath ⟨fun _ => true, true, true⟩ upload.tempPath j.state.directory upload.name
          j.state.files)) := by
    have synced : ¬(!(Io.fine random).sync || !(Io.fine random).close) = true := Bool.false_ne_true
    simp only [State.handle, State.finishFileUpload, here]
    rw [if_neg whole, if_neg synced]
    simp only [Io.fine]
  generalize reserveUploadPath ⟨fun _ => true, true, true⟩ upload.tempPath j.state.directory upload.name
    j.state.files = outcome at data done found handled
  obtain ⟨files, result⟩ := outcome
  obtain ⟨path, ok⟩ := found
  change result = .ok path at ok
  subst ok
  obtain ⟨_, _, _, _, _, _, _, _, linked, _⟩ := done path rfl
  have total : upload.size = content.length := size
  refine ⟨j.record (.finishUpload id, Io.fine random), path, rfl, ?_, ?_⟩
  · refine accepts_record ?_ rfl
    rw [handled]
    simp only [State.answering, State.concludeUpload, total]
  · have state : (j.record (.finishUpload id, Io.fine random)).state.files = files :=
      congrArg (fun outcome => outcome.1.files) handled
    rw [state, Files.content]
    change files.find path = j.state.files.find upload.tempPath at linked
    change files.data = j.state.files.data at data
    rw [linked, there, data]
    exact written

/-- What the browser sends for a file is accepted message by message, and the file is there in the end. -/
theorem upload_accepted (valid : validUploadName name = true) (small : content.length ≤ 100 * 1024 * 1024)
    (directory : j.state.directory ≠ "") (room : j.state.full id = false)
    (unused : j.state.files.find (tempPath j.state.directory random) = none)
    (free : ∃ k < maxSuffixes, j.state.files.find (join j.state.directory (candidateName name k)) = none ∧
      clean (join j.state.directory (candidateName name k)) ≠ clean (tempPath j.state.directory random)) :
    ∃ messages more path, uploadFile id name content = some messages ∧
      Accepts j messages.length (messages.foldl (Journal.deliver (Io.fine random)) j) more ∧
      .complete id content.length content.length path ∈ more ∧
      (messages.foldl (Journal.deliver (Io.fine random)) j).state.files.content path = some content := by
  obtain ⟨started, upload, first, accepted, halfway, temp, named, sameDirectory, there, others⟩ :=
    start_accepted valid small directory room unused
  obtain ⟨chunks, final, acceptedChunks, reached, past, sameDirectory', names⟩ := chunks_accepted halfway random
  generalize hm : chunkMessages id content 0 = middle at acceptedChunks reached sameDirectory' names
  obtain ⟨later, hl⟩ : ∃ later, middle.foldl (Journal.deliver (Io.fine random)) started = later := ⟨_, rfl⟩
  rw [hl] at acceptedChunks reached sameDirectory' names
  have find : ∀ p, later.state.files.find p = started.state.files.find p := by
    intro p
    rw [Files.find, names, Files.find]
  have free' : ∃ k < maxSuffixes, later.state.files.find (join later.state.directory
      (candidateName upload.name k)) = none := by
    obtain ⟨k, below, vacant, apart⟩ := free
    refine ⟨k, below, ?_⟩
    rw [find, sameDirectory', sameDirectory, named, others _ (by rw [temp]; exact apart)]
    exact vacant
  obtain ⟨after, path, last, finished, content'⟩ := @finish_accepted _ _ random _ _ _ (named.symm ▸ valid) reached past
    ((find _).trans there) free'
  have sent : uploadFile id name content =
    some (("file_upload_start", { blank with id, name, size := content.length }) ::
      middle ++ [("file_upload_finish", { blank with id })]) := by
    have plain : ¬(name = "" ∨ (utf8 name).length > 240 ∨ '/' ∈ name.toList ∨ '\\' ∈ name.toList) := by
      simp only [validUploadName, Bool.and_eq_true, Bool.not_eq_true', Bool.or_eq_false_iff, decide_eq_false_iff_not,
        List.any_eq_false] at valid
      obtain ⟨⟨⟨⟨⟨nonempty, short⟩, _⟩, _⟩, _, separators⟩, _⟩ := valid
      rintro (empty | long | slash | backslash)
      · exact nonempty empty
      · rw [length_utf8] at long
        exact short long
      · exact separators '/' slash rfl
      · exact separators '\\' backslash rfl
    rw [uploadFile, if_neg plain, if_neg (Nat.not_lt.mpr small), hm]
  refine ⟨_, [.ready id content.length] ++ chunks ++ [.complete id content.length content.length path], path, sent,
    ?_, by simp, ?_⟩
  · have run : (("file_upload_start", { blank with id, name, size := (content.length : Int) }) :: middle ++
        [("file_upload_finish", { blank with id })]).foldl (Journal.deliver (Io.fine random)) j = after := by
      rw [List.cons_append, List.foldl_cons, first, List.foldl_append, hl, List.foldl_cons, last, List.foldl_nil]
    rw [run]
    have all := (accepted.trans acceptedChunks).trans finished
    have count : 1 + middle.length + 1 =
      (("file_upload_start", { blank with id, name, size := (content.length : Int) }) ::
        middle ++ [("file_upload_finish", { blank with id })]).length := by
      simp
      omega
    rw [← count]
    exact all
  · rw [List.cons_append, List.foldl_cons, first, List.foldl_append, hl, List.foldl_cons, last, List.foldl_nil]
    exact content'

end

theorem entry_of_complete {s : State} {io : Io} {message : Handler} {id path : String} {received total : Int}
    (given : (s.handle io message).2 = some (.complete id received total path)) :
    ∃ file, s.entry message (s.handle io message).2 = some (.completed file path) := by
  rw [given]
  cases message with
  | startUpload key name size =>
    simp only [State.handle, State.answering, Option.some.injEq, State.startFileUpload] at given
    split at given
    next => cases given
    next =>
      split at given
      next => cases given
      next =>
        split at given
        next => cases given
        next =>
          split at given
          next => cases given
          next =>
            split at given
            next => cases given
            next =>
              split at given
              next => cases given
              next => cases given
  | chunk key offset data =>
    simp only [State.handle, State.answering, Option.some.injEq, State.writeFileUpload] at given
    split at given
    next => cases given
    next =>
      split at given
      next => cases given
      next =>
        split at given
        next => cases given
        next =>
          split at given
          next => cases given
          next => cases given
  | finishUpload key =>
    simp only [State.handle, State.answering, Option.some.injEq] at given
    unfold State.finishFileUpload at given
    cases here : s.uploads.lookup key with
    | none =>
      rw [here] at given
      cases given
    | some upload => exact ⟨upload.file, by simp [State.entry, here]⟩
  | cancelUpload key => cases given
  | _ => cases given

/-- Every `file_upload_complete` is for a completed upload. -/
theorem said_run (j : Journal) (events : List (Handler × Io))
    (h : ∀ id received total path, .complete id received total path ∈ j.answers →
      ∃ file, (file, path) ∈ j.completed) :
    ∀ id received total path, .complete id received total path ∈ (events.foldl Journal.record j).answers →
      ∃ file, (file, path) ∈ (events.foldl Journal.record j).completed := by
  induction events generalizing j with
  | nil => exact h
  | cons event events ih =>
    refine ih (j.record event) ?_
    intro id received total path said
    rcases List.mem_append.mp said with said | said
    · obtain ⟨file, done⟩ := h id received total path said
      refine ⟨file, ?_⟩
      change (file, path) ∈ (j.enter _).completed
      unfold Journal.enter
      split
      next => exact done
      next => exact done
      next => exact done
      next => exact List.mem_append_left _ done
    · have given := Option.mem_toList.mp said
      obtain ⟨file, entered⟩ := entry_of_complete given
      refine ⟨file, ?_⟩
      change (file, path) ∈ (j.enter (j.state.entry event.1 (j.state.handle event.2 event.1).2)).completed
      rw [entered]
      exact List.mem_append_right _ (List.mem_singleton.mpr rfl)

/-- After any messages on a channel: an upload answered as complete had its chunks in order and of the declared size,
and the file is what they make together; any other upload that is over has left no name behind; and what the
browser sends for a file is accepted where an upload can be started and a name is free. -/
theorem uploads_are_exact (directory : String) (files : Files) (events : List (Handler × Io)) (j : Journal)
    (run : events.foldl Journal.record (Journal.start directory files) = j) :
    (∀ id received total path, .complete id received total path ∈ j.answers →
      ∃ file size, (file, path) ∈ j.completed ∧ (file, size) ∈ j.begun ∧ Consecutive 0 (j.chunksOf file) ∧
        (joined (j.chunksOf file)).length = size ∧
        j.state.files.content path = some (joined (j.chunksOf file))) ∧
    (∀ file size, (file, size) ∈ j.begun →
      (∃ id upload, j.state.uploads.lookup id = some upload ∧ upload.file = file ∧
        ∀ p, j.state.files.find p = some file → clean p = clean upload.tempPath) ∨
      (∃ path, (file, path) ∈ j.completed ∧ ∀ p, j.state.files.find p = some file → clean p = clean path) ∨
      ∀ p, j.state.files.find p ≠ some file) ∧
    ∀ id name content random, validUploadName name = true → content.length ≤ 100 * 1024 * 1024 →
      j.state.directory ≠ "" → j.state.full id = false →
      j.state.files.find (tempPath j.state.directory random) = none →
      (∃ k < maxSuffixes, j.state.files.find (join j.state.directory (candidateName name k)) = none ∧
        clean (join j.state.directory (candidateName name k)) ≠ clean (tempPath j.state.directory random)) →
      ∃ messages more path, uploadFile id name content = some messages ∧
        Accepts j messages.length (messages.foldl (Journal.deliver (Io.fine random)) j) more ∧
        .complete id content.length content.length path ∈ more ∧
        (messages.foldl (Journal.deliver (Io.fine random)) j).state.files.content path = some content := by
  have sound : Sound j := run ▸ sound_run (sound_start directory files) events
  refine ⟨?_, ?_, ?_⟩
  · intro id received total path said
    subst run
    obtain ⟨file, done⟩ := said_run (Journal.start directory files) events nofun id received total path said
    have finished := sound.finished file path done
    obtain ⟨size, begun, length⟩ := finished.whole
    refine ⟨file, size, done, begun, finished.order, length, ?_⟩
    rw [Files.content, finished.found]
    exact finished.content
  · intro file size begun
    rcases sound.settled file size begun with ⟨id, upload, here, mine⟩ | ⟨path, done⟩ | gone
    · subst mine
      exact Or.inl ⟨id, upload, here, rfl, (sound.active id upload here).only⟩
    · exact Or.inr (Or.inl ⟨path, done, (sound.finished file path done).only⟩)
    · exact Or.inr (Or.inr gone)
  · intro id name content random valid small directory room unused free
    exact upload_accepted valid small directory room unused free

/-- One upload is finished; another one fails with its first chunk, which does not start at 0. -/
def noteEvents : List (Handler × Io) :=
  [(.startUpload "1" "note.txt" 2, Io.fine "7"), (.chunk "1" 0 (some [104]), Io.fine "7"),
    (.startUpload "2" "list.txt" 3, Io.fine "8"), (.chunk "1" 1 (some [105]), Io.fine "7"),
      (.finishUpload "1", Io.fine "7"),
    (.chunk "2" 1 (some [104]), Io.fine "8")]

def noteJournal : Journal := noteEvents.foldl Journal.record (Journal.start "/up" Files.empty)

/-- A third upload then takes the next name. -/
theorem uploads_are_exact_note :
    (∃ file size, (file, "/up/note.txt") ∈ noteJournal.completed ∧ (file, size) ∈ noteJournal.begun ∧
      Consecutive 0 (noteJournal.chunksOf file) ∧ (joined (noteJournal.chunksOf file)).length = size ∧
      noteJournal.state.files.content "/up/note.txt" = some (joined (noteJournal.chunksOf file))) ∧
    ((1, 3) ∈ noteJournal.begun ∧ ∀ p, noteJournal.state.files.find p ≠ some 1) ∧
    ∃ messages more path, uploadFile "3" "note.txt" [33] = some messages ∧
      Accepts noteJournal messages.length (messages.foldl (Journal.deliver (Io.fine "9")) noteJournal) more ∧
      .complete "3" 1 1 path ∈ more ∧
      (messages.foldl (Journal.deliver (Io.fine "9")) noteJournal).state.files.content path = some [33] := by
  obtain ⟨completes, settled, accepts⟩ := uploads_are_exact "/up" Files.empty noteEvents noteJournal rfl
  have begun : (1, 3) ∈ noteJournal.begun := by decide
  refine ⟨completes "1" 2 2 "/up/note.txt" (by decide), ⟨begun, ?_⟩, ?_⟩
  · rcases settled 1 3 begun with ⟨id, upload, here, _⟩ | ⟨path, done, _⟩ | gone
    · have none : noteJournal.state.uploads.entries = [] := by decide
      rw [show noteJournal.state.uploads = ∅ from AList.ext none, AList.lookup_empty] at here
      cases here
    · have one : noteJournal.completed = [(0, "/up/note.txt")] := by decide
      rw [one, List.mem_singleton] at done
      cases done
    · exact gone
  · refine accepts "3" "note.txt" [33] "9"
      (by decide) (by decide) (by decide) (by decide) (by decide) ⟨1, by decide, by decide, ?_⟩
    decide

/-- A directory where every candidate for a name is taken. -/
def crowded (directory name : String) : Files :=
  (List.range maxSuffixes).foldl
    (fun files k => (files.create (join directory (candidateName name k))).getD files) Files.empty

theorem find_create_all {paths : Nat → String} (suffixes : List Nat) (files : Files) (p : String) :
    (suffixes.foldl (fun files k => (files.create (paths k)).getD files) files).find p = none ↔
      files.find p = none ∧ ∀ k ∈ suffixes, clean p ≠ clean (paths k) := by
  induction suffixes generalizing files with
  | nil => simp
  | cons k suffixes ih =>
    rw [List.foldl_cons, ih]
    have first : ((files.create (paths k)).getD files).find p = none ↔
        files.find p = none ∧ clean p ≠ clean (paths k) := by
      cases made : files.create (paths k) with
      | none =>
        have taken : files.find (paths k) ≠ none := by
          intro free
          rw [Files.create, free] at made
          cases made
        constructor
        · intro free
          refine ⟨free, fun same => taken ?_⟩
          rw [← Files.find_same same]
          exact free
        · exact And.left
      | some after =>
        obtain ⟨_, _, there, others⟩ := Files.create_eq made
        by_cases same : clean p = clean (paths k)
        · rw [Option.getD_some, Files.find_same same, there]
          simp [same]
        · rw [Option.getD_some, others p same]
          simp [same]
    rw [first, List.forall_mem_cons, and_assoc]

theorem taken_in_crowded (directory name : String) {k : Nat} (below : k < maxSuffixes) :
    (crowded directory name).find (join directory (candidateName name k)) ≠ none := by
  intro free
  exact ((find_create_all _ _ _).mp free).2 k (List.mem_range.mpr below) rfl

theorem finish_refused {j : Journal} {id random : String} {upload : FileUpload} {content : Bytes}
    {final : Nat} (h : Halfway j id { upload with received := content.length } content final)
    (there : j.state.files.find upload.tempPath ≠ none) (taken : ∀ k < maxSuffixes, j.state.files.find
      (join j.state.directory (candidateName upload.name k)) ≠ none) :
    (j.deliver (Io.fine random) ("file_upload_finish", { blank with id })).answers =
      j.answers ++ [.error id "Could not finalize the uploaded file"] := by
  obtain ⟨here, live, size, _, _⟩ := h
  have whole : ¬(upload.closed || decide ((content.length : Int) ≠ upload.size)) = true := by
    have live : upload.closed = false := live
    have size : upload.size = content.length := size
    simp [live, size]
  have crowd := reserve_crowded maxSuffixes 0 there fun k _ below => taken k (by omega)
  change reserveUploadPath ⟨fun _ => true, true, true⟩ upload.tempPath j.state.directory upload.name j.state.files =
    (j.state.files, .error .tooMany) at crowd
  have handled : j.state.handle (Io.fine random) (.finishUpload id) = State.answering
      (({ j.state with uploads := j.state.uploads.erase id } : State).concludeUpload id
        { upload with received := content.length }
        (reserveUploadPath ⟨fun _ => true, true, true⟩ upload.tempPath j.state.directory upload.name
          j.state.files)) := by
    have synced : ¬(!(Io.fine random).sync || !(Io.fine random).close) = true := Bool.false_ne_true
    simp only [State.handle, State.finishFileUpload, here]
    rw [if_neg whole, if_neg synced]
    simp only [Io.fine]
  rw [crowd] at handled
  have answer : (j.state.handle (Io.fine random) (.finishUpload id)).2 =
      some (.error id "Could not finalize the uploaded file") := congrArg Prod.snd handled
  change j.answers ++ (j.state.handle (Io.fine random) (.finishUpload id)).2.toList = _
  rw [answer]
  rfl

theorem temp_free_in_crowded : (crowded "/up" "a").find (tempPath "/up" "7") = none := by
  refine (find_create_all _ _ _).mpr ⟨rfl, ?_⟩
  intro k _ same
  have entry : FilePath.IsEntry "a" := Connector.isEntry_of_valid (by decide)
  rw [FilePath.clean_join (Connector.isEntry_candidate entry k),
    FilePath.join_eq_child (Connector.isEntry_candidate entry k)] at same
  have temp : clean (tempPath "/up" "7") = child "/up" ".termlinks-upload-7" := by decide
  have up : clean "/up" = "/up" := by decide
  rw [temp, up] at same
  have equal := FilePath.child_injective same
  have head := congrArg (fun text : String => text.toList.head?) equal
  cases k with
  | zero =>
    rw [Connector.candidateName_zero] at head
    exact absurd head (by decide)
  | succ k =>
    have stem : FilePath.trimSuffix "a" (FilePath.ext "a") = "a" := by decide
    rw [Connector.candidateName_succ, stem] at head
    simp at head

/-- A third upload is refused while two are active, and an empty file named `a` in a directory where all its names
are taken, though no call fails. -/
theorem fine_uploads_refused :
    ([(Handler.startUpload "1" "a" 1, Io.fine "1"), (.startUpload "2" "b" 1, Io.fine "2"),
      (.startUpload "3" "c" 1, Io.fine "3")].foldl Journal.record (Journal.start "/up" Files.empty)).answers =
      [.ready "1" 1, .ready "2" 1, .error "3" "Too many active file uploads"] ∧
    ∃ messages, uploadFile "1" "a" [] = some messages ∧
      (messages.foldl (Journal.deliver (Io.fine "7")) (Journal.start "/up" (crowded "/up" "a"))).answers =
        [.ready "1" 0, .error "1" "Could not finalize the uploaded file"] := by
  refine ⟨by decide, [("file_upload_start", { blank with id := "1", name := "a", size := 0 }),
    ("file_upload_finish", { blank with id := "1" })], ?_, ?_⟩
  · have none : chunkMessages "1" [] 0 = [] := by
      rw [chunkMessages]
      rfl
    have plain : ¬("a" = "" ∨ (utf8 "a").length > 240 ∨ '/' ∈ "a".toList ∨ '\\' ∈ "a".toList) := by decide
    have small : ¬([] : Bytes).length > 100 * 1024 * 1024 := by decide
    rw [uploadFile, if_neg plain, if_neg small, none]
    rfl
  · have valid : validUploadName "a" = true := by decide
    have base : ∀ k < maxSuffixes, (crowded "/up" "a").find (join "/up" (candidateName "a" k)) ≠ none :=
      fun k below => taken_in_crowded "/up" "a" below
    have vacant := temp_free_in_crowded
    generalize crowded "/up" "a" = files at base vacant ⊢
    have located : (Journal.start "/up" files).state.directory ≠ "" := (by decide : "/up" ≠ "")
    have room : (Journal.start "/up" files).state.full "1" = false := rfl
    obtain ⟨after, upload, first, accepted, halfway, temp, named, directory, there, others⟩ :=
      @start_accepted (Journal.start "/up" files) "1" "a" "7" [] valid
        (Nat.zero_le _) located room vacant
    have taken : ∀ k < maxSuffixes,
        after.state.files.find (join after.state.directory (candidateName upload.name k)) ≠ none := by
      intro k below
      have at_up : after.state.directory = "/up" := directory
      rw [at_up, named]
      by_cases same : clean (join "/up" (candidateName "a" k)) = clean upload.tempPath
      · rw [Files.find_same same, there]
        exact Option.some_ne_none _
      · rw [others _ same]
        exact base k below
    have started : Halfway after "1" { upload with received := ([] : Bytes).length } [] 0 := by
      have received : upload.received = ([] : Bytes).length := halfway.received
      rw [← received]
      exact halfway
    have last := @finish_refused after "1" "7" upload [] 0 started (by rw [there]; exact Option.some_ne_none _) taken
    rw [accepted.answers] at last
    have sent : Journal.deliver (Io.fine "7") (Journal.start "/up" files)
        ("file_upload_start", { blank with id := "1", name := "a", size := 0 }) = after := first
    rw [List.foldl_cons, List.foldl_cons, List.foldl_nil, sent, last]
    rfl

end TermLinks.Uploads
