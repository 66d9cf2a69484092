import TermLinks.Connector
import TermLinks.E2EPacket
import TermLinks.UploadPaths

namespace TermLinks.Uploads

open Connector (Handler validUploadName maxUploadSize maxUploadChunk reserveUploadPath)

/-- `fileUpload`; `file` is the open file. -/
structure FileUpload where
  file : Nat
  tempPath : String
  name : String
  size : Int
  received : Int
  closed : Bool

/-- `fileUploadResponse`, without the version. -/
inductive Response
  | ready (id : String) (total : Int)
  | progress (id : String) (received total : Int)
  | complete (id : String) (received total : Int) (path : String)
  | error (id reason : String)
deriving DecidableEq

/-- The uploads of a channel, and the files of the computer. -/
structure State where
  directory : String
  uploads : AList fun _ : String => FileUpload
  files : Files

/-- How the calls of one message end. `random` is what `CreateTemp` puts for the star; a write that fails has
written some bytes; `link` and `remove` are those of `reserveUploadPath`. -/
structure Io where
  mkdir : Bool
  random : String
  create : Bool
  write : Option Nat
  sync : Bool
  close : Bool
  link : Nat → Bool
  remove : Bool

def Io.fine (random : String) : Io := ⟨true, random, true, none, true, true, fun _ => true, true⟩

/-- The path `CreateTemp` makes of the pattern `.termlinks-upload-*`. -/
def tempPath (directory random : String) : String :=
  (if directory.toList.getLast? = some '/' then directory else directory ++ "/") ++ ".termlinks-upload-" ++ random

namespace State

def full (s : State) (id : String) : Bool := (s.uploads.lookup id).isSome || s.uploads.entries.length ≥ 2

def invalidStart : String := "Invalid file name or size (maximum 100 MiB)"

/-- `cleanupFileUpload` of an upload that is in no map. -/
def cleanupFileUpload (s : State) (upload : FileUpload) : State :=
  if upload.tempPath ≠ "" then { s with files := s.files.remove upload.tempPath } else s

def startFileUpload (s : State) (io : Io) (id name : String) (size : Int) : State × Response :=
  if !validUploadName name || size < 0 || size > maxUploadSize then (s, .error id invalidStart)
  else if s.directory = "" then (s, .error id "The computer upload directory is unavailable")
  else if s.full id then (s, .error id "Too many active file uploads")
  else if !io.mkdir then (s, .error id "Could not create the upload directory")
  else
    match if io.create then s.files.create (tempPath s.directory io.random) else none with
    | none => (s, .error id "Could not create a temporary upload file")
    | some files =>
      let upload : FileUpload := ⟨s.files.data.length, tempPath s.directory io.random, name, size, 0, false⟩
      let opened := { s with files }
      if opened.full id then (opened.cleanupFileUpload upload, .error id "Too many active file uploads")
      else ({ opened with uploads := s.uploads.insert id upload }, .ready id size)

/-- The end of `writeFileUpload` for a chunk that is refused or not written. -/
def rejectChunk (s : State) (id : String) (upload : FileUpload) : State × Response :=
  ({ s with uploads := s.uploads.erase id }.cleanupFileUpload upload, .error id "Invalid file chunk")

def writeFileUpload (s : State) (io : Io) (id : String) (offset : Int) (data : Option Bytes) :
    State × Response :=
  match s.uploads.lookup id with
  | none => (s, .error id "File upload is not active")
  | some upload =>
    match data with
    | none => s.rejectChunk id upload
    | some data =>
      if upload.closed || data.length > maxUploadChunk || offset ≠ upload.received ||
          upload.received + data.length > upload.size then s.rejectChunk id upload
      else
        match io.write with
        | some written => { s with files := s.files.append upload.file (data.take written) }.rejectChunk id upload
        | none =>
          ({ s with
            files := s.files.append upload.file data
            uploads := s.uploads.insert id { upload with received := upload.received + data.length } },
            .progress id (upload.received + data.length) upload.size)

/-- The end of `finishFileUpload`, after `reserveUploadPath`. -/
def concludeUpload (s : State) (id : String) (upload : FileUpload) :
    Files × Except Connector.ReserveError String → State × Response
  | (files, .error _) =>
    ({ s with files }.cleanupFileUpload upload, .error id "Could not finalize the uploaded file")
  | (files, .ok finalPath) => ({ s with files }, .complete id upload.received upload.size finalPath)

def finishFileUpload (s : State) (io : Io) (id : String) : State × Response :=
  match s.uploads.lookup id with
  | none => (s, .error id "File upload is not active")
  | some upload =>
    let s := { s with uploads := s.uploads.erase id }
    if upload.closed || upload.received ≠ upload.size then
      (s.cleanupFileUpload upload, .error id "File upload is incomplete")
    else if !io.sync || !io.close then (s.cleanupFileUpload upload, .error id "Could not save the uploaded file")
    else
      s.concludeUpload id upload
        (reserveUploadPath ⟨io.link, io.remove, true⟩ upload.tempPath s.directory upload.name s.files)

def cancelFileUpload (s : State) (id : String) : State :=
  match s.uploads.lookup id with
  | none => s
  | some upload => { s with uploads := s.uploads.erase id }.cleanupFileUpload upload

def answering (outcome : State × Response) : State × Option Response := (outcome.1, some outcome.2)

/-- What the reader does with a message on uploads, and its answer. -/
def handle (s : State) (io : Io) : Handler → State × Option Response
  | .startUpload id name size => answering (s.startFileUpload io id name size)
  | .chunk id offset data => answering (s.writeFileUpload io id offset data)
  | .finishUpload id => answering (s.finishFileUpload io id)
  | .cancelUpload id => (s.cancelFileUpload id, none)
  | _ => (s, none)

end State

/-- What a message brings about beside its answer. -/
inductive Entry
  | began (file : Nat) (size : Int)
  | accepted (file : Nat) (offset : Int) (data : Bytes)
  | completed (file : Nat) (path : String)

/-- The entry for a message with its answer, in the state before it. -/
def State.entry (s : State) : Handler → Option Response → Option Entry
  | .startUpload _ _ size, some (.ready _ _) => some (.began s.files.data.length size)
  | .chunk id offset (some data), some (.progress _ _ _) =>
    (s.uploads.lookup id).map fun upload => .accepted upload.file offset data
  | .finishUpload id, some (.complete _ _ _ path) => (s.uploads.lookup id).map fun upload => .completed upload.file path
  | _, _ => none

/-- The messages on uploads of a channel, one after the other, with the answers to them and the uploads begun,
chunks accepted and uploads completed so far. -/
structure Journal where
  state : State
  answers : List Response
  begun : List (Nat × Int)
  accepted : List (Nat × Int × Bytes)
  completed : List (Nat × String)

namespace Journal

def start (directory : String) (files : Files) : Journal := ⟨⟨directory, ∅, files⟩, [], [], [], []⟩

def enter (j : Journal) : Option Entry → Journal
  | none => j
  | some (.began file size) => { j with begun := j.begun ++ [(file, size)] }
  | some (.accepted file offset data) => { j with accepted := j.accepted ++ [(file, offset, data)] }
  | some (.completed file path) => { j with completed := j.completed ++ [(file, path)] }

def record (j : Journal) (event : Handler × Io) : Journal :=
  let (state, answer) := j.state.handle event.2 event.1
  { j.enter (j.state.entry event.1 answer) with state, answers := j.answers ++ answer.toList }

/-- The offsets and contents of the chunks accepted for a file. -/
def chunksOf (j : Journal) (file : Nat) : List (Int × Bytes) :=
  (j.accepted.filter fun chunk => chunk.1 = file).map Prod.snd

end Journal

/-- Every chunk starts where the one before it ended. -/
def Consecutive : Int → List (Int × Bytes) → Prop
  | _, [] => True
  | start, (offset, data) :: rest => offset = start ∧ Consecutive (start + data.length) rest

def joined (chunks : List (Int × Bytes)) : Bytes := (chunks.map Prod.snd).flatten

def chunkSize : Nat := 192 * 1024

/-- A message of the browser; the fields it does not have are blank. -/
def blank : Connector.Fields := ⟨"", "", "", "", "", false, "", 0, 0, 0, false, "", 0, 0⟩

/-- The chunk messages of `uploadFile` from an offset on. -/
def chunkMessages (id : String) (content : Bytes) (offset : Nat) : List (String × Connector.Fields) :=
  if offset < content.length then
    let bytes := (content.drop offset).take chunkSize
    ("file_upload_chunk", { blank with id, offset, data := E2E.bytesToBase64URL bytes }) ::
      chunkMessages id content (offset + chunkSize)
  else []
termination_by content.length - offset
decreasing_by
  have positive : 0 < chunkSize := by decide
  omega

/-- The messages that `uploadFile` sends for a file it takes, as long as each is answered as it expects. -/
def uploadFile (id name : String) (content : Bytes) : Option (List (String × Connector.Fields)) :=
  if name = "" ∨ (utf8 name).length > 240 ∨ '/' ∈ name.toList ∨ '\\' ∈ name.toList then none
  else if content.length > 100 * 1024 * 1024 then none
  else some (("file_upload_start", { blank with id, name, size := content.length }) ::
    chunkMessages id content 0 ++ [("file_upload_finish", { blank with id })])

end TermLinks.Uploads
