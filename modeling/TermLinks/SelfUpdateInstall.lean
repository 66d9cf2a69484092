import TermLinks.FileTree
import TermLinks.SelfUpdate

namespace TermLinks.SelfUpdate

def maxArchiveBytes : Nat := 128 * 2 ^ 20
def maxBinaryBytes : Nat := 128 * 2 ^ 20

/-- Which of the calls that write a new file fail; a copy fails after some bytes. -/
structure WriteFaults where
  opened : Option String
  copied : Option (Nat × String)
  synced : Option String
  closed : Option String

/-- How the steps on files go in one update: the names that are drawn, and the steps that fail. -/
structure Course where
  tempDir : Except String String
  download : WriteFaults
  archiveOpened : Option String
  next : Nat → Option String
  extract : WriteFaults
  ran : Option String
  stat : Option String
  regular : Bool
  staging : Except String String
  candidateOpened : Option String
  staged : Option (Nat × String)
  candidateClosed : Option String
  chmod : Option String
  synced : Option String
  closed : Option String
  rename : Option String
  stagingLeft : Bool
  left : String → Bool

/-- `io.Copy`: what gets across, and the error that ends it. -/
def copy (data : Bytes) (readError : Option String) (fault : Option (Nat × String)) : Bytes × Option String :=
  match fault with
  | some (n, e) => if n ≤ data.length then (data.take n, some e) else (data, readError)
  | none => (data, readError)

structure Written where
  bytes : Bytes
  copyErr : Option String
  syncErr : Option String
  closeErr : Option String

/-- A file that must not be there yet is opened, filled, synced and closed. -/
def writeNew (faults : WriteFaults) (path : String) (data : Bytes) (readError : Option String) (files : Files) :
    Except String Written × Files :=
  match faults.opened with
  | some e => (.error e, files)
  | none =>
    match files.create path with
    | none => (.error ("open " ++ path ++ ": file exists"), files)
    | some created =>
      let copied := copy data readError faults.copied
      (.ok ⟨copied.1, copied.2, faults.synced, faults.closed⟩, created.append files.data.length copied.1)

/-- The checks of `downloadFile` and `extractBinary` after a file is closed. -/
def Written.checked (written : Written) (limit : Nat) (tooLarge : String) : Except String Unit :=
  match written.copyErr with
  | some e => .error e
  | none =>
    if written.bytes.length > limit then .error tooLarge
    else
      match written.syncErr, written.closeErr with
      | some e, _ | none, some e => .error e
      | none, none => .ok ()

section

variable (env : Environment) (course : Course)

def downloadFile (rawURL destination apiHost : String) (limit : Nat) (files : Files) :
    Except String Bytes × Files :=
  match requested env .archive rawURL apiHost limit "download is too large" with
  | .error e => (.error e, files)
  | .ok response =>
    let data := limited response.body response.bodyError limit
    match writeNew course.download destination data.1 data.2 files with
    | (.error e, files) => (.error e, files)
    | (.ok written, files) =>
      ((written.checked limit "download is too large").map fun _ => env.sha256 written.bytes, files)

/-- The bytes of a name as characters of the same number: `filepath.Clean` looks at slashes and dots alone. -/
def nameText (name : Bytes) : String := String.ofList (name.map fun b => Char.ofNat b.toNat)

/-- The name leads out of the directory that the archive is unpacked in. -/
def unsafePath (name : Bytes) : Bool :=
  let cleanName := FilePath.clean (nameText name)
  FilePath.isRooted (nameText name).toList || cleanName = ".." || GoNet.hasPrefix cleanName "../"

/-- `tar.TypeReg` and `tar.TypeRegA`. -/
def regularType (typeflag : UInt8) : Bool := typeflag = 0x30 || typeflag = 0

/-- The head of the loop: the count is checked, and the next entry read. -/
def nextEntry (entries : Nat) : Except String Unit :=
  if entries ≥ 32 then .error "archive contains too many entries"
  else
    match course.next entries with
    | some e => .error e
    | none => .ok ()

/-- The loop of `extractBinary`. -/
def extractEntries (destination : String) : Nat → Bool → Listing → Files → Except String Unit × Files
  | entries, found, listing, files =>
    match nextEntry course entries with
    | .error e => (.error e, files)
    | .ok _ =>
      match listing with
      | .eof => (if found then .ok () else .error "archive does not contain termlinks", files)
      | .failed e => (.error e, files)
      | .entry name typeflag content readError rest =>
        if unsafePath name then (.error "archive contains an unsafe path", files)
        else if regularType typeflag = false then
          (.error ("archive contains unsupported entry " ++ env.quote name), files)
        else if FilePath.clean (nameText name) ≠ "termlinks" ∨ found = true then
          (.error ("archive contains unexpected entry " ++ env.quote name), files)
        else
          let data := limited content readError maxBinaryBytes
          match writeNew course.extract destination data.1 data.2 files with
          | (.error e, files) => (.error e, files)
          | (.ok written, files) =>
            match written.checked maxBinaryBytes "binary is too large" with
            | .error e => (.error e, files)
            | .ok _ => extractEntries destination (entries + 1) true rest files

/-- A call on a file that has to be there; its content is what the call may read. -/
def reach (call : String) (fault : Option String) (path : String) (files : Files) : Except String Bytes :=
  match fault, files.content path with
  | some e, _ => .error e
  | none, none => .error (call ++ " " ++ path ++ ": no such file or directory")
  | none, some content => .ok content

def extractBinary (archivePath destination : String) (files : Files) : Except String Unit × Files :=
  match reach "open" course.archiveOpened archivePath files with
  | .error e => (.error e, files)
  | .ok archive =>
    match env.unpack archive with
    | .error e => (.error e, files)
    | .ok listing => extractEntries env course destination 0 false listing files

def verifyCandidate (candidatePath expectedVersion : String) (files : Files) : Except String Unit := do
  let candidate ← wrap "verify downloaded executable: " (reach "fork/exec" course.ran candidatePath files)
  let output ← wrap "verify downloaded executable: " (env.version candidate)
  if Runes.trimSpace output ≠ utf8 ("termlinks " ++ expectedVersion) then
    .error ("downloaded executable reported unexpected version " ++ env.quote (Runes.trimSpace output))
  else .ok ()

/-- `filepath.Abs`. -/
def absPath (path : String) : Except String String :=
  if FilePath.isRooted path.toList then .ok (FilePath.clean path) else env.getwd.map fun wd => FilePath.join wd path

/-- `filepath.Dir`. -/
def dirOf (path : String) : String :=
  FilePath.clean (String.ofList (path.toList.reverse.dropWhile (· ≠ '/')).reverse)

/-- The rest of `replaceExecutable` once its staging file, with the given number, is there. -/
def stage (executablePath candidatePath stagingPath : String) (file : Nat) (files : Files) :
    Except String Unit × Files :=
  match reach "open" course.candidateOpened candidatePath files with
  | .error e => (.error e, files)
  | .ok candidate =>
    let copied := copy candidate none course.staged
    let files := files.append file copied.1
    let checked : Except String Unit := do
      wrap "stage update: " (copied.2.elim (.ok ()) .error)
      wrap "read downloaded executable: " (course.candidateClosed.elim (.ok ()) .error)
      wrap "make staged update executable: " (course.chmod.elim (.ok ()) .error)
      wrap "sync staged update: " (course.synced.elim (.ok ()) .error)
      wrap "close staged update: " (course.closed.elim (.ok ()) .error)
    match checked with
    | .error e => (.error e, files)
    | .ok _ =>
      let refused := fun e => "replace " ++ executablePath ++ ": " ++ e ++
        " (if it is administrator-owned, rerun with appropriate privileges)"
      match course.rename, files.rename stagingPath executablePath with
      | some e, _ => (.error (refused e), files)
      | none, none => (.error (refused "no such file or directory"), files)
      | none, some renamed => (.ok (), renamed)

def replaceExecutable (executablePath candidatePath : String) (files : Files) : Except String Unit × Files :=
  match absPath env executablePath with
  | .error e => (.error ("resolve executable path: " ++ e), files)
  | .ok executablePath =>
    match reach "stat" course.stat executablePath files with
    | .error e => (.error ("inspect current executable: " ++ e), files)
    | .ok _ =>
      if course.regular = false then (.error "current executable is not a regular file", files)
      else
        let refused := fun e => "prepare update beside " ++ executablePath ++ ": " ++ e ++
          " (if it is administrator-owned, rerun with appropriate privileges)"
        match course.staging with
        | .error e => (.error (refused e), files)
        | .ok drawn =>
          let stagingPath := FilePath.join (dirOf executablePath) (".termlinks-update-" ++ drawn)
          match files.create stagingPath with
          | none => (.error (refused "file exists"), files)
          | some created =>
            let staged := stage course executablePath candidatePath stagingPath files.data.length created
            (staged.1, if course.stagingLeft then staged.2 else staged.2.remove stagingPath)

/-- What `Update` does in its own directory. -/
def install (plan : Plan) (tempDir : String) (files : Files) : Except String Unit × Files :=
  let archivePath := FilePath.join tempDir plan.assetName
  match downloadFile env course plan.archiveURL archivePath plan.apiHost maxArchiveBytes files with
  | (.error e, files) => (.error ("download " ++ plan.assetName ++ ": " ++ e), files)
  | (.ok actualChecksum, files) =>
    if plan.expectedChecksum ≠ actualChecksum then
      (.error ("SHA-256 verification failed for " ++ plan.assetName), files)
    else
      let candidatePath := FilePath.join tempDir "termlinks"
      match extractBinary env course archivePath candidatePath files with
      | (.error e, files) => (.error ("extract " ++ plan.assetName ++ ": " ++ e), files)
      | (.ok _, files) =>
        match verifyCandidate env course candidatePath plan.latest.toText files with
        | .error e => (.error e, files)
        | .ok _ => replaceExecutable env course plan.executablePath candidatePath files

/-- `Update`: its directory is removed again, however it ends. -/
def update (options : Options) (files : Files) : Except String Result × Files :=
  match checkLatest env options with
  | .error e => (.error e, files)
  | .ok (.inl result) => (.ok result, files)
  | .ok (.inr plan) =>
    match course.tempDir with
    | .error e => (.error ("create update workspace: " ++ e), files)
    | .ok tempDir =>
      if files.vacant tempDir = false then
        (.error ("create update workspace: mkdir " ++ tempDir ++ ": file exists"), files)
      else
        let installed := install env course plan tempDir files
        (installed.1.map fun _ => ⟨plan.current.toText, plan.latest.toText, plan.assetName, true⟩,
          installed.2.removeAll tempDir course.left)

end

end TermLinks.SelfUpdate
