import TermLinks.SelfUpdateInstall

namespace TermLinks.SelfUpdate

/-- The checksum is that of the first line which names the file. -/
def FirstEntry (contents : Bytes) (filename : String) (checksum : Bytes) : Prop :=
  ∃ before line after sum, contents.splitOn 10 = before ++ line :: after ∧
    (∀ other ∈ before, lineSum filename other = none) ∧ lineSum filename line = some sum ∧
      hexDecode sum = some checksum

section

variable {env : Environment} {fetch : Fetch} {rawURL apiHost : String} {limit : Nat}

theorem limited_whole {data got : Bytes} {error : Option String} (h : limited data error limit = (got, none))
    (fits : got.length ≤ limit) : got = data ∧ error = none := by
  simp only [limited, Prod.mk.injEq] at h
  obtain ⟨taken, ended⟩ := h
  have length := congrArg List.length taken
  rw [List.length_take] at length
  have short : data.length ≤ limit := by omega
  rw [if_pos short] at ended
  rw [List.take_of_length_le (by omega)] at taken
  exact ⟨taken.symm, ended⟩

theorem requested_eq {tooLarge : String} {response : Response}
    (h : requested env fetch rawURL apiHost limit tooLarge = .ok response) :
    (env.exchange fetch).response = .ok response := by
  obtain ⟨request, _, h⟩ := bind_ok_iff.mp h
  obtain ⟨answer, sent, h⟩ := bind_ok_iff.mp h
  split at h
  next => cases h
  next =>
    split at h
    next => cases h
    next =>
      cases h
      unfold clientDo at sent
      split at sent
      next there =>
        cases sent
        exact there
      next => cases sent
      next => cases sent

/-- The bytes are the whole body of the reply. -/
theorem getBytes_eq {data : Bytes} (h : getBytes env fetch rawURL apiHost limit = .ok data) :
    ∃ response, (env.exchange fetch).response = .ok response ∧ response.body = data := by
  obtain ⟨response, sent, h⟩ := bind_ok_iff.mp h
  refine ⟨response, requested_eq sent, ?_⟩
  split at h
  next => cases h
  next got read =>
    split at h
    next => cases h
    next small =>
      cases h
      exact (limited_whole read (by omega)).1.symm

theorem checksumIn_eq {filename : String} {lines : List Bytes} {checksum : Bytes}
    (h : checksumIn filename lines = .ok checksum) : ∃ before line after sum, lines = before ++
      line :: after ∧
      (∀ other ∈ before, lineSum filename other = none) ∧ lineSum filename line = some sum ∧
        hexDecode sum = some checksum := by
  induction lines with
  | nil => cases h
  | cons line rest ih =>
    simp only [checksumIn] at h
    split at h
    next other =>
      obtain ⟨before, found, after, sum, rfl, none, entry⟩ := ih h
      exact ⟨line :: before, found, after, sum, rfl, List.forall_mem_cons.mpr ⟨other, none⟩, entry⟩
    next sum entry =>
      split at h
      next => cases h
      next decoded value =>
        split at h
        next => cases h
        next =>
          cases h
          exact ⟨[], line, rest, sum, rfl, List.forall_mem_nil _, entry, value⟩

/-- What the replies are found to say before anything is written. -/
structure Announced (env : Environment) (options : Options) (plan : Plan) : Prop where
  executable : executableOf env options = .ok plan.executablePath
  current : parseVersion env.quote options.currentVersion = .ok plan.current
  latest : ∃ response release, (env.exchange .release).response = .ok response ∧
    env.unmarshal response.body = .ok release ∧ parseVersion env.quote release.tagName = .ok plan.latest
  newer : plan.current.numbers < plan.latest.numbers
  named : plan.assetName = assetNameOf plan.latest (if options.goos = "" then env.goos else options.goos)
    (if options.goarch = "" then env.goarch else options.goarch)
  checksum : ∃ response, (env.exchange .checksums).response = .ok response ∧
    FirstEntry response.body plan.assetName plan.expectedChecksum

/-- What is found out before anything is written: there is nothing to do, or all that a plan rests on. -/
theorem checkLatest_cases {options : Options} {found : Result ⊕ Plan}
    (h : checkLatest env options = .ok found) :
    (∃ result, found = .inl result ∧ result.updated = false) ∨
      ∃ plan, found = .inr plan ∧ Announced env options plan := by
  unfold checkLatest at h
  generalize goosEq : (if options.goos = "" then env.goos else options.goos) = goos at h
  generalize goarchEq : (if options.goarch = "" then env.goarch else options.goarch) = goarch at h
  by_cases missing : options.currentVersion = ""
  · rw [if_pos missing] at h
    cases h
  · rw [if_neg missing] at h
    obtain ⟨current, parsed, h⟩ := bind_ok_iff.mp h
    obtain ⟨path, executable, h⟩ := bind_ok_iff.mp h
    obtain ⟨host, _, h⟩ := bind_ok_iff.mp h
    obtain ⟨release, got, h⟩ := bind_ok_iff.mp h
    obtain ⟨latest, tagged, h⟩ := bind_ok_iff.mp h
    obtain ⟨data, fetched, decoded⟩ := bind_ok_iff.mp (wrap_eq_ok.mp got)
    obtain ⟨response, answered, rfl⟩ := getBytes_eq fetched
    split at h
    next =>
      cases h
      exact Or.inl ⟨_, rfl, rfl⟩
    next newer =>
      dsimp only at h
      split at h
      next => cases h
      next archive _ =>
        split at h
        next => cases h
        next asset _ =>
          obtain ⟨checksums, listed, h⟩ := bind_ok_iff.mp h
          obtain ⟨list, replied, rfl⟩ := getBytes_eq (wrap_eq_ok.mp listed)
          obtain ⟨expected, entry, h⟩ := bind_ok_iff.mp h
          cases h
          refine Or.inr ⟨_, rfl, executable, wrap_eq_ok.mp parsed, ?_, ?_, ?_, list, replied, checksumIn_eq entry⟩
          · exact ⟨response, release, answered, wrap_eq_ok.mp decoded, wrap_eq_ok.mp tagged⟩
          · exact SemanticVersion.compare_neg.mp (Int.not_le.mp newer)
          · rw [goosEq, goarchEq]

end

section

variable {env : Environment} {course : Course} {files after : Files} {path destination : String}
  {such : String → Prop}

theorem copy_whole {data : Bytes} {readError : Option String} {fault : Option (Nat × String)}
    (h : (copy data readError fault).2 = none) : (copy data readError fault).1 = data ∧ readError = none := by
  unfold copy at h ⊢
  split at h
  next n e =>
    split at h
    next => cases h
    next => exact ⟨by rw [if_neg (by assumption)], h⟩
  next => exact ⟨rfl, h⟩

theorem checked_ok {written : Written} {limit : Nat} {tooLarge : String}
    (h : written.checked limit tooLarge = .ok ()) : written.copyErr = none ∧
    written.bytes.length ≤ limit := by
  unfold Written.checked at h
  split at h
  next => cases h
  next complete =>
    split at h
    next => cases h
    next small => exact ⟨complete, by omega⟩

theorem writeNew_kept (such : String → Prop) (faults : WriteFaults) (path : String) (data : Bytes)
    (readError : Option String) (files : Files) :
    Files.Kept such files (writeNew faults path data readError files).2 := by
  unfold writeNew
  split
  next => exact Files.Kept.refl such files
  next =>
    split
    next => exact Files.Kept.refl such files
    next created new => exact (Files.kept_create new).append (Nat.le_refl _) _

/-- A file that is written and checked holds all that was to be read. -/
theorem writeNew_whole {faults : WriteFaults} {source : Bytes} {error : Option String} {limit : Nat}
    {written : Written} {tooLarge : String}
    (h : writeNew faults path (limited source error limit).1 (limited source error limit).2 files =
      (.ok written, after))
    (checked : written.checked limit tooLarge = .ok ()) :
    written.bytes = source ∧ error = none ∧ after.content path = some source := by
  obtain ⟨complete, small⟩ := checked_ok checked
  unfold writeNew at h
  split at h
  next => cases h
  next =>
    split at h
    next => cases h
    next created new =>
      cases h
      obtain ⟨all, ended⟩ := copy_whole complete
      dsimp only at small ⊢
      rw [all] at small ⊢
      obtain ⟨whole, readable⟩ := limited_whole (Prod.ext rfl ended) small
      exact ⟨whole, readable, (Files.content_new new _).trans (congrArg some whole)⟩

theorem downloadFile_kept (such : String → Prop) (env : Environment) (course : Course)
    (rawURL destination apiHost : String) (limit : Nat) (files : Files) :
    Files.Kept such files (downloadFile env course rawURL destination apiHost limit files).2 := by
  unfold downloadFile
  split
  next => exact Files.Kept.refl such files
  next response _ =>
    have kept := writeNew_kept such course.download destination (limited response.body response.bodyError limit).1
      (limited response.body response.bodyError limit).2 files
    dsimp only
    split
    next refused =>
      rw [refused] at kept
      exact kept
    next written =>
      rw [written] at kept
      exact kept

/-- The sum is that of the whole body, and so is the file. -/
theorem downloadFile_ok {rawURL apiHost : String} {limit : Nat} {sum : Bytes}
    (h : downloadFile env course rawURL destination apiHost limit files = (.ok sum, after)) :
    ∃ response, (env.exchange .archive).response = .ok response ∧ env.sha256 response.body = sum ∧
      after.content destination = some response.body := by
  unfold downloadFile at h
  split at h
  next => cases h
  next response sent =>
    dsimp only at h
    split at h
    next => cases h
    next written files wrote =>
      obtain ⟨outcome, rfl⟩ := Prod.mk.inj h
      cases checked : written.checked limit "download is too large" with
      | error e =>
        rw [checked] at outcome
        cases outcome
      | ok _ =>
        rw [checked] at outcome
        cases outcome
        obtain ⟨all, -, held⟩ := writeNew_whole wrote checked
        exact ⟨response, requested_eq sent, by rw [all], held⟩

theorem extractEntries_kept (such : String → Prop) (destination : String) (entries : Nat) (found : Bool)
    (listing : Listing) (files : Files) :
    Files.Kept such files (extractEntries env course destination entries found listing files).2 := by
  induction listing generalizing entries found files with
  | eof =>
    unfold extractEntries
    split
    next => exact Files.Kept.refl such files
    next => exact Files.Kept.refl such files
  | failed e =>
    unfold extractEntries
    split
    next => exact Files.Kept.refl such files
    next => exact Files.Kept.refl such files
  | entry name typeflag content readError rest ih =>
    have kept := writeNew_kept such course.extract destination (limited content readError maxBinaryBytes).1
      (limited content readError maxBinaryBytes).2 files
    unfold extractEntries
    split
    next => exact Files.Kept.refl such files
    next =>
      dsimp only
      split
      next => exact Files.Kept.refl such files
      next =>
        split
        next => exact Files.Kept.refl such files
        next =>
          split
          next => exact Files.Kept.refl such files
          next =>
            split
            next refused =>
              rw [refused] at kept
              exact kept
            next written =>
              rw [written] at kept
              split
              next => exact kept
              next => exact kept.trans (ih _ _ _)

/-- Behind the one entry there is only the end of the archive. -/
theorem extractEntries_found {entries : Nat} {listing : Listing}
    (h : extractEntries env course destination entries true listing files = (.ok (), after)) :
    listing = .eof ∧ after = files := by
  unfold extractEntries at h
  split at h
  next => cases h
  next =>
    cases listing with
    | eof =>
      cases h
      exact ⟨rfl, rfl⟩
    | failed e => cases h
    | entry name typeflag content readError rest =>
      dsimp only at h
      split at h
      next => cases h
      next =>
        split at h
        next => cases h
        next =>
          rw [if_pos (Or.inr rfl)] at h
          cases h

/-- The archive holds one regular file by the name of the program. -/
def Holds (listing : Listing) (content : Bytes) : Prop :=
  ∃ name typeflag, listing = .entry name typeflag content none .eof ∧ regularType typeflag = true ∧
    FilePath.clean (nameText name) = "termlinks"

theorem extractEntries_ok {entries : Nat} {listing : Listing}
    (h : extractEntries env course destination entries false listing files = (.ok (), after)) :
    ∃ content, Holds listing content ∧ after.content destination = some content := by
  unfold extractEntries at h
  split at h
  next => cases h
  next =>
    cases listing with
    | eof => cases h
    | failed e => cases h
    | entry name typeflag content readError rest =>
      dsimp only at h
      split at h
      next => cases h
      next =>
        split at h
        next => cases h
        next regular =>
          split at h
          next => cases h
          next expected =>
            split at h
            next => cases h
            next written files wrote =>
              split at h
              next => cases h
              next checked =>
                obtain ⟨rfl, rfl⟩ := extractEntries_found h
                obtain ⟨-, rfl, held⟩ := writeNew_whole wrote checked
                have named : FilePath.clean (nameText name) = "termlinks" := by
                  by_contra other
                  exact expected (Or.inl other)
                exact ⟨content, ⟨name, typeflag, rfl, by simpa using regular, named⟩, held⟩

theorem reach_ok {call : String} {fault : Option String} {content : Bytes}
    (h : reach call fault path files = .ok content) : files.content path = some content := by
  unfold reach at h
  split at h
  next => cases h
  next => cases h
  next held =>
    cases h
    exact held

theorem extractBinary_kept (such : String → Prop) (env : Environment) (course : Course)
    (archivePath destination : String) (files : Files) :
    Files.Kept such files (extractBinary env course archivePath destination files).2 := by
  unfold extractBinary
  split
  next => exact Files.Kept.refl such files
  next =>
    split
    next => exact Files.Kept.refl such files
    next => exact extractEntries_kept such destination 0 false _ files

theorem extractBinary_ok {archivePath : String}
    (h : extractBinary env course archivePath destination files = (.ok (), after)) :
    ∃ archive listing content, files.content archivePath = some archive ∧ env.unpack archive = .ok listing ∧
      Holds listing content ∧ after.content destination = some content := by
  unfold extractBinary at h
  split at h
  next => cases h
  next archive opened =>
    split at h
    next => cases h
    next listing unpacked =>
      obtain ⟨content, holds, held⟩ := extractEntries_ok h
      exact ⟨archive, listing, content, reach_ok opened, unpacked, holds, held⟩

/-- A program says that it is of this version. -/
def Reports (env : Environment) (content : Bytes) (version : String) : Prop :=
  ∃ output, env.version content = .ok output ∧ Runes.trimSpace output = utf8 ("termlinks " ++ version)

theorem verifyCandidate_ok {version : String} (h : verifyCandidate env course path version files = .ok ()) :
    ∃ content, files.content path = some content ∧ Reports env content version := by
  obtain ⟨content, ran, h⟩ := bind_ok_iff.mp h
  obtain ⟨output, printed, h⟩ := bind_ok_iff.mp h
  split at h
  next => cases h
  next expected =>
    exact ⟨content, reach_ok (wrap_eq_ok.mp ran), output, wrap_eq_ok.mp printed, Decidable.not_not.mp expected⟩

/-- The staging file is left alone or written to, unless all of it is in place. -/
theorem stage_error {executablePath candidatePath stagingPath e : String} {file : Nat}
    (h : stage course executablePath candidatePath stagingPath file files = (.error e, after)) :
    after = files ∨ ∃ bytes, after = files.append file bytes := by
  unfold stage at h
  split at h
  next =>
    cases h
    exact Or.inl rfl
  next =>
    dsimp only at h
    split at h
    next =>
      cases h
      exact Or.inr ⟨_, rfl⟩
    next =>
      split at h
      next =>
        cases h
        exact Or.inr ⟨_, rfl⟩
      next =>
        cases h
        exact Or.inr ⟨_, rfl⟩
      next => cases h

theorem stage_ok {executablePath candidatePath stagingPath : String} {file : Nat}
    (h : stage course executablePath candidatePath stagingPath file files = (.ok (), after)) :
    ∃ content, files.content candidatePath = some content ∧
      (files.append file content).rename stagingPath executablePath = some after := by
  unfold stage at h
  split at h
  next => cases h
  next candidate opened =>
    dsimp only at h
    split at h
    next => cases h
    next checked =>
      split at h
      next => cases h
      next => cases h
      next renamed =>
        cases h
        obtain ⟨_, copied, _⟩ := bind_ok_iff.mp checked
        have complete : (copy candidate none course.staged).2 = none := by
          cases ended : (copy candidate none course.staged).2 with
          | none => rfl
          | some e =>
            rw [ended] at copied
            cases copied
        rw [(copy_whole complete).1] at renamed
        exact ⟨candidate, reach_ok opened, renamed⟩

/-- A failed replacement takes nothing away, and a successful one nothing but the old content of the executable. -/
theorem replaceExecutable_error {executablePath candidatePath e : String}
    (h : replaceExecutable env course executablePath candidatePath files = (.error e, after)) :
    Files.Kept such files after := by
  unfold replaceExecutable at h
  split at h
  next =>
    cases h
    exact Files.Kept.refl such files
  next executable _ =>
    split at h
    next =>
      cases h
      exact Files.Kept.refl such files
    next =>
      split at h
      next =>
        cases h
        exact Files.Kept.refl such files
      next =>
        dsimp only at h
        split at h
        next =>
          cases h
          exact Files.Kept.refl such files
        next drawn _ =>
          split at h
          next =>
            cases h
            exact Files.Kept.refl such files
          next created new =>
            generalize FilePath.join (dirOf executable) (".termlinks-update-" ++ drawn) = stagingPath at new h
            rcases staged : stage course executable candidatePath stagingPath files.data.length created with
              ⟨outcome, held⟩
            rw [staged] at h
            obtain ⟨rfl, rfl⟩ := Prod.mk.inj h
            have kept : Files.Kept such files held := by
              rcases stage_error staged with rfl | ⟨bytes, rfl⟩
              · exact Files.kept_create new
              · exact (Files.kept_create new).append (Nat.le_refl _) bytes
            split
            next => exact kept
            next => exact kept.remove fun p _ there => Files.apart_of_free (Files.create_eq new).1 p there

theorem replaceExecutable_ok {executablePath candidatePath : String} {content : Bytes}
    (candidate : files.content candidatePath = some content)
    (h : replaceExecutable env course executablePath candidatePath files = (.ok (), after)) :
    ∃ exe, absPath env executablePath = .ok exe ∧ after.content exe = some content ∧
      Files.Kept (fun p => FilePath.clean p ≠ FilePath.clean exe) files after := by
  unfold replaceExecutable at h
  split at h
  next => cases h
  next exe resolved =>
    split at h
    next => cases h
    next inspected =>
      split at h
      next => cases h
      next =>
        dsimp only at h
        split at h
        next => cases h
        next drawn _ =>
          split at h
          next => cases h
          next created new =>
            generalize FilePath.join (dirOf exe) (".termlinks-update-" ++ drawn) = stagingPath at new h
            rcases staged : stage course exe candidatePath stagingPath files.data.length created with
              ⟨outcome, held⟩
            rw [staged] at h
            obtain ⟨rfl, rfl⟩ := Prod.mk.inj h
            have free := (Files.create_eq new).1
            have there : files.find exe ≠ none := Files.find_of_content (reach_ok inspected)
            have apart := Files.apart_of_free free exe there
            obtain ⟨bytes, opened, renamed⟩ := stage_ok staged
            have same : bytes = content := by
              have older : Files.Kept (fun _ => True) files created := Files.kept_create new
              have read := older.content trivial (Files.find_of_content candidate)
              rw [opened, candidate] at read
              exact Option.some.inj read
            subst same
            obtain ⟨moved, others⟩ := Files.rename_eq renamed
            rw [Files.content_new new] at moved
            have kept := ((Files.kept_create new).append (Nat.le_refl _) bytes).trans others
            have kept : Files.Kept (fun p => FilePath.clean p ≠ FilePath.clean exe) files held :=
              kept.weaken fun p other there => ⟨other, Files.apart_of_free free p there⟩
            refine ⟨exe, resolved, ?_, ?_⟩
            · split
              next => exact moved
              next => rw [Files.content_remove_other apart, moved]
            · split
              next => exact kept
              next => exact kept.remove fun p _ there => Files.apart_of_free free p there

/-- The program that is to be installed is what the release announces. -/
structure Verified (env : Environment) (plan : Plan) (content : Bytes) : Prop where
  archive : ∃ response listing, (env.exchange .archive).response = .ok response ∧
    env.sha256 response.body = plan.expectedChecksum ∧ env.unpack response.body = .ok listing ∧
      Holds listing content
  version : Reports env content plan.latest.toText

theorem install_error {plan : Plan} {tempDir e : String}
    (h : install env course plan tempDir files = (.error e, after)) : Files.Kept such files after := by
  unfold install at h
  have downloaded := downloadFile_kept such env course plan.archiveURL (FilePath.join tempDir plan.assetName)
    plan.apiHost maxArchiveBytes files
  dsimp only at h
  split at h
  next refused =>
    cases h
    rw [refused] at downloaded
    exact downloaded
  next archived download =>
    rw [download] at downloaded
    split at h
    next =>
      cases h
      exact downloaded
    next =>
      have extracted := extractBinary_kept such env course (FilePath.join tempDir plan.assetName)
        (FilePath.join tempDir "termlinks") archived
      split at h
      next refused =>
        cases h
        rw [refused] at extracted
        exact downloaded.trans extracted
      next extract =>
        rw [extract] at extracted
        split at h
        next =>
          cases h
          exact downloaded.trans extracted
        next => exact (downloaded.trans extracted).trans (replaceExecutable_error h)

theorem install_ok {plan : Plan} {tempDir : String}
    (h : install env course plan tempDir files = (.ok (), after)) :
    ∃ exe content, absPath env plan.executablePath = .ok exe ∧ Verified env plan content ∧
      after.content exe = some content ∧
        Files.Kept (fun p => FilePath.clean p ≠ FilePath.clean exe) files after := by
  unfold install at h
  dsimp only at h
  split at h
  next => cases h
  next sum archived download =>
    have downloaded := downloadFile_kept (fun _ => True) env course plan.archiveURL
      (FilePath.join tempDir plan.assetName) plan.apiHost maxArchiveBytes files
    rw [download] at downloaded
    split at h
    next => cases h
    next agrees =>
      split at h
      next => cases h
      next extracted extract =>
        have unpacked := extractBinary_kept (fun _ => True) env course (FilePath.join tempDir plan.assetName)
          (FilePath.join tempDir "termlinks") archived
        rw [extract] at unpacked
        split at h
        next => cases h
        next verified =>
          obtain ⟨response, replied, hashed, body⟩ := downloadFile_ok download
          obtain ⟨archive, listing, content, opened, listed, holds, candidate⟩ := extractBinary_ok extract
          obtain ⟨ran, found, reports⟩ := verifyCandidate_ok verified
          rw [body] at opened
          cases opened
          rw [candidate] at found
          cases found
          obtain ⟨exe, resolved, replaced, others⟩ := replaceExecutable_ok candidate h
          have announced : env.sha256 response.body = plan.expectedChecksum :=
            hashed.trans (Decidable.not_not.mp agrees).symm
          have fit : Verified env plan content := ⟨⟨response, listing, replied, announced, listed, holds⟩, reports⟩
          have older := downloaded.trans unpacked
          exact ⟨exe, content, resolved, fit, replaced, (older.weaken fun _ _ _ => trivial).trans others⟩

end

/-- The update is not done, and takes nothing away. -/
def NotDone (outcome : Except String Result × Files) (files : Files) : Prop :=
  (∀ result, outcome.1 = .ok result → result.updated = false) ∧ Files.Kept (fun _ => True) files outcome.2

/-- The update is done: the program is verified, and takes the place of the executable and of nothing else. -/
structure Done (env : Environment) (plan : Plan) (exe : String) (content : Bytes)
    (outcome : Except String Result × Files) (files : Files) : Prop where
  result : outcome.1 = .ok ⟨plan.current.toText, plan.latest.toText, plan.assetName, true⟩
  resolved : absPath env plan.executablePath = .ok exe
  verified : Verified env plan content
  replaced : files.find exe ≠ none → outcome.2.content exe = some content
  others : Files.Kept (fun p => FilePath.clean p ≠ FilePath.clean exe) files outcome.2

theorem update_cases (env : Environment) (course : Course) (options : Options) (files : Files) :
    NotDone (update env course options files) files ∨
      ∃ plan exe content, Announced env options plan ∧
        Done env plan exe content (update env course options files) files := by
  unfold update
  split
  next => exact Or.inl ⟨nofun, Files.Kept.refl _ files⟩
  next result checked =>
    rcases checkLatest_cases checked with ⟨found, same, current⟩ | ⟨plan, other, _⟩
    · cases same
      refine Or.inl ⟨?_, Files.Kept.refl _ files⟩
      intro given returned
      cases returned
      exact current
    · cases other
  next plan checked =>
    rcases checkLatest_cases checked with ⟨found, other, _⟩ | ⟨announced, same, facts⟩
    · cases other
    · cases same
      split
      next => exact Or.inl ⟨nofun, Files.Kept.refl _ files⟩
      next tempDir _ =>
        split
        next => exact Or.inl ⟨nofun, Files.Kept.refl _ files⟩
        next fresh =>
          have vacant : files.vacant tempDir = true := by simpa using fresh
          rcases installed : install env course plan tempDir files with ⟨outcome, held⟩
          cases outcome with
          | error e =>
            have kept : Files.Kept (fun _ => True) files held := install_error installed
            exact Or.inl ⟨nofun, kept.removeAll (fun p _ there => Files.vacant_apart vacant there) course.left⟩
          | ok _ =>
            obtain ⟨exe, content, resolved, verified, replaced, others⟩ := install_ok installed
            refine Or.inr ⟨plan, exe, content, facts, rfl, resolved, verified, ?_, ?_⟩
            · intro there
              have kept : Files.Kept (· = exe) held (held.removeAll tempDir course.left) :=
                (Files.Kept.refl _ held).removeAll (fun p named _ => named ▸ Files.vacant_apart vacant there)
                  course.left
              exact (kept.content rfl (Files.find_of_content replaced)).trans replaced
            · exact others.removeAll (fun p _ there => Files.vacant_apart vacant there) course.left

/-- Whatever fails, the executable is a verified newer one when the update is done, and what it was when not. -/
theorem update_installs_only_verified (env : Environment) (course : Course) (options : Options) (files : Files)
    {exe : String} {old : Bytes} (located : (executableOf env options >>= absPath env) = .ok exe)
    (installed : files.content exe = some old) :
    (∃ result plan content, (update env course options files).1 = .ok result ∧ result.updated = true ∧
        Announced env options plan ∧ Verified env plan content ∧
          (update env course options files).2.content exe = some content) ∨
      (∀ result, (update env course options files).1 = .ok result → result.updated = false) ∧
        (update env course options files).2.content exe = some old := by
  have there : files.find exe ≠ none := Files.find_of_content installed
  rcases update_cases env course options files with ⟨outcome, kept⟩ | ⟨plan, target, content, announced, done⟩
  · exact Or.inr ⟨outcome, (kept.content trivial there).trans installed⟩
  · obtain ⟨path, chosen, resolved⟩ := bind_ok_iff.mp located
    have same := chosen.symm.trans announced.executable
    cases same
    have target := resolved.symm.trans done.resolved
    cases target
    exact Or.inl ⟨_, plan, content, done.result, rfl, announced, done.verified, done.replaced there⟩

namespace Sample

def asset (name : String) : Asset :=
  ⟨name, "https://github.com/Ratul1997/termlinks/releases/download/v0.2.0/" ++ name⟩

def build : String := "termlinks_0.2.0_linux_amd64.tar.gz"

def assetText (asset : Asset) : String :=
  "\x7b\"name\":\"" ++ asset.name ++ "\",\"browser_download_url\":\"" ++ asset.url ++ "\"\x7d"

def release : Release := ⟨"v0.2.0", [asset build, asset "checksums.txt"]⟩

def releaseText : Bytes :=
  utf8 ("\x7b\"tag_name\":\"v0.2.0\",\"assets\":[" ++ assetText (asset build) ++ "," ++
    assetText (asset "checksums.txt") ++ "]\x7d")

/-- A script that prints its version. -/
def program : Bytes := utf8 "#!/bin/sh\necho termlinks 0.2.0\n"

/-- The archive that holds the script alone. -/
def archive : Bytes :=
  [31, 139, 8, 0, 0, 0, 0, 0, 0, 255, 43, 73, 45, 202, 205, 201, 204, 203, 46, 102, 160, 29, 48, 0, 2, 115, 83,
   83, 48, 13, 4, 232, 180, 129, 129, 177, 57, 130, 13, 22, 55, 55, 55, 48, 102, 80, 48, 96, 160, 3, 40, 45, 46,
   73, 44, 2, 90, 201, 48, 50, 129, 178, 162, 126, 82, 102, 158, 126, 113, 6, 87, 106, 114, 70, 190, 66, 9, 44,
   57, 40, 24, 232, 25, 233, 25, 112, 141, 208, 80, 25, 5, 163, 96, 20, 140, 130, 225, 15, 0, 226, 171, 216,
   248, 0, 8, 0, 0]

def archiveSum : Bytes :=
  [72, 84, 125, 168, 114, 11, 175, 208, 14, 4, 157, 67, 38, 254, 116, 193, 122, 1, 14, 209, 119, 95, 134, 141,
   122, 157, 34, 28, 178, 21, 69, 126]

def checksums : Bytes :=
  utf8 ("48547da8720bafd00e049d4326fe74c17a010ed1775f868d7a9d221cb215457e  " ++ build ++ "\n")

def reply (body : Bytes) : Exchange := ⟨[], .ok ⟨200, "200 OK", body.length, body, none⟩⟩

def urlOf (text host : String) : URL := ⟨"https", host, false, text⟩

/-- A system on which an update to this release goes well. -/
def environment : Environment where
  executable := .ok "/usr/local/bin/termlinks"
  getwd := .ok "/"
  goos := "linux"
  goarch := "amd64"
  quote := fun text => toString (text.map UInt8.toNat)
  parseURL := fun text =>
    if text = latestReleaseURL then .ok (urlOf text "api.github.com") else .ok (urlOf text "github.com")
  newRequest := fun _ => none
  transportError := fun url e => "Get " ++ url.text ++ ": " ++ e
  exchange
    | .release => reply releaseText
    | .checksums => reply checksums
    | .archive => reply archive
  unmarshal := fun data => if data = releaseText then .ok release else .error "invalid character"
  sha256 := fun data => if data = archive then archiveSum else List.replicate 32 0
  unpack := fun data =>
    if data = archive then .ok (.entry (utf8 "termlinks") 0x30 program none .eof) else .error "gzip: invalid header"
  version := fun data => if data = program then .ok (utf8 "termlinks 0.2.0\n") else .error "exec format error"

def files : Files := ((Files.empty.create "/usr/local/bin/termlinks").getD Files.empty).append 0 (utf8 "old")

def writes : WriteFaults := ⟨none, none, none, none⟩

/-- No step fails. -/
def course : Course where
  tempDir := .ok "/tmp/termlinks-update-1"
  download := writes
  archiveOpened := none
  next := fun _ => none
  extract := writes
  ran := none
  stat := none
  regular := true
  staging := .ok "1"
  candidateOpened := none
  staged := none
  candidateClosed := none
  chmod := none
  synced := none
  closed := none
  rename := none
  stagingLeft := false
  left := fun _ => false

def options : Options := ⟨"0.1.0", "", "", "", ""⟩

end Sample

theorem update_installs_only_verified_sample :
    ∃ result plan content, (update Sample.environment Sample.course Sample.options Sample.files).1 =
      .ok result ∧
      result.updated = true ∧ Announced Sample.environment Sample.options plan ∧
        Verified Sample.environment plan content ∧
          (update Sample.environment Sample.course Sample.options Sample.files).2.content
            "/usr/local/bin/termlinks" =
            some content := by
  have finished : (update Sample.environment Sample.course Sample.options Sample.files).1 =
      .ok ⟨"0.1.0", "0.2.0", Sample.build, true⟩ := by decide +kernel
  have located : (executableOf Sample.environment Sample.options >>= absPath Sample.environment) =
      .ok "/usr/local/bin/termlinks" := by decide
  have installed : Sample.files.content "/usr/local/bin/termlinks" = some (utf8 "old") := by decide
  rcases update_installs_only_verified Sample.environment Sample.course Sample.options Sample.files located installed
    with verified | ⟨current, _⟩
  · exact verified
  · cases current _ finished

end TermLinks.SelfUpdate
