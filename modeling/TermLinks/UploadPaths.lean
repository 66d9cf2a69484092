import TermLinks.ConnectorHandlers
import TermLinks.Files
import Std.Data.String.ToNat

namespace TermLinks.Connector

open FilePath

/-- Which of its calls `reserveUploadPath` gets through: the link at each suffix, as far as the name is free, the
removal of the temporary file, and that of the candidate after it. -/
structure Faults where
  link : Nat → Bool
  remove : Bool
  rollback : Bool

inductive ReserveError
  | link
  | remove
  | tooMany
deriving DecidableEq

/-- The name tried with a suffix. -/
def candidateName (name : String) (suffix : Nat) : String :=
  let extension := ext name
  let stem := trimSuffix name extension
  if suffix > 0 then stem ++ " (" ++ toString suffix ++ ")" ++ extension else name

/-- The loop of `reserveUploadPath`, from a suffix on. -/
def reserveFrom (faults : Faults) (tempPath directory name : String) :
    Nat → Nat → Files → Files × Except ReserveError String
  | 0, _, files => (files, .error .tooMany)
  | rounds + 1, suffix, files =>
    let candidate := join directory (candidateName name suffix)
    match if faults.link suffix then files.link tempPath candidate else .error .other with
    | .ok linked =>
      if faults.remove then (linked.remove tempPath, .ok candidate)
      else (if faults.rollback then linked.remove candidate else linked, .error .remove)
    | .error .exist => reserveFrom faults tempPath directory name rounds (suffix + 1) files
    | .error .other => (files, .error .link)

def maxSuffixes : Nat := 10000

def reserveUploadPath (faults : Faults) (tempPath directory name : String) (files : Files) :
    Files × Except ReserveError String :=
  reserveFrom faults tempPath directory name maxSuffixes 0 files

section

variable {name : String}

theorem isEntry_of_valid (h : validUploadName name = true) : IsEntry name := by
  simp only [validUploadName, Bool.and_eq_true, Bool.not_eq_true', Bool.or_eq_false_iff, decide_eq_false_iff_not,
    List.any_eq_false] at h
  obtain ⟨⟨⟨⟨⟨nonempty, _⟩, notSelf⟩, notParent⟩, _, plain⟩, _⟩ := h
  exact ⟨nonempty, notSelf, notParent, fun separator => plain '/' separator rfl⟩

theorem length_stem (name : String) :
    name.toList.length = (trimSuffix name (ext name)).toList.length + (ext name).toList.length := by
  have whole := congrArg (fun text : String => text.toList.length) (trimSuffix_append (ext_suffix name))
  simpa using whole.symm

theorem candidateName_zero (name : String) : candidateName name 0 = name := by
  simp [candidateName]

theorem candidateName_succ (name : String) (k : Nat) :
    candidateName name (k + 1) = trimSuffix name (ext name) ++ " (" ++ toString (k + 1) ++ ")" ++
      ext name := by
  simp [candidateName]

theorem candidateName_longer (name : String) (k : Nat) : candidateName name (k + 1) ≠ name := by
  intro same
  have length := congrArg (fun text : String => text.toList.length) same
  rw [candidateName_succ] at length
  have stem := length_stem name
  simp only [String.toList_append, List.length_append] at length
  have bracket : (" (".toList).length = 2 := rfl
  omega

theorem candidateName_injective {i j : Nat} (h : candidateName name i = candidateName name j) : i = j := by
  cases i with
  | zero =>
    cases j with
    | zero => rfl
    | succ j =>
      rw [candidateName_zero] at h
      exact absurd h.symm (candidateName_longer name j)
  | succ i =>
    cases j with
    | zero =>
      rw [candidateName_zero] at h
      exact absurd h (candidateName_longer name i)
    | succ j =>
      rw [candidateName_succ, candidateName_succ] at h
      have digits : toString (i + 1) = toString (j + 1) := by simpa [String.append_assoc] using h
      exact Nat.repr_injective digits

theorem separator_free_digits (n : Nat) : '/' ∉ (toString n).toList := by
  rw [Nat.toString_eq_ofList_toDigits, String.toList_ofList]
  intro digit
  have isDigit := Nat.isDigit_of_mem_toDigits (by decide) (by decide) digit
  exact absurd isDigit (by decide)

theorem isEntry_candidate (h : IsEntry name) (suffix : Nat) : IsEntry (candidateName name suffix) := by
  cases suffix with
  | zero =>
    rw [candidateName_zero]
    exact h
  | succ k =>
    have bracket : '(' ∈ (candidateName name (k + 1)).toList := by
      rw [candidateName_succ]
      simp
    have apart : ∀ other : String, '(' ∉ other.toList → candidateName name (k + 1) ≠ other := by
      intro other absent same
      rw [same] at bracket
      exact absent bracket
    refine ⟨apart "" (by decide), apart "." (by decide), apart ".." (by decide), ?_⟩
    have whole := trimSuffix_append (ext_suffix name)
    have pieces : '/' ∉ (trimSuffix name (ext name)).toList ∧ '/' ∉ (ext name).toList := by
      have free := h.separatorFree
      rw [← whole, String.toList_append, List.mem_append, not_or] at free
      exact free
    have digits := separator_free_digits (k + 1)
    rw [candidateName_succ]
    simp only [String.toList_append, List.mem_append, not_or]
    exact ⟨⟨⟨⟨pieces.1, by decide⟩, digits⟩, by decide⟩, pieces.2⟩

/-- What a round of the loop leaves: a fresh entry for the temporary file's content, or every entry but the
temporary file's. -/
structure Reserved (files : Files) (tempPath directory name : String) (suffix rounds : Nat)
    (outcome : Files × Except ReserveError String) : Prop where
  data : outcome.1.data = files.data
  done : ∀ path, outcome.2 = .ok path → ∃ k, suffix ≤ k ∧ k < suffix + rounds ∧
    path = child (clean directory) (candidateName name k) ∧ IsEntry (candidateName name k) ∧
    files.find path = none ∧
    (∀ j, suffix ≤ j → j < k → files.find (child (clean directory) (candidateName name j)) ≠ none) ∧
    files.find tempPath ≠ none ∧ outcome.1.find path = files.find tempPath ∧ outcome.1.find tempPath = none ∧
    ∀ p, clean p ≠ clean tempPath → clean p ≠ clean path → outcome.1.find p = files.find p
  failed : ∀ error, outcome.2 = .error error → ∀ p, clean p ≠ clean tempPath → outcome.1.find p = files.find p

theorem reserved_error {files : Files} {tempPath directory : String} {suffix rounds : Nat}
    {error : ReserveError} :
    Reserved files tempPath directory name suffix rounds (files, .error error) :=
  ⟨rfl, nofun, fun _ _ _ _ => rfl⟩

theorem reserved_from {faults : Faults} (entry : IsEntry name) (rollback : faults.rollback = true)
    (files : Files) (tempPath directory : String) (rounds suffix : Nat) :
    Reserved files tempPath directory name suffix rounds
      (reserveFrom faults tempPath directory name rounds suffix files) := by
  induction rounds generalizing suffix with
  | zero => exact reserved_error
  | succ rounds ih =>
    have here : join directory (candidateName name suffix) = child (clean directory) (candidateName name suffix) :=
      join_eq_child (isEntry_candidate entry suffix)
    have fixed : clean (join directory (candidateName name suffix)) = join directory (candidateName name suffix) :=
      clean_join (isEntry_candidate entry suffix)
    simp only [reserveFrom]
    generalize hc : join directory (candidateName name suffix) = candidate at here fixed
    cases hl : faults.link suffix with
    | false => exact reserved_error
    | true =>
      rw [if_pos rfl]
      cases attempt : files.link tempPath candidate with
      | ok linked =>
        obtain ⟨free, data, temp, mine, others⟩ := Files.link_ok attempt
        have apart : clean candidate ≠ clean tempPath := by
          intro same
          exact temp ((Files.find_same same).symm.trans free)
        dsimp only
        split
        next =>
          refine ⟨data, ?_, nofun⟩
          intro path done
          cases done
          refine ⟨suffix, Nat.le_refl _, by omega, here, isEntry_candidate entry suffix, free, ?_, temp, ?_, ?_, ?_⟩
          · intro j low high
            omega
          · exact (Files.find_remove_other apart).trans mine
          · exact Files.find_remove linked tempPath
          · intro p notTemp notPath
            exact (Files.find_remove_other notTemp).trans (others p notPath)
        next =>
          refine ⟨data, nofun, ?_⟩
          intro error _ p _
          by_cases same : clean p = clean candidate
          · rw [Files.find_same same, Files.find_same same, free]
            exact Files.find_remove linked candidate
          · exact (Files.find_remove_other same).trans (others p same)
      | error error =>
        cases error with
        | other => exact reserved_error
        | exist =>
          have taken := Files.link_exist attempt
          obtain ⟨data, done, failed⟩ := ih (suffix + 1)
          refine ⟨data, ?_, failed⟩
          intro path finished
          obtain ⟨k, low, high, at_path, isEntry, free, before, rest⟩ := done path finished
          refine ⟨k, by omega, by omega, at_path, isEntry, free, ?_, rest⟩
          intro j first last
          by_cases same : j = suffix
          · subst same
            rw [← here]
            exact taken
          · exact before j (by omega) last

theorem reserved_upload {faults : Faults} (entry : IsEntry name) (rollback : faults.rollback = true)
    (files : Files) (tempPath directory : String) : Reserved files tempPath directory name 0 maxSuffixes
      (reserveUploadPath faults tempPath directory name files) :=
  reserved_from entry rollback files tempPath directory maxSuffixes 0

/-- Finalising an upload takes the first free name in the order of the suffixes and links the temporary file there,
or it fails and leaves every entry but the temporary file's; no content changes. -/
theorem reserve_takes_first_free {faults : Faults} (valid : validUploadName name = true)
    (rollback : faults.rollback = true) (files : Files) (tempPath directory : String) :
    (∀ i j, candidateName name i = candidateName name j → i = j) ∧
      (reserveUploadPath faults tempPath directory name files).1.data = files.data ∧
      match reserveUploadPath faults tempPath directory name files with
      | (after, .ok path) => ∃ k < maxSuffixes, path = child (clean directory) (candidateName name k) ∧
          IsEntry (candidateName name k) ∧ files.find path = none ∧
          (∀ j < k, files.find (child (clean directory) (candidateName name j)) ≠ none) ∧
          files.find tempPath ≠ none ∧ after.find path = files.find tempPath ∧ after.find tempPath = none ∧
          ∀ p, clean p ≠ clean tempPath → clean p ≠ clean path → after.find p = files.find p
      | (after, .error _) => ∀ p, clean p ≠ clean tempPath → after.find p = files.find p := by
  obtain ⟨data, done, failed⟩ := reserved_upload (isEntry_of_valid valid) rollback files tempPath directory
  refine ⟨fun i j => candidateName_injective, data, ?_⟩
  generalize reserveUploadPath faults tempPath directory name files = outcome at data done failed
  obtain ⟨after, result⟩ := outcome
  cases result with
  | ok path =>
    obtain ⟨k, _, high, at_path, isEntry, free, before, rest⟩ := done path rfl
    exact ⟨k, by omega, at_path, isEntry, free, fun j last => before j (Nat.zero_le j) last, rest⟩
  | error error => exact failed error rfl

end

/-- The upload directory holds a report and a finished upload. -/
def exampleFiles : Files :=
  ((Files.empty.create "/up/report.pdf").bind (Files.create · "/up/.termlinks-upload-1")).getD Files.empty

theorem reserve_takes_first_free_report : ∃ after k,
    reserveUploadPath ⟨fun _ => true, true, true⟩ "/up/.termlinks-upload-1" "/up" "report.pdf" exampleFiles =
        (after, .ok "/up/report (1).pdf") ∧
      k < maxSuffixes ∧ "/up/report (1).pdf" = child (clean "/up") (candidateName "report.pdf" k) := by
  have valid : validUploadName "report.pdf" = true := by decide
  have rollback : (⟨fun _ => true, true, true⟩ : Faults).rollback = true := rfl
  have fresh := (reserve_takes_first_free valid rollback exampleFiles "/up/.termlinks-upload-1" "/up").2.2
  have run : (reserveUploadPath ⟨fun _ => true, true, true⟩ "/up/.termlinks-upload-1" "/up" "report.pdf"
      exampleFiles).2 = .ok "/up/report (1).pdf" := by
    decide
  generalize reserveUploadPath ⟨fun _ => true, true, true⟩ "/up/.termlinks-upload-1" "/up" "report.pdf"
    exampleFiles = outcome at fresh run
  obtain ⟨after, result⟩ := outcome
  cases run
  obtain ⟨k, low, at_path, _⟩ := fresh
  exact ⟨after, k, rfl, low, at_path⟩

end TermLinks.Connector
