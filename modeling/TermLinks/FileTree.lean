import TermLinks.Files
import TermLinks.GoNet

namespace TermLinks.Files

/-- `rename(2)`: a name takes the place of another, at once. -/
def rename (files : Files) (old new : String) : Option Files :=
  match here : files.find old with
  | none => none
  | some file => some
    { names := (files.names.erase (FilePath.clean old)).insert (FilePath.clean new) file
      data := files.data
      stored := fun p f h => by
        rcases lookup_insert_cases h with same | kept
        · exact same ▸ files.stored _ file here
        · exact files.stored p f (lookup_erase_sub kept) }

/-- The path is a directory's or lies below it. -/
def under (directory path : String) : Bool :=
  FilePath.clean path = FilePath.clean directory ||
    GoNet.hasPrefix (FilePath.clean path) (FilePath.clean directory ++ "/")

/-- A directory may be made where no file is at its path or below it. -/
def vacant (files : Files) (directory : String) : Bool :=
  files.names.keys.all fun path => !under directory path

/-- `os.RemoveAll`, which may leave some of the files. -/
def removeAll (files : Files) (directory : String) (left : String → Bool) : Files :=
  (files.names.keys.filter fun path => under directory path && !left path).foldl remove files

/-- Files that were there before, under such names, are there still, and hold what they held. -/
structure Kept (such : String → Prop) (before after : Files) : Prop where
  longer : before.data.length ≤ after.data.length
  data : ∀ file, file < before.data.length → after.data[file]? = before.data[file]?
  names : ∀ path, such path → before.find path ≠ none → after.find path = before.find path

section

variable {such : String → Prop} {before mid after files created : Files} {path : String}

theorem Kept.refl (such : String → Prop) (files : Files) : Kept such files files :=
  ⟨Nat.le_refl _, fun _ _ => rfl, fun _ _ _ => rfl⟩

theorem Kept.trans (h : Kept such before mid) (h' : Kept such mid after) : Kept such before after := by
  have longer := h.longer
  refine ⟨Nat.le_trans longer h'.longer, ?_, ?_⟩
  · intro file inside
    rw [h'.data file (by omega), h.data file inside]
  · intro p named there
    have same := h.names p named there
    rw [h'.names p named (by rwa [same]), same]

theorem Kept.weaken {fewer : String → Prop} (h : Kept such before after)
    (sub : ∀ p, fewer p → before.find p ≠ none → such p) : Kept fewer before after :=
  ⟨h.longer, h.data, fun p named there => h.names p (sub p named there) there⟩

theorem Kept.there (h : Kept such before after) (named : such path) (there : before.find path ≠ none) :
    after.find path ≠ none := by
  rwa [h.names path named there]

theorem Kept.content (h : Kept such before after) (named : such path) (there : before.find path ≠ none) :
    after.content path = before.content path := by
  unfold Files.content
  rw [h.names path named there]
  cases here : before.find path with
  | none => rfl
  | some file => exact h.data file (find_stored here)

theorem find_of_content {bytes : Bytes} (h : files.content path = some bytes) : files.find path ≠ none := by
  intro gone
  unfold content at h
  rw [gone] at h
  cases h

theorem content_remove_other {p : String} (apart : FilePath.clean p ≠ FilePath.clean path) :
    (files.remove path).content p = files.content p := by
  unfold content
  rw [find_remove_other apart]
  rfl

theorem kept_create (h : files.create path = some created) : Kept such files created := by
  obtain ⟨free, data, -, others⟩ := create_eq h
  refine ⟨?_, ?_, ?_⟩
  · rw [data, List.length_append]
    omega
  · intro file inside
    rw [data, List.getElem?_append_left inside]
  · intro p _ there
    refine others p ?_
    intro same
    rw [find_same same, free] at there
    exact there rfl

theorem Kept.append {file : Nat} (h : Kept such before after) (new : before.data.length ≤ file)
    (bytes : Bytes) :
    Kept such before (after.append file bytes) := by
  refine ⟨?_, ?_, ?_⟩
  · rw [length_append]
    exact h.longer
  · intro other inside
    rw [data_append_other (by omega)]
    exact h.data other inside
  · intro p named there
    rw [find_append]
    exact h.names p named there

theorem Kept.remove (h : Kept such before after) (apart : ∀ p, such p → before.find p ≠ none →
    FilePath.clean p ≠ FilePath.clean path) : Kept such before (after.remove path) := by
  refine ⟨h.longer, h.data, ?_⟩
  intro p named there
  rw [find_remove_other (apart p named there)]
  exact h.names p named there

theorem apart_of_free (free : before.find path = none) (p : String) (there : before.find p ≠ none) :
    FilePath.clean p ≠ FilePath.clean path := by
  intro same
  rw [find_same same, free] at there
  exact there rfl

theorem under_same {directory p q : String} (same : FilePath.clean p = FilePath.clean q) :
    under directory p = under directory q := by
  unfold under
  rw [same]

/-- Where a directory was vacant, removing it takes away nothing older. -/
theorem Kept.removeAll {directory : String} (h : Kept such before after)
    (vacant : ∀ p, such p → before.find p ≠ none → under directory p = false) (left : String → Bool) :
    Kept such before (after.removeAll directory left) := by
  have inside : ∀ p ∈ after.names.keys.filter fun path => under directory path && !left path,
      under directory p = true := by
    intro p member
    have both := (List.mem_filter.mp member).2
    rw [Bool.and_eq_true] at both
    exact both.1
  unfold Files.removeAll
  generalize after.names.keys.filter (fun path => under directory path && !left path) = paths at inside
  induction paths generalizing after with
  | nil => exact h
  | cons p paths ih =>
    obtain ⟨first, rest⟩ := List.forall_mem_cons.mp inside
    refine ih (h.remove ?_) rest
    intro other named there same
    have outside := vacant other named there
    rw [under_same same, first] at outside
    cases outside

theorem vacant_apart {directory : String} (h : files.vacant directory = true) (there : files.find path ≠ none) :
    under directory path = false := by
  have here : FilePath.clean path ∈ files.names.keys := AList.lookup_isSome.mp (Option.isSome_iff_ne_none.mpr there)
  have outside := List.all_eq_true.mp h _ here
  rw [Bool.not_eq_true'] at outside
  rwa [under_same (FilePath.clean_clean path)] at outside

theorem rename_eq {old new : String} (h : files.rename old new = some after) :
    after.content new = files.content old ∧ Kept (fun p => FilePath.clean p ≠ FilePath.clean new ∧
      FilePath.clean p ≠ FilePath.clean old) files after := by
  unfold rename at h
  split at h
  next => cases h
  next file here =>
    cases h
    constructor
    · have named : ((files.names.erase (FilePath.clean old)).insert (FilePath.clean new) file).lookup
          (FilePath.clean new) = some file := AList.lookup_insert _
      have held : files.content old = files.data[file]? := by
        unfold content
        rw [here]
        rfl
      rw [held]
      show (((files.names.erase (FilePath.clean old)).insert (FilePath.clean new) file).lookup
        (FilePath.clean new)).bind (fun file => files.data[file]?) = files.data[file]?
      rw [named]
      rfl
    · refine ⟨Nat.le_refl _, fun _ _ => rfl, ?_⟩
      rintro p ⟨fresh, kept⟩ _
      have unchanged : ((files.names.erase (FilePath.clean old)).insert (FilePath.clean new) file).lookup
          (FilePath.clean p) = files.names.lookup (FilePath.clean p) := by
        rw [AList.lookup_insert_ne fresh, AList.lookup_erase_ne kept]
      exact unchanged

/-- A new file holds what is written to it. -/
theorem content_new (h : files.create path = some created) (bytes : Bytes) :
    (created.append files.data.length bytes).content path = some bytes := by
  obtain ⟨-, data, named, -⟩ := create_eq h
  have empty : created.data[files.data.length]? = some [] := by
    rw [data, List.getElem?_concat_length]
  unfold content
  rw [find_append, named]
  exact data_append empty

end

end TermLinks.Files
