import Mathlib.Data.List.AList
import TermLinks.FilePath
import TermLinks.Octets

namespace TermLinks

/-- Files under their names: a name is a path, resolved as it is written. A file may have several names. -/
structure Files where
  names : AList fun _ : String => Nat
  data : List Bytes
  stored : ∀ path file, names.lookup path = some file → file < data.length

namespace Files

theorem lookup_insert_cases {names : AList fun _ : String => Nat} {path p : String} {file f : Nat}
    (h : (names.insert path file).lookup p = some f) : f = file ∨ names.lookup p = some f := by
  by_cases same : p = path
  · subst same
    rw [AList.lookup_insert] at h
    exact Or.inl (Option.some.inj h).symm
  · rw [AList.lookup_insert_ne same] at h
    exact Or.inr h

theorem lookup_erase_sub {names : AList fun _ : String => Nat} {path p : String} {f : Nat}
    (h : (names.erase path).lookup p = some f) : names.lookup p = some f := by
  by_cases same : p = path
  · subst same
    rw [AList.lookup_erase] at h
    cases h
  · rwa [AList.lookup_erase_ne same] at h

inductive LinkError
  | exist
  | other
deriving DecidableEq

def empty : Files := ⟨∅, [], nofun⟩

/-- The file under a path. -/
def find (files : Files) (path : String) : Option Nat := files.names.lookup (FilePath.clean path)

def content (files : Files) (path : String) : Option Bytes :=
  (files.find path).bind fun file => files.data[file]?

/-- A new empty file under a path that is free. -/
def create (files : Files) (path : String) : Option Files :=
  if (files.find path).isSome then none
  else some
    { names := files.names.insert (FilePath.clean path) files.data.length
      data := files.data ++ [[]]
      stored := fun p f h => by
        rw [List.length_append, List.length_singleton]
        rcases lookup_insert_cases h with same | old
        · omega
        · have bound := files.stored p f old
          omega }

/-- A write at the end of an open file. -/
def append (files : Files) (file : Nat) (bytes : Bytes) : Files where
  names := files.names
  data := files.data.modify file (· ++ bytes)
  stored := fun p f h => by
    rw [List.length_modify]
    exact files.stored p f h

/-- `link(2)`. -/
def link (files : Files) (old new : String) : Except LinkError Files :=
  match here : files.find old with
  | none => .error .other
  | some file =>
    if (files.find new).isSome then .error .exist
    else .ok
      { files with
        names := files.names.insert (FilePath.clean new) file
        stored := fun p f h => by
          rcases lookup_insert_cases h with same | old
          · exact same ▸ files.stored _ file here
          · exact files.stored p f old }

def remove (files : Files) (path : String) : Files where
  names := files.names.erase (FilePath.clean path)
  data := files.data
  stored := fun p f h => files.stored p f (lookup_erase_sub h)

variable {files after : Files} {path old new : String}

theorem find_stored {file : Nat} (h : files.find path = some file) : file < files.data.length :=
  files.stored _ file h

theorem find_same {p : String} (h : FilePath.clean p = FilePath.clean path) :
    files.find p = files.find path := by
  rw [find, h, find]

theorem create_eq (h : files.create path = some after) : files.find path = none ∧
    after.data = files.data ++ [[]] ∧ after.find path = some files.data.length ∧
      ∀ p, FilePath.clean p ≠ FilePath.clean path → after.find p = files.find p := by
  unfold create at h
  split at h
  next => cases h
  next free =>
    cases h
    refine ⟨Option.not_isSome_iff_eq_none.mp free, rfl, AList.lookup_insert _, ?_⟩
    intro p apart
    exact AList.lookup_insert_ne apart

theorem link_ok (h : files.link old new = .ok after) : files.find new = none ∧ after.data = files.data ∧
    files.find old ≠ none ∧ after.find new = files.find old ∧
      ∀ p, FilePath.clean p ≠ FilePath.clean new → after.find p = files.find p := by
  unfold link at h
  split at h
  next => cases h
  next file here =>
    split at h
    next => cases h
    next free =>
      cases h
      refine ⟨Option.not_isSome_iff_eq_none.mp free, rfl, ?_, ?_, ?_⟩
      · rw [here]
        exact Option.some_ne_none file
      · have new : (files.names.insert (FilePath.clean new) file).lookup (FilePath.clean new) = some file :=
          AList.lookup_insert _
        exact new.trans here.symm
      · intro p apart
        exact AList.lookup_insert_ne apart

theorem link_exist (h : files.link old new = .error .exist) : files.find new ≠ none := by
  unfold link at h
  split at h
  next => cases h
  next =>
    split at h
    next taken => exact Option.isSome_iff_ne_none.mp taken
    next => cases h

theorem link_other (h : files.link old new = .error .other) : files.find old = none := by
  unfold link at h
  split at h
  next gone => exact gone
  next =>
    split at h
    next => cases h
    next => cases h

theorem find_remove (files : Files) (path : String) : (files.remove path).find path = none :=
  AList.lookup_erase _ _

theorem find_remove_other {p : String} (apart : FilePath.clean p ≠ FilePath.clean path) :
    (files.remove path).find p = files.find p :=
  AList.lookup_erase_ne apart

theorem find_append (files : Files) (file : Nat) (bytes : Bytes) (p : String) :
    (files.append file bytes).find p = files.find p := rfl

theorem data_append {file : Nat} {bytes held : Bytes} (h : files.data[file]? = some held) :
    (files.append file bytes).data[file]? = some (held ++ bytes) := by
  simp [append, h]

theorem length_append (files : Files) (file : Nat) (bytes : Bytes) :
    (files.append file bytes).data.length = files.data.length := List.length_modify _ _ _

theorem data_append_other {file other : Nat} {bytes : Bytes} (apart : other ≠ file) :
    (files.append file bytes).data[other]? = files.data[other]? := by
  simp [append, Ne.symm apart]

end Files

end TermLinks
