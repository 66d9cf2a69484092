import TermLinks.HistoryWire
import TermLinks.SessionRequest
import TermLinks.Utf16Text

namespace TermLinks.HistoryClient

open E2E (units)
open Remote (maxNameLength validateSessionName)
open Utf16 (Units isLow scalars trim trimEnd wellFormed)

def suffix : Units := units " Copy"

/-- `name.trim() || "Terminal"`. -/
def baseName (name : Units) : Units := if trim name = [] then units "Terminal" else trim name

def duplicateTerminalName (name : Units) : Units :=
  let base := baseName name
  if base.length + suffix.length ≤ maxTerminalNameLength then base ++ suffix
  else trimEnd (base.take (maxTerminalNameLength - suffix.length)) ++ suffix

/-- What the create request of `duplicateTerminal` has as its name, once it is decoded. -/
def requestedCopy (name : Units) : String := String.ofList (scalars (duplicateTerminalName name))

/-- What duplicating a terminal of this name is to give. -/
structure Duplicable (name : Units) : Prop where
  wellFormed : wellFormed name = true → Utf16.wellFormed (duplicateTerminalName name) = true
  short : (duplicateTerminalName name).length ≤ maxTerminalNameLength
  copy : suffix <:+ duplicateTerminalName name
  accepted : (validateSessionName (requestedCopy name)).isSome = true

/-- What is left of the name before the suffix. -/
def keptName (name : Units) : Units := trimEnd ((baseName name).take 75)

theorem suffix_eq : suffix = [0x20, 0x43, 0x6f, 0x70, 0x79] := by decide

theorem trimEnd_trim (name : Units) : trimEnd (trim name) = trim name := by
  unfold trim trimEnd
  rw [List.reverse_reverse, List.dropWhile_idempotent]

theorem trimEnd_baseName (name : Units) : trimEnd (baseName name) = baseName name := by
  unfold baseName
  split
  next => decide
  next => exact trimEnd_trim name

theorem duplicateTerminalName_eq (name : Units) : duplicateTerminalName name = keptName name ++ suffix := by
  have five : suffix.length = 5 := by decide
  have eighty : maxTerminalNameLength = 80 := rfl
  rw [duplicateTerminalName, keptName, five, eighty]
  by_cases short : (baseName name).length + 5 ≤ 80
  · have whole : (baseName name).take 75 = baseName name := List.take_of_length_le (by omega)
    rw [whole, trimEnd_baseName]
    exact if_pos short
  · exact if_neg short

theorem wellFormed_baseName {name : Units} (h : wellFormed name = true) :
    wellFormed (baseName name) = true := by
  unfold baseName
  split
  next => decide
  next => rwa [Utf16.wellFormed_trim]

theorem wellFormed_duplicate (name : Units) :
    wellFormed (duplicateTerminalName name) = wellFormed ((baseName name).take 75) := by
  have clean : wellFormed (0x20 :: [0x43, 0x6f, 0x70, 0x79]) = true := by decide
  rw [duplicateTerminalName_eq, suffix_eq, Utf16.wellFormed_append_cons (by decide), clean, Bool.and_true, keptName,
    Utf16.wellFormed_trimEnd]

theorem scalars_duplicate (name : Units) :
    scalars (duplicateTerminalName name) = scalars (keptName name) ++ [' ', 'C', 'o', 'p', 'y'] := by
  have copy : scalars (0x20 :: [0x43, 0x6f, 0x70, 0x79]) = [' ', 'C', 'o', 'p', 'y'] := by decide
  rw [duplicateTerminalName_eq, suffix_eq, Utf16.scalars_append_cons (by decide), copy]

theorem dropWhile_append_some {α : Type} {p : α → Bool} {front : List α}
    (h : ¬∀ a ∈ front, p a = true) (back : List α) :
    (front ++ back).dropWhile p = front.dropWhile p ++ back := by
  have some : front.dropWhile p ≠ [] := fun none => h (List.dropWhile_eq_nil_iff.mp none)
  rw [List.dropWhile_append]
  simp [some]

/-- What `ValidateSessionName` makes of a copy: white space before the name goes, the suffix stays. -/
theorem trimSpace_copy (front : List Char) :
    (trimSpace (String.ofList (front ++ [' ', 'C', 'o', 'p', 'y']))).toList =
      if front.all isSpace = true then ['C', 'o', 'p', 'y']
      else front.dropWhile isSpace ++ [' ', 'C', 'o', 'p', 'y'] := by
  have letters : isSpace 'C' = false ∧ isSpace 'y' = false ∧ isSpace ' ' = true := by decide
  obtain ⟨letter, last, space⟩ := letters
  have front' : ((front ++ [' ', 'C', 'o', 'p', 'y']).dropWhile isSpace) =
      if front.all isSpace = true then ['C', 'o', 'p', 'y']
      else front.dropWhile isSpace ++ [' ', 'C', 'o', 'p', 'y'] := by
    split
    next all =>
      rw [List.dropWhile_append_of_pos (List.all_eq_true.mp all)]
      simp [letter, space]
    next some => exact dropWhile_append_some (fun all => some (List.all_eq_true.mpr all)) _
  rw [trimSpace, String.toList_ofList, String.toList_ofList, front']
  split
  next => simp [last]
  next => simp [last]

theorem nul_dropWhile (front : List Char) :
    (∀ c ∈ front.dropWhile isSpace, c.val ≠ 0) ↔ ∀ c ∈ front, c.val ≠ 0 := by
  constructor
  · intro rest c member nul
    rw [← List.takeWhile_append_dropWhile (p := isSpace) (l := front)] at member
    obtain member | member := List.mem_append.mp member
    · have white := List.all_eq_true.mp List.all_takeWhile c member
      have zero : c = '\x00' := Char.ext nul
      rw [zero] at white
      exact absurd white (by decide)
    · exact rest c member nul
  · exact fun all c member => all c ((List.dropWhile_sublist _).subset member)

theorem validateSessionName_copy (front : List Char) :
    (validateSessionName (String.ofList (front ++ [' ', 'C', 'o', 'p', 'y']))).isSome = true ↔
      (∀ c ∈ front, c.val ≠ 0) ∧ byteCount (front.dropWhile isSpace) ≤ 75 := by
  have limit : maxNameLength = 80 := rfl
  have trimmed := trimSpace_copy front
  have bytes := byteCount_toList (trimSpace (String.ofList (front ++ [' ', 'C', 'o', 'p', 'y'])))
  have letters : ['C', 'o', 'p', 'y'].any (·.val = 0) = false ∧ [' ', 'C', 'o', 'p', 'y'].any (·.val = 0) = false ∧
      byteCount ['C', 'o', 'p', 'y'] = 4 ∧ byteCount [' ', 'C', 'o', 'p', 'y'] = 5 := by decide
  obtain ⟨clean, clean', four, five⟩ := letters
  rw [validateSessionName, limit, byteLen, ← bytes, trimmed]
  by_cases white : ∀ c ∈ front, isSpace c = true
  · have dropped : front.dropWhile isSpace = [] := List.dropWhile_eq_nil_iff.mpr white
    rw [if_pos (List.all_eq_true.mpr white), clean, four, ← nul_dropWhile, dropped]
    exact iff_of_true rfl ⟨fun c member => absurd member List.not_mem_nil, Nat.zero_le _⟩
  · rw [if_neg fun all => white (List.all_eq_true.mp all), List.any_append, clean',
      byteCount_append, five, Bool.or_false, ← nul_dropWhile]
    generalize front.dropWhile isSpace = kept
    have nul : kept.any (·.val = 0) = true ↔ ¬∀ c ∈ kept, c.val ≠ 0 := by simp
    constructor
    · intro some
      split at some
      next => exact nomatch some
      next valid =>
        obtain ⟨short, none⟩ := not_or.mp valid
        rw [nul, not_not] at none
        exact ⟨none, by omega⟩
    · rintro ⟨none, short⟩
      have valid : ¬(byteCount kept + 5 > 80 ∨ kept.any (·.val = 0) = true) := by
        rw [nul, not_or, not_not]
        exact ⟨by omega, none⟩
      rw [if_neg valid]
      rfl

/-- A duplicate gets a valid name exactly when what is kept of the trimmed name, its first 75 units, does not part
a pair, has no NUL and takes at most 75 bytes, not counting white space that only the server drops. -/
theorem duplicate_name_accepted (name : Units) :
    Duplicable name ↔
      (wellFormed name = true → ∀ u ∈ (baseName name)[75]?, isLow u = false) ∧
        (∀ c ∈ scalars (keptName name), c.val ≠ 0) ∧
        byteCount ((scalars (keptName name)).dropWhile isSpace) ≤ 75 := by
  have accepted := validateSessionName_copy (scalars (keptName name))
  rw [← scalars_duplicate] at accepted
  constructor
  · rintro ⟨whole, _, _, valid⟩
    refine ⟨fun h => ?_, accepted.mp valid⟩
    have result := whole h
    rw [wellFormed_duplicate] at result
    exact (Utf16.wellFormed_take (wellFormed_baseName h) 75).mp result
  · rintro ⟨whole, rest⟩
    refine ⟨fun h => ?_, ?_, ?_, accepted.mpr rest⟩
    · rw [wellFormed_duplicate]
      exact (Utf16.wellFormed_take (wellFormed_baseName h) 75).mpr (whole h)
    · have five : suffix.length = 5 := by decide
      have eighty : maxTerminalNameLength = 80 := rfl
      have kept := Utf16.length_trimEnd ((baseName name).take 75)
      rw [List.length_take] at kept
      rw [duplicateTerminalName_eq, List.length_append, keptName, five, eighty]
      omega
    · rw [duplicateTerminalName_eq]
      exact List.suffix_append _ _

/-- A name of forty accented letters is valid on both sides, its copy is too long for the server; a name that ends in a
character of two units at the cut is parted. -/
theorem accented_name_is_refused :
    validText maxTerminalNameLength (.string (String.ofList (List.replicate 40 '\u00e9'))) =
        some (String.ofList (List.replicate 40 '\u00e9')) ∧
      (validateSessionName (String.ofList (List.replicate 40 '\u00e9'))).isSome = true ∧
      ¬Duplicable (Utf16.encode (List.replicate 40 '\u00e9')) ∧
      ¬Duplicable (Utf16.encode (List.replicate 74 'a' ++ [Char.ofNat 0x1f600])) := by
  refine ⟨by decide +kernel, by decide +kernel, ?_, ?_⟩
  · rintro ⟨_, _, _, accepted⟩
    have refused : (validateSessionName
      (requestedCopy (Utf16.encode (List.replicate 40 '\u00e9')))).isSome = false := by
      decide +kernel
    exact nomatch accepted.symm.trans refused
  · rintro ⟨whole, _, _, _⟩
    have parted : wellFormed (Utf16.encode (List.replicate 74 'a' ++ [Char.ofNat 0x1f600])) = true ∧
        wellFormed (duplicateTerminalName (Utf16.encode (List.replicate 74 'a' ++ [Char.ofNat 0x1f600]))) = false := by
      decide
    exact nomatch (whole parted.1).symm.trans parted.2

end TermLinks.HistoryClient
