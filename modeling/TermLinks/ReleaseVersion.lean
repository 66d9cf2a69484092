import TermLinks.GoNet
import TermLinks.GoText
import TermLinks.Octets

namespace TermLinks.SelfUpdate

structure SemanticVersion where
  major : UInt64
  minor : UInt64
  patch : UInt64
deriving DecidableEq

namespace SemanticVersion

def numbers (version : SemanticVersion) : List UInt64 := [version.major, version.minor, version.patch]

/-- The loop of `Compare`. -/
def compareNumbers : List UInt64 → List UInt64 → Int
  | a :: as, b :: bs => if a < b then -1 else if a > b then 1 else compareNumbers as bs
  | _, _ => 0

def compare (version other : SemanticVersion) : Int := compareNumbers version.numbers other.numbers

def toText (version : SemanticVersion) : String :=
  toString version.major ++ "." ++ toString version.minor ++ "." ++ toString version.patch

theorem compareNumbers_neg {as bs : List UInt64} (same : as.length = bs.length) :
    compareNumbers as bs < 0 ↔ as < bs := by
  induction as generalizing bs with
  | nil =>
    cases bs with
    | nil => simp [compareNumbers]
    | cons b bs => simp at same
  | cons a as ih =>
    cases bs with
    | nil => simp at same
    | cons b bs =>
      have rest := ih (by simpa using same)
      rw [List.cons_lt_cons_iff, compareNumbers]
      by_cases less : a < b
      · simp [less]
      · by_cases more : a > b
        · have apart : a ≠ b := by
            rintro rfl
            exact UInt64.lt_irrefl a more
          simp [less, more, apart]
        · have equal : a = b := UInt64.le_antisymm (UInt64.not_lt.mp more) (UInt64.not_lt.mp less)
          simp [equal, rest]

/-- The comparison is the lexicographic one. -/
theorem compare_neg {version other : SemanticVersion} :
    version.compare other < 0 ↔ version.numbers < other.numbers :=
  compareNumbers_neg rfl

end SemanticVersion

def digitsValue (digits : List Char) : Nat := digits.foldl (fun n c => n * 10 + (c.toNat - '0'.toNat)) 0

/-- `strconv.ParseUint` in base ten: decimal digits only, of a number that fits. -/
def parseUint (bits : Nat) (text : String) : Option Nat :=
  if text.toList ≠ [] ∧ text.toList.all Char.isDigit ∧ digitsValue text.toList < 2 ^ bits then
    some (digitsValue text.toList)
  else none

/-- One of the three numbers: nothing stands before its first digit. -/
def parsePart (part : String) : Option UInt64 :=
  if part = "" ∨ (1 < byteLen part ∧ part.toList.head? = some '0') then none
  else (parseUint 63 part).map UInt64.ofNat

def parseParts (parts : List String) : Option SemanticVersion :=
  match parts with
  | [major, minor, patch] => do some ⟨← parsePart major, ← parsePart minor, ← parsePart patch⟩
  | _ => none

def parseVersion (quote : Bytes → String) (value : String) : Except String SemanticVersion :=
  let value := trimPrefixRune 'v' (trimSpace value)
  match parseParts (GoNet.split '.' value) with
  | some version => .ok version
  | none => .error (quote (utf8 value) ++ " is not a stable semantic version")

example : (parseVersion (fun _ => "") " v0.10.2").toOption = some ⟨0, 10, 2⟩ := by decide

end TermLinks.SelfUpdate
