import Mathlib.Data.String.Basic

namespace TermLinks

/-- A UTC instant in its calendar fields. -/
structure Time where
  year : Nat
  month : Nat
  day : Nat
  hour : Nat
  minute : Nat
  second : Nat
  nanosecond : Nat
deriving DecidableEq, Repr

/-- `%0<width>d`. -/
def padded (width n : Nat) : String :=
  let digits := (toString n).toList
  String.ofList (List.replicate (width - digits.length) '0' ++ digits)

/-- The fraction of `time.RFC3339Nano`: nine digits without trailing zeros, nothing when zero. -/
def fraction (nanosecond : Nat) : String :=
  let digits := ((padded 9 nanosecond).toList.reverse.dropWhile (· = '0')).reverse
  if digits = [] then "" else "." ++ String.ofList digits

/-- `value.UTC().Format(time.RFC3339Nano)`, the text of a timestamp column. -/
def encodeTime (value : Time) : String :=
  padded 4 value.year ++ "-" ++ padded 2 value.month ++ "-" ++ padded 2 value.day ++ "T" ++
    padded 2 value.hour ++ ":" ++ padded 2 value.minute ++ ":" ++ padded 2 value.second ++
    fraction value.nanosecond ++ "Z"

example : encodeTime ⟨2026, 9, 3, 12, 0, 0, 50000000⟩ = "2026-09-03T12:00:00.05Z" := by decide

end TermLinks
