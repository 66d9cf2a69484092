import TermLinks.TimestampOrder

namespace TermLinks

/-- `time.isLeap`. -/
def isLeap (year : Nat) : Bool := year % 4 = 0 && (year % 100 ≠ 0 || year % 400 = 0)

/-- `time.daysIn`. -/
def daysIn (month year : Nat) : Nat :=
  if month = 2 then (if isLeap year then 29 else 28)
  else if month = 4 ∨ month = 6 ∨ month = 9 ∨ month = 11 then 30
  else 31

/-- A day of the calendar, in a year of at most four digits. -/
structure Time.Calendar (t : Time) : Prop where
  valid : t.Valid
  month : 1 ≤ t.month ∧ t.month ≤ 12
  day : 1 ≤ t.day ∧ t.day ≤ daysIn t.month t.year

instance (t : Time) : Decidable t.Valid :=
  decidable_of_iff (t.year < 10000 ∧ t.month < 100 ∧ t.day < 100 ∧ t.hour < 24 ∧ t.minute < 60 ∧ t.second < 60 ∧
    t.nanosecond < 1000000000)
    ⟨fun ⟨year, month, day, hour, minute, second, nanosecond⟩ => ⟨year, month, day, hour, minute, second, nanosecond⟩,
      fun ⟨year, month, day, hour, minute, second, nanosecond⟩ => ⟨year, month, day, hour, minute, second, nanosecond⟩⟩

instance (t : Time) : Decidable t.Calendar :=
  decidable_of_iff (t.Valid ∧ (1 ≤ t.month ∧ t.month ≤ 12) ∧ 1 ≤ t.day ∧ t.day ≤ daysIn t.month t.year)
    ⟨fun ⟨valid, month, day⟩ => ⟨valid, month, day⟩, fun ⟨valid, month, day⟩ => ⟨valid, month, day⟩⟩

def digitValue (c : Char) : Nat := c.toNat - '0'.toNat

def parseDigits (cs : List Char) : Nat := cs.foldl (fun n c => 10 * n + digitValue c) 0

/-- `parseUint` of `parseRFC3339`: a number on exactly so many places, in its range. -/
def parseUint (width low high : Nat) (cs : List Char) : Option (Nat × List Char) :=
  let digits := cs.take width
  if digits.length = width ∧ digits.all Char.isDigit ∧ low ≤ parseDigits digits ∧ parseDigits digits ≤ high then
    some (parseDigits digits, cs.drop width)
  else none

def parseChar (c : Char) : List Char → Option (List Char)
  | [] => none
  | head :: rest => if head = c then some rest else none

/-- The digits after a period, of which the first nine count. -/
def parseFraction (cs : List Char) : Nat × List Char :=
  match cs with
  | '.' :: rest =>
    let digits := rest.takeWhile Char.isDigit
    if digits = [] then (0, cs)
    else (parseDigits (digits.take 9) * 10 ^ (9 - digits.length), rest.dropWhile Char.isDigit)
  | _ => (0, cs)

/-- `time.Parse(time.RFC3339Nano, value)` on the texts of UTC instants, which end in `Z`. -/
def decodeTime (value : String) : Option Time := do
  let (year, cs) ← parseUint 4 0 9999 value.toList
  let cs ← parseChar '-' cs
  let (month, cs) ← parseUint 2 1 12 cs
  let cs ← parseChar '-' cs
  let (day, cs) ← parseUint 2 1 (daysIn month year) cs
  let cs ← parseChar 'T' cs
  let (hour, cs) ← parseUint 2 0 23 cs
  let cs ← parseChar ':' cs
  let (minute, cs) ← parseUint 2 0 59 cs
  let cs ← parseChar ':' cs
  let (second, cs) ← parseUint 2 0 59 cs
  let (nanosecond, cs) := parseFraction cs
  if cs = ['Z'] then some ⟨year, month, day, hour, minute, second, nanosecond⟩ else none

theorem digitValue_digitChar {n : Nat} (h : n < 10) : digitValue (Nat.digitChar n) = n := by
  have all : ∀ n < 10, digitValue (Nat.digitChar n) = n := by decide
  exact all n h

theorem parseDigits_append (xs ys : List Char) :
    parseDigits (xs ++ ys) = ys.foldl (fun n c => 10 * n + digitValue c) (parseDigits xs) := by
  rw [parseDigits, List.foldl_append]
  rfl

theorem parseDigits_decimals {width n : Nat} (h : n < 10 ^ width) : parseDigits (decimals width n) = n := by
  induction width generalizing n with
  | zero =>
    have zero : n = 0 := by omega
    rw [zero]
    rfl
  | succ width ih =>
    rw [Nat.pow_succ] at h
    have digit := @digitValue_digitChar (n % 10) (by omega)
    rw [decimals, parseDigits_append, ih (by omega), List.foldl_cons, List.foldl_nil, digit]
    omega

theorem isDigit_of_mem_decimals (width n : Nat) : ∀ c ∈ decimals width n, c.isDigit = true := by
  induction width generalizing n with
  | zero => simp [decimals]
  | succ width ih =>
    intro c hc
    rcases List.mem_append.mp hc with hc | hc
    · exact ih (n / 10) c hc
    · have all : ∀ n < 10, (Nat.digitChar n).isDigit = true := by decide
      rw [List.mem_singleton.mp hc]
      exact all _ (Nat.mod_lt _ (by omega))

theorem parseUint_decimals {width low high n : Nat} (h : n < 10 ^ width) (above : low ≤ n) (below : n ≤ high)
    (rest : List Char) : parseUint width low high (decimals width n ++ rest) = some (n, rest) := by
  have front : (decimals width n ++ rest).take width = decimals width n :=
    List.take_left' (length_decimals width n)
  have back : (decimals width n ++ rest).drop width = rest := List.drop_left' (length_decimals width n)
  have digits : (decimals width n).all Char.isDigit = true :=
    List.all_eq_true.mpr (isDigit_of_mem_decimals width n)
  simp only [parseUint, front, back, parseDigits_decimals h, length_decimals]
  rw [if_pos ⟨trivial, digits, above, below⟩]

theorem parseDigits_zeros (xs : List Char) (n : Nat) :
    parseDigits (xs ++ List.replicate n '0') = parseDigits xs * 10 ^ n := by
  induction n with
  | zero => simp
  | succ n ih =>
    rw [List.replicate_succ', ← List.append_assoc, parseDigits_append, ih, List.foldl_cons,
      List.foldl_nil, Nat.pow_succ]
    have zero : digitValue '0' = 0 := by decide
    rw [zero, Nat.add_zero, Nat.mul_left_comm, Nat.mul_comm 10]

theorem parseFraction_fraction {t : Time} (h : t.nanosecond < 1000000000) :
    parseFraction (fraction t.nanosecond ++ "Z").toList = (t.nanosecond, ['Z']) := by
  obtain ⟨n, padded⟩ := t.fractionDigits_append h
  have whole := @parseDigits_decimals 9 _ h
  rw [padded, parseDigits_zeros] at whole
  have length := congrArg List.length padded
  rw [length_decimals, List.length_append, List.length_replicate] at length
  rw [toList_fraction]
  by_cases empty : t.fractionDigits = []
  · rw [if_pos empty]
    rw [empty] at whole
    have zero : parseDigits [] = 0 := rfl
    rw [zero, Nat.zero_mul] at whole
    rw [← whole]
    rfl
  · rw [if_neg empty]
    have digits : ∀ c ∈ t.fractionDigits, c.isDigit = true := by
      intro c hc
      exact isDigit_of_mem_decimals 9 t.nanosecond c (padded ▸ List.mem_append_left _ hc)
    have front : (t.fractionDigits ++ ['Z']).takeWhile Char.isDigit = t.fractionDigits := by
      rw [List.takeWhile_append_of_pos digits]
      simp
    have back : (t.fractionDigits ++ ['Z']).dropWhile Char.isDigit = ['Z'] := by
      rw [List.dropWhile_append_of_pos digits]
      rfl
    have all : t.fractionDigits.take 9 = t.fractionDigits := List.take_of_length_le (by omega)
    have places : 9 - t.fractionDigits.length = n := by omega
    simp only [parseFraction, front, back, if_neg empty, all, places, whole]

/-- What is written of an instant reads back as the instant. -/
theorem decodeTime_encodeTime {t : Time} (h : t.Calendar) : decodeTime (encodeTime t) = some t := by
  obtain ⟨valid, month, day⟩ := h
  have days : t.day < 10 ^ 2 := valid.day
  have year := @parseUint_decimals 4 0 9999 _ valid.year (Nat.zero_le _)
    (Nat.le_of_lt_succ valid.year)
  have hour := @parseUint_decimals 2 0 23 _ (Nat.lt_trans valid.hour (by omega))
    (Nat.zero_le _) (Nat.le_of_lt_succ valid.hour)
  have sixty : ∀ {n : Nat}, n < 60 → n < 10 ^ 2 := fun h => Nat.lt_trans h (by omega)
  have minute := @parseUint_decimals 2 0 59 _ (sixty valid.minute) (Nat.zero_le _)
    (Nat.le_of_lt_succ valid.minute)
  have second := @parseUint_decimals 2 0 59 _ (sixty valid.second) (Nat.zero_le _)
    (Nat.le_of_lt_succ valid.second)
  have months := @parseUint_decimals 2 _ _ _ valid.month month.1 month.2
  have dates := @parseUint_decimals 2 _ _ _ days day.1 day.2
  have skip : ∀ c rest, parseChar c (c :: rest) = some rest := fun c rest => if_pos rfl
  unfold decodeTime
  rw [toList_encodeTime valid]
  simp only [year, months, dates, hour, minute, second, skip, Option.bind_eq_bind, Option.bind_some,
    parseFraction_fraction valid.nanosecond, if_true]

end TermLinks
