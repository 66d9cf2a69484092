import TermLinks.Octets

namespace TermLinks.TextDecoder

/-- What the UTF-8 decoder of a browser remembers between two bytes. -/
structure State where
  codePoint : Nat
  seen : Nat
  needed : Nat
  lower : Nat
  upper : Nat
deriving DecidableEq

def initial : State := ⟨0, 0, 0, 0x80, 0xbf⟩

def replacement : Char := '\ufffd'

/-- A byte where a character may begin. -/
def begin (b : Nat) : State × List Char :=
  if b ≤ 0x7f then (initial, [Char.ofNat b])
  else if 0xc2 ≤ b ∧ b ≤ 0xdf then (⟨b % 0x20, 0, 1, 0x80, 0xbf⟩, [])
  else if 0xe0 ≤ b ∧ b ≤ 0xef then
    (⟨b % 0x10, 0, 2, if b = 0xe0 then 0xa0 else 0x80, if b = 0xed then 0x9f else 0xbf⟩, [])
  else if 0xf0 ≤ b ∧ b ≤ 0xf4 then
    (⟨b % 0x08, 0, 3, if b = 0xf0 then 0x90 else 0x80, if b = 0xf4 then 0x8f else 0xbf⟩, [])
  else (initial, [replacement])

def step (s : State) (b : Nat) : State × List Char :=
  if s.needed = 0 then begin b
  else if s.lower ≤ b ∧ b ≤ s.upper then
    let codePoint := s.codePoint * 0x40 + b % 0x40
    if s.seen + 1 = s.needed then (initial, [Char.ofNat codePoint])
    else (⟨codePoint, s.seen + 1, s.needed, 0x80, 0xbf⟩, [])
  else
    -- The character is given up, and the byte read again as the first of the next.
    ((begin b).1, replacement :: (begin b).2)

def run : State → Bytes → List Char
  | s, [] => if s.needed = 0 then [] else [replacement]
  | s, b :: rest => (step s b.toNat).2 ++ run (step s b.toNat).1 rest

/-- `TextDecoder.decode`, which leaves out a byte order mark at the front. -/
def decode (data : Bytes) : List Char :=
  match run initial data with
  | '\ufeff' :: text => text
  | text => text

theorem run_byte {s t : State} {n : Nat} {out : List Char} (small : n < 256)
    (h : step s n = (t, out)) (rest : Bytes) :
    run s (UInt8.ofNat n :: rest) = out ++ run t rest := by
  have value : (UInt8.ofNat n).toNat = n := by rw [UInt8.toNat_ofNat', Nat.mod_eq_of_lt small]
  rw [run, value, h]

/-- The bytes end within a character. -/
theorem run_pending {s t : State} {n : Nat} (small : n < 256) (h : step s n = (t, []))
    (pending : t.needed ≠ 0) :
    run s [UInt8.ofNat n] = [replacement] := by
  rw [run_byte small h, List.nil_append]
  exact if_neg pending

theorem begin_one {n : Nat} (h : n ≤ 0x7f) : begin n = (initial, [Char.ofNat n]) := if_pos h

theorem begin_two {d : Nat} (low : 2 ≤ d) (high : d < 0x20) :
    begin (d + 0xc0) = (⟨d, 0, 1, 0x80, 0xbf⟩, []) := by
  have value : (d + 0xc0) % 0x20 = d := by omega
  unfold begin
  rw [if_neg (by omega), if_pos (by omega), value]

theorem begin_three {d : Nat} (high : d < 0x10) : begin (d + 0xe0) =
    (⟨d, 0, 2, if d = 0 then 0xa0 else 0x80, if d = 0xd then 0x9f else 0xbf⟩, []) := by
  have value : (d + 0xe0) % 0x10 = d := by omega
  have least : d + 0xe0 = 0xe0 ↔ d = 0 := by omega
  have surrogates : d + 0xe0 = 0xed ↔ d = 0xd := by omega
  unfold begin
  rw [if_neg (by omega), if_neg (by omega), if_pos (by omega), value]
  simp only [least, surrogates]

theorem begin_four {d : Nat} (high : d < 5) : begin (d + 0xf0) =
    (⟨d, 0, 3, if d = 0 then 0x90 else 0x80, if d = 4 then 0x8f else 0xbf⟩, []) := by
  have value : (d + 0xf0) % 0x08 = d := by omega
  have least : d + 0xf0 = 0xf0 ↔ d = 0 := by omega
  have greatest : d + 0xf0 = 0xf4 ↔ d = 4 := by omega
  unfold begin
  rw [if_neg (by omega), if_neg (by omega), if_neg (by omega), if_pos (by omega), value]
  simp only [least, greatest]

section

variable {p i k l u d : Nat}

/-- A byte that continues a character, and is not the last of it. -/
theorem step_more (value : d < 0x40) (inside : l ≤ d + 0x80 ∧ d + 0x80 ≤ u) (more : i + 1 < k) :
    step ⟨p, i, k, l, u⟩ (d + 0x80) = (⟨p * 0x40 + d, i + 1, k, 0x80, 0xbf⟩, []) := by
  have digit : (d + 0x80) % 0x40 = d := by omega
  unfold step
  rw [if_neg (show ¬k = 0 by omega), if_pos inside, digit]
  exact if_neg (show ¬i + 1 = k by omega)

theorem step_last (value : d < 0x40) (inside : l ≤ d + 0x80 ∧ d + 0x80 ≤ u) (last : i + 1 = k) :
    step ⟨p, i, k, l, u⟩ (d + 0x80) = (initial, [Char.ofNat (p * 0x40 + d)]) := by
  have digit : (d + 0x80) % 0x40 = d := by omega
  unfold step
  rw [if_neg (show ¬k = 0 by omega), if_pos inside, digit]
  exact if_pos last

end

/-- The decoder reads back a character; fewer of its bytes, it takes for one replacement character. -/
def Reads (c : Char) (word : Bytes) : Prop :=
  (∀ rest, run initial (word ++ rest) = c :: run initial rest) ∧
    ∀ n, 0 < n → n < word.length → run initial (word.take n) = [replacement]

theorem step_initial (n : Nat) : step initial n = begin n := rfl

theorem reads_one {v : Nat} (high : v ≤ 0x7f) : Reads (Char.ofNat v) [UInt8.ofNat v] := by
  constructor
  · intro rest
    exact run_byte (by omega) ((step_initial v).trans (begin_one high)) rest
  · intro n positive short
    rw [List.length_singleton] at short
    omega

theorem reads_two {v : Nat} (low : 0x7f < v) (high : v ≤ 0x7ff) :
    Reads (Char.ofNat v) [UInt8.ofNat (v / 64 % 0x20 + 0xc0), UInt8.ofNat (v % 0x40 + 0x80)] := by
  have lead : v / 64 % 0x20 = v / 64 := by omega
  have whole : v / 64 * 0x40 + v % 0x40 = v := by omega
  have first : step initial (v / 64 + 0xc0) = (⟨v / 64, 0, 1, 0x80, 0xbf⟩, []) :=
    begin_two (by omega) (by omega)
  have second : step ⟨v / 64, 0, 1, 0x80, 0xbf⟩ (v % 0x40 + 0x80) = (initial, [Char.ofNat v]) := by
    rw [step_last (by omega) ⟨by omega, by omega⟩ rfl, whole]
  rw [lead]
  constructor
  · intro rest
    exact (run_byte (by omega) first _).trans (run_byte (by omega) second rest)
  · intro n positive short
    simp only [List.length_cons, List.length_nil] at short
    obtain rfl : n = 1 := by omega
    exact run_pending (by omega) first (Nat.succ_ne_zero _)

theorem reads_three {v : Nat} (low : 0x7ff < v) (high : v ≤ 0xffff) (valid : v < 0xd800 ∨ 0xdfff < v) :
    Reads (Char.ofNat v) [UInt8.ofNat (v / 4096 % 0x10 + 0xe0), UInt8.ofNat (v / 64 % 0x40 + 0x80),
      UInt8.ofNat (v % 0x40 + 0x80)] := by
  have lead : v / 4096 % 0x10 = v / 4096 := by omega
  have middle : v / 4096 * 0x40 + v / 64 % 0x40 = v / 64 := by omega
  have whole : v / 64 * 0x40 + v % 0x40 = v := by omega
  -- Overlong forms and surrogates are kept out by the bounds on the second byte.
  have first : step initial (v / 4096 + 0xe0) = (⟨v / 4096, 0, 2, if v / 4096 = 0 then 0xa0 else 0x80,
      if v / 4096 = 0xd then 0x9f else 0xbf⟩, []) := begin_three (by omega)
  have second : step ⟨v / 4096, 0, 2, if v / 4096 = 0 then 0xa0 else 0x80,
      if v / 4096 = 0xd then 0x9f else 0xbf⟩ (v / 64 % 0x40 + 0x80) = (⟨v / 64, 1, 2, 0x80, 0xbf⟩, []) := by
    rw [step_more (by omega) ⟨?_, ?_⟩ (Nat.lt_succ_self 1), middle]
    · split <;> omega
    · split <;> omega
  have third : step ⟨v / 64, 1, 2, 0x80, 0xbf⟩ (v % 0x40 + 0x80) = (initial, [Char.ofNat v]) := by
    rw [step_last (by omega) ⟨by omega, by omega⟩ rfl, whole]
  rw [lead]
  constructor
  · intro rest
    refine (run_byte (by omega) first _).trans ?_
    exact (run_byte (by omega) second _).trans (run_byte (by omega) third rest)
  · intro n positive short
    simp only [List.length_cons, List.length_nil] at short
    obtain rfl | rfl : n = 1 ∨ n = 2 := by omega
    · exact run_pending (by omega) first (Nat.succ_ne_zero _)
    · refine (run_byte (by omega) first _).trans ?_
      exact run_pending (by omega) second (Nat.succ_ne_zero _)

theorem reads_four {v : Nat} (low : 0xffff < v) (high : v < 0x110000) :
    Reads (Char.ofNat v) [UInt8.ofNat (v / 262144 % 0x08 + 0xf0), UInt8.ofNat (v / 4096 % 0x40 + 0x80),
      UInt8.ofNat (v / 64 % 0x40 + 0x80), UInt8.ofNat (v % 0x40 + 0x80)] := by
  have lead : v / 262144 % 0x08 = v / 262144 := by omega
  have upper : v / 262144 * 0x40 + v / 4096 % 0x40 = v / 4096 := by omega
  have middle : v / 4096 * 0x40 + v / 64 % 0x40 = v / 64 := by omega
  have whole : v / 64 * 0x40 + v % 0x40 = v := by omega
  have first : step initial (v / 262144 + 0xf0) = (⟨v / 262144, 0, 3, if v / 262144 = 0 then 0x90 else 0x80,
      if v / 262144 = 4 then 0x8f else 0xbf⟩, []) := begin_four (by omega)
  have second : step ⟨v / 262144, 0, 3, if v / 262144 = 0 then 0x90 else 0x80,
      if v / 262144 = 4 then 0x8f else 0xbf⟩ (v / 4096 % 0x40 + 0x80) = (⟨v / 4096, 1, 3, 0x80, 0xbf⟩, []) := by
    rw [step_more (by omega) ⟨?_, ?_⟩ (Nat.lt_add_of_pos_right (Nat.succ_pos 1)), upper]
    · split <;> omega
    · split <;> omega
  have third : step ⟨v / 4096, 1, 3, 0x80, 0xbf⟩ (v / 64 % 0x40 + 0x80) = (⟨v / 64, 2, 3, 0x80, 0xbf⟩, []) := by
    rw [step_more (by omega) ⟨by omega, by omega⟩ (Nat.lt_succ_self 2), middle]
  have fourth : step ⟨v / 64, 2, 3, 0x80, 0xbf⟩ (v % 0x40 + 0x80) = (initial, [Char.ofNat v]) := by
    rw [step_last (by omega) ⟨by omega, by omega⟩ rfl, whole]
  rw [lead]
  constructor
  · intro rest
    refine (run_byte (by omega) first _).trans ?_
    refine (run_byte (by omega) second _).trans ?_
    exact (run_byte (by omega) third _).trans (run_byte (by omega) fourth rest)
  · intro n positive short
    simp only [List.length_cons, List.length_nil] at short
    obtain rfl | rfl | rfl : n = 1 ∨ n = 2 ∨ n = 3 := by omega
    · exact run_pending (by omega) first (Nat.succ_ne_zero _)
    · refine (run_byte (by omega) first _).trans ?_
      exact run_pending (by omega) second (Nat.succ_ne_zero _)
    · refine (run_byte (by omega) first _).trans ?_
      refine (run_byte (by omega) second _).trans ?_
      exact run_pending (by omega) third (Nat.succ_ne_zero _)

theorem reads_encode (c : Char) : Reads c (String.utf8EncodeChar c) := by
  have value : Char.ofNat c.val.toNat = c := Char.ofNat_toNat c
  have valid : c.val.toNat < 0xd800 ∨ 0xdfff < c.val.toNat ∧ c.val.toNat < 0x110000 := c.valid
  unfold String.utf8EncodeChar
  dsimp only
  generalize c.val.toNat = v at value valid
  subst value
  split
  next => exact reads_one (by omega)
  next =>
    split
    next => exact reads_two (by omega) (by omega)
    next =>
      split
      next => exact reads_three (by omega) (by omega) (by omega)
      next => exact reads_four (by omega) (by omega)

/-- The whole characters among the first bytes of a text, and a replacement character for one cut short. -/
def cut : Nat → List Char → List Char
  | _, [] => []
  | bytes, c :: rest =>
    if c.utf8Size ≤ bytes then c :: cut (bytes - c.utf8Size) rest else if bytes = 0 then [] else [replacement]

/-- What the decoder makes of the first bytes of a text. -/
theorem run_take (bytes : Nat) (cs : List Char) :
    run initial ((cs.flatMap String.utf8EncodeChar).take bytes) = cut bytes cs := by
  induction cs generalizing bytes with
  | nil => simp [cut, run, initial]
  | cons c cs ih =>
    have size := String.length_utf8EncodeChar c
    rw [List.flatMap_cons, cut]
    split
    next fits =>
      have more : bytes = (String.utf8EncodeChar c).length + (bytes - c.utf8Size) := by omega
      rw [more, List.take_length_add_append, (reads_encode c).1, ih, ← more]
    next short =>
      rw [List.take_append_of_le_length (by omega)]
      split
      next none =>
        rw [none]
        rfl
      next => exact (reads_encode c).2 bytes (by omega) (by omega)

end TermLinks.TextDecoder
