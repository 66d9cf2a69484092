import Mathlib.Data.List.Infix
import Mathlib.Tactic.Common

namespace TermLinks.Utf16

/-- A string of 16-bit code units, as JavaScript has it; surrogates need not come in pairs. -/
abbrev Units := List UInt16

def isHigh (u : UInt16) : Bool := 0xd800 ≤ u.toNat && u.toNat < 0xdc00

def isLow (u : UInt16) : Bool := 0xdc00 ≤ u.toNat && u.toNat < 0xe000

def pairValue (u v : UInt16) : Nat := 0x10000 + (u.toNat - 0xd800) * 0x400 + (v.toNat - 0xdc00)

/-- A unit that is not part of a pair; a lone surrogate becomes the replacement character. -/
def single (u : UInt16) : Char :=
  if isHigh u || isLow u then Char.ofNat 0xfffd else Char.ofNat u.toNat

/-- The scalar values of a string of code units. -/
def scalars : Units → List Char
  | u :: v :: rest =>
    if isHigh u && isLow v then Char.ofNat (pairValue u v) :: scalars rest
    else single u :: scalars (v :: rest)
  | [u] => [single u]
  | [] => []

/-- No surrogate stands alone. -/
def wellFormed : Units → Bool
  | u :: v :: rest =>
    if isHigh u && isLow v then wellFormed rest else !isHigh u && !isLow u && wellFormed (v :: rest)
  | [u] => !isHigh u && !isLow u
  | [] => true

/-- The code units of one scalar value. -/
def encodeChar (c : Char) : Units :=
  if c.toNat < 0x10000 then [UInt16.ofNat c.toNat]
  else [UInt16.ofNat (0xd800 + (c.toNat - 0x10000) / 0x400),
    UInt16.ofNat (0xdc00 + (c.toNat - 0x10000) % 0x400)]

def encode (text : List Char) : Units := text.flatMap encodeChar

theorem toNat_ofNat {n : Nat} (h : n.isValidChar) : (Char.ofNat n).toNat = n := by
  rw [Char.ofNat, dif_pos h]
  rfl

theorem ofNat_eq_of_toNat {n : Nat} {u : UInt16} (h : n = u.toNat) : UInt16.ofNat n = u := by
  subst h
  exact UInt16.ofNat_toNat

theorem pairValue_valid {u v : UInt16} (hu : isHigh u) (hv : isLow v) :
    (pairValue u v).isValidChar ∧ 0x10000 ≤ pairValue u v := by
  simp only [isHigh, isLow, Bool.and_eq_true, decide_eq_true_eq] at hu hv
  have bound : pairValue u v < 0x110000 := by
    unfold pairValue
    omega
  have low : 0x10000 ≤ pairValue u v := by
    unfold pairValue
    omega
  exact ⟨Or.inr ⟨by omega, bound⟩, low⟩

theorem encodeChar_pairValue {u v : UInt16} (hu : isHigh u) (hv : isLow v) :
    encodeChar (Char.ofNat (pairValue u v)) = [u, v] := by
  obtain ⟨valid, low⟩ := pairValue_valid hu hv
  have value := toNat_ofNat valid
  simp only [isHigh, isLow, Bool.and_eq_true, decide_eq_true_eq] at hu hv
  have high : 0xd800 + (pairValue u v - 0x10000) / 0x400 = u.toNat := by
    unfold pairValue
    omega
  have rest : 0xdc00 + (pairValue u v - 0x10000) % 0x400 = v.toNat := by
    unfold pairValue
    omega
  unfold encodeChar
  rw [value, if_neg (by omega), ofNat_eq_of_toNat high, ofNat_eq_of_toNat rest]

theorem encodeChar_single {u : UInt16} (hu : isHigh u = false) (hl : isLow u = false) :
    encodeChar (single u) = [u] := by
  have range := u.toNat_lt
  have valid : u.toNat.isValidChar := by
    simp only [isHigh, isLow, Bool.and_eq_false_iff, decide_eq_false_iff_not] at hu hl
    by_cases h : u.toNat < 0xd800
    · exact Or.inl h
    · exact Or.inr ⟨by omega, by omega⟩
  unfold encodeChar single
  simp only [hu, hl, Bool.or_self, Bool.false_eq_true, if_false, toNat_ofNat valid]
  rw [if_pos (by omega), ofNat_eq_of_toNat rfl]

theorem encode_scalars {units : Units} (h : wellFormed units) : encode (scalars units) = units := by
  fun_induction scalars units with
  | case1 u v rest pair ih =>
    simp only [wellFormed, pair, if_true] at h
    simp only [Bool.and_eq_true] at pair
    have tail := ih h
    unfold encode at tail ⊢
    rw [List.flatMap_cons, encodeChar_pairValue pair.1 pair.2, tail]
    rfl
  | case2 u v rest pair ih =>
    simp only [wellFormed, pair, Bool.false_eq_true, if_false, Bool.and_eq_true, Bool.not_eq_true'] at h
    have tail := ih h.2
    unfold encode at tail ⊢
    rw [List.flatMap_cons, encodeChar_single h.1.1 h.1.2, tail]
    rfl
  | case3 u =>
    simp only [wellFormed, Bool.and_eq_true, Bool.not_eq_true'] at h
    unfold encode
    rw [List.flatMap_singleton, encodeChar_single h.1 h.2]
  | case4 => rfl

/-- Well-formed strings with the same scalar values are the same string. -/
theorem scalars_injective {a b : Units} (ha : wellFormed a) (hb : wellFormed b)
    (h : scalars a = scalars b) : a = b := by
  rw [← encode_scalars ha, ← encode_scalars hb, h]

theorem single_eq_of_surrogate {u : UInt16} (h : isHigh u ∨ isLow u) : single u = Char.ofNat 0xfffd := by
  unfold single
  rw [if_pos]
  simpa using h

theorem wellFormed_of_no_replacement {units : Units} (h : Char.ofNat 0xfffd ∉ scalars units) :
    wellFormed units := by
  fun_induction scalars units with
  | case1 u v rest pair ih =>
    simp only [wellFormed, pair, if_true]
    exact ih fun mem => h (List.mem_cons_of_mem _ mem)
  | case2 u v rest pair ih =>
    have tail := ih fun mem => h (List.mem_cons_of_mem _ mem)
    have plain : ¬(isHigh u ∨ isLow u) := fun surrogate =>
      h (by rw [single_eq_of_surrogate surrogate]; exact List.mem_cons_self)
    simp only [not_or, Bool.not_eq_true] at plain
    simp [wellFormed, tail, plain.1, plain.2]
  | case3 u =>
    have plain : ¬(isHigh u ∨ isLow u) := fun surrogate =>
      h (by rw [single_eq_of_surrogate surrogate]; exact List.mem_cons_self)
    simp only [not_or, Bool.not_eq_true] at plain
    simp [wellFormed, plain.1, plain.2]
  | case4 => rfl

theorem scalars_cons {u : UInt16} (plain : isHigh u = false) (rest : Units) :
    scalars (u :: rest) = single u :: scalars rest := by
  cases rest with
  | nil => rfl
  | cons v rest => simp [scalars, plain]

theorem scalars_append {text : Units} (plain : ∀ u ∈ text, isHigh u = false) (rest : Units) :
    scalars (text ++ rest) = scalars text ++ scalars rest := by
  induction text with
  | nil => rfl
  | cons u text ih =>
    have hu := plain u List.mem_cons_self
    have tail := ih fun v hv => plain v (List.mem_cons_of_mem u hv)
    rw [List.cons_append, scalars_cons hu, scalars_cons hu, tail, List.cons_append]

/-- A unit that is no low surrogate separates what stands before it from what comes after. -/
theorem scalars_append_cons {u : UInt16} (plain : isLow u = false) (before rest : Units) :
    scalars (before ++ u :: rest) = scalars before ++ scalars (u :: rest) := by
  fun_induction scalars before with
  | case1 a b before pair ih =>
    simp only [List.cons_append, scalars, pair, if_true, ih]
  | case2 a b before pair ih =>
    simp only [List.cons_append] at ih ⊢
    simp only [scalars, pair, Bool.false_eq_true, if_false, ih]
  | case3 a =>
    simp [scalars, plain]
  | case4 => rfl

theorem scalars_encodeChar (c : Char) (rest : Units) :
    scalars (encodeChar c ++ rest) = c :: scalars rest := by
  have valid := c.valid
  have range : c.toNat < 0xd800 ∨ 0xdfff < c.toNat ∧ c.toNat < 0x110000 := valid
  have back := Char.ofNat_toNat c
  have size : UInt16.size = 65536 := rfl
  unfold encodeChar
  split
  next small =>
    have value : (UInt16.ofNat c.toNat).toNat = c.toNat := UInt16.toNat_ofNat_of_lt' (by omega)
    have high : isHigh (UInt16.ofNat c.toNat) = false := by
      simp only [isHigh, value, Bool.and_eq_false_iff, decide_eq_false_iff_not]
      omega
    have low : isLow (UInt16.ofNat c.toNat) = false := by
      simp only [isLow, value, Bool.and_eq_false_iff, decide_eq_false_iff_not]
      omega
    rw [List.singleton_append, scalars_cons high]
    simp only [single, high, low, Bool.or_self, Bool.false_eq_true, if_false, value, back]
  next large =>
    have first : (UInt16.ofNat (0xd800 + (c.toNat - 0x10000) / 0x400)).toNat =
        0xd800 + (c.toNat - 0x10000) / 0x400 := UInt16.toNat_ofNat_of_lt' (by omega)
    have second : (UInt16.ofNat (0xdc00 + (c.toNat - 0x10000) % 0x400)).toNat =
        0xdc00 + (c.toNat - 0x10000) % 0x400 := UInt16.toNat_ofNat_of_lt' (by omega)
    have high : isHigh (UInt16.ofNat (0xd800 + (c.toNat - 0x10000) / 0x400)) = true := by
      simp only [isHigh, first, Bool.and_eq_true, decide_eq_true_eq]
      omega
    have low : isLow (UInt16.ofNat (0xdc00 + (c.toNat - 0x10000) % 0x400)) = true := by
      simp only [isLow, second, Bool.and_eq_true, decide_eq_true_eq]
      omega
    have pair : pairValue (UInt16.ofNat (0xd800 + (c.toNat - 0x10000) / 0x400))
        (UInt16.ofNat (0xdc00 + (c.toNat - 0x10000) % 0x400)) = c.toNat := by
      unfold pairValue
      rw [first, second]
      omega
    simp only [List.cons_append, List.nil_append, scalars, high, low, Bool.and_self, if_true, pair, back]

theorem scalars_encode (text : List Char) : scalars (encode text) = text := by
  induction text with
  | nil => rfl
  | cons c text ih =>
    unfold encode at ih ⊢
    rw [List.flatMap_cons, scalars_encodeChar, ih]

end TermLinks.Utf16
