import TermLinks.E2EPacket

namespace TermLinks.Utf16

/-- White space and line ends of JavaScript, as `trim` and `\s` take them. -/
def isWhite (u : UInt16) : Bool :=
  u ∈ [0x09, 0x0a, 0x0b, 0x0c, 0x0d, 0x20, 0xa0, 0x1680, 0x2028, 0x2029, 0x202f, 0x205f, 0x3000, 0xfeff] ||
    (0x2000 ≤ u && u ≤ 0x200a)

def trimStart (text : Units) : Units := text.dropWhile isWhite

def trimEnd (text : Units) : Units := (text.reverse.dropWhile isWhite).reverse

def trim (text : Units) : Units := trimEnd (trimStart text)

theorem isWhite_plain {u : UInt16} (h : isWhite u = true) : isHigh u = false ∧ isLow u = false := by
  have listed : ∀ u ∈ ([0x09, 0x0a, 0x0b, 0x0c, 0x0d, 0x20, 0xa0, 0x1680, 0x2028, 0x2029, 0x202f,
    0x205f, 0x3000, 0xfeff] :
      List UInt16), isHigh u = false ∧ isLow u = false := List.all_iff_forall_prop.mp (by decide)
  simp only [isWhite, Bool.or_eq_true, decide_eq_true_eq, Bool.and_eq_true] at h
  obtain mem | ⟨_, high⟩ := h
  · exact listed u mem
  · have bound : u.toNat ≤ 0x200a := UInt16.le_iff_toNat_le.mp high
    have notHigh : ¬0xd800 ≤ u.toNat := by omega
    have notLow : ¬0xdc00 ≤ u.toNat := by omega
    simp [isHigh, isLow, notHigh, notLow]

theorem wellFormed_cons {u : UInt16} (high : isHigh u = false) (low : isLow u = false) (rest : Units) :
    wellFormed (u :: rest) = wellFormed rest := by
  cases rest with
  | nil => simp [wellFormed, high, low]
  | cons v rest => simp [wellFormed, high, low]

/-- A unit that is no low surrogate separates. -/
theorem wellFormed_append_cons {u : UInt16} (plain : isLow u = false) (before rest : Units) :
    wellFormed (before ++ u :: rest) = (wellFormed before && wellFormed (u :: rest)) := by
  fun_induction wellFormed before with
  | case1 a b before pair ih => simp only [List.cons_append, wellFormed, pair, if_true, ih]
  | case2 a b before pair ih =>
    simp only [List.cons_append] at ih ⊢
    simp only [wellFormed, pair, Bool.false_eq_true, if_false, ih, Bool.and_assoc]
  | case3 a => simp [wellFormed, plain]
  | case4 => rfl

/-- A low surrogate after a well-formed text stands alone. -/
theorem wellFormed_append_low {u : UInt16} (low : isLow u = true) {before : Units}
    (whole : wellFormed before = true) (rest : Units) : wellFormed (before ++ u :: rest) = false := by
  have notHigh : isHigh u = false := by
    simp only [isLow, isHigh, Bool.and_eq_true, decide_eq_true_eq, Bool.and_eq_false_iff,
      decide_eq_false_iff_not] at low ⊢
    omega
  fun_induction wellFormed before with
  | case1 a b before pair ih =>
    simp only [List.cons_append, wellFormed, pair, if_true]
    exact ih whole
  | case2 a b before pair ih =>
    simp only [Bool.and_eq_true] at whole
    have tail := ih whole.2
    simp only [List.cons_append] at tail ⊢
    simp [wellFormed, pair, tail]
  | case3 a =>
    simp only [Bool.and_eq_true, Bool.not_eq_true'] at whole
    cases rest with
    | nil => simp [wellFormed, whole.1, low]
    | cons v rest => simp [wellFormed, whole.1, notHigh, low]
  | case4 =>
    cases rest with
    | nil => simp [wellFormed, low]
    | cons v rest => simp [wellFormed, notHigh, low]

theorem wellFormed_white {spaces : Units} (white : ∀ u ∈ spaces, isWhite u = true) (rest : Units) :
    wellFormed (spaces ++ rest) = wellFormed rest := by
  induction spaces with
  | nil => rfl
  | cons u spaces ih =>
    obtain ⟨first, white⟩ := List.forall_mem_cons.mp white
    obtain ⟨high, low⟩ := isWhite_plain first
    rw [List.cons_append, wellFormed_cons high low, ih white]

theorem wellFormed_before_white {spaces : Units} (white : ∀ u ∈ spaces, isWhite u = true) (text : Units) :
    wellFormed (text ++ spaces) = wellFormed text := by
  cases spaces with
  | nil => rw [List.append_nil]
  | cons u spaces =>
    obtain ⟨first, _⟩ := List.forall_mem_cons.mp white
    have clean := wellFormed_white white []
    rw [List.append_nil] at clean
    rw [wellFormed_append_cons (isWhite_plain first).2, clean]
    exact Bool.and_true _

theorem trimStart_split (text : Units) :
    ∃ spaces, text = spaces ++ trimStart text ∧ ∀ u ∈ spaces, isWhite u = true :=
  ⟨text.takeWhile isWhite, List.takeWhile_append_dropWhile.symm, fun u mem =>
    List.all_eq_true.mp List.all_takeWhile u mem⟩

theorem trimEnd_split (text : Units) :
    ∃ spaces, text = trimEnd text ++ spaces ∧ ∀ u ∈ spaces, isWhite u = true := by
  refine ⟨(text.reverse.takeWhile isWhite).reverse, ?_, ?_⟩
  · rw [trimEnd, ← List.reverse_append, List.takeWhile_append_dropWhile, List.reverse_reverse]
  · intro u mem
    exact List.all_eq_true.mp List.all_takeWhile u (List.mem_reverse.mp mem)

theorem wellFormed_trimStart (text : Units) : wellFormed (trimStart text) = wellFormed text := by
  obtain ⟨spaces, split, white⟩ := trimStart_split text
  have clean := wellFormed_white white (trimStart text)
  rw [← split] at clean
  exact clean.symm

theorem wellFormed_trimEnd (text : Units) : wellFormed (trimEnd text) = wellFormed text := by
  obtain ⟨spaces, split, white⟩ := trimEnd_split text
  have clean := wellFormed_before_white white (trimEnd text)
  rw [← split] at clean
  exact clean.symm

theorem wellFormed_trim (text : Units) : wellFormed (trim text) = wellFormed text := by
  rw [trim, wellFormed_trimEnd, wellFormed_trimStart]

/-- A cut leaves a well-formed text well formed unless it parts a pair. -/
theorem wellFormed_take {text : Units} (whole : wellFormed text = true) (n : Nat) :
    wellFormed (text.take n) = true ↔ ∀ u ∈ text[n]?, isLow u = false := by
  cases next : text[n]? with
  | none =>
    rw [List.take_of_length_le (List.getElem?_eq_none_iff.mp next)]
    exact iff_of_true whole fun u mem => nomatch mem
  | some u =>
    obtain ⟨bound, here⟩ := List.getElem?_eq_some_iff.mp next
    have split : text = text.take n ++ u :: text.drop (n + 1) := by
      rw [← here, ← List.drop_eq_getElem_cons bound, List.take_append_drop]
    cases low : isLow u with
    | true =>
      constructor
      · intro front
        have broken := wellFormed_append_low low front (text.drop (n + 1))
        rw [← split, whole] at broken
        exact nomatch broken
      · intro none
        exact absurd (low.symm.trans (none u rfl)) (by decide)
    | false =>
      have parts := wellFormed_append_cons low (text.take n) (text.drop (n + 1))
      rw [← split, whole, eq_comm, Bool.and_eq_true] at parts
      refine iff_of_true parts.1 ?_
      rintro v ⟨⟩
      exact low

theorem length_trimEnd (text : Units) : (trimEnd text).length ≤ text.length := by
  obtain ⟨spaces, split, _⟩ := trimEnd_split text
  have length := congrArg List.length split
  rw [List.length_append] at length
  omega

end TermLinks.Utf16
