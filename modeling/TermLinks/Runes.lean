import TermLinks.GoText
import TermLinks.Octets
import TermLinks.PrefixCode

namespace TermLinks.Runes

/-- `utf8.RuneStart`. -/
def runeStart (b : UInt8) : Bool := b &&& 0xc0 ≠ 0x80

/-- `utf8.Valid`. -/
def valid (data : Bytes) : Bool := data.toByteArray.validateUTF8

/-- `utf8.DecodeRune`; the bytes may begin with no character. -/
def decodeRune (data : Bytes) : Option Char := data.toByteArray.utf8DecodeChar? 0

/-- The characters that `range` gives, once some bytes are passed over; a byte that begins none gives the
replacement character. -/
def runesFrom : Nat → Bytes → List Char
  | _, [] => []
  | skip + 1, _ :: rest => runesFrom skip rest
  | 0, b :: rest =>
    match decodeRune (b :: rest) with
    | some c => c :: runesFrom (c.utf8Size - 1) rest
    | none => '\ufffd' :: runesFrom 0 rest

def runes (data : Bytes) : List Char := runesFrom 0 data

/-- `strings.Map` of a function that keeps or drops characters. -/
def filterRunes (keep : Char → Bool) (data : Bytes) : Bytes :=
  ((runes data).filter keep).flatMap String.utf8EncodeChar

/-- `utf8.DecodeLastRune`: the last start byte has to begin a character that reaches to the end. -/
def lastRune (data : Bytes) : Option Char :=
  let behind := (data.reverse.takeWhile fun b => !runeStart b).length
  (decodeRune (data.drop (data.length - (behind + 1)))).filter fun c => c.utf8Size = behind + 1

def trimLeftFrom : Nat → Bytes → Bytes
  | _, [] => []
  | skip + 1, _ :: rest => trimLeftFrom skip rest
  | 0, b :: rest =>
    match decodeRune (b :: rest) with
    | some c => if isSpace c then trimLeftFrom (c.utf8Size - 1) rest else b :: rest
    | none => b :: rest

def trimRightFrom : Nat → Bytes → Bytes
  | 0, data => data
  | rounds + 1, data =>
    match lastRune data with
    | some c => if isSpace c then trimRightFrom rounds (data.take (data.length - c.utf8Size)) else data
    | none => data

/-- `strings.TrimSpace`. -/
def trimSpace (data : Bytes) : Bytes :=
  let front := trimLeftFrom 0 data
  trimRightFrom front.length front

/-- The bytes cut into characters; a byte that begins none is one of its own. -/
def piecesFrom : Nat → Bytes → List Bytes
  | 0, _ | _, [] => []
  | rounds + 1, b :: rest =>
    let size := match decodeRune (b :: rest) with
      | some c => c.utf8Size
      | none => 1
    (b :: rest).take size :: piecesFrom rounds ((b :: rest).drop size)

/-- `strings.Fields`. -/
def fields (data : Bytes) : List Bytes :=
  (((piecesFrom data.length data).splitOnP fun piece =>
    (decodeRune piece).any isSpace).map List.flatten).filter (· ≠ [])

example : fields [0x61, 0xff, 0x20, 0x09, 0xc2, 0xa0, 0x62] = [[0x61, 0xff], [0x62]] := by decide

theorem runeStart_ofNat {n : Nat} (h : n < 256) :
    runeStart (UInt8.ofNat n) = decide (n < 0x80 ∨ 0xc0 ≤ n) := by
  have all : ∀ n < 256, runeStart (UInt8.ofNat n) = decide (n < 0x80 ∨ 0xc0 ≤ n) := by decide +kernel
  exact all n h

theorem decodeRune_append (c : Char) (rest : Bytes) :
    decodeRune (String.utf8EncodeChar c ++ rest) = some c := by
  rw [decodeRune, List.toByteArray_append, ByteArray.utf8DecodeChar?_utf8EncodeChar_append]

theorem decodeRune_encode (c : Char) : decodeRune (String.utf8EncodeChar c) = some c := by
  have alone := decodeRune_append c []
  rwa [List.append_nil] at alone

/-- A character begins with a start byte, and no other byte of it is one. -/
theorem encode_starts (c : Char) : ∃ b rest, String.utf8EncodeChar c = b :: rest ∧ runeStart b = true ∧
    ∀ x ∈ rest, runeStart x = false := by
  have continuation : ∀ n : Nat, runeStart (UInt8.ofNat (n % 0x40 + 0x80)) = false := by
    intro n
    rw [runeStart_ofNat (by omega), decide_eq_false_iff_not]
    omega
  unfold String.utf8EncodeChar
  dsimp only
  generalize c.val.toNat = v
  split
  next small =>
    refine ⟨_, _, rfl, ?_, List.forall_mem_nil _⟩
    rw [runeStart_ofNat (by omega), decide_eq_true_eq]
    omega
  next =>
    split
    next =>
      refine ⟨_, _, rfl, ?_, List.forall_mem_cons.mpr ⟨continuation _, List.forall_mem_nil _⟩⟩
      rw [runeStart_ofNat (by omega), decide_eq_true_eq]
      omega
    next =>
      split
      next =>
        refine ⟨_, _, rfl, ?_, List.forall_mem_cons.mpr ⟨continuation _,
          List.forall_mem_cons.mpr ⟨continuation _, List.forall_mem_nil _⟩⟩⟩
        rw [runeStart_ofNat (by omega), decide_eq_true_eq]
        omega
      next =>
        refine ⟨_, _, rfl, ?_, List.forall_mem_cons.mpr ⟨continuation _,
          List.forall_mem_cons.mpr ⟨continuation _,
            List.forall_mem_cons.mpr ⟨continuation _, List.forall_mem_nil _⟩⟩⟩⟩
        rw [runeStart_ofNat (by omega), decide_eq_true_eq]
        omega

/-- UTF-8 as a code of the characters. -/
def utf8Code : PrefixCode Char UInt8 where
  encode := String.utf8EncodeChar
  start := runeStart
  starts := encode_starts
  injective := by
    rintro c c' ⟨rest, whole⟩
    have first := decodeRune_append c rest
    rw [whole, decodeRune_encode] at first
    exact (Option.some.inj first).symm

/-- The bytes are UTF-8. -/
abbrev Valid (data : Bytes) : Prop := utf8Code.Words data

theorem valid_iff {data : Bytes} : valid data = true ↔ Valid data := by
  rw [valid, ByteArray.validateUTF8_eq_true_iff]
  constructor
  · rintro ⟨cs, whole⟩
    refine ⟨cs, ?_⟩
    have list := congrArg (fun array : ByteArray => array.data.toList) whole
    show data = cs.flatMap String.utf8EncodeChar
    simpa [List.utf8Encode] using list
  · rintro ⟨cs, rfl⟩
    exact ⟨cs, rfl⟩

theorem valid_utf8 (text : String) : Valid (utf8 text) := by
  refine ⟨text.toList, ?_⟩
  rw [← String.ofList_toList (s := text), utf8_ofList, String.ofList_toList]
  rfl

theorem exists_text {data : Bytes} (h : Valid data) : ∃ text, data = utf8 text := by
  obtain ⟨cs, rfl⟩ := h
  exact ⟨String.ofList cs, (utf8_ofList cs).symm⟩

theorem valid_empty : Valid [] := PrefixCode.words_nil

theorem Valid.append {a b : Bytes} (ha : Valid a) (hb : Valid b) : Valid (a ++ b) :=
  PrefixCode.words_append ha hb

theorem valid_filterRunes (keep : Char → Bool) (data : Bytes) : Valid (filterRunes keep data) := ⟨_, rfl⟩

theorem trimLeftFrom_skip (skip : Nat) (data : Bytes) :
    trimLeftFrom skip data = trimLeftFrom 0 (data.drop skip) := by
  induction data generalizing skip with
  | nil => cases skip <;> rfl
  | cons b rest ih =>
    cases skip with
    | zero => rfl
    | succ skip => exact ih skip

theorem trimLeft_suffix (skip : Nat) (data : Bytes) : trimLeftFrom skip data <:+ data := by
  induction data generalizing skip with
  | nil => cases skip <;> exact List.suffix_refl _
  | cons b rest ih =>
    have within : ∀ skip, trimLeftFrom skip rest <:+ b :: rest := fun skip => (ih skip).trans (List.suffix_cons b rest)
    cases skip with
    | succ skip => exact within skip
    | zero =>
      simp only [trimLeftFrom]
      split
      next c _ =>
        split
        next => exact within _
        next => exact List.suffix_refl _
      next => exact List.suffix_refl _

theorem trimLeft_append (c : Char) (rest : Bytes) : trimLeftFrom 0 (String.utf8EncodeChar c ++ rest) =
    if isSpace c then trimLeftFrom 0 rest else String.utf8EncodeChar c ++ rest := by
  have first := decodeRune_append c rest
  have size := String.length_utf8EncodeChar c
  cases word : String.utf8EncodeChar c with
  | nil => exact absurd word String.utf8EncodeChar_ne_nil
  | cons b more =>
    rw [word] at first size
    rw [List.length_cons] at size
    have left : c.utf8Size - 1 = more.length := by omega
    rw [List.cons_append] at first ⊢
    simp only [trimLeftFrom, first]
    rw [trimLeftFrom_skip, left, List.drop_left]

theorem trimLeft_words (cs : List Char) : trimLeftFrom 0 (cs.flatMap String.utf8EncodeChar) =
    (cs.dropWhile isSpace).flatMap String.utf8EncodeChar := by
  induction cs with
  | nil => rfl
  | cons c cs ih =>
    rw [List.flatMap_cons, trimLeft_append, ih]
    by_cases space : isSpace c = true
    · rw [if_pos space, List.dropWhile_cons_of_pos space]
    · rw [if_neg space, List.dropWhile_cons_of_neg space]
      rfl

theorem lastRune_append (front : Bytes) (c : Char) :
    lastRune (front ++ String.utf8EncodeChar c) = some c := by
  obtain ⟨b, rest, word, starts, others⟩ := encode_starts c
  have behind : (((front ++ String.utf8EncodeChar c).reverse).takeWhile fun x => !runeStart x) = rest.reverse := by
    rw [List.reverse_append, word, List.reverse_cons, List.append_assoc]
    rw [List.takeWhile_append_of_pos (by simpa using others)]
    simp [starts]
  have size := String.length_utf8EncodeChar c
  rw [word, List.length_cons] at size
  have split : (front ++ String.utf8EncodeChar c).length - (rest.length + 1) = front.length := by
    rw [List.length_append, word, List.length_cons]
    omega
  simp only [lastRune, behind, List.length_reverse, split, List.drop_left, decodeRune_encode]
  rw [Option.filter_some, if_pos (by simp [size])]

theorem trimRight_prefixed (rounds : Nat) (data : Bytes) : trimRightFrom rounds data <+: data := by
  induction rounds generalizing data with
  | zero => exact List.prefix_refl _
  | succ rounds ih =>
    simp only [trimRightFrom]
    split
    next =>
      split
      next => exact (ih _).trans (List.take_prefix _ _)
      next => exact List.prefix_refl _
    next => exact List.prefix_refl _

theorem trimRight_append (rounds : Nat) (front : Bytes) (c : Char) :
    trimRightFrom (rounds + 1) (front ++ String.utf8EncodeChar c) =
      if isSpace c then trimRightFrom rounds front else front ++ String.utf8EncodeChar c := by
  have left : (front ++ String.utf8EncodeChar c).length - c.utf8Size = front.length := by
    rw [List.length_append, String.length_utf8EncodeChar]
    omega
  simp only [trimRightFrom, lastRune_append]
  rw [left, List.take_left]

theorem trimRight_words {rounds : Nat} {cs : List Char} (enough : cs.length ≤ rounds) :
    trimRightFrom rounds (cs.flatMap String.utf8EncodeChar) =
      (cs.reverse.dropWhile isSpace).reverse.flatMap String.utf8EncodeChar := by
  induction cs using List.reverseRecOn generalizing rounds with
  | nil => cases rounds <;> rfl
  | append_singleton cs c ih =>
    rw [List.length_append, List.length_singleton] at enough
    obtain ⟨rounds, rfl⟩ : ∃ n, rounds = n + 1 := ⟨rounds - 1, by omega⟩
    rw [List.flatMap_append, List.flatMap_singleton, trimRight_append, ih (by omega), List.reverse_append]
    by_cases space : isSpace c = true
    · rw [if_pos space]
      simp [space]
    · rw [if_neg space]
      simp [space]

/-- On the bytes of a text, white space is trimmed as on its characters. -/
theorem trimSpace_utf8 (text : String) : trimSpace (utf8 text) = utf8 (TermLinks.trimSpace text) := by
  have bytes : ∀ text : String, utf8 text = text.toList.flatMap String.utf8EncodeChar := by
    intro text
    rw [← utf8_ofList, String.ofList_toList]
  have enough : ∀ cs : List Char, cs.length ≤ (cs.flatMap String.utf8EncodeChar).length := by
    intro cs
    induction cs with
    | nil => exact Nat.le_refl _
    | cons c cs ih =>
      have some := c.utf8Size_pos
      rw [List.flatMap_cons, List.length_append, String.length_utf8EncodeChar, List.length_cons]
      omega
  simp only [trimSpace]
  rw [bytes, trimLeft_words, trimRight_words (enough _), TermLinks.trimSpace, utf8_ofList]

theorem valid_trimSpace {data : Bytes} (h : Valid data) : Valid (trimSpace data) := by
  obtain ⟨text, rfl⟩ := exists_text h
  rw [trimSpace_utf8]
  exact valid_utf8 _

theorem length_trimSpace (data : Bytes) : (trimSpace data).length ≤ data.length := by
  have right := (trimRight_prefixed (trimLeftFrom 0 data).length (trimLeftFrom 0 data)).length_le
  have left := (trimLeft_suffix 0 data).length_le
  exact Nat.le_trans right left

end TermLinks.Runes
