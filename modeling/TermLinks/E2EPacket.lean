import TermLinks.CloudPacket
import TermLinks.Utf16

namespace TermLinks.E2E

open Cloud (Direction)

variable {Key Value : Type}

/-- A string literal as JavaScript holds it. -/
def units (text : String) : Utf16.Units := Utf16.encode text.toList

/-- `TextEncoder.encode`. -/
def textEncode (text : Utf16.Units) : Bytes := utf8 (String.ofList (Utf16.scalars text))

def deriveEncryptionKey (digest : Bytes → Key) (token : Utf16.Units) : Key :=
  digest (textEncode (units "termlinks-e2e-v1\x00" ++ token))

def encryptionAAD (channel : Utf16.Units) (direction : Direction) (sequence : Bytes) : Bytes :=
  textEncode (units "termlinks-e2e-v1:" ++ channel ++ units ":" ++ units direction.text ++ units ":") ++ sequence

/-- The loop of `bytesToBase64URL` that builds a string of `0x8000` characters at a time. -/
def binaryString (bytes : Bytes) : Bytes :=
  (List.range ((bytes.length + 0x7fff) / 0x8000)).flatMap fun i => (bytes.drop (i * 0x8000)).take 0x8000

def btoa (binary : Bytes) : List Char :=
  (Base64.sextets binary).map (Base64.encodeChar Base64.stdAlphabet) ++
    List.replicate ((3 - binary.length % 3) % 3) '='

def replaceAll (pattern replacement : Char) (text : List Char) : List Char :=
  text.map fun c => if c = pattern then replacement else c

def bytesToBase64URL (bytes : Bytes) : String :=
  String.ofList <|
    (replaceAll '/' '_' (replaceAll '+' '-' (btoa (binaryString bytes)))).rdropWhile (· = '=')

/-- `value.length`, counted in code units. -/
def utf16Length (text : List Char) : Nat := (text.map fun c => if c.toNat < 0x10000 then 1 else 2).sum

/-- The step of `atob` that takes one or two padding characters off a text of full length. -/
def stripPadding (text : List Char) : List Char :=
  if text.length % 4 = 0 then
    match text.reverse with
    | '=' :: '=' :: rest => rest.reverse
    | '=' :: rest => rest.reverse
    | _ => text
  else text

def asciiWhitespace : List Char := ['\t', '\n', '\x0c', '\r', ' ']

def atob (text : List Char) : Option Bytes :=
  (Base64.decodeChars Base64.stdAlphabet (stripPadding (text.filter (· ∉ asciiWhitespace)))).bind Base64.octets

def base64URLToBytes (value : String) : Option Bytes :=
  atob (replaceAll '_' '/' (replaceAll '-' '+' value.toList) ++
    ['=', '=', '='].drop ((utf16Length value.toList + 3) % 4))

/-- `stringify` is `encoder.encode(JSON.stringify(value))` and `iv` the random bytes. -/
def encryptPacket (encrypt : Key → Bytes → Bytes → Bytes → Bytes) (stringify : Value → Bytes) (key : Key)
    (channel : Utf16.Units) (direction : Direction) (sequence : Nat) (iv : Bytes) (value : Value) :
    Option String :=
  if sequence ≥ 0xffffffff then none
  else
    let sequenceBytes := putUint32 sequence
    let ciphertext := encrypt key iv (stringify value) (encryptionAAD channel direction sequenceBytes)
    some (bytesToBase64URL (sequenceBytes ++ iv ++ ciphertext))

/-- The plaintext bytes of a packet; `decryptPacket` parses them. -/
def openPacket (decrypt : Key → Bytes → Bytes → Bytes → Option Bytes) (key : Key) (channel : Utf16.Units)
    (direction : Direction) (expectedSequence : Nat) (bytes : Bytes) : Option Bytes :=
  if bytes.length < 32 then none
  else
    let sequenceBytes := bytes.take 4
    if uint32 sequenceBytes ≠ expectedSequence then none
    else
      decrypt key ((bytes.drop 4).take 12) (bytes.drop 16) (encryptionAAD channel direction sequenceBytes)

/-- `parse` is `JSON.parse(decoder.decode(plaintext))`, which may throw. -/
def decryptPacket (decrypt : Key → Bytes → Bytes → Bytes → Option Bytes)
    (parse : Bytes → Option Value) (key : Key)
    (channel : Utf16.Units) (direction : Direction) (expectedSequence : Nat) (packet : String) :
    Option Value :=
  ((base64URLToBytes packet).bind (openPacket decrypt key channel direction expectedSequence)).bind parse

/-- The channel's text is framed by characters that join no surrogate pair, so it is encoded alone. -/
theorem encryptionAAD_eq (channel : Utf16.Units) (direction : Direction) (sequence : Bytes) :
    encryptionAAD channel direction sequence = Cloud.additionalData (textEncode channel) direction
      sequence := by
  have context : ∀ u ∈ units "termlinks-e2e-v1:", Utf16.isHigh u = false := List.all_iff_forall_prop.mp (by decide)
  have colon : Utf16.isLow 58 = false := by decide
  have prefix_text : Utf16.scalars (units "termlinks-e2e-v1:") = Cloud.aadContext.toList := by decide
  have colon_text : units ":" = [58] := by decide
  have suffix_text : Utf16.scalars (58 :: (units direction.text ++ [58])) =
      (":" ++ direction.text ++ ":").toList := by
    cases direction with
    | browser => decide
    | connector => decide
  have pieces : units "termlinks-e2e-v1:" ++ channel ++ units ":" ++ units direction.text ++ units ":" =
      units "termlinks-e2e-v1:" ++ (channel ++ 58 :: (units direction.text ++ [58])) := by
    rw [colon_text]
    simp only [List.append_assoc, List.cons_append, List.nil_append]
  unfold encryptionAAD Cloud.additionalData textEncode
  rw [pieces, Utf16.scalars_append context, Utf16.scalars_append_cons colon, prefix_text, suffix_text]
  simp only [String.ofList_append, String.ofList_toList, utf8_append, List.append_assoc]

/-- Both ends derive one key from a token. -/
theorem deriveEncryptionKey_eq (digest : Bytes → Key) (token : Utf16.Units) :
    deriveEncryptionKey digest token = Cloud.deriveKey digest (textEncode token) := by
  have context : ∀ u ∈ units "termlinks-e2e-v1\x00", Utf16.isHigh u = false := List.all_iff_forall_prop.mp (by decide)
  have prefix_text : Utf16.scalars (units "termlinks-e2e-v1\x00") = Cloud.keyContext.toList := by decide
  unfold deriveEncryptionKey Cloud.deriveKey textEncode
  rw [Utf16.scalars_append context, prefix_text, String.ofList_append, String.ofList_toList, utf8_append]

theorem flatMap_chunks (size : Nat) (l : Bytes) (count : Nat) :
    ((List.range count).flatMap fun i => (l.drop (i * size)).take size) = l.take (count * size) := by
  induction count with
  | zero => simp
  | succ count ih =>
    rw [List.range_succ, List.flatMap_append, ih, List.flatMap_singleton, Nat.succ_mul, List.take_add]

theorem binaryString_eq (bytes : Bytes) : binaryString bytes = bytes := by
  unfold binaryString
  rw [flatMap_chunks]
  apply List.take_of_length_le
  omega

theorem replaceAll_append (pattern replacement : Char) (a b : List Char) :
    replaceAll pattern replacement (a ++ b) = replaceAll pattern replacement a ++ replaceAll pattern
      replacement b :=
  List.map_append

theorem replaceAll_encodeChar {n : Nat} (h : n < 64) :
    (fun c => if c = '/' then '_' else c) ((fun c => if c = '+' then '-' else c)
      (Base64.encodeChar Base64.stdAlphabet n)) = Base64.encodeChar Base64.urlAlphabet n := by
  have all : ∀ n < 64, (fun c => if c = '/' then '_' else c) ((fun c => if c = '+' then '-' else c)
      (Base64.encodeChar Base64.stdAlphabet n)) = Base64.encodeChar Base64.urlAlphabet n := by decide +kernel
  exact all n h

theorem replaceAll_decodeChar {n : Nat} (h : n < 64) :
    (fun c => if c = '_' then '/' else c) ((fun c => if c = '-' then '+' else c)
      (Base64.encodeChar Base64.urlAlphabet n)) = Base64.encodeChar Base64.stdAlphabet n := by
  have all : ∀ n < 64, (fun c => if c = '_' then '/' else c) ((fun c => if c = '-' then '+' else c)
      (Base64.encodeChar Base64.urlAlphabet n)) = Base64.encodeChar Base64.stdAlphabet n := by decide +kernel
  exact all n h

theorem rdropWhile_append_replicate {text : List Char} (clean : ∀ c ∈ text, c ≠ '=') (n : Nat) :
    (text ++ List.replicate n '=').rdropWhile (· = '=') = text := by
  induction n with
  | zero =>
    rw [List.replicate_zero, List.append_nil]
    apply List.rdropWhile_eq_self_iff.mpr
    intro nonempty
    simpa using clean _ (List.getLast_mem nonempty)
  | succ n ih =>
    rw [List.replicate_succ', ← List.append_assoc, List.rdropWhile_concat_pos _ _ _ (by simp), ih]

theorem urlChar_ne_pad {n : Nat} (h : n < 64) : Base64.encodeChar Base64.urlAlphabet n ≠ '=' := by
  have all : ∀ c ∈ Base64.urlAlphabet, c ≠ '=' := List.all_iff_forall_prop.mp (by decide)
  exact all _ (Base64.encodeChar_mem (by decide) h)

/-- Both encoders write the same text. -/
theorem bytesToBase64URL_eq (bytes : Bytes) : bytesToBase64URL bytes = Cloud.rawURLEncode bytes := by
  have small := Base64.sextet_lt bytes
  unfold bytesToBase64URL Cloud.rawURLEncode btoa
  rw [binaryString_eq, replaceAll_append, replaceAll_append]
  have body : replaceAll '/' '_' (replaceAll '+' '-'
      ((Base64.sextets bytes).map (Base64.encodeChar Base64.stdAlphabet))) =
      (Base64.sextets bytes).map (Base64.encodeChar Base64.urlAlphabet) := by
    simp only [replaceAll, List.map_map]
    apply List.map_congr_left
    intro n hn
    exact replaceAll_encodeChar (small n hn)
  have padding : ∀ k, replaceAll '/' '_' (replaceAll '+' '-' (List.replicate k '=')) = List.replicate k '=' := by
    intro k
    simp [replaceAll]
  have clean : ∀ c ∈ (Base64.sextets bytes).map (Base64.encodeChar Base64.urlAlphabet), c ≠ '=' := by
    intro c hc
    obtain ⟨n, hn, rfl⟩ := List.mem_map.mp hc
    exact urlChar_ne_pad (small n hn)
  rw [body, padding, rdropWhile_append_replicate clean]

theorem stripPadding_append {text : List Char} (clean : ∀ c ∈ text, c ≠ '=') {k : Nat} (two : k ≤ 2)
    (full : (text.length + k) % 4 = 0) : stripPadding (text ++ List.replicate k '=') = text := by
  have unpadded : ∀ c ∈ text.reverse, c ≠ '=' := fun c hc => clean c (List.mem_reverse.mp hc)
  have turned : text = text.reverse.reverse := by rw [List.reverse_reverse]
  unfold stripPadding
  rw [if_pos (by simpa using full), List.reverse_append, List.reverse_replicate]
  generalize text.reverse = back at unpadded turned
  obtain rfl | rfl | rfl : k = 0 ∨ k = 1 ∨ k = 2 := by omega
  · cases back with
    | nil => simp [turned]
    | cons c back =>
      have hc := unpadded c List.mem_cons_self
      simp only [List.replicate_zero, List.nil_append, List.append_nil]
      split
      next heq => exact absurd (List.cons.inj heq).1 hc
      next heq => exact absurd (List.cons.inj heq).1 hc
      next => rfl
  · cases back with
    | nil => simp [turned]
    | cons c back =>
      have hc := unpadded c List.mem_cons_self
      simp only [List.replicate_one, List.singleton_append]
      split
      next heq => exact absurd (List.cons.inj (List.cons.inj heq).2).1 hc
      next heq => rw [← (List.cons.inj heq).2, turned]
      next never => exact absurd rfl (never (c :: back))
  · simp only [List.replicate, List.cons_append, List.nil_append]
    exact turned.symm

theorem utf16Length_eq {text : List Char} (h : ∀ c ∈ text, c.toNat < 0x10000) :
    utf16Length text = text.length := by
  induction text with
  | nil => rfl
  | cons c text ih =>
    have hc := h c List.mem_cons_self
    have tail := ih fun d hd => h d (List.mem_cons_of_mem c hd)
    unfold utf16Length at tail ⊢
    rw [List.map_cons, List.sum_cons, if_pos hc, tail, List.length_cons, Nat.add_comm]

theorem utf16Length_le (cs : List Char) : utf16Length cs ≤ byteCount cs := by
  induction cs with
  | nil => exact Nat.le_refl _
  | cons c cs ih =>
    have positive := c.utf8Size_pos
    have wide : 0x10000 ≤ c.toNat → c.utf8Size ≠ 1 := by
      intro large one
      have small := UInt32.le_iff_toNat_le.mp (Char.utf8Size_eq_one_iff.mp one)
      have bound : c.toNat ≤ 127 := small
      omega
    simp only [utf16Length, List.map_cons, List.sum_cons] at ih ⊢
    rw [byteCount_cons]
    split
    next => omega
    next large =>
      have two := wide (by omega)
      omega

theorem drop_padding {n : Nat} (h : n % 4 ≠ 1) :
    ∃ k, k ≤ 2 ∧ (n + k) % 4 = 0 ∧ ['=', '=', '='].drop ((n + 3) % 4) = List.replicate k '=' := by
  obtain h | h | h : n % 4 = 0 ∨ n % 4 = 2 ∨ n % 4 = 3 := by omega
  · have three : (n + 3) % 4 = 3 := by omega
    exact ⟨0, by omega, by omega, by rw [three]; rfl⟩
  · have one : (n + 3) % 4 = 1 := by omega
    exact ⟨2, by omega, by omega, by rw [one]; rfl⟩
  · have two : (n + 3) % 4 = 2 := by omega
    exact ⟨1, by omega, by omega, by rw [two]; rfl⟩

/-- The browser's decoder puts the padding back that neither encoder writes. -/
theorem base64URLToBytes_rawURLEncode (bytes : Bytes) :
    base64URLToBytes (Cloud.rawURLEncode bytes) = some bytes := by
  have small := Base64.sextet_lt bytes
  have count := Base64.length_sextets bytes
  have std_mem : ∀ c ∈ (Base64.sextets bytes).map (Base64.encodeChar Base64.stdAlphabet),
      c ∈ Base64.stdAlphabet := by
    intro c hc
    obtain ⟨n, hn, rfl⟩ := List.mem_map.mp hc
    exact Base64.encodeChar_mem (by decide) (small n hn)
  have std_plain : ∀ c ∈ Base64.stdAlphabet, c ≠ '=' ∧ c ∉ asciiWhitespace :=
    List.all_iff_forall_prop.mp (by decide)
  have url_short : ∀ c ∈ Base64.urlAlphabet, c.toNat < 0x10000 := List.all_iff_forall_prop.mp (by decide)
  have body : replaceAll '_' '/' (replaceAll '-' '+'
      ((Base64.sextets bytes).map (Base64.encodeChar Base64.urlAlphabet))) =
      (Base64.sextets bytes).map (Base64.encodeChar Base64.stdAlphabet) := by
    simp only [replaceAll, List.map_map]
    apply List.map_congr_left
    intro n hn
    exact replaceAll_decodeChar (small n hn)
  have len : utf16Length ((Base64.sextets bytes).map (Base64.encodeChar Base64.urlAlphabet)) =
      (Base64.sextets bytes).length := by
    rw [utf16Length_eq, List.length_map]
    intro c hc
    obtain ⟨n, hn, rfl⟩ := List.mem_map.mp hc
    exact url_short _ (Base64.encodeChar_mem (by decide) (small n hn))
  obtain ⟨k, two, full, padding⟩ := drop_padding (n := (Base64.sextets bytes).length) (by omega)
  have kept : ((Base64.sextets bytes).map (Base64.encodeChar Base64.stdAlphabet) ++ List.replicate k '=').filter
      (· ∉ asciiWhitespace) =
      (Base64.sextets bytes).map (Base64.encodeChar Base64.stdAlphabet) ++ List.replicate k '=' := by
    apply List.filter_eq_self.mpr
    intro c hc
    rw [decide_eq_true_eq]
    rcases List.mem_append.mp hc with hc | hc
    · exact (std_plain c (std_mem c hc)).2
    · rw [(List.mem_replicate.mp hc).2]
      decide
  unfold base64URLToBytes atob Cloud.rawURLEncode
  rw [String.toList_ofList, body, len, padding, kept,
    stripPadding_append (fun c hc => (std_plain c (std_mem c hc)).1) two (by simpa using full),
    Base64.decodeChars_map Base64.decodeChar_stdAlphabet small, Option.bind_some, Base64.octets_sextets]

end TermLinks.E2E
