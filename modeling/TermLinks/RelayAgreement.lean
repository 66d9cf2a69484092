import TermLinks.RelayIsolation
import TermLinks.RelayWire

namespace TermLinks.Relay

open Connector (validMessageID validMessageRunes Enqueued readRelay)

theorem isURLChar_of_isHex {c : Char} (h : isHex c) : isURLChar c := by
  simp only [isHex, isURLChar, Bool.or_eq_true, Bool.and_eq_true, decide_eq_true_eq] at h ⊢
  rcases h with ⟨low, high⟩ | digit
  · have bound : c ≤ 'z' := by
      apply Char.le_trans high
      decide
    exact Or.inl (Or.inl (Or.inl (Or.inr ⟨low, bound⟩)))
  · exact Or.inl (Or.inl (Or.inr digit))

/-- The characters of the alphabet lie apart from all that a writer of JSON escapes. -/
theorem isURLChar_bounds {c : Char} (h : isURLChar c) :
    c = '-' ∨ 0x30 ≤ c.toNat ∧ c.toNat ≤ 0x39 ∨ 0x41 ≤ c.toNat ∧ c.toNat ≤ 0x5a ∨ c.toNat = 0x5f ∨
      0x61 ≤ c.toNat ∧ c.toNat ≤ 0x7a := by
  simp only [isURLChar, Bool.or_eq_true, Bool.and_eq_true, decide_eq_true_eq] at h
  rcases h with (((⟨a, b⟩ | ⟨a, b⟩) | ⟨a, b⟩) | rfl) | rfl
  · exact Or.inr (Or.inr (Or.inl ⟨a, b⟩))
  · exact Or.inr (Or.inr (Or.inr (Or.inr ⟨a, b⟩)))
  · exact Or.inr (Or.inl ⟨a, b⟩)
  · exact Or.inr (Or.inr (Or.inr (Or.inl rfl)))
  · exact Or.inl rfl

theorem utf8Size_of_isURLChar {c : Char} (h : isURLChar c) : c.utf8Size = 1 := by
  have bounds := isURLChar_bounds h
  have small : c.toNat ≤ 127 := by
    rcases bounds with rfl | bounds
    · decide
    · omega
  exact Char.utf8Size_eq_one_iff.mpr (UInt32.le_iff_toNat_le.mpr small)

/-- A writer that escapes none of the alphabet. -/
def Spares (extra : Char → Bool) : Prop := ∀ c, isURLChar c → extra c = false

theorem escapeChar_plain {extra : Char → Bool} (spares : Spares extra) {c : Char} (h : isURLChar c) :
    Json.escapeChar extra c = [c] := by
  have free := spares c h
  have bounds := isURLChar_bounds h
  have visible : ¬c.toNat < 0x20 := by
    rcases bounds with rfl | bounds
    · decide
    · omega
  have absent : (Json.shortEscapes.find? fun pair => pair.1 = c) = none := by
    rw [List.find?_eq_none]
    intro pair mem same
    have eq : pair.1 = c := by simpa using same
    have none : ∀ pair ∈ Json.shortEscapes, isURLChar pair.1 = false := by decide
    have other := none pair mem
    rw [eq, h] at other
    exact absurd other (by simp)
  unfold Json.escapeChar
  rw [absent]
  simp [visible, free]

theorem quote_plain {extra : Char → Bool} (spares : Spares extra) {text : String}
    (h : ∀ c ∈ text.toList, isURLChar c) : Json.quote extra text = '"' :: (text.toList ++ ['"']) := by
  have each : ∀ cs : List Char, (∀ c ∈ cs, isURLChar c) → cs.flatMap (Json.escapeChar extra) = cs := by
    intro cs all
    induction cs with
    | nil => rfl
    | cons c cs ih =>
      have first := escapeChar_plain spares (all c List.mem_cons_self)
      rw [List.flatMap_cons, first, ih fun d mem => all d (List.mem_cons_of_mem c mem)]
      rfl
  unfold Json.quote
  rw [each _ h]

theorem byteCount_plain {cs : List Char} (h : ∀ c ∈ cs, isURLChar c) : byteCount cs = cs.length := by
  induction cs with
  | nil => rfl
  | cons c cs ih =>
    have one := utf8Size_of_isURLChar (h c List.mem_cons_self)
    have tail := ih fun d mem => h d (List.mem_cons_of_mem c mem)
    rw [byteCount_cons, one, tail, List.length_cons]
    omega

theorem hexDigit_size (n : Nat) : (Json.hexDigit (n % 16)).utf8Size = 1 := by
  have table : ∀ n < 16, (Json.hexDigit n).utf8Size = 1 := by decide
  exact table _ (Nat.mod_lt n (by omega))

/-- An escape takes at most six bytes for each byte of the character. -/
theorem escapeChar_size (extra : Char → Bool) (c : Char) :
    byteCount (Json.escapeChar extra c) ≤ 6 * c.utf8Size := by
  have positive := c.utf8Size_pos
  unfold Json.escapeChar
  split
  next d short found =>
    have mem := List.mem_of_find?_eq_some found
    have table : ∀ pair ∈ Json.shortEscapes, byteCount ['\\', pair.2] = 2 := by decide
    have two : byteCount ['\\', short] = 2 := table _ mem
    omega
  next =>
    split
    next =>
      have six : byteCount (Json.unicodeEscape c.toNat) = 6 := by
        simp only [Json.unicodeEscape, byteCount_cons, hexDigit_size]
        decide
      omega
    next =>
      rw [byteCount_cons]
      simp only [byteCount, List.map_nil, List.sum_nil]
      omega

theorem quote_size (extra : Char → Bool) (text : String) :
    byteCount (Json.quote extra text) ≤ 6 * text.utf8ByteSize + 2 := by
  have each : ∀ cs : List Char, byteCount (cs.flatMap (Json.escapeChar extra)) ≤ 6 * byteCount cs := by
    intro cs
    induction cs with
    | nil => exact Nat.le_refl _
    | cons c cs ih =>
      have first := escapeChar_size extra c
      rw [List.flatMap_cons, byteCount_append, byteCount_cons]
      omega
  have bound := each text.toList
  have size := byteCount_toList text
  have mark : byteCount ['"'] = 1 := by decide
  have one : ('"' : Char).utf8Size = 1 := by decide
  rw [Json.quote, byteCount_cons, byteCount_append, mark, one]
  omega

/-- A text in the alphabet is written as it is. -/
theorem quote_plain_size {extra : Char → Bool} (spares : Spares extra) {text : String}
    (h : ∀ c ∈ text.toList, isURLChar c) : byteCount (Json.quote extra text) = text.utf8ByteSize + 2 := by
  have size := byteCount_toList text
  have mark : byteCount ['"'] = 1 := by decide
  have one : ('"' : Char).utf8Size = 1 := by decide
  rw [quote_plain spares h, byteCount_cons, byteCount_append, mark, one]
  omega

theorem hexGroups_cons_iff {n m : Nat} {more : List Nat} {cs : List Char} :
    hexGroups (n :: m :: more) cs ↔ (cs.take n).length = n ∧ (∀ c ∈ cs.take n, isHex c) ∧
      (cs.drop n).head? = some '-' ∧ hexGroups (m :: more) (cs.drop (n + 1)) := by
  simp only [hexGroups, Bool.and_eq_true, decide_eq_true_eq, List.all_eq_true, and_assoc]

/-- A list cut where a hyphen stands. -/
theorem split_hyphen {n : Nat} {cs : List Char} (h : (cs.drop n).head? = some '-') :
    cs = cs.take n ++ '-' :: cs.drop (n + 1) := by
  have front := List.take_append_drop n cs
  cases rest : cs.drop n with
  | nil => simp [rest] at h
  | cons c tail =>
    rw [rest] at h front
    cases Option.some.inj h
    have later : cs.drop (n + 1) = tail := by
      rw [← List.drop_drop, rest]
      rfl
    rw [later]
    exact front.symm

theorem hexGroups_chars {groups : List Nat} {cs : List Char} (h : hexGroups groups cs) :
    (∀ c ∈ cs, isURLChar c) ∧ cs.length + 1 = groups.sum + groups.length +
    (if groups = [] then 1 else 0) := by
  induction groups generalizing cs with
  | nil =>
    have empty : cs = [] := by simpa [hexGroups] using h
    subst empty
    simp
  | cons n more ih =>
    cases more with
    | nil =>
      simp only [hexGroups, Bool.and_eq_true, decide_eq_true_eq, List.all_eq_true] at h
      refine ⟨fun c mem => isURLChar_of_isHex (h.2 c mem), ?_⟩
      simp [h.1]
    | cons m more =>
      obtain ⟨size, digits, hyphen, rest⟩ := hexGroups_cons_iff.mp h
      obtain ⟨chars, count⟩ := ih rest
      have cut := split_hyphen hyphen
      constructor
      · intro c mem
        rw [cut] at mem
        simp only [List.mem_append, List.mem_cons] at mem
        rcases mem with front | rfl | back
        · exact isURLChar_of_isHex (digits c front)
        · decide
        · exact chars c back
      · have total := congrArg List.length cut
        simp only [List.length_append, List.length_cons, size] at total
        simp only [List.sum_cons, List.length_cons, reduceCtorEq, if_false] at count ⊢
        omega

theorem isUUID_chars {id : String} (h : isUUID id) :
    (∀ c ∈ id.toList, isURLChar c) ∧ id.utf8ByteSize = 36 := by
  obtain ⟨chars, count⟩ := hexGroups_chars h
  refine ⟨chars, ?_⟩
  have size := byteCount_toList id
  have length := byteCount_plain chars
  simp at count
  omega

theorem isHex_eq (c : Char) : Connector.isHex c = isHex c := Bool.or_comm _ _

/-- Where `validMessageID` wants a hyphen. -/
def Special (index : Nat) : Prop := index = 8 ∨ index = 13 ∨ index = 18 ∨ index = 23

theorem validMessageRunes_hex {index : Nat} {c : Char} {cs : List Char} (plain : ¬Special index) :
    validMessageRunes index (c :: cs) = true ↔ isHex c ∧ validMessageRunes (index + 1) cs := by
  unfold Special at plain
  rw [validMessageRunes, if_neg plain, isHex_eq, Bool.and_eq_true]
  constructor
  · rintro ⟨digit, rest⟩
    rw [utf8Size_of_isURLChar (isURLChar_of_isHex digit)] at rest
    exact ⟨digit, rest⟩
  · rintro ⟨digit, rest⟩
    rw [utf8Size_of_isURLChar (isURLChar_of_isHex digit)]
    exact ⟨digit, rest⟩

theorem validMessageRunes_hyphen {index : Nat} {c : Char} {cs : List Char} (special : Special index) :
    validMessageRunes index (c :: cs) = true ↔ c = '-' ∧ validMessageRunes (index + 1) cs := by
  have one : ('-' : Char).utf8Size = 1 := by decide
  unfold Special at special
  rw [validMessageRunes, if_pos special, Bool.and_eq_true, decide_eq_true_eq]
  constructor
  · rintro ⟨rfl, rest⟩
    rw [one] at rest
    exact ⟨rfl, rest⟩
  · rintro ⟨rfl, rest⟩
    rw [one]
    exact ⟨rfl, rest⟩

/-- A run of digits up to the next hyphen, or to the end. -/
theorem validMessageRunes_run {n index : Nat} {cs : List Char} (plain : ∀ k, k < n → ¬Special (index + k))
    (long : n ≤ cs.length) : validMessageRunes index cs = true ↔
      (∀ c ∈ cs.take n, isHex c) ∧ validMessageRunes (index + n) (cs.drop n) := by
  induction n generalizing index cs with
  | zero => simp
  | succ n ih =>
    cases cs with
    | nil => simp at long
    | cons c cs =>
      have here : ¬Special index := plain 0 (by omega)
      have rest : ∀ k, k < n → ¬Special (index + 1 + k) := by
        intro k small
        have later := plain (k + 1) (by omega)
        rwa [show index + (k + 1) = index + 1 + k by omega] at later
      have tail := ih rest (by simpa using long)
      rw [validMessageRunes_hex here, tail, List.take_succ_cons, List.drop_succ_cons, List.forall_mem_cons,
        and_assoc, show index + 1 + n = index + (n + 1) by omega]

theorem validMessageRunes_ascii {index : Nat} {cs : List Char} (h : validMessageRunes index cs) :
    byteCount cs = cs.length := by
  induction cs generalizing index with
  | nil => rfl
  | cons c cs ih =>
    by_cases special : Special index
    · obtain ⟨rfl, rest⟩ := (validMessageRunes_hyphen special).mp h
      have tail := ih rest
      have one : ('-' : Char).utf8Size = 1 := by decide
      rw [byteCount_cons, one, tail, List.length_cons]
      omega
    · obtain ⟨digit, rest⟩ := (validMessageRunes_hex special).mp h
      have tail := ih rest
      have one := utf8Size_of_isURLChar (isURLChar_of_isHex digit)
      rw [byteCount_cons, one, tail, List.length_cons]
      omega

/-- One group of `hexGroups` and its hyphen, as `validMessageID` goes over them. -/
theorem validMessageRunes_group {n index : Nat} {cs : List Char} (plain : ∀ k, k < n → ¬Special (index + k))
    (special : Special (index + n)) (long : n < cs.length) : validMessageRunes index cs = true ↔
      (cs.take n).length = n ∧ (∀ c ∈ cs.take n, isHex c) ∧ (cs.drop n).head? = some '-' ∧
        validMessageRunes (index + n + 1) (cs.drop (n + 1)) := by
  have size : (cs.take n).length = n := by
    rw [List.length_take]
    omega
  rw [validMessageRunes_run plain (by omega)]
  cases rest : cs.drop n with
  | nil =>
    have empty := List.drop_eq_nil_iff.mp rest
    omega
  | cons c tail =>
    have later : cs.drop (n + 1) = tail := by
      rw [← List.drop_drop, rest]
      rfl
    rw [validMessageRunes_hyphen special, later]
    simp [size]

/-- The two checks of an id admit the same texts. -/
theorem isUUID_iff (id : String) : isUUID id = true ↔ validMessageID id = true := by
  have size := byteCount_toList id
  have agree : ∀ cs : List Char, cs.length = 36 →
      (hexGroups [8, 4, 4, 4, 12] cs = true ↔ validMessageRunes 0 cs = true) := by
    intro cs long
    have special : ∀ k, Special k ↔ k = 8 ∨ k = 13 ∨ k = 18 ∨ k = 23 := fun k => Iff.rfl
    rw [validMessageRunes_group (n := 8) (by intro k _; rw [special]; omega) (by rw [special]; omega) (by omega),
      validMessageRunes_group (n := 4) (by intro k _; rw [special]; omega) (by rw [special]; omega)
        (by rw [List.length_drop]; omega),
      validMessageRunes_group (n := 4) (by intro k _; rw [special]; omega) (by rw [special]; omega)
        (by rw [List.length_drop, List.length_drop]; omega),
      validMessageRunes_group (n := 4) (by intro k _; rw [special]; omega) (by rw [special]; omega)
        (by rw [List.length_drop, List.length_drop, List.length_drop]; omega),
      validMessageRunes_run (n := 12) (by intro k _; rw [special]; omega)
        (by rw [List.length_drop, List.length_drop, List.length_drop, List.length_drop]; omega)]
    have last : ∀ (index : Nat) (tail : List Char), tail.length = 12 → (hexGroups [12] tail = true ↔
        (∀ c ∈ tail.take 12, isHex c) ∧ validMessageRunes index (tail.drop 12) = true) := by
      intro index tail twelve
      rw [List.take_of_length_le (by omega), List.drop_of_length_le (by omega)]
      simp [hexGroups, twelve, validMessageRunes]
    rw [hexGroups_cons_iff, hexGroups_cons_iff, hexGroups_cons_iff, hexGroups_cons_iff,
      last _ _ (by simp only [List.length_drop]; omega)]
  unfold Connector.validMessageID
  rw [Bool.and_eq_true, decide_eq_true_eq]
  constructor
  · intro valid
    obtain ⟨chars, bytes⟩ := isUUID_chars valid
    have length := byteCount_plain chars
    exact ⟨by omega, (agree _ (by omega)).mp valid⟩
  · rintro ⟨bytes, runes⟩
    have length := validMessageRunes_ascii runes
    exact (agree _ (by omega)).mpr runes

theorem spares_json : Spares fun _ => false := fun _ _ => rfl

theorem spares_html : Spares Connector.htmlEscaped := by
  intro c h
  by_contra escaped
  simp only [Connector.htmlEscaped, Bool.not_eq_false, Bool.or_eq_true, decide_eq_true_eq] at escaped
  rcases escaped with (((rfl | rfl) | rfl) | rfl) | rfl <;> exact absurd h (by decide)

theorem basic_json : ∀ c, (fun _ : Char => false) c → c.toNat < 65536 := fun _ h => absurd h (by simp)

theorem parse_text (message : Message) : Json.parse message.text = some message.value :=
  Json.parse_render basic_json message.value

theorem digits_size (ds : List (Fin 10)) : byteCount (ds.map Json.digitChar) = ds.length := by
  have table : ∀ d : Fin 10, (Json.digitChar d).utf8Size = 1 := by decide
  induction ds with
  | nil => rfl
  | cons d ds ih =>
    rw [List.map_cons, byteCount_cons, table, ih, List.length_cons]
    omega

theorem ofInt_bytes (n : Nat) : byteCount (Json.renderNumber (Json.ofInt n)) = (Json.decimal n).length := by
  have positive : ¬(n : Int) < 0 := by omega
  have shape : Json.renderNumber (Json.ofInt n) = (Json.decimal n).map Json.digitChar := by
    simp [Json.renderNumber, Json.ofInt, positive]
  rw [shape, digits_size]

/-- A close code takes four digits. -/
theorem code_size {code : Int} (low : 1000 ≤ code) (high : code ≤ 4999) :
    byteCount (Json.renderNumber (Json.ofInt code)) ≤ 4 := by
  have positive : ¬code < 0 := by omega
  have short : (Json.decimal code.natAbs).length ≤ 4 := by
    have digits := (Nat.digits_length_le_iff (b := 10) (k := 4) (by omega) code.natAbs).mpr (by omega)
    unfold Json.decimal
    split
    next => simp
    next => simpa using digits
  have shape : Json.renderNumber (Json.ofInt code) = (Json.decimal code.natAbs).map Json.digitChar := by
    simp [Json.renderNumber, Json.ofInt, positive]
  rw [shape, digits_size]
  exact short

theorem isBase64URL_chars {data : String} (h : isBase64URL data) : ∀ c ∈ data.toList, isURLChar c := by
  simp only [isBase64URL, Bool.and_eq_true, List.all_eq_true] at h
  exact h.2

/-- In the alphabet, code units, characters and bytes are counted alike. -/
theorem length_plain {data : String} (h : ∀ c ∈ data.toList, isURLChar c) :
    length data = data.utf8ByteSize := by
  have size := byteCount_toList data
  have small : ∀ c ∈ data.toList, c.toNat < 0x10000 := by
    intro c mem
    have bounds := isURLChar_bounds (h c mem)
    rcases bounds with rfl | bounds
    · decide
    · omega
  rw [← size, byteCount_plain h]
  exact E2E.utf16Length_eq small

/-- The messages of the relay fit the connector's read limit. -/
theorem text_size {message : Message} (proper : message.Proper) :
    message.text.utf8ByteSize ≤ Connector.maxControlMessage := by
  have limit : Connector.maxControlMessage = 7340032 := by decide
  have kinds : byteCount (Json.quote (fun _ => false) "type") = 6 ∧ byteCount (Json.quote (fun _ => false) "id") = 4 ∧
      byteCount (Json.quote (fun _ => false) "data") = 6 ∧ byteCount (Json.quote (fun _ => false) "code") = 6 ∧
      byteCount (Json.quote (fun _ => false) "reason") = 8 := by decide
  obtain ⟨type, id_name, data_name, code_name, reason_name⟩ := kinds
  have mark : ∀ c ∈ ['\x7b', '\x7d', ',', ':'], c.utf8Size = 1 := List.all_iff_forall_prop.mp (by decide)
  have one : byteCount ['\x7d'] = 1 := by decide
  unfold Message.text stringify
  rw [byteCount_ofList, limit]
  cases message with
  | connected => decide
  | pong => decide
  | bridgeReady id =>
    have size := (isUUID_chars proper).2
    have name := quote_plain_size spares_json (isUUID_chars proper).1
    have words : byteCount (Json.quote (fun _ => false) "bridge_ready") = 14 ∧
        byteCount (Json.quote (fun _ => false) "protocol") = 10 ∧
        byteCount (Json.quote (fun _ => false) "e2e-v1") = 8 := by decide
    simp only [Message.value, Json.render, Json.renderMembers, byteCount_cons, byteCount_append, mark, one, type,
      id_name, name, words, size, List.mem_cons, true_or, or_true]
    omega
  | channelOpen id =>
    have size := (isUUID_chars proper).2
    have name := quote_plain_size spares_json (isUUID_chars proper).1
    have word : byteCount (Json.quote (fun _ => false) "channel_open") = 14 := by decide
    simp only [Message.value, Json.render, Json.renderMembers, byteCount_cons, byteCount_append, mark, one, type,
      id_name, name, word, size, List.mem_cons, true_or, or_true]
    omega
  | fromBrowser id data =>
    obtain ⟨valid, -, small, alphabet⟩ := proper
    have size := (isUUID_chars valid).2
    have name := quote_plain_size spares_json (isUUID_chars valid).1
    have content := quote_plain_size spares_json (isBase64URL_chars alphabet)
    have count := length_plain (isBase64URL_chars alphabet)
    have word : byteCount (Json.quote (fun _ => false) "e2e_from_browser") = 18 := by decide
    have bound : maxEncryptedPacket = 5242880 := by decide
    simp only [Message.value, Json.render, Json.renderMembers, byteCount_cons, byteCount_append, mark, one, type,
      id_name, data_name, name, word, size, content, List.mem_cons, true_or, or_true]
    omega
  | channelClose id code reason =>
    obtain ⟨valid, low, high, short⟩ := proper
    have size := (isUUID_chars valid).2
    have name := quote_plain_size spares_json (isUUID_chars valid).1
    have content := quote_size (fun _ => false) reason
    have digits := code_size low high
    have word : byteCount (Json.quote (fun _ => false) "channel_close") = 15 := by decide
    simp only [Message.value, Json.render, Json.renderMembers, byteCount_cons, byteCount_append, mark, one, type,
      id_name, code_name, reason_name, name, word, size, List.mem_cons, true_or, or_true]
    omega

theorem foldName_fields :
    Connector.foldName "type" = ['t', 'y', 'p', 'e'] ∧ Connector.foldName "id" = ['i', 'd'] ∧
    Connector.foldName "data" = ['d', 'a', 't', 'a'] ∧ Connector.foldName "code" = ['c', 'o', 'd', 'e'] ∧
    Connector.foldName "reason" = ['r', 'e', 'a', 's', 'o', 'n'] ∧
    Connector.foldName "protocol" = ['p', 'r', 'o', 't', 'o', 'c', 'o', 'l'] := by decide

theorem parseInt_ofInt {code : Int} (low : 1000 ≤ code) (high : code ≤ 4999) :
    Connector.parseInt (Json.ofInt code) = some code := by
  have positive : ¬code < 0 := by omega
  have value : Json.signed false code.natAbs = code := by
    unfold Json.signed
    rw [if_neg (by simp)]
    omega
  have range : -2 ^ 63 ≤ code ∧ code < 2 ^ 63 := by omega
  unfold Connector.parseInt Json.ofInt
  simp only [positive, decide_false, value, and_self, if_true]
  rw [if_pos range]

/-- What `readRelay` makes of a message. -/
def received : Message → Connector.Received
  | .channelOpen id => .openChannel id
  | .fromBrowser id data => .handleEncrypted id data
  | .channelClose id code reason =>
    .closeChannel id (Connector.normalizeCloseCode code) (Connector.boundedReason reason)
  | _ => .nothing

theorem unmarshal_text {α : Type} {decode : List (String × Json.Value) → Option α} {message : Message}
    {members : List (String × Json.Value)} (h : message.value = .object members) :
    Connector.unmarshal decode message.text = decode members := by
  unfold Connector.unmarshal
  rw [parse_text, h]

/-- The connector accepts what the relay sends it. -/
theorem readRelay_text {message : Message} (proper : message.Proper) (own : ∀ id, message ≠ .bridgeReady id) :
    readRelay .text message.text = .ok (received message) := by
  have fits := text_size proper
  obtain ⟨type, id_name, data_name, code_name, reason_name, protocol_name⟩ := foldName_fields
  unfold readRelay
  rw [if_neg (by omega), if_neg (by simp)]
  cases message with
  | connected =>
    have kind : Connector.unmarshal (Connector.stringField "type") Message.connected.text = some "connected" := by
      rw [unmarshal_text rfl]
      simp [Connector.stringField, type, protocol_name]
    rw [kind]
    rfl
  | pong =>
    have kind : Connector.unmarshal (Connector.stringField "type") Message.pong.text = some "pong" := by
      rw [unmarshal_text rfl]
      simp [Connector.stringField, type]
    rw [kind]
    rfl
  | bridgeReady id => exact absurd rfl (own id)
  | channelOpen id =>
    have valid : validMessageID id := (isUUID_iff id).mp proper
    have kind : Connector.unmarshal (Connector.stringField "type") (Message.channelOpen id).text =
        some "channel_open" := by
      rw [unmarshal_text rfl]
      simp [Connector.stringField, type, id_name]
    have fields : Connector.unmarshal Connector.decodeChannelOpen (Message.channelOpen id).text =
        some ⟨"channel_open", id⟩ := by
      rw [unmarshal_text rfl]
      simp [Connector.decodeChannelOpen, Connector.stringField, type, id_name]
    rw [kind, fields]
    simp [valid, received]
  | fromBrowser id data =>
    obtain ⟨uuid, nonempty, small, alphabet⟩ := proper
    have valid : validMessageID id := (isUUID_iff id).mp uuid
    have count := length_plain (isBase64URL_chars alphabet)
    have limit : maxEncryptedPacket = Connector.maxEncryptedPacket := by decide
    have kind : Connector.unmarshal (Connector.stringField "type") (Message.fromBrowser id data).text =
        some "e2e_from_browser" := by
      rw [unmarshal_text rfl]
      simp [Connector.stringField, type, id_name, data_name]
    have fields : Connector.unmarshal Connector.decodeEncryptedOuter (Message.fromBrowser id data).text =
        some ⟨"e2e_from_browser", id, data⟩ := by
      rw [unmarshal_text rfl]
      generalize shown : [("type", Json.Value.string "e2e_from_browser"), ("id", .string id), ("data", .string data)] =
        members
      have first : Connector.stringField "type" members = some "e2e_from_browser" := by
        rw [← shown]
        simp [Connector.stringField, type, id_name, data_name]
      have second : Connector.stringField "id" members = some id := by
        rw [← shown]
        simp [Connector.stringField, type, id_name, data_name]
      have third : Connector.stringField "data" members = some data := by
        rw [← shown]
        simp [Connector.stringField, type, id_name, data_name]
      simp only [Connector.decodeEncryptedOuter, first, second, third, Option.bind_eq_bind, Option.bind_some]
    have accepted : ¬((!validMessageID id) = true ∨ data.utf8ByteSize = 0 ∨
        data.utf8ByteSize > Connector.maxEncryptedPacket) := by
      rw [valid]
      simp only [Bool.not_true, Bool.false_eq_true, false_or, not_or]
      omega
    rw [kind, fields]
    dsimp only
    rw [if_neg (by decide), if_neg (by decide), if_pos rfl, if_neg accepted]
    rfl
  | channelClose id code reason =>
    obtain ⟨uuid, low, high, -⟩ := proper
    have valid : validMessageID id := (isUUID_iff id).mp uuid
    have number := parseInt_ofInt low high
    have kind : Connector.unmarshal (Connector.stringField "type") (Message.channelClose id code reason).text =
        some "channel_close" := by
      rw [unmarshal_text rfl]
      simp [Connector.stringField, type, id_name, code_name, reason_name]
    have fields : Connector.unmarshal Connector.decodeChannelClose (Message.channelClose id code reason).text =
        some ⟨"channel_close", id, code, reason⟩ := by
      rw [unmarshal_text rfl]
      generalize shown : [("type", Json.Value.string "channel_close"), ("id", .string id),
        ("code", .number (Json.ofInt code)), ("reason", .string reason)] = members
      have first : Connector.stringField "type" members = some "channel_close" := by
        rw [← shown]
        simp [Connector.stringField, type, id_name, code_name, reason_name]
      have second : Connector.stringField "id" members = some id := by
        rw [← shown]
        simp [Connector.stringField, type, id_name, code_name, reason_name]
      have third : Connector.intField "code" members = some code := by
        rw [← shown]
        simp [Connector.intField, type, id_name, code_name, reason_name, number]
      have fourth : Connector.stringField "reason" members = some reason := by
        rw [← shown]
        simp [Connector.stringField, type, id_name, code_name, reason_name]
      simp only [Connector.decodeChannelClose, first, second, third, fourth, Option.bind_eq_bind, Option.bind_some]
    rw [kind, fields]
    simp [valid, received]

/-- What the relay reads in a text of the connector is what the connector wrote. -/
structure Wellformed (text : String) (members : List (String × Json.Value)) : Prop where
  parsed : Json.parse text = some (.object members)
  short : length text ≤ maxEncryptedPacket * 2

theorem wellformed_marshal {members : List (String × Json.Value)}
    (h : byteCount (Json.render Connector.htmlEscaped (.object members)) ≤ maxEncryptedPacket * 2) :
    Wellformed (Connector.marshal (.object members)) members := by
  refine ⟨Connector.parse_marshal _, ?_⟩
  have bound := E2E.utf16Length_le (Json.render Connector.htmlEscaped (.object members))
  unfold length Connector.marshal
  rw [String.toList_ofList]
  omega

theorem packet_chars (bytes : Bytes) : ∀ c ∈ (Cloud.rawURLEncode bytes).toList, isURLChar c := by
  intro c mem
  have table : ∀ d ∈ Base64.urlAlphabet, isURLChar d := List.all_iff_forall_prop.mp (by decide)
  unfold Cloud.rawURLEncode at mem
  rw [String.toList_ofList] at mem
  obtain ⟨n, sextet, rfl⟩ := List.mem_map.mp mem
  have small := Base64.sextet_lt bytes n sextet
  exact table _ (Base64.encodeChar_mem (by decide) small)

theorem length_rawURLEncode_pos {Key : Type} (encrypt : Key → Bytes → Bytes → Bytes → Bytes) (key : Key)
    (channelID : Bytes) (direction : Cloud.Direction) (sequence : UInt32) (nonce plaintext : Bytes) :
    0 < (Cloud.rawURLEncode
      (Cloud.packetBytes encrypt key channelID direction sequence nonce plaintext)).toList.length := by
  rw [Cloud.length_rawURLEncode]
  simp only [Cloud.packetBytes, List.length_append, length_putUint32]
  omega

/-- The relay admits the data of a packet that the connector sends. -/
theorem packet_admitted {Key Value : Type} {encrypt : Key → Bytes → Bytes → Bytes → Bytes}
    {marshalValue : Value → Option Bytes} {key : Key} {id packet : String} {sequence : UInt32}
    {nonce : Option Bytes} {value : Value}
    (h : Cloud.encryptPacket encrypt marshalValue key (utf8 id) .connector sequence nonce value =
      some packet) :
    (∀ c ∈ packet.toList, isURLChar c) ∧ packet.utf8ByteSize ≠ 0 := by
  simp only [Cloud.encryptPacket, Option.bind_eq_bind, Option.bind_eq_some_iff] at h
  obtain ⟨plaintext, -, iv, -, eq⟩ := h
  cases Option.some.inj eq
  have chars := packet_chars (Cloud.packetBytes encrypt key (utf8 id) .connector sequence iv plaintext)
  have letters := length_rawURLEncode_pos encrypt key (utf8 id) .connector sequence iv plaintext
  have size := byteCount_toList (Cloud.rawURLEncode
    (Cloud.packetBytes encrypt key (utf8 id) .connector sequence iv plaintext))
  have count := byteCount_plain chars
  refine ⟨chars, ?_⟩
  omega

/-- Closing the socket of a browser leaves that of a connector. -/
theorem close_keeps {σ : State} {i b : Nat} {s : Socket} {channel : String} (here : σ.sockets[i]? = some s)
    (role : s.attachment = .connector) (browser : σ.browser channel = some b) (code : Int) (reason : String) :
    (σ.close b code reason).sockets[i]? = some s := by
  obtain ⟨t, there, -, role', -⟩ := find_eq_some browser
  have other : b ≠ i := by
    rintro rfl
    cases Option.some.inj (there.symm.trans here)
    rw [role] at role'
    simp at role'
  simp [State.close, other, here]

theorem closeBrowser_keeps {σ : State} {i : Nat} {s : Socket} (here : σ.sockets[i]? = some s)
    (role : s.attachment = .connector) (channel : String) (code : Int) (reason : String) :
    (closeBrowser channel code reason σ).sockets[i]? = some s := by
  unfold closeBrowser
  split
  next b browser => exact close_keeps here role browser code reason
  next => exact here

theorem toInt_ofInt (n : Int) : (Json.ofInt n).toInt? = some n := by
  unfold Json.Number.toInt? Json.ofInt
  by_cases negative : n < 0
  · have size := abs_of_neg negative
    simp [negative, size]
  · have size := abs_of_nonneg (not_lt.mp negative)
    simp [negative, size]

theorem webSocketMessage_connector (throws : List Nat) (i : Nat) {text : String}
    {members : List (String × Json.Value)} (h : Wellformed text members) (σ : State) :
    webSocketMessage throws i .connector (.text text) σ = handleConnectorMessage throws i
      (.object members) σ := by
  have short := h.short
  simp only [webSocketMessage, socketAttachment]
  rw [if_neg (by omega), h.parsed]

theorem marshal_ping : Connector.marshal (Connector.messageType "ping") = "\x7b\"type\":\"ping\"\x7d" := by
  decide

/-- A text of the connector leaves its socket as it is. -/
theorem webSocketMessage_keeps {Key Value : Type} {encrypt : Key → Bytes → Bytes → Bytes → Bytes}
    {marshalValue : Value → Option Bytes} {text : String} (h : Enqueued encrypt marshalValue text)
    (throws : List Nat) {σ : State} {i : Nat} {s : Socket} (here : σ.sockets[i]? = some s)
    (role : s.attachment = .connector) :
    (webSocketMessage throws i s.attachment (.text text) σ).sockets[i]? = some s := by
  have limit : maxEncryptedPacket = 5242880 := by decide
  have same : Connector.maxEncryptedPacket = 5242880 := by decide
  rw [role]
  cases h with
  | hello =>
    have well : Wellformed (Connector.marshal (Connector.messageType "hello")) [("type", .string "hello")] :=
      wellformed_marshal (by rw [limit]; decide)
    rw [webSocketMessage_connector throws i well]
    simpa [handleConnectorMessage, stringMember, member] using here
  | ping =>
    have well : Wellformed (Connector.marshal (Connector.messageType "ping")) [("type", .string "ping")] :=
      wellformed_marshal (by rw [limit]; decide)
    rw [marshal_ping] at well
    rw [webSocketMessage_connector throws i well]
    have type : stringMember "type" [("type", .string "ping")] = some "ping" := by simp [stringMember, member]
    simp only [handleConnectorMessage, type]
    rw [if_neg (by decide), if_neg (by decide), if_pos trivial]
    cases sent : σ.send throws i (.json .pong) with
    | none => exact here
    | some σ' =>
      obtain ⟨t, -, rfl⟩ := send_eq_some sent
      exact here
  | @packet id packet valid key sequence nonce value encrypted fits =>
    obtain ⟨chars, nonempty⟩ := packet_admitted encrypted
    have uuid := (isUUID_iff id).mpr valid
    have count := length_plain chars
    have well : Wellformed (Connector.marshal (Connector.encryptedOuterMessage "e2e_to_browser" id packet))
        [("type", .string "e2e_to_browser"), ("id", .string id), ("data", .string packet)] := by
      apply wellformed_marshal
      have size := (isUUID_chars uuid).2
      have name := quote_plain_size spares_html (isUUID_chars uuid).1
      have content := quote_plain_size spares_html chars
      have words : byteCount (Json.quote Connector.htmlEscaped "type") = 6 ∧
          byteCount (Json.quote Connector.htmlEscaped "id") = 4 ∧
          byteCount (Json.quote Connector.htmlEscaped "data") = 6 ∧
          byteCount (Json.quote Connector.htmlEscaped "e2e_to_browser") = 16 := by decide
      have mark : ∀ c ∈ ['\x7b', '\x7d', ',', ':'], c.utf8Size = 1 := List.all_iff_forall_prop.mp (by decide)
      have one : byteCount ['\x7d'] = 1 := by decide
      simp only [Json.render, Json.renderMembers, byteCount_cons, byteCount_append, mark, one, words, name, size,
        content, List.mem_cons, true_or, or_true]
      omega
    have alphabet : isBase64URL packet = true := by
      have some_char : packet.toList ≠ [] := by
        intro empty
        have size := byteCount_toList packet
        rw [empty] at size
        exact nonempty size.symm
      simp only [isBase64URL, Bool.and_eq_true, Bool.not_eq_true', List.isEmpty_eq_false_iff, List.all_eq_true]
      exact ⟨some_char, chars⟩
    have type : stringMember "type" [("type", .string "e2e_to_browser"), ("id", .string id), ("data", .string packet)] =
        some "e2e_to_browser" := by simp [stringMember, member]
    have parsed : parseConnectorToBrowser
        [("type", .string "e2e_to_browser"), ("id", .string id), ("data", .string packet)] = some ⟨id, packet⟩ := by
      have small : ¬maxEncryptedPacket < length packet := by omega
      have some_unit : length packet ≠ 0 := by omega
      simp [parseConnectorToBrowser, stringMember, member, uuid, small, some_unit, alphabet]
    rw [webSocketMessage_connector throws i well]
    simp only [handleConnectorMessage, type, if_true, parsed]
    split
    next => exact here
    next b browser =>
      split
      next σ' sent =>
        obtain ⟨t, -, rfl⟩ := send_eq_some sent
        exact here
      next => exact close_keeps here role browser _ _
  | @close id reason valid code call =>
    have uuid := (isUUID_iff id).mpr valid
    have table : ∀ notice ∈ Connector.closeNotices, 1000 ≤ notice.1 ∧ notice.1 ≤ 4999 ∧ notice.2 ≠ "" ∧
        notice.2.utf8ByteSize ≤ 120 := by decide
    obtain ⟨low, high, nonempty, short⟩ : 1000 ≤ code ∧ code ≤ 4999 ∧ reason ≠ "" ∧
        reason.utf8ByteSize ≤ 120 := table _ call
    have shape : Connector.channelCloseMessage "channel_close" id code reason =
        .object [("type", .string "channel_close"), ("id", .string id), ("code", .number (Json.ofInt code)),
          ("reason", .string reason)] := by
      have positive : code ≠ 0 := by
        rintro rfl
        simp at low
      simp [Connector.channelCloseMessage, positive, nonempty]
    have well : Wellformed (Connector.marshal (Connector.channelCloseMessage "channel_close" id code reason))
        [("type", .string "channel_close"), ("id", .string id), ("code", .number (Json.ofInt code)),
          ("reason", .string reason)] := by
      rw [shape]
      apply wellformed_marshal
      have size := (isUUID_chars uuid).2
      have name := quote_plain_size spares_html (isUUID_chars uuid).1
      have content := quote_size Connector.htmlEscaped reason
      have digits := code_size low high
      have words : byteCount (Json.quote Connector.htmlEscaped "type") = 6 ∧
          byteCount (Json.quote Connector.htmlEscaped "id") = 4 ∧
          byteCount (Json.quote Connector.htmlEscaped "code") = 6 ∧
          byteCount (Json.quote Connector.htmlEscaped "reason") = 8 ∧
          byteCount (Json.quote Connector.htmlEscaped "channel_close") = 15 := by decide
      have mark : ∀ c ∈ ['\x7b', '\x7d', ',', ':'], c.utf8Size = 1 := List.all_iff_forall_prop.mp (by decide)
      have one : byteCount ['\x7d'] = 1 := by decide
      simp only [Json.render, Json.renderMembers, byteCount_cons, byteCount_append, mark, one, words, name, size,
        List.mem_cons, true_or, or_true]
      omega
    generalize shown : [("type", Json.Value.string "channel_close"), ("id", .string id),
        ("code", .number (Json.ofInt code)), ("reason", .string reason)] = members at well
    have type_read : member "type" members = some (.string "channel_close") := by rw [← shown]; simp [member]
    have id_read : member "id" members = some (.string id) := by rw [← shown]; simp [member]
    have code_read : member "code" members = some (.number (Json.ofInt code)) := by rw [← shown]; simp [member]
    have reason_read : member "reason" members = some (.string reason) := by rw [← shown]; simp [member]
    have type : stringMember "type" members = some "channel_close" := by simp only [stringMember, type_read]
    have given : closeCode members = some (some code) := by
      simp [closeCode, code_read, toInt_ofInt, Option.filter_some, low, high]
    have told : closeReason members = some (some reason) := by simp only [closeReason, reason_read]
    have parsed : parseChannelClose members = some ⟨id, some code, some reason⟩ := by
      simp [parseChannelClose, stringMember, id_read, uuid, given, told]
    rw [webSocketMessage_connector throws i well]
    simp only [handleConnectorMessage, type, parsed]
    rw [if_neg (by decide), if_pos trivial]
    exact closeBrowser_keeps here role _ _ _

/-- Every message that the relay sent to a connector is one it may send. -/
def Proper (trace : List Happening) : Prop :=
  ∀ i message, .sent i .connector (.json message) ∈ trace → message.Proper ∧ ∀ id, message ≠ .bridgeReady id

theorem proper_append {a b : List Happening} (ha : Proper a) (hb : Proper b) : Proper (a ++ b) := by
  intro i message mem
  rcases List.mem_append.mp mem with old | new
  · exact ha i message old
  · exact hb i message new

theorem proper_block {σ : State} {block : List Happening} (h : Block σ block) : Proper block := by
  intro i message mem
  cases h with
  | nothing => simp at mem
  | heard here incoming => simp at mem
  | forwarded here role connector proper =>
    simp only [List.mem_cons, List.not_mem_nil, or_false, reduceCtorEq, false_or, Happening.sent.injEq] at mem
    obtain ⟨-, -, eq⟩ := mem
    cases eq
    exact ⟨proper, fun id => by simp⟩
  | delivered here role parsed browser => simp at mem
  | pong here role data =>
    simp only [List.mem_cons, List.not_mem_nil, or_false, reduceCtorEq, false_or, Happening.sent.injEq] at mem
    obtain ⟨-, -, eq⟩ := mem
    cases eq
    exact ⟨trivial, fun id => by simp⟩
  | notified connector proper =>
    simp only [List.mem_singleton, Happening.sent.injEq] at mem
    obtain ⟨-, -, eq⟩ := mem
    cases eq
    exact ⟨proper, fun id => by simp⟩

theorem proper_advance {σ σ' : State} (h : Advance σ σ') (before : Proper σ.trace) : Proper σ'.trace := by
  cases h with
  | handled softer shape => exact proper_append before (proper_block shape)
  | connected softer shut shape =>
    refine proper_append before ?_
    intro i message mem
    rcases shape with rfl | rfl
    · simp at mem
    · simp only [List.mem_singleton, Happening.sent.injEq] at mem
      obtain ⟨-, -, eq⟩ := mem
      cases eq
      exact ⟨trivial, fun id => by simp⟩
  | greeted connector room valid =>
    refine proper_append before ?_
    intro i message mem
    simp only [List.mem_cons, List.not_mem_nil, or_false, reduceCtorEq, and_false, false_and,
      Happening.sent.injEq] at mem
    obtain ⟨-, -, eq⟩ := mem
    cases eq
    exact ⟨valid, fun id => by simp⟩
  | refused connector room valid role shut shape =>
    refine proper_append before ?_
    intro i message mem
    rcases shape with rfl | rfl
    · simp at mem
    · simp only [List.mem_singleton, Happening.sent.injEq] at mem
      obtain ⟨-, -, eq⟩ := mem
      cases eq
      exact ⟨valid, fun id => by simp⟩

theorem proper_run {labels : List Label} {σ : State} (run : exec step initial labels = some σ) :
    Proper σ.trace := by
  have start : Proper initial.trace := fun i message mem => absurd mem (by simp [initial])
  have preserve : ∀ s label t, Proper s.trace → step s label = some t → Proper t.trace :=
    fun s label t before stepped => proper_advance (step_advance stepped) before
  exact exec_invariant preserve start run

/-- Neither end rejects what the other sends: no text of the connector closes its socket, and `readRelay` accepts
every message that the relay sends, within the read limit. -/
theorem relay_and_connector_agree {Key Value : Type} (encrypt : Key → Bytes → Bytes → Bytes → Bytes)
    (marshalValue : Value → Option Bytes) :
    (∀ {text : String}, Enqueued encrypt marshalValue text →
      ∀ (throws : List Nat) {σ : State} {i : Nat} {s : Socket},
      σ.sockets[i]? = some s → s.attachment = .connector →
        ∃ σ', step σ ⟨throws, .message i (.text text)⟩ = some σ' ∧ σ'.sockets[i]? = some s) ∧
    (∀ {labels : List Label} {σ : State}, exec step initial labels = some σ →
      ∀ {i : Nat} {frame : Frame}, .sent i .connector frame ∈ σ.trace →
        ∃ message, frame = .json message ∧ message.text.utf8ByteSize ≤ Connector.maxControlMessage ∧
          readRelay .text message.text = .ok (received message)) := by
  constructor
  · intro text queued throws σ i s here role
    have there : ({ σ with trace := σ.trace ++ [.arrived i s.attachment (.text text)] } : State).sockets[i]? = some s :=
      here
    have stepped : step σ ⟨throws, .message i (.text text)⟩ = some (webSocketMessage throws i s.attachment (.text text)
        { σ with trace := σ.trace ++ [.arrived i s.attachment (.text text)] }) := by
      simp only [step, here, Option.map_some]
    exact ⟨_, stepped, webSocketMessage_keeps queued throws there role⟩
  · intro labels σ run i frame mem
    obtain ⟨message, rfl⟩ := (relay_run run).2.1.fitting mem
    obtain ⟨proper, own⟩ := proper_run run i message mem
    exact ⟨message, rfl, text_size proper, readRelay_text proper own⟩

def exampleReply : String :=
  Cloud.rawURLEncode (Cloud.packetBytes (Aead.zeroTag Unit).encrypt () (utf8 exampleChannel.text) .connector 0
    (List.replicate 12 0) [0x7b, 0x7d])

/-- The connector greets the relay, answers in the channel and gives it up. -/
def exampleTexts : List String :=
  [Connector.marshal (Connector.messageType "hello"),
   Connector.marshal (Connector.encryptedOuterMessage "e2e_to_browser" exampleChannel.text exampleReply),
   Connector.marshal (Connector.channelCloseMessage "channel_close" exampleChannel.text 1008 "Unknown channel")]

theorem enqueued_exampleTexts :
    ∀ text ∈ exampleTexts, Enqueued (Aead.zeroTag Unit).encrypt
      (fun plaintext : Bytes => some plaintext) text := by
  intro text mem
  have known : Connector.validMessageID exampleChannel.text = true := by decide
  have fits : exampleReply.utf8ByteSize ≤ Connector.maxEncryptedPacket := by decide +kernel
  have encrypted : Cloud.encryptPacket (Aead.zeroTag Unit).encrypt (fun plaintext : Bytes => some plaintext) ()
      (utf8 exampleChannel.text) .connector 0 (some (List.replicate 12 0)) [0x7b, 0x7d] = some exampleReply := rfl
  simp only [exampleTexts, List.mem_cons, List.not_mem_nil, or_false] at mem
  obtain rfl | rfl | rfl := mem
  · exact .hello
  · exact .packet known encrypted fits
  · exact .close known (by decide)

theorem relay_and_connector_agree_example :
    (∃ σ, exec step initial (exampleLabels.take 2) = some σ ∧ ∀ text ∈ exampleTexts,
      ∃ σ', step σ ⟨[], .message 0 (.text text)⟩ = some σ' ∧
        σ'.sockets[0]? = some ⟨.connector, true, none, false⟩) ∧
    ∃ σ, exec step initial exampleLabels = some σ ∧
      readRelay .text (Message.channelOpen exampleChannel.text).text =
        .ok (.openChannel exampleChannel.text) ∧
      readRelay .text (Message.fromBrowser exampleChannel.text "AAAA").text =
        .ok (.handleEncrypted exampleChannel.text "AAAA") := by
  have both := relay_and_connector_agree (Aead.zeroTag Unit).encrypt (fun plaintext : Bytes => some plaintext)
  constructor
  · have opened : (exec step initial (exampleLabels.take 2)).any (fun σ =>
        decide (σ.sockets[0]? = some ⟨.connector, true, none, false⟩)) = true := by decide +kernel
    obtain ⟨σ, run, here⟩ := (Option.any_eq_true _ _).mp opened
    exact ⟨σ, run, fun text mem => both.1 (enqueued_exampleTexts text mem) [] (of_decide_eq_true here) rfl⟩
  have run : (exec step initial exampleLabels).any (fun σ =>
      decide (.sent 0 .connector (.json (.channelOpen exampleChannel.text)) ∈ σ.trace) &&
        decide (.sent 0 .connector (.json (.fromBrowser exampleChannel.text "AAAA")) ∈ σ.trace)) = true := by
    decide +kernel
  obtain ⟨σ, run, sent⟩ := (Option.any_eq_true _ _).mp run
  obtain ⟨announced, forwarded⟩ := Bool.and_eq_true_iff.mp sent
  obtain ⟨opening, eq, -, admitted⟩ := both.2 run (of_decide_eq_true announced)
  cases eq
  obtain ⟨message, eq, -, accepted⟩ := both.2 run (of_decide_eq_true forwarded)
  cases eq
  exact ⟨σ, run, admitted, accepted⟩

end TermLinks.Relay
