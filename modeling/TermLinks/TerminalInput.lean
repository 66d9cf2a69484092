import TermLinks.E2EPacket
import TermLinks.RelayAgreement
import TermLinks.SessionManager

namespace TermLinks.TerminalInput

open Connector (foldlM_member foldlM_others maxTerminalInput stringField stringField_member unmarshal)
open Relay (stringify)
open SessionManager (validateSize)

/-- A message of a terminal socket. -/
inductive Frame
  | binary (data : Bytes)
  | text (data : String)
deriving DecidableEq

def Frame.size : Frame → Nat
  | .binary data => data.length
  | .text data => byteLen data

/-- What a frame does to the session. -/
inductive Effect
  | nothing
  | input (data : Bytes)
  | size (cols rows : UInt16)
deriving DecidableEq

/-- The limit of `SetReadLimit`. -/
def maxTerminalMessage : Nat := 64 * 2 ^ 10

def maxInputMessage : Nat := 64 * 2 ^ 10

structure TerminalControl where
  type : String
  cols : UInt16
  rows : UInt16

/-- A literal as an `uint16`. -/
def parseUint16 (n : Json.Number) : Option UInt16 :=
  if n.fraction = [] ∧ n.exponent = none ∧ n.negative = false ∧
    n.whole < 65536 then some (UInt16.ofNat n.whole) else none

def uint16Field (name : String) (members : List (String × Json.Value)) : Option UInt16 :=
  members.foldlM (fun current pair =>
    if Connector.foldName pair.1 = name.toList then
      match pair.2 with
      | .number n => parseUint16 n
      | .null => some current
      | _ => none
    else some current) 0

def decodeTerminalControl (members : List (String × Json.Value)) : Option TerminalControl := do
  some ⟨← stringField "type" members, ← uint16Field "cols" members, ← uint16Field "rows" members⟩

/-- `Session.Write` of a running session. -/
def write (data : Bytes) : Except String Effect :=
  if data = [] then .ok .nothing
  else if data.length > maxInputMessage then .error "input message is too large"
  else .ok (.input data)

/-- `Session.Resize` of a running session. -/
def resize (cols rows : UInt16) : Except String Effect :=
  if validateSize cols rows then .ok (.size cols rows) else .error "terminal size is outside allowed bounds"

/-- One round of the loop of `readTerminal`; an error closes the attachment. -/
def readTerminal (frame : Frame) : Except String Effect :=
  if frame.size > maxTerminalMessage then .error "websocket: read limit exceeded"
  else
    match frame with
    | .binary data => write data
    | .text data =>
      match unmarshal decodeTerminalControl data with
      | none => .error "invalid terminal control message"
      | some control =>
        if control.type ≠ "resize" then .error "unsupported terminal control message"
        else resize control.cols control.rows

/-- A `terminal_data` message. -/
structure TerminalData where
  binary : Bool
  data : String

def sendTerminalData : Frame → TerminalData
  | .binary data => ⟨true, E2E.bytesToBase64URL data⟩
  | .text data => ⟨false, data⟩

def writeLocalSocket (message : TerminalData) : Option Frame :=
  if message.binary then
    match Cloud.rawURLDecode message.data with
    | none => none
    | some data => if data.length > maxTerminalInput then none else some (.binary data)
  else if byteLen message.data > maxTerminalInput then none
  else some (.text message.data)

/-- How a frame gets to the daemon. -/
inductive Link
  | direct
  | encrypted
deriving DecidableEq

def Link.deliver (link : Link) (frame : Frame) : Except String Effect :=
  match link with
  | .direct => readTerminal frame
  | .encrypted =>
    match writeLocalSocket (sendTerminalData frame) with
    | none => .error "Terminal input is too large"
    | some frame => readTerminal frame

/-- `value.replace(/\r?\n/g, "\r")`. -/
def normalizeEnds : List Char → List Char
  | [] => []
  | [c] => if c = '\n' then ['\r'] else [c]
  | c :: d :: rest =>
    if c = '\r' ∧ d = '\n' then '\r' :: normalizeEnds rest
    else if c = '\n' then '\r' :: normalizeEnds (d :: rest)
    else c :: normalizeEnds (d :: rest)

def terminalPasteInput (value : String) (bracketedPasteMode : Bool) : String :=
  let normalized := String.ofList (normalizeEnds value.toList)
  if bracketedPasteMode then "\x1b[200~" ++ normalized ++ "\x1b[201~" else normalized

/-- `sendTerminalInput`; a text has no lone surrogates, which are sent as replacement characters. -/
def sendTerminalInput (value : String) : Frame := .binary (utf8 value)

/-- What the page sends for a text pasted into the terminal. -/
def paste (value : String) (bracketedPasteMode : Bool) : Frame :=
  sendTerminalInput (terminalPasteInput value bracketedPasteMode)

/-- What the composer sends. -/
def submit (value : String) (bracketedPasteMode : Bool) : Frame :=
  sendTerminalInput (terminalPasteInput value bracketedPasteMode ++ "\r")

/-- `fitTerminal`, once the size is another. -/
def fitTerminal (cols rows : Nat) : Frame :=
  .text (stringify (.object
    [("type", .string "resize"), ("cols", .number (Json.ofInt cols)), ("rows", .number (Json.ofInt rows))]))

/-- The pump of the CLI: each read gets some of what is left, at most a buffer. -/
def pump : List Nat → Bytes → List Frame
  | [], _ => []
  | n :: reads, stdin =>
    let data := stdin.take (min n 4096)
    let rest := pump reads (stdin.drop (min n 4096))
    if data = [] then rest else .binary data :: rest

/-- `sendResize` with the size of the local terminal. -/
def sendResize (cols rows : Nat) : Option Frame :=
  if cols < 20 ∨ rows < 5 then none
  else some (.text ("\x7b\"type\":\"resize\",\"cols\":" ++ toString cols ++ ",\"rows\":" ++ toString rows ++ "\x7d"))

/-- The line ends of two characters. -/
def pairs : List Char → Nat
  | [] => 0
  | [_] => 0
  | c :: d :: rest => if c = '\r' ∧ d = '\n' then pairs rest + 1 else pairs (d :: rest)

theorem byteCount_normalizeEnds (value : List Char) :
    byteCount (normalizeEnds value) + pairs value = byteCount value := by
  have sizes : Char.utf8Size '\r' = 1 ∧ Char.utf8Size '\n' = 1 := by decide
  obtain ⟨carriage, feed⟩ := sizes
  induction value using normalizeEnds.induct with
  | case1 => rfl
  | case2 => rfl
  | case3 c other => rw [normalizeEnds, if_neg other]; rfl
  | case4 c d rest both ih =>
    obtain ⟨rfl, rfl⟩ := both
    rw [normalizeEnds, if_pos ⟨rfl, rfl⟩, pairs, if_pos ⟨rfl, rfl⟩, byteCount_cons, byteCount_cons, byteCount_cons]
    omega
  | case5 d rest both ih =>
    rw [normalizeEnds, if_neg both, if_pos rfl, pairs, if_neg both, byteCount_cons, byteCount_cons]
    omega
  | case6 c d rest both other ih =>
    rw [normalizeEnds, if_neg both, if_neg other, pairs, if_neg both, byteCount_cons, byteCount_cons]
    omega

example : terminalPasteInput "one\ntwo\r\nthree" false = "one\rtwo\rthree" := by decide

/-- The bytes that are sent for a pasted text. -/
def pastedBytes (value : String) (bracketedPasteMode : Bool) : Nat :=
  byteLen value - pairs value.toList + if bracketedPasteMode then 12 else 0

theorem byteLen_terminalPasteInput (value : String) (mode : Bool) :
    byteLen (terminalPasteInput value mode) = pastedBytes value mode := by
  have count := byteCount_normalizeEnds value.toList
  have whole : byteLen value = byteCount value.toList := (byteCount_toList value).symm
  have marks : byteLen "\x1b[200~" = 6 ∧ byteLen "\x1b[201~" = 6 := by decide
  obtain ⟨front, back⟩ := marks
  unfold terminalPasteInput pastedBytes
  cases mode with
  | false =>
    rw [if_neg Bool.false_ne_true, if_neg Bool.false_ne_true, byteLen, byteCount_ofList]
    omega
  | true =>
    unfold byteLen at front back whole ⊢
    rw [if_pos rfl, if_pos rfl, String.utf8ByteSize_append, String.utf8ByteSize_append, front, back, byteCount_ofList]
    omega

/-- The frame does not end the terminal. -/
def Accepted (link : Link) (frame : Frame) : Prop := ∃ effect, link.deliver frame = .ok effect

theorem write_ok {data : Bytes} : (∃ effect, write data = .ok effect) ↔ data.length ≤ 65536 := by
  have limit : maxInputMessage = 65536 := by decide
  unfold write
  rw [limit]
  split
  next empty =>
    subst empty
    exact ⟨fun _ => Nat.zero_le _, fun _ => ⟨_, rfl⟩⟩
  next =>
    split
    next long =>
      refine iff_of_false ?_ (by omega)
      rintro ⟨_, ok⟩
      exact nomatch ok
    next short => exact iff_of_true ⟨_, rfl⟩ (by omega)

theorem readTerminal_binary {data : Bytes} :
    (∃ effect, readTerminal (.binary data) = .ok effect) ↔ data.length ≤ 65536 := by
  have limit : maxTerminalMessage = 65536 := by decide
  rw [readTerminal, limit]
  by_cases long : (Frame.binary data).size > 65536
  · rw [if_pos long]
    have long : data.length > 65536 := long
    refine iff_of_false ?_ (by omega)
    rintro ⟨_, ok⟩
    exact nomatch ok
  · rw [if_neg long]
    exact write_ok

theorem writeLocalSocket_sendTerminalData (frame : Frame) :
    writeLocalSocket (sendTerminalData frame) = if frame.size > 65536 then none else some frame := by
  have limit : maxTerminalInput = 65536 := by decide
  cases frame with
  | binary data =>
    rw [sendTerminalData, E2E.bytesToBase64URL_eq, writeLocalSocket, if_pos rfl, Cloud.rawURLDecode_rawURLEncode, limit]
    rfl
  | text data =>
    rw [sendTerminalData, writeLocalSocket, if_neg Bool.false_ne_true, limit]
    rfl

/-- The encrypted link lets through what the daemon would read anyway. -/
theorem accepted_iff {link : Link} {frame : Frame} :
    Accepted link frame ↔ ∃ effect, readTerminal frame = .ok effect := by
  have limit : maxTerminalMessage = 65536 := by decide
  cases link with
  | direct => exact Iff.rfl
  | encrypted =>
    rw [Accepted, Link.deliver, writeLocalSocket_sendTerminalData]
    by_cases long : frame.size > 65536
    · have closed : readTerminal frame = .error "websocket: read limit exceeded" := by
        rw [readTerminal.eq_def, limit, if_pos long]
      rw [if_pos long, closed]
      refine iff_of_false ?_ ?_
      · rintro ⟨_, ok⟩
        exact nomatch ok
      · rintro ⟨_, ok⟩
        exact nomatch ok
    · rw [if_neg long]

theorem accepted_sendTerminalInput {link : Link} {value : String} :
    Accepted link (sendTerminalInput value) ↔ byteLen value ≤ 65536 := by
  rw [accepted_iff, sendTerminalInput, readTerminal_binary, length_utf8, byteLen]

theorem toDigits_decimal (n : Nat) : Nat.toDigits 10 n = (Json.decimal n).map Json.digitChar := by
  have table : ∀ d < 10, Nat.digitChar d = Json.digitChar (Fin.ofNat 10 d) := by decide
  induction n using Nat.strong_induction_on with
  | _ n ih =>
    by_cases small : n < 10
    · rw [Nat.toDigits_of_lt_base small, table n small, Json.decimal]
      split
      next zero => subst zero; rfl
      next positive => rw [Nat.digits_of_lt 10 n positive small]; rfl
    · have rest := ih (n / 10) (by omega)
      have positive : n ≠ 0 := by omega
      have more : n / 10 ≠ 0 := by omega
      have split : Nat.digits 10 n = n % 10 :: Nat.digits 10 (n / 10) := Nat.digits_def' (by decide) (by omega)
      rw [Nat.toDigits_of_base_le (by decide) (by omega), rest, table _ (Nat.mod_lt n (by decide)), Json.decimal,
        Json.decimal, if_neg positive, if_neg more, split, List.reverse_cons, List.map_append, List.map_append]
      rfl

theorem sendResize_eq {cols rows : Nat} (wide : ¬(cols < 20 ∨ rows < 5)) :
    sendResize cols rows = some (fitTerminal cols rows) := by
  have itoa : ∀ n : Nat, (toString n).toList = Json.renderNumber (Json.ofInt n) := by
    intro n
    have positive : ¬(n : Int) < 0 := by omega
    rw [Nat.toString_eq_ofList_toDigits, String.toList_ofList, toDigits_decimal]
    simp [Json.renderNumber, Json.ofInt, positive]
  have front : "\x7b\"type\":\"resize\",\"cols\":".toList = '\x7b' :: (Json.quote (fun _ => false) "type" ++
      ':' :: (Json.quote (fun _ => false) "resize" ++ ',' :: (Json.quote (fun _ => false) "cols" ++ [':']))) := by
    decide +kernel
  have middle : ",\"rows\":".toList = ',' :: (Json.quote (fun _ => false) "rows" ++ [':']) := by decide
  have last : "\x7d".toList = ['\x7d'] := by decide
  rw [sendResize, if_neg wide, fitTerminal]
  congr 2
  apply String.toList_inj.mp
  simp only [String.toList_append, itoa, stringify, String.toList_ofList, Json.render, Json.renderMembers]
  rw [front, middle, last]
  simp only [List.cons_append, List.append_assoc, List.nil_append]

theorem uint16Field_member {name key : String} {n : Json.Number} {before after : List (String × Json.Value)}
    (own : Connector.foldName key = name.toList)
    (others : ∀ pair ∈ before ++ after, Connector.foldName pair.1 ≠ name.toList) :
    uint16Field name (before ++ (key, .number n) :: after) = parseUint16 n := by
  unfold uint16Field
  rw [foldlM_member (fun current pair other => if_neg other) others]
  exact if_pos own

theorem parseUint16_ofInt (n : Nat) :
    parseUint16 (Json.ofInt n) = if n < 65536 then some (UInt16.ofNat n) else none := by
  have positive : ¬(n : Int) < 0 := by omega
  have plain : (Json.ofInt n).fraction = [] ∧ (Json.ofInt n).exponent = none ∧ (Json.ofInt n).negative = false ∧
      (Json.ofInt n).whole = n := by simp [Json.ofInt, positive]
  obtain ⟨fraction, exponent, negative, whole⟩ := plain
  simp only [parseUint16, fraction, exponent, negative, whole, true_and]

def resizeMembers (cols rows : Nat) : List (String × Json.Value) :=
  [("type", .string "resize"), ("cols", .number (Json.ofInt cols)), ("rows", .number (Json.ofInt rows))]

theorem decode_resize (cols rows : Nat) :
    decodeTerminalControl (resizeMembers cols rows) =
      if cols < 65536 ∧ rows < 65536 then some ⟨"resize", UInt16.ofNat cols, UInt16.ofNat rows⟩
        else none := by
  have names : Connector.foldName "type" = "type".toList ∧ Connector.foldName "cols" = "cols".toList ∧
      Connector.foldName "rows" = "rows".toList ∧ "type".toList ≠ "cols".toList ∧ "type".toList ≠ "rows".toList ∧
      "cols".toList ≠ "rows".toList := by decide
  obtain ⟨first, second, third, apart₁, apart₂, apart₃⟩ := names
  have type' : stringField "type" (resizeMembers cols rows) = some "resize" := by
    refine @stringField_member "type" "type" "resize" []
      [("cols", .number (Json.ofInt cols)), ("rows", .number (Json.ofInt rows))] first ?_
    simp only [List.nil_append, List.forall_mem_cons, second, third]
    exact ⟨apart₁.symm, apart₂.symm, fun _ member => absurd member List.not_mem_nil⟩
  have cols' : uint16Field "cols" (resizeMembers cols rows) = parseUint16 (Json.ofInt cols) := by
    refine @uint16Field_member "cols" "cols" (Json.ofInt cols) [("type", .string "resize")]
      [("rows", .number (Json.ofInt rows))] second ?_
    simp only [List.cons_append, List.nil_append, List.forall_mem_cons, first, third]
    exact ⟨apart₁, apart₃.symm, fun _ member => absurd member List.not_mem_nil⟩
  have rows' : uint16Field "rows" (resizeMembers cols rows) = parseUint16 (Json.ofInt rows) := by
    refine @uint16Field_member "rows" "rows" (Json.ofInt rows)
      [("type", .string "resize"), ("cols", .number (Json.ofInt cols))] [] third ?_
    simp only [List.append_nil, List.forall_mem_cons, first, second]
    exact ⟨apart₂, apart₃, fun _ member => absurd member List.not_mem_nil⟩
  rw [decodeTerminalControl, type', cols', rows', parseUint16_ofInt, parseUint16_ofInt]
  by_cases wide : cols < 65536
  · by_cases tall : rows < 65536
    · rw [if_pos wide, if_pos tall, if_pos ⟨wide, tall⟩]
      rfl
    · rw [if_pos wide, if_neg tall, if_neg fun h : cols < 65536 ∧ rows < 65536 => tall h.2]
      rfl
  · rw [if_neg wide, if_neg fun h : cols < 65536 ∧ rows < 65536 => wide h.1]
    rfl

theorem validateSize_ofNat {cols rows : Nat} (wide : cols < 65536) (tall : rows < 65536) :
    validateSize (UInt16.ofNat cols) (UInt16.ofNat rows) = true ↔ 20 ≤ cols ∧ cols ≤ 500 ∧
    5 ≤ rows ∧ rows ≤ 300 := by
  have cols' : (UInt16.ofNat cols).toNat = cols := UInt16.toNat_ofNat_of_lt' wide
  have rows' : (UInt16.ofNat rows).toNat = rows := UInt16.toNat_ofNat_of_lt' tall
  have bounds : (20 : UInt16).toNat = 20 ∧ (500 : UInt16).toNat = 500 ∧ (5 : UInt16).toNat = 5 ∧
    (300 : UInt16).toNat = 300 := by
    decide
  obtain ⟨twenty, fiveHundred, five, threeHundred⟩ := bounds
  simp only [validateSize, Bool.not_eq_true', Bool.or_eq_false_iff, decide_eq_false_iff_not,
    UInt16.lt_iff_toNat_lt, cols',
    rows', twenty, fiveHundred, five, threeHundred, gt_iff_lt]
  omega

theorem resize_ok {cols rows : UInt16} :
    (∃ effect, resize cols rows = .ok effect) ↔ validateSize cols rows = true := by
  unfold resize
  split
  next valid => exact iff_of_true ⟨_, rfl⟩ valid
  next invalid =>
    refine iff_of_false ?_ invalid
    rintro ⟨_, ok⟩
    exact nomatch ok

theorem resize_size {cols rows : Nat} (wide : cols < 65536) (tall : rows < 65536) :
    byteLen (stringify (.object (resizeMembers cols rows))) ≤ 65536 := by
  have digits : ∀ {n : Nat}, n < 65536 → (Json.decimal n).length ≤ 5 := by
    intro n small
    have short := (Nat.digits_length_le_iff (b := 10) (k := 5) (by omega) n).mpr (by omega)
    unfold Json.decimal
    split
    next => decide
    next => simpa using short
  have quotes : byteCount (Json.quote (fun _ => false) "type") = 6 ∧
    byteCount (Json.quote (fun _ => false) "resize") = 8 ∧
      byteCount (Json.quote (fun _ => false) "cols") = 6 ∧
        byteCount (Json.quote (fun _ => false) "rows") = 6 := by decide
  have sizes : Char.utf8Size '\x7b' = 1 ∧ Char.utf8Size ',' = 1 ∧ Char.utf8Size ':' = 1 ∧
    byteCount ['\x7d'] = 1 := by decide
  obtain ⟨opening, comma, colon, last⟩ := sizes
  obtain ⟨first, second, third, fourth⟩ := quotes
  have cols' := Relay.ofInt_bytes cols
  have rows' := Relay.ofInt_bytes rows
  have short := digits wide
  have short' := digits tall
  rw [stringify, byteLen, byteCount_ofList, resizeMembers]
  simp only [Json.render, Json.renderMembers, byteCount_cons, byteCount_append, first, second, third, fourth, opening,
    comma, colon, last, cols', rows']
  omega

/-- A resize is refused for its numbers only: its text is short enough whenever they are. -/
theorem accepted_fitTerminal {link : Link} {cols rows : Nat} :
    Accepted link (fitTerminal cols rows) ↔ 20 ≤ cols ∧ cols ≤ 500 ∧ 5 ≤ rows ∧ rows ≤ 300 := by
  have limit : maxTerminalMessage = 65536 := by decide
  have parsed : Json.parse (stringify (.object (resizeMembers cols rows))) = some (.object (resizeMembers cols rows)) :=
    Json.parse_render Relay.basic_json _
  have read : unmarshal decodeTerminalControl (stringify (.object (resizeMembers cols rows))) =
      decodeTerminalControl (resizeMembers cols rows) := by
    rw [unmarshal, parsed]
  have frame : fitTerminal cols rows = .text (stringify (.object (resizeMembers cols rows))) := rfl
  rw [accepted_iff, frame, readTerminal.eq_def, limit]
  dsimp only
  rw [read, decode_resize]
  by_cases small : cols < 65536 ∧ rows < 65536
  · have short := resize_size small.1 small.2
    have fits : ¬(Frame.text (stringify (.object (resizeMembers cols rows)))).size > 65536 := Nat.not_lt.mpr short
    rw [if_neg fits, if_pos small]
    dsimp only
    rw [if_neg (not_not_intro rfl), resize_ok, validateSize_ofNat small.1 small.2]
  · rw [if_neg small]
    refine iff_of_false ?_ (by omega)
    rintro ⟨_, ok⟩
    split at ok
    next => exact nomatch ok
    next => exact nomatch ok

theorem accepted_sendResize {cols rows : Nat} :
    (∀ frame ∈ sendResize cols rows, Accepted .direct frame) ↔ cols < 20 ∨ rows < 5 ∨ cols ≤ 500 ∧
    rows ≤ 300 := by
  by_cases narrow : cols < 20 ∨ rows < 5
  · have none : sendResize cols rows = none := by rw [sendResize, if_pos narrow]
    refine iff_of_true ?_ (by omega)
    intro frame sent
    rw [none] at sent
    exact nomatch sent
  · have one := @accepted_fitTerminal .direct cols rows
    rw [sendResize_eq narrow]
    constructor
    · intro all
      have fits := one.mp (all _ rfl)
      omega
    · intro fits frame sent
      cases sent
      exact one.mpr (by omega)

theorem pump_frames {reads : List Nat} {stdin : Bytes} :
    ∀ frame ∈ pump reads stdin, ∃ data, frame = .binary data ∧ data.length ≤ 4096 := by
  induction reads generalizing stdin with
  | nil => exact fun frame member => absurd member List.not_mem_nil
  | cons n reads ih =>
    intro frame member
    rw [pump] at member
    split at member
    next => exact ih frame member
    next =>
      obtain rfl | member := List.mem_cons.mp member
      · refine ⟨_, rfl, ?_⟩
        rw [List.length_take]
        omega
      · exact ih frame member

/-- Which of the frames that the clients send end the terminal: the texts of the page that are too long, and sizes
beyond the bounds, of which the CLI holds the small ones back. What it pumps never does. -/
theorem client_frames_accepted (link : Link) :
    (∀ value mode, Accepted link (paste value mode) ↔ pastedBytes value mode ≤ 65536) ∧
    (∀ value mode, Accepted link (submit value mode) ↔ pastedBytes value mode + 1 ≤ 65536) ∧
    (∀ cols rows, Accepted link (fitTerminal cols rows) ↔ 20 ≤ cols ∧ cols ≤ 500 ∧ 5 ≤ rows ∧ rows ≤ 300) ∧
    (∀ reads stdin, ∀ frame ∈ pump reads stdin, Accepted .direct frame) ∧
    ∀ cols rows, (∀ frame ∈ sendResize cols rows, Accepted .direct frame) ↔
      cols < 20 ∨ rows < 5 ∨ cols ≤ 500 ∧ rows ≤ 300 := by
  refine ⟨fun value mode => ?_, fun value mode => ?_, fun cols rows => accepted_fitTerminal, ?_,
    fun cols rows => accepted_sendResize⟩
  · rw [paste, accepted_sendTerminalInput, byteLen_terminalPasteInput]
  · have carriage : byteLen "\r" = 1 := by decide
    have length : byteLen (terminalPasteInput value mode ++ "\r") = pastedBytes value mode + 1 := by
      rw [← byteLen_terminalPasteInput, byteLen, String.utf8ByteSize_append]
      exact congrArg _ carriage
    rw [submit, accepted_sendTerminalInput, length]
  · intro reads stdin frame member
    obtain ⟨data, rfl, short⟩ := pump_frames frame member
    rw [accepted_iff, readTerminal_binary]
    omega

theorem pastedBytes_letters (n : Nat) : pastedBytes (String.ofList (List.replicate n 'a')) false = n := by
  have none : pairs (List.replicate n 'a') = 0 := by
    induction n with
    | zero => rfl
    | succ n ih =>
      cases n with
      | zero => rfl
      | succ n =>
        have other : ¬('a' = '\r' ∧ 'a' = '\n') := by decide
        rw [List.replicate_succ, List.replicate_succ, pairs, if_neg other, ← List.replicate_succ, ih]
  have one : Char.utf8Size 'a' = 1 := by decide
  rw [pastedBytes, String.toList_ofList, none, byteLen, byteCount_ofList]
  simp [byteCount, one]

/-- A paste of 65537 letters and a window of 600 columns, which the page and the CLI send as they are. -/
theorem long_paste_ends_terminal :
    ¬Accepted .encrypted (paste (String.ofList (List.replicate 65537 'a')) false) ∧
    ¬Accepted .direct (fitTerminal 600 40) ∧ ∃ frame, sendResize 600 40 = some frame ∧
    ¬Accepted .direct frame := by
  refine ⟨?_, ?_, fitTerminal 600 40, sendResize_eq (by decide), ?_⟩
  · rw [paste, accepted_sendTerminalInput, byteLen_terminalPasteInput, pastedBytes_letters]
    decide
  · rw [accepted_fitTerminal]
    decide
  · rw [accepted_fitTerminal]
    decide

end TermLinks.TerminalInput
