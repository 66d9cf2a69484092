import TermLinks.E2EPacket
import TermLinks.HistoryBounds
import TermLinks.HistoryListing
import TermLinks.TerminalFraming
import TermLinks.TimestampParse

namespace TermLinks.TerminalHistory

/-- `hex.EncodeToString`. -/
def hexText (bytes : List UInt8) : String :=
  String.ofList (bytes.flatMap fun b => [Json.hexDigit (b.toNat / 16), Json.hexDigit (b.toNat % 16)])

/-- The text of an id from the sixteen random bytes `newID` drew for it. -/
def idText (draw : Nat → Fin 16 → UInt8) (id : Nat) : String := hexText (List.ofFn (draw id))

/-- `Entry`, what the daemon answers with. -/
structure Entry where
  id : String
  sourceSessionID : String
  activeSessionID : String
  name : String
  cwd : String
  favorite : Bool
  createdAt : Time
  updatedAt : Time
  lastOpenedAt : Time
  lastClosedAt : Option Time
deriving DecidableEq

def scanEntry (draw : Nat → Fin 16 → UInt8) (row : SavedTerminal) : Option Entry := do
  let createdAt ← decodeTime row.createdAt
  let updatedAt ← decodeTime row.updatedAt
  let lastOpenedAt ← decodeTime row.lastOpenedAt
  let lastClosedAt ←
    match row.lastClosedAt with
    | none => some none
    | some text => (decodeTime text).map some
  return { id := idText draw row.id, sourceSessionID := row.sourceSessionID, activeSessionID := row.activeSessionID
           name := row.name, cwd := row.cwd, favorite := row.favorite, createdAt, updatedAt,
             lastOpenedAt, lastClosedAt }

/-- The JSON of an entry; an empty active session and a missing end are left out. -/
def Entry.value (entry : Entry) : Json.Value :=
  .object ([("id", .string entry.id), ("sourceSessionId", .string entry.sourceSessionID)] ++
    (if entry.activeSessionID = "" then [] else [("activeSessionId", .string entry.activeSessionID)]) ++
    [("name", .string entry.name), ("cwd", .string entry.cwd), ("favorite", .bool entry.favorite),
      ("createdAt", .string (encodeTime entry.createdAt)), ("updatedAt", .string (encodeTime entry.updatedAt)),
      ("lastOpenedAt", .string (encodeTime entry.lastOpenedAt))] ++
    (entry.lastClosedAt.map fun closed => ("lastClosedAt", Json.Value.string (encodeTime closed))).toList)

/-- The map `listTerminalHistory` writes, in the order of its keys. -/
def listValue (entries : List Entry) : Json.Value :=
  .object [("maxFavorites", .number (Json.ofInt maxFavorites)), ("maxRecent", .number (Json.ofInt maxRecent)),
    ("terminals", .array (entries.map Entry.value))]

/-- The body of the answer to a list request, from the state that `List` reads. -/
def listBody (draw : Nat → Fin 16 → UInt8) (s : Store) : Option String :=
  (s.list.mapM (scanEntry draw)).map fun entries => Connector.marshal (listValue entries) ++ "\n"

end TermLinks.TerminalHistory

namespace TermLinks.HistoryClient

open Connector (isHex)
open Relay (member)

def maxTerminalNameLength : Nat := 80
def maxTerminalCwdLength : Nat := 4096
def maxSavedTerminals : Nat := 110

/-- The texts `Date.parse` gives a number for. Its ISO format takes the timestamps of the daemon, whose fractions
have up to nine digits. -/
structure Dates where
  finite : String → Bool
  iso : ∀ t : Time, t.Calendar → finite (encodeTime t) = true

/-- The `SavedTerminal` of the browser. -/
structure SavedTerminal where
  id : String
  sourceSessionId : String
  activeSessionId : Option String
  name : String
  cwd : String
  favorite : Bool
  createdAt : String
  updatedAt : String
  lastOpenedAt : String
  lastClosedAt : Option String
deriving DecidableEq

def validID : Json.Value → Option String
  | .string text => if text.toList.length = 32 ∧ text.toList.all isHex then some text else none
  | _ => none

def validDate (dates : Dates) : Json.Value → Option String
  | .string text => if dates.finite text then some text else none
  | _ => none

/-- A string of at least one and at most so many UTF-16 units. -/
def validText (limit : Nat) : Json.Value → Option String
  | .string text =>
    if E2E.utf16Length text.toList < 1 ∨ E2E.utf16Length text.toList > limit then none else some text
  | _ => none

def validFlag : Json.Value → Option Bool
  | .bool flag => some flag
  | _ => none

/-- A property that may be missing. -/
def optional (valid : Json.Value → Option String) : Option Json.Value → Option (Option String)
  | none => some none
  | some value => (valid value).map some

/-- One item of `decodeTerminalHistory`. -/
def decodeItem (dates : Dates) : Json.Value → Option SavedTerminal
  | .object item => do
    let id ← (member "id" item).bind validID
    let sourceSessionId ← (member "sourceSessionId" item).bind validID
    let activeSessionId ← optional validID (member "activeSessionId" item)
    let name ← (member "name" item).bind (validText maxTerminalNameLength)
    let cwd ← (member "cwd" item).bind (validText maxTerminalCwdLength)
    let favorite ← (member "favorite" item).bind validFlag
    let createdAt ← (member "createdAt" item).bind (validDate dates)
    let updatedAt ← (member "updatedAt" item).bind (validDate dates)
    let lastOpenedAt ← (member "lastOpenedAt" item).bind (validDate dates)
    let lastClosedAt ← optional (validDate dates) (member "lastClosedAt" item)
    return { id, sourceSessionId, activeSessionId, name, cwd, favorite, createdAt, updatedAt
             lastOpenedAt, lastClosedAt }
  | _ => none

def decodeTerminalHistory (dates : Dates) : Json.Value → Option (List SavedTerminal)
  | .object value =>
    match member "terminals" value with
    | some (.array terminals) =>
      if terminals.length > maxSavedTerminals then none else terminals.mapM (decodeItem dates)
    | _ => none
  | _ => none

/-- The entry as the browser has it. -/
def ofEntry (entry : TerminalHistory.Entry) : SavedTerminal where
  id := entry.id
  sourceSessionId := entry.sourceSessionID
  activeSessionId := if entry.activeSessionID = "" then none else some entry.activeSessionID
  name := entry.name
  cwd := entry.cwd
  favorite := entry.favorite
  createdAt := encodeTime entry.createdAt
  updatedAt := encodeTime entry.updatedAt
  lastOpenedAt := encodeTime entry.lastOpenedAt
  lastClosedAt := entry.lastClosedAt.map encodeTime

/-- The form of an id: sixteen bytes in hex. -/
def IsID (text : String) : Prop := text.toList.length = 32 ∧ text.toList.all isHex = true

instance (text : String) : Decidable (IsID text) := inferInstanceAs (Decidable (_ ∧ _))

theorem isHex_hexDigit {n : Nat} (h : n < 16) : isHex (Json.hexDigit n) = true := by
  have all : ∀ n < 16, isHex (Json.hexDigit n) = true := by decide
  exact all n h

theorem isID_hexText {bytes : List UInt8} (h : bytes.length = 16) : IsID (TerminalHistory.hexText bytes) := by
  unfold IsID TerminalHistory.hexText
  rw [String.toList_ofList]
  constructor
  · have twice : (bytes.flatMap fun b => [Json.hexDigit (b.toNat / 16), Json.hexDigit (b.toNat % 16)]).length =
        2 * bytes.length := by
      clear h
      induction bytes with
      | nil => rfl
      | cons b bytes ih =>
        rw [List.flatMap_cons, List.length_append, ih, List.length_cons]
        simp only [List.length_cons, List.length_nil]
        omega
    omega
  · refine List.all_eq_true.mpr fun c hc => ?_
    obtain ⟨b, _, hb⟩ := List.mem_flatMap.mp hc
    have small := b.toNat_lt
    simp only [List.mem_cons, List.not_mem_nil, or_false] at hb
    rcases hb with rfl | rfl
    · exact isHex_hexDigit (by omega)
    · exact isHex_hexDigit (by omega)

theorem isID_idText (draw : Nat → Fin 16 → UInt8) (id : Nat) : IsID (TerminalHistory.idText draw id) :=
  isID_hexText (by rw [List.length_ofFn])

/-- An entry the browser can show. -/
structure Shown (entry : TerminalHistory.Entry) : Prop where
  id : IsID entry.id
  source : IsID entry.sourceSessionID
  active : entry.activeSessionID = "" ∨ IsID entry.activeSessionID
  name : 1 ≤ E2E.utf16Length entry.name.toList ∧ E2E.utf16Length entry.name.toList ≤ maxTerminalNameLength
  cwd : 1 ≤ E2E.utf16Length entry.cwd.toList ∧ E2E.utf16Length entry.cwd.toList ≤ maxTerminalCwdLength
  created : entry.createdAt.Calendar
  updated : entry.updatedAt.Calendar
  opened : entry.lastOpenedAt.Calendar
  closed : ∀ closed ∈ entry.lastClosedAt, closed.Calendar

theorem validID_string {text : String} (h : IsID text) : validID (.string text) = some text := if_pos h

theorem validText_string {text : String} {limit : Nat}
    (h : 1 ≤ E2E.utf16Length text.toList ∧ E2E.utf16Length text.toList ≤ limit) :
    validText limit (.string text) = some text := if_neg (by omega)

theorem validDate_string (dates : Dates) {t : Time} (h : t.Calendar) :
    validDate dates (.string (encodeTime t)) = some (encodeTime t) := if_pos (dates.iso t h)

/-- What the daemon writes of an entry decodes to the entry. -/
theorem decodeItem_value (dates : Dates) {entry : TerminalHistory.Entry} (h : Shown entry) :
    decodeItem dates entry.value = some (ofEntry entry) := by
  obtain ⟨id, source, active, name, cwd, created, updated, opened, closed⟩ := h
  have id := validID_string id
  have source := validID_string source
  have name := validText_string name
  have cwd := validText_string cwd
  have created := validDate_string dates created
  have updated := validDate_string dates updated
  have opened := validDate_string dates opened
  unfold TerminalHistory.Entry.value ofEntry
  by_cases linked : entry.activeSessionID = ""
  · cases last : entry.lastClosedAt with
    | none =>
      simp [decodeItem, member, linked, optional, validFlag, id, source, name, cwd, created, updated, opened]
    | some ended =>
      have ended := validDate_string dates (closed ended (by rw [last]; rfl))
      simp [decodeItem, member, linked, optional, validFlag, id, source, name, cwd, created, updated, opened, ended]
  · have active := validID_string (active.resolve_left linked)
    cases last : entry.lastClosedAt with
    | none =>
      simp [decodeItem, member, linked, optional, validFlag, id, source, name, cwd, created, updated, opened, active]
    | some ended =>
      have ended := validDate_string dates (closed ended (by rw [last]; rfl))
      simp [decodeItem, member, linked, optional, validFlag, id, source, name, cwd, created, updated, opened, active,
        ended]

theorem mapM_decodeItem (dates : Dates) {entries : List TerminalHistory.Entry}
    (h : ∀ entry ∈ entries, Shown entry) :
    (entries.map TerminalHistory.Entry.value).mapM (decodeItem dates) = some (entries.map ofEntry) := by
  induction entries with
  | nil => rfl
  | cons entry entries ih =>
    obtain ⟨first, rest⟩ := List.forall_mem_cons.mp h
    rw [List.map_cons, List.mapM_cons, decodeItem_value dates first, ih rest]
    rfl

/-- A list of at most 110 such entries decodes to the same entries. -/
theorem decode_listValue (dates : Dates) {entries : List TerminalHistory.Entry}
    (few : entries.length ≤ maxSavedTerminals) (h : ∀ entry ∈ entries, Shown entry) :
    decodeTerminalHistory dates (TerminalHistory.listValue entries) = some (entries.map ofEntry) := by
  have all := mapM_decodeItem dates h
  have short : ¬(entries.map TerminalHistory.Entry.value).length > maxSavedTerminals := by
    rw [List.length_map]
    omega
  have there : member "terminals" [("maxFavorites", Json.Value.number (Json.ofInt TerminalHistory.maxFavorites)),
      ("maxRecent", .number (Json.ofInt TerminalHistory.maxRecent)),
      ("terminals", .array (entries.map TerminalHistory.Entry.value))] =
      some (.array (entries.map TerminalHistory.Entry.value)) := by
    simp [member]
  simp only [decodeTerminalHistory, TerminalHistory.listValue, there]
  rw [if_neg short, all]

end TermLinks.HistoryClient

namespace TermLinks.TerminalHistory

open HistoryClient (IsID)

/-- A row whose entry the browser can show. -/
structure SavedTerminal.Presentable (row : SavedTerminal) : Prop where
  source : IsID row.sourceSessionID
  active : row.activeSessionID = "" ∨ IsID row.activeSessionID
  name : 1 ≤ E2E.utf16Length row.name.toList ∧ E2E.utf16Length row.name.toList ≤ HistoryClient.maxTerminalNameLength
  cwd : 1 ≤ E2E.utf16Length row.cwd.toList ∧ E2E.utf16Length row.cwd.toList ≤ HistoryClient.maxTerminalCwdLength
  created : ∃ t : Time, t.Calendar ∧ row.createdAt = encodeTime t
  updated : ∃ t : Time, t.Calendar ∧ row.updatedAt = encodeTime t
  opened : ∃ t : Time, t.Calendar ∧ row.lastOpenedAt = encodeTime t
  closed : ∀ text ∈ row.lastClosedAt, ∃ t : Time, t.Calendar ∧ text = encodeTime t

theorem scanEntry_presentable (draw : Nat → Fin 16 → UInt8) {row : SavedTerminal} (h : row.Presentable) :
    ∃ entry, scanEntry draw row = some entry ∧ HistoryClient.Shown entry := by
  obtain ⟨source, active, name, cwd, ⟨created, hc, createdAt⟩, ⟨updated, hu, updatedAt⟩,
    ⟨opened, ho, openedAt⟩, closed⟩ := h
  have first := decodeTime_encodeTime hc
  have second := decodeTime_encodeTime hu
  have third := decodeTime_encodeTime ho
  unfold scanEntry
  rw [createdAt, updatedAt, openedAt, first, second, third]
  cases last : row.lastClosedAt with
  | none =>
    exact ⟨_, rfl, HistoryClient.isID_idText draw row.id, source, active, name, cwd, hc, hu, ho, nofun⟩
  | some text =>
    obtain ⟨ended, he, rfl⟩ := closed text (by rw [last]; rfl)
    have fourth := decodeTime_encodeTime he
    dsimp only
    rw [fourth]
    refine ⟨_, rfl, HistoryClient.isID_idText draw row.id, source, active, name, cwd, hc, hu, ho, ?_⟩
    intro t ht
    cases ht
    exact he

theorem scan_presentable (draw : Nat → Fin 16 → UInt8) {rows : List SavedTerminal}
    (h : ∀ row ∈ rows, row.Presentable) :
    ∃ entries, rows.mapM (scanEntry draw) = some entries ∧ entries.length = rows.length ∧
      ∀ entry ∈ entries, HistoryClient.Shown entry := by
  induction rows with
  | nil => exact ⟨[], rfl, rfl, nofun⟩
  | cons row rows ih =>
    obtain ⟨first, rest⟩ := List.forall_mem_cons.mp h
    obtain ⟨entry, scanned, shown⟩ := scanEntry_presentable draw first
    obtain ⟨entries, all, length, others⟩ := ih rest
    refine ⟨entry :: entries, ?_, ?_, List.forall_mem_cons.mpr ⟨shown, others⟩⟩
    · rw [List.mapM_cons, scanned, all]
      rfl
    · rw [List.length_cons, List.length_cons, length]

/-- The browser takes the answer to a list request, entry for entry, when every row is presentable. -/
theorem decode_listBody (draw : Nat → Fin 16 → UInt8) (dates : HistoryClient.Dates) {s : Store}
    (bounded : s.Bounded) (h : ∀ row ∈ s.rows, row.Presentable) :
    ∃ entries body, s.list.mapM (scanEntry draw) = some entries ∧ listBody draw s = some body ∧
      (Json.parse body).bind (HistoryClient.decodeTerminalHistory dates) =
        some (entries.map HistoryClient.ofEntry) := by
  have listed : ∀ row ∈ s.list, row.Presentable := by
    intro row hr
    exact h row ((List.mem_insertionSort _).mp hr)
  obtain ⟨entries, scanned, length, shown⟩ := scan_presentable draw listed
  have count : s.rows.length ≤ HistoryClient.maxSavedTerminals := by
    have favorites := bounded.favorites
    have recent := bounded.recent
    have all := List.length_eq_length_filter_add (l := s.rows) fun row => row.favorite
    rw [Store.favorites, List.length_map] at favorites
    have limits : maxFavorites + maxRecent = HistoryClient.maxSavedTerminals := rfl
    unfold Store.recent at recent
    omega
  have few : entries.length ≤ HistoryClient.maxSavedTerminals := by
    rw [length, Store.list, List.length_insertionSort]
    exact count
  refine ⟨entries, _, scanned, by rw [listBody, scanned]; rfl, ?_⟩
  rw [TerminalReconnect.parse_writeJSON]
  exact HistoryClient.decode_listValue dates few shown

end TermLinks.TerminalHistory
