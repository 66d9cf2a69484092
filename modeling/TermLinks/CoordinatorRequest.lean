import TermLinks.ConnectorHTTP
import TermLinks.CoordinatorManager
import TermLinks.RelayAgreement

namespace TermLinks.Coordinator

open Connector (HTTPRequest Portal Service allowedHTTPRoute foldlM_member foldlM_others homePortal maxHTTPBody parseInt
  serviceOf stringField stringField_member unmarshal)
open Relay (stringify)
open Remote (knownFields)

/-- The limit of the reader of `decodeCoordinatorJSON`. -/
def maxCoordinatorBody : Nat := 64 * 2 ^ 10

/-- A field that is a pointer to a number. -/
def pointerField (name : String) (members : List (String × Json.Value)) : Option (Option Int) :=
  members.foldlM (fun current pair =>
    if Connector.foldName pair.1 = name.toList then
      match pair.2 with
      | .number n => (parseInt n).map some
      | .null => some none
      | _ => none
    else some current) none

/-- The `MessageInput` that is decoded, before the store looks for what it replies to. -/
structure DecodedMessage where
  body : String
  sendTo : String
  replyTo : Option Int
deriving DecidableEq

structure CreateInput where
  request : String
  cwd : String
deriving DecidableEq

def messageFields (members : List (String × Json.Value)) : Option DecodedMessage :=
  if knownFields ["body", "to", "replyto"] members then do
    some ⟨← stringField "body" members, ← stringField "to" members, ← pointerField "replyto" members⟩
  else none

def createFields (members : List (String × Json.Value)) : Option CreateInput :=
  if knownFields ["request", "cwd"] members then do
    some ⟨← stringField "request" members, ← stringField "cwd" members⟩
  else none

/-- `decodeCoordinatorJSON`: one value, after which the limited reader has nothing more to give. -/
def decodeCoordinatorJSON {α : Type} (decode : List (String × Json.Value) → Option α)
    (body : String) : Option α :=
  if byteLen body > maxCoordinatorBody then none else unmarshal decode body

/-- `...(replyTo ? { replyTo } : {})`, a number of JavaScript. -/
def replyMember : Option (Fin (2 ^ 53)) → List (String × Json.Value)
  | none => []
  | some id => [("replyTo", .number (Json.ofInt id.val))]

/-- What the composer of a team room sends. -/
def messageValue (body sendTo : String) (replyTo : Option (Fin (2 ^ 53))) : Json.Value :=
  .object (("body", .string body) :: ("to", .string sendTo) :: replyMember replyTo)

/-- What the composer of a workflow sends. -/
def workflowValue (request cwd : String) : Json.Value :=
  .object [("request", .string request), ("cwd", .string cwd)]

def messageText (body sendTo : String) (replyTo : Option (Fin (2 ^ 53))) : String :=
  stringify (messageValue body sendTo replyTo)

def workflowText (request cwd : String) : String := stringify (workflowValue request cwd)

/-- The bytes that `JSON.stringify` adds for the character. -/
def escapeBytes (c : Char) : Nat :=
  if c ∈ ['"', '\\', '\x08', '\x0c', '\n', '\r', '\t'] then 1 else if c.toNat < 0x20 then 5 else 0

/-- The bytes of the text between the quotes that `JSON.stringify` puts around it. -/
def writtenBytes (text : String) : Nat := byteLen text + (text.toList.map escapeBytes).sum

/-- The bytes of the member that names the message replied to. -/
def replyBytes : Option (Fin (2 ^ 53)) → Nat
  | none => 0
  | some id => 11 + (Json.decimal id.val).length

/-- A request that the connector sends on to the local web origin, which decodes it as `input`. -/
def Arrives {α : Type} (portal : Portal) (path text : String) (decode : List (String × Json.Value) → Option α)
    (input : α) : Prop :=
  (∀ id, serviceOf portal ⟨id, "POST", path, text⟩ = .origin) ∧ decodeCoordinatorJSON decode text = some input

theorem escapeChar_bytes (c : Char) :
    byteCount (Json.escapeChar (fun _ => false) c) = c.utf8Size + escapeBytes c := by
  unfold Json.escapeChar escapeBytes
  have table : ∀ pair ∈ Json.shortEscapes, byteCount ['\\', pair.2] = 2 ∧ pair.1.utf8Size = 1 ∧
      pair.1 ∈ ['"', '\\', '\x08', '\x0c', '\n', '\r', '\t'] := by decide
  split
  next d short found =>
    have mem := List.mem_of_find?_eq_some found
    have same : d = c := by simpa using List.find?_some found
    subst same
    obtain ⟨two, one, listed⟩ := table _ mem
    rw [if_pos listed, two, one]
  next absent =>
    have other : c ∉ ['"', '\\', '\x08', '\x0c', '\n', '\r', '\t'] := by
      intro listed
      have names : ∀ d ∈ ['"', '\\', '\x08', '\x0c', '\n', '\r', '\t'], ∃ pair ∈ Json.shortEscapes, pair.1 = d :=
        List.all_iff_forall_prop.mp (by decide)
      obtain ⟨pair, mem, same⟩ := names c listed
      have differs := List.find?_eq_none.mp absent pair mem
      simp [same] at differs
    rw [if_neg other]
    by_cases control : c.toNat < 0x20
    · have six : byteCount (Json.unicodeEscape c.toNat) = 6 := by
        simp only [Json.unicodeEscape, byteCount_cons, Relay.hexDigit_size]
        decide
      have one : c.utf8Size = 1 :=
        Char.utf8Size_eq_one_iff.mpr (UInt32.le_iff_toNat_le.mpr (Nat.le_trans (Nat.le_of_lt control) (by decide)))
      rw [if_pos control, if_pos (by simp [control]), six, one]
    · rw [if_neg control, if_neg (by simp [control])]
      rfl

theorem quote_bytes (text : String) :
    byteCount (Json.quote (fun _ => false) text) = writtenBytes text + 2 := by
  have each : ∀ cs : List Char, byteCount (cs.flatMap (Json.escapeChar fun _ => false)) =
      byteCount cs + (cs.map escapeBytes).sum := by
    intro cs
    induction cs with
    | nil => rfl
    | cons c cs ih =>
      have first := escapeChar_bytes c
      rw [List.flatMap_cons, byteCount_append, byteCount_cons, List.map_cons, List.sum_cons]
      omega
  have mark : byteCount ['"'] = 1 := by decide
  have one : Char.utf8Size '"' = 1 := by decide
  rw [Json.quote, byteCount_cons, byteCount_append, each, byteCount_toList, mark, one, writtenBytes, byteLen]
  omega

theorem workflowText_bytes (request cwd : String) :
    byteLen (workflowText request cwd) = writtenBytes request + writtenBytes cwd + 23 := by
  have names : byteCount (Json.quote (fun _ => false) "request") = 9 ∧
    byteCount (Json.quote (fun _ => false) "cwd") = 5 := by
    decide
  have sizes : Char.utf8Size '\x7b' = 1 ∧ Char.utf8Size ',' = 1 ∧ Char.utf8Size ':' = 1 := by decide
  have last : byteCount ['\x7d'] = 1 := by decide
  obtain ⟨opening, comma, colon⟩ := sizes
  obtain ⟨first, second⟩ := names
  have body := quote_bytes request
  have directory := quote_bytes cwd
  rw [workflowText, stringify, byteLen, byteCount_ofList, workflowValue]
  simp only [Json.render, Json.renderMembers, byteCount_cons, byteCount_append, first, second, body, directory, opening,
    comma, colon, last]
  omega

theorem messageText_bytes (body sendTo : String) (replyTo : Option (Fin (2 ^ 53))) :
    byteLen (messageText body sendTo replyTo) = writtenBytes body + writtenBytes sendTo + replyBytes
      replyTo + 19 := by
  have names : byteCount (Json.quote (fun _ => false) "body") = 6 ∧ byteCount (Json.quote (fun _ => false) "to") = 4 ∧
      byteCount (Json.quote (fun _ => false) "replyTo") = 9 := by decide
  have sizes : Char.utf8Size '\x7b' = 1 ∧ Char.utf8Size ',' = 1 ∧ Char.utf8Size ':' = 1 := by decide
  have last : byteCount ['\x7d'] = 1 := by decide
  obtain ⟨opening, comma, colon⟩ := sizes
  obtain ⟨first, second, third⟩ := names
  have text := quote_bytes body
  have recipient := quote_bytes sendTo
  rw [messageText, stringify, byteLen, byteCount_ofList]
  cases replyTo with
  | none =>
    simp only [messageValue, replyMember, Json.render, Json.renderMembers, byteCount_cons,
      byteCount_append, first, second, text,
      recipient, opening, comma, colon, last, replyBytes]
    omega
  | some id =>
    have number := Relay.ofInt_bytes id.val
    simp only [messageValue, replyMember, Json.render, Json.renderMembers, byteCount_cons, byteCount_append, first,
      second, third, text, recipient, number, opening, comma, colon, last, replyBytes]
    omega

theorem pointerField_member {name key : String} {n : Json.Number} {before after : List (String × Json.Value)}
    (own : Connector.foldName key = name.toList)
    (others : ∀ pair ∈ before ++ after, Connector.foldName pair.1 ≠ name.toList) :
    pointerField name (before ++ (key, .number n) :: after) = (parseInt n).map some := by
  unfold pointerField
  rw [foldlM_member (fun current pair other => if_neg other) others]
  exact if_pos own

theorem decode_workflowText (request cwd : String) :
    unmarshal createFields (workflowText request cwd) = some ⟨request, cwd⟩ := by
  have parsed : Json.parse (workflowText request cwd) = some (workflowValue request cwd) :=
    Json.parse_render Relay.basic_json _
  have names : Connector.foldName "request" = "request".toList ∧ Connector.foldName "cwd" = "cwd".toList ∧
      "request".toList ≠ "cwd".toList := by decide
  obtain ⟨first, second, apart⟩ := names
  have known : knownFields ["request", "cwd"] [("request", .string request), ("cwd", .string cwd)] = true := by
    simp only [knownFields, List.all_cons, List.any_cons, first, second, decide_true, Bool.true_or, Bool.or_true,
      List.all_nil, Bool.and_self]
  have request' := @stringField_member "request" "request" request [] [("cwd", .string cwd)] first
    (by simpa only [List.nil_append, List.forall_mem_singleton, second] using apart.symm)
  have cwd' := @stringField_member "cwd" "cwd" cwd [("request", .string request)] [] second
    (by simpa only [List.append_nil, List.forall_mem_singleton, first] using apart)
  rw [unmarshal, parsed, workflowValue]
  dsimp only
  rw [createFields, if_pos known]
  exact Option.bind_eq_some_iff.mpr ⟨request, request', Option.bind_eq_some_iff.mpr ⟨cwd, cwd', rfl⟩⟩

theorem parseInt_ofInt (id : Fin (2 ^ 53)) : parseInt (Json.ofInt id.val) = some (id.val : Int) := by
  have bound := id.isLt
  have positive : ¬((id.val : Nat) : Int) < 0 := by omega
  have whole : Json.signed (Json.ofInt id.val).negative (Json.ofInt id.val).whole = (id.val : Int) := by
    simp [Json.signed, Json.ofInt, positive]
  have range : -2 ^ 63 ≤ (id.val : Int) ∧ (id.val : Int) < 2 ^ 63 := by omega
  unfold parseInt
  rw [if_pos ⟨rfl, rfl⟩, whole]
  exact if_pos range

theorem decode_messageText (body sendTo : String) (replyTo : Option (Fin (2 ^ 53))) :
    unmarshal messageFields (messageText body sendTo replyTo) =
      some ⟨body, sendTo, replyTo.map fun id => (id.val : Int)⟩ := by
  have parsed : Json.parse (messageText body sendTo replyTo) = some (messageValue body sendTo replyTo) :=
    Json.parse_render Relay.basic_json _
  have names : Connector.foldName "body" = "body".toList ∧ Connector.foldName "to" = "to".toList ∧
      Connector.foldName "replyTo" = "replyto".toList ∧ "body".toList ≠ "to".toList ∧
      "body".toList ≠ "replyto".toList ∧ "to".toList ≠ "replyto".toList := by decide
  obtain ⟨first, second, third, apart₁, apart₂, apart₃⟩ := names
  have reply : ∀ pair ∈ replyMember replyTo, Connector.foldName pair.1 = "replyto".toList := by
    intro pair member
    cases replyTo with
    | none => exact absurd member List.not_mem_nil
    | some id =>
      rw [List.mem_singleton.mp member]
      exact third
  have known : knownFields ["body", "to", "replyto"]
      (("body", .string body) :: ("to", .string sendTo) :: replyMember replyTo) = true := by
    have others : (replyMember replyTo).all (fun pair =>
        ["body", "to", "replyto"].any fun name => Connector.foldName pair.1 = name.toList) = true := by
      refine List.all_eq_true.mpr fun pair member =>
        List.any_eq_true.mpr ⟨"replyto", ?_, decide_eq_true (reply pair member)⟩
      exact List.mem_cons_of_mem _ (List.mem_cons_of_mem _ List.mem_cons_self)
    rw [knownFields, List.all_cons, List.all_cons, others]
    simp only [List.any_cons, first, second, decide_true, Bool.true_or, Bool.or_true, Bool.and_self]
  have body' := @stringField_member "body" "body" body [] (("to", .string sendTo) :: replyMember replyTo) first (by
    refine List.forall_mem_cons.mpr ⟨?_, fun pair member => ?_⟩
    · rw [second]
      exact apart₁.symm
    · rw [reply pair member]
      exact apart₂.symm)
  have sendTo' := @stringField_member "to" "to" sendTo [("body", .string body)] (replyMember replyTo) second (by
    refine List.forall_mem_cons.mpr ⟨?_, fun pair member => ?_⟩
    · rw [first]
      exact apart₁
    · rw [reply pair member]
      exact apart₃.symm)
  have replyTo' : pointerField "replyto" (("body", .string body) :: ("to", .string sendTo) :: replyMember replyTo) =
      some (replyTo.map fun id => (id.val : Int)) := by
    have others : ∀ pair ∈ [("body", Json.Value.string body), ("to", Json.Value.string sendTo)],
        Connector.foldName pair.1 ≠ "replyto".toList := by
      simp only [List.forall_mem_cons, first, second]
      exact ⟨apart₂, apart₃, fun pair member => absurd member List.not_mem_nil⟩
    cases replyTo with
    | none => exact foldlM_others (fun current pair other => if_neg other) others none
    | some id =>
      have number := @pointerField_member "replyto" "replyTo" (Json.ofInt id.val)
        [("body", .string body), ("to", .string sendTo)] [] third others
      rwa [parseInt_ofInt] at number
  rw [unmarshal, parsed, messageValue]
  dsimp only
  rw [messageFields, if_pos known]
  exact Option.bind_eq_some_iff.mpr ⟨body, body', Option.bind_eq_some_iff.mpr ⟨sendTo, sendTo',
    Option.bind_eq_some_iff.mpr ⟨_, replyTo', rfl⟩⟩⟩

theorem delivered_iff {α : Type} {portal : Portal} {path text : String}
    {decode : List (String × Json.Value) → Option α}
    {input : α} (allowed : allowedHTTPRoute portal.escapes "POST" path = true) (other : path ≠ "/api/sessions")
    (decoded : unmarshal decode text = some input) : Arrives portal path text decode input ↔
      byteLen text ≤ 65536 := by
  have limits : maxHTTPBody = 65536 ∧ maxCoordinatorBody = 65536 := by decide
  obtain ⟨body, reader⟩ := limits
  constructor
  · rintro ⟨_, read⟩
    rw [decodeCoordinatorJSON, reader] at read
    split at read
    next => exact nomatch read
    next fits => omega
  · intro fits
    constructor
    · intro id
      have admitted : ¬(¬allowedHTTPRoute portal.escapes "POST" path = true ∨ byteLen text > maxHTTPBody) := by
        rintro (refused | large)
        · exact refused allowed
        · omega
      rw [serviceOf, if_neg admitted, if_neg fun h => other h.2]
    · rw [decodeCoordinatorJSON, if_neg (by omega)]
      exact decoded

/-- What the composers send gets to the coordinator exactly when its JSON, with every character escaped that has to be,
is within 64 KiB. -/
theorem text_is_delivered (portal : Portal) (path : String)
    (allowed : allowedHTTPRoute portal.escapes "POST" path = true) (other : path ≠ "/api/sessions") :
    (∀ body sendTo replyTo,
      Arrives portal path (messageText body sendTo replyTo) messageFields
          ⟨body, sendTo, replyTo.map fun id => (id.val : Int)⟩ ↔
        writtenBytes body + writtenBytes sendTo + replyBytes replyTo + 19 ≤ 65536) ∧
    ∀ request cwd,
      Arrives portal path (workflowText request cwd) createFields ⟨request, cwd⟩ ↔
        writtenBytes request + writtenBytes cwd + 23 ≤ 65536 := by
  constructor
  · intro body sendTo replyTo
    rw [delivered_iff allowed other (decode_messageText body sendTo replyTo), messageText_bytes]
  · intro request cwd
    rw [delivered_iff allowed other (decode_workflowText request cwd), workflowText_bytes]

def roomPath : String := "/api/workflows/0123456789abcdef01234567/messages"

theorem text_is_delivered_to_room :
    Arrives homePortal roomPath (messageText "hello" "team" none) messageFields ⟨"hello", "team", none⟩ := by
  have allowed : allowedHTTPRoute homePortal.escapes "POST" roomPath = true := by decide +kernel
  have other : roomPath ≠ "/api/sessions" := by decide
  exact ((text_is_delivered homePortal roomPath allowed other).1 "hello" "team" none).mpr (by decide)

/-- Nothing but quotes. -/
def quotes (n : Nat) : String := String.ofList (List.replicate n '"')

theorem byteLen_quotes (n : Nat) : byteLen (quotes n) = n := by
  have one : Char.utf8Size '"' = 1 := by decide
  simp [byteLen, quotes, byteCount_ofList, byteCount, one]

theorem writtenBytes_quotes (n : Nat) : writtenBytes (quotes n) = 2 * n := by
  have one : escapeBytes '"' = 1 := by decide
  rw [writtenBytes, byteLen_quotes, quotes, String.toList_ofList, List.map_replicate, one]
  simp
  omega

theorem safePrompt_quotes (n : Nat) : safePrompt (trimSpace (quotes n)) = .ok (quotes n) := by
  have visible : isSpace '"' = false := by decide
  have kept : keepRune '"' = true := by decide
  have trimmed : trimSpace (quotes n) = quotes n := by
    rw [trimSpace, quotes, String.toList_ofList]
    simp [visible]
  have nul : ¬(quotes n).toList.any (·.val = 0) = true := by
    rw [quotes, String.toList_ofList]
    simp
  rw [trimmed, safePrompt, if_neg nul, quotes, String.toList_ofList, List.filter_replicate, if_pos kept]

/-- A message of 40000 quotes, which the room accepts, doubles on its way and is refused. -/
theorem quotes_are_refused :
    (∃ text, safePrompt (trimSpace (quotes 40000)) = .ok text ∧ text ≠ "" ∧ byteLen text ≤ 48 * 1024) ∧
      allowedHTTPRoute homePortal.escapes "POST" roomPath = true ∧
      ¬Arrives homePortal roomPath (messageText (quotes 40000) "team" none) messageFields
        ⟨quotes 40000, "team", none⟩ := by
  have allowed : allowedHTTPRoute homePortal.escapes "POST" roomPath = true := by decide
  have other : roomPath ≠ "/api/sessions" := by decide
  have bytes := byteLen_quotes 40000
  refine ⟨⟨quotes 40000, safePrompt_quotes 40000, ?_, by omega⟩, allowed, ?_⟩
  · intro empty
    rw [empty] at bytes
    exact absurd bytes (by decide)
  · intro delivered
    have fits := (delivered_iff allowed other (decode_messageText (quotes 40000) "team" none)).mp delivered
    rw [messageText_bytes, writtenBytes_quotes] at fits
    omega

end TermLinks.Coordinator
