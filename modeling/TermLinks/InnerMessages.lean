import TermLinks.RelayWire
import TermLinks.TextDecoder

namespace TermLinks.Connector

/-- The names of the fields of a type's message, in lower case. -/
def fieldNames (type : String) : List String :=
  ["v", "type"] ++
    match type with
    | "authenticate" => ["challenge"]
    | "http_request" => ["id", "method", "path", "body"]
    | "terminal_open" => ["id", "sessionid"]
    | "terminal_data" => ["id", "binary", "data"]
    | "terminal_close" | "desktop_close" | "window_close" => ["id", "code", "reason"]
    | "desktop_data" => ["id", "data"]
    | "window_open" => ["id", "windowid", "maxwidth", "maxheight"]
    | "file_upload_start" | "file_upload_chunk" | "file_upload_finish" | "file_upload_cancel" =>
      ["id", "name", "size", "offset", "data"]
    | _ => ["id"]

def setText (name : List Char) (text : String) (fields : Fields) : Option Fields :=
  if name = "id".toList then some { fields with id := text }
  else if name = "challenge".toList then some { fields with challenge := text }
  else if name = "method".toList then some { fields with method := text }
  else if name = "path".toList then some { fields with path := text }
  else if name = "sessionid".toList then some { fields with sessionID := text }
  else if name = "data".toList then some { fields with data := text }
  else if name = "name".toList then some { fields with name := text }
  else if name ∈ ["type".toList, "body".toList, "reason".toList] then some fields
  else none

/-- `windowId` is a `uint32`, the others are signed. -/
def setNumber (name : List Char) (n : Json.Number) (fields : Fields) : Option Fields := do
  let value ← parseInt n
  if name = "maxwidth".toList then some { fields with maxWidth := value }
  else if name = "maxheight".toList then some { fields with maxHeight := value }
  else if name = "size".toList then some { fields with size := value }
  else if name = "offset".toList then some { fields with offset := value }
  else if name = "windowid".toList then
    if n.negative ∨ 2 ^ 32 ≤ value then none else some { fields with windowID := value.toNat }
  else if name ∈ ["v".toList, "code".toList] then some fields
  else none

/-- A member sets the field of its name; other members are passed over. -/
def setMember (names : List (List Char)) (fields : Fields) (pair : String × Json.Value) : Option Fields :=
  let name := foldName pair.1
  if name ∈ names then
    match pair.2 with
    | .null => some fields
    | .string text => setText name text fields
    | .number n => setNumber name n fields
    | .bool b => if name = "binary".toList then some { fields with binary := b } else none
    | _ => none
  else some fields

def Fields.zero : Fields := ⟨"", "", "", "", "", false, "", 0, 0, 0, false, "", 0, 0⟩

/-- The members of a plaintext, which is UTF-8. -/
def plaintextMembers (plaintext : Bytes) : Option (List (String × Json.Value)) :=
  match Json.parseChars (TextDecoder.run TextDecoder.initial plaintext) with
  | some (.object members) => some members
  | some .null => some []
  | _ => none

/-- `json.Unmarshal` of the browser's messages; the input of a window, which has more fields, counts as invalid. -/
def innerUnmarshal : Unmarshal where
  kind plaintext := do
    let members ← plaintextMembers plaintext
    some (← intField "v" members, ← stringField "type" members)
  fields type plaintext := do
    let members ← plaintextMembers plaintext
    members.foldlM (setMember ((fieldNames type).map String.toList)) Fields.zero

end TermLinks.Connector
