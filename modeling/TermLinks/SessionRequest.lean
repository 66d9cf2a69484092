import TermLinks.FilePath
import TermLinks.GoText
import TermLinks.RelayWire
import TermLinks.SessionManager

namespace TermLinks.Remote

open SessionManager (StartOptions)

/-- `maxNameLength` of the remote package, in bytes. -/
def maxNameLength : Nat := 80

def maxCwdLength : Nat := 4096

/-- `ValidateSessionName`. -/
def validateSessionName (name : String) : Option String :=
  let name := trimSpace name
  if byteLen name > maxNameLength ∨ name.toList.any (·.val = 0) then none else some name

/-- What a browser may ask of a new session: it always is an interactive shell. -/
structure StartRequest where
  name : String
  cwd : String
deriving DecidableEq

/-- `DisallowUnknownFields`: every member has the name of a field. -/
def knownFields (names : List String) (members : List (String × Json.Value)) : Bool :=
  members.all fun pair => names.any fun name => Connector.foldName pair.1 = name.toList

def startFields (members : List (String × Json.Value)) : Option StartRequest :=
  if knownFields ["name", "cwd"] members then do
    some ⟨← Connector.stringField "name" members, ← Connector.stringField "cwd" members⟩
  else none

/-- `DecodeStartRequest`: one JSON value and nothing after it. -/
def decodeStartRequest (body : String) : Except String StartRequest :=
  match Connector.unmarshal startFields body with
  | some request => .ok request
  | none => .error "invalid session request"

/-- What a start request takes from the operating system. -/
structure Computer where
  userHomeDir : Option String
  isDirectory : String → Bool
  shell : String
  environ : List String

def isAbs (path : String) : Bool := path.toList.head? = some '/'

/-- `Options` from where it has the directory. -/
def StartRequest.optionsIn (computer : Computer) (name cwd : String) : Except String StartOptions :=
  if ¬isAbs cwd then .error "working directory must be an absolute path or start with ~/"
  else if ¬computer.isDirectory cwd then .error ("working directory is not accessible: " ++ cwd)
  else
    let shell := trimSpace computer.shell
    let shell := if shell = "" ∨ ¬isAbs shell then "/bin/sh" else shell
    .ok { name, command := [shell], cwd, environment := computer.environ, cols := 100, rows := 30 }

def StartRequest.options (computer : Computer) (request : StartRequest) : Except String StartOptions :=
  match validateSessionName request.name with
  | none => .error "session name is invalid"
  | some name =>
    let cwd := trimSpace request.cwd
    if byteLen cwd > maxCwdLength ∨ cwd.toList.any (·.val = 0) then .error "working directory is invalid"
    else if cwd = "" ∨ cwd = "~" ∨ "~/".toList <+: cwd.toList then
      match computer.userHomeDir with
      | none => .error "could not resolve home directory"
      | some home =>
        let relative := if "~/".toList <+: cwd.toList then String.ofList (cwd.toList.drop 2) else ""
        optionsIn computer name (FilePath.join home relative)
    else optionsIn computer name cwd

end TermLinks.Remote
