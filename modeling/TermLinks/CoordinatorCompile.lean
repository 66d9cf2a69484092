import TermLinks.CoordinatorStore

namespace TermLinks.Coordinator

/-- What `mentionPattern` makes of one rune of a request. -/
inductive MentionToken
  | text (c : Char)
  | start
  | name (c : Char)
deriving DecidableEq

/-- `(?i)[a-z]`, whose case folding also covers the long s and the Kelvin sign. -/
def mentionLetter (c : Char) : Bool :=
  ('a' ≤ c && c ≤ 'z') || ('A' ≤ c && c ≤ 'Z') || c.val = 0x17f || c.val = 0x212a

def mentionRune (c : Char) : Bool :=
  mentionLetter c || ('0' ≤ c && c ≤ '9') || c = '_' || c = '-'

/-- The leftmost-longest matches of `(?i)@([a-z][a-z0-9_-]{0,31})`; `room` is the number of runes
the current name may still take. -/
def mentionTokens : Nat → List Char → List MentionToken
  | _, [] => []
  | room, c :: rest =>
    if 0 < room ∧ mentionRune c then .name c :: mentionTokens (room - 1) rest
    else if c = '@' ∧ rest.head?.any mentionLetter then .start :: mentionTokens 32 rest
    else .text c :: mentionTokens 0 rest

/-- The text before the first mention, and for each mention its name and the text up to the next. -/
def groupMentions : List MentionToken → List Char × List (List Char × List Char)
  | [] => ([], [])
  | .text c :: rest =>
    let (text, mentions) := groupMentions rest
    (c :: text, mentions)
  | .start :: rest =>
    let (text, mentions) := groupMentions rest
    let name := rest.takeWhile (fun token => token matches .name _) |>.filterMap fun
      | .name c => some c
      | _ => none
    ([], (name, text) :: mentions)
  | .name _ :: rest => groupMentions rest

def mentions (request : String) : List (String × String) :=
  (groupMentions (mentionTokens 0 request.toList)).2.map fun (name, text) =>
    (String.ofList name, String.ofList text)

def knownAgents : List String := ["codex", "claude", "opencode", "gemini", "aider"]

def stageTitle (agentID prompt : String) : String :=
  let title := " ".intercalate (fields prompt)
  let title := if title.toList.length > 72 then String.ofList (title.toList.take 69) ++ "..." else title
  "@" ++ agentID ++ " · " ++ title

/-- `strings.TrimLeft(prompt, " ,:;-\n\t")`. -/
def trimListPunctuation (prompt : String) : String :=
  String.ofList (prompt.toList.dropWhile (· ∈ [' ', ',', ':', ';', '-', '\n', '\t']))

/-- `installed[id]` and `available[id]`: a later agent of the list replaces an earlier one. -/
def agentNamed (agents : List Agent) (id : String) : Option Agent :=
  agents.reverse.find? fun agent => toLower agent.id = id

def maxRequestBytes : Nat := 48 * 1024

def compileStage (installed available : List Agent) (newID : Nat → String) (index : Nat)
    (mention text : String) : Except String Stage :=
  let agentID := toLower mention
  if agentID ∉ knownAgents then .error ("unknown AI agent @" ++ agentID)
  else if (agentNamed installed agentID).any (fun candidate => !candidate.runnable) then
    .error ("@" ++ agentID ++ " is installed but its structured Termlinks adapter is not enabled yet")
  else if (agentNamed available agentID).isNone then
    .error ("@" ++ agentID ++ " is not installed or needs login on this computer")
  else
    let prompt := trimListPunctuation (trimSpace text)
    let prompt := if prompt = "" then "Continue the requested workflow and report the result." else prompt
    .ok
      { id := newID index, workflowID := "", position := index, agentID
        title := stageTitle agentID prompt, prompt, status := .queued, sessionID := ""
        output := "", error := "", startedAt := none, endedAt := none }

def compileStages (installed available : List Agent) (newID : Nat → String) :
    Nat → List (String × String) → Except String (List Stage)
  | _, [] => .ok []
  | index, (mention, text) :: rest => do
    let stage ← compileStage installed available newID index mention text
    let stages ← compileStages installed available newID (index + 1) rest
    return stage :: stages

/-- `Compile`; `newID i` is the id drawn for the stage at position `i`. -/
def compile (request cwd : String) (agents : List Agent) (newID : Nat → String) : Except String Draft := do
  let request := trimSpace request
  if request = "" then throw "workflow request is required"
  if byteLen request > maxRequestBytes then throw "workflow request is too large"
  let installed := agents.filter (·.available)
  let available := agents.filter fun agent =>
    agent.available && agent.runnable && agent.authStatus ≠ "needs-login"
  let found := mentions request
  if found.length > 8 then throw "a workflow can contain at most 8 agent stages"
  let stages ← compileStages installed available newID 0 found
  if stages ≠ [] then return { request, cwd, stages }
  match knownAgents.find? fun candidate => (agentNamed available candidate).isSome with
  | none => throw "no supported AI agent is available on this computer"
  | some agentID =>
    return {
      request, cwd
      stages := [
        { id := newID 0, workflowID := "", position := 0, agentID
          title := stageTitle agentID request, prompt := request, status := .queued, sessionID := ""
          output := "", error := "", startedAt := none, endedAt := none }] }

end TermLinks.Coordinator
