import TermLinks.ConnectorRoutes
import TermLinks.SessionRequest

namespace TermLinks.Connector

open GoNet (URL cut getScheme hasPrefix parseRequestURI Escapes)
open Remote (Computer StartRequest decodeStartRequest)
open SessionManager (StartOptions)

def maxHTTPBody : Nat := 64 * 2 ^ 10

def maxHTTPResponse : Nat := 2 * 2 ^ 20

/-- An `http_request` of the browser. -/
structure HTTPRequest where
  id : String
  method : String
  path : String
  body : String
deriving DecidableEq

/-- What the connector has around it: the local web origin, the daemon's control socket and the computer. -/
structure Portal where
  localOrigin : String
  escapes : Escapes
  /-- `EscapedPath` of the URL with this path. -/
  escapedPath : String → String
  computer : Computer
  /-- `Create` over the control socket; the session comes as JSON. -/
  create : StartOptions → Except String String
  /-- `http.NewRequestWithContext` takes the method and the target. -/
  validRequest : String → String → Bool
  /-- `httpClient.Do`: the status of the response, and its body if it can be read. -/
  fetch : String → String → String → Option (Nat × Option String)

/-- What the handler does for the browser, in order. -/
inductive Deed
  | control (options : StartOptions)
  | web (method target body : String)
  | respond (status : Nat) (body : String)
deriving DecidableEq

def Deed.isWeb : Deed → Bool
  | .web _ _ _ => true
  | _ => false

/-- `IsAbs` of the parsed path. -/
def isAbsURL (requestPath : String) : Bool := (getScheme requestPath.toList).any fun parts => parts.1 ≠ []

/-- `RequestURI` of a parsed path without a scheme. -/
def requestURI (portal : Portal) (requestPath : String) : String :=
  let (path, query) := cut '?' requestPath.toList
  -- `ForceQuery` keeps a lone question mark at the end.
  portal.escapedPath (String.ofList path) ++
    if '?' ∈ requestPath.toList then "?" ++ String.ofList query else ""

def localURL (portal : Portal) (requestPath : String) : Except String String :=
  match parseRequestURI portal.escapes requestPath with
  | none => .error "invalid local path"
  | some parsed =>
    if isAbsURL requestPath ∨ ¬hasPrefix parsed.path "/" then .error "invalid local path"
    else
      let origin := String.ofList (portal.localOrigin.toList.reverse.dropWhile (· = '/')).reverse
      .ok (origin ++ requestURI portal requestPath)

/-- `sendHTTPError`. -/
def httpError (status : Nat) (message : String) : Deed :=
  .respond status (marshal (.object [("error", .string message)]))

def createInteractiveShell (portal : Portal) (message : HTTPRequest) : List Deed :=
  match decodeStartRequest message.body with
  | .error error => [httpError 400 error]
  | .ok request =>
    match request.options portal.computer with
    | .error error => [httpError 400 error]
    | .ok options =>
      match portal.create options with
      | .error error => [.control options, httpError 400 error]
      | .ok created => [.control options, .respond 201 created]

/-- The part of `handleHTTPRequest` that asks the local web origin. -/
def forward (portal : Portal) (message : HTTPRequest) : List Deed :=
  match localURL portal message.path with
  | .error _ => [httpError 400 "Invalid API path"]
  | .ok target =>
    if ¬portal.validRequest message.method target then [httpError 400 "Invalid API request"]
    else
      let asked := Deed.web message.method target message.body
      match portal.fetch message.method target message.body with
      | none => [asked, httpError 502 "Local portal did not respond"]
      | some (_, none) => [asked, httpError 502 "Local portal response was too large"]
      | some (status, some body) =>
        if byteLen body > maxHTTPResponse then [asked, httpError 502 "Local portal response was too large"]
        else [asked, .respond status body]

/-- Who a request goes to. -/
inductive Service
  | refused | shell | origin
deriving DecidableEq

def serviceOf (portal : Portal) (message : HTTPRequest) : Service :=
  if ¬allowedHTTPRoute portal.escapes message.method message.path ∨ byteLen message.body > maxHTTPBody then .refused
  else if message.method = "POST" ∧ message.path = "/api/sessions" then .shell
  else .origin

def handleHTTPRequest (portal : Portal) (message : HTTPRequest) : List Deed :=
  match serviceOf portal message with
  | .refused => [httpError 403 "API route is not allowed"]
  | .shell => createInteractiveShell portal message
  | .origin => forward portal message

/-- The shell is created over the control socket, and the local web origin gets nothing. -/
def TakesControl (portal : Portal) (message : HTTPRequest) : Prop :=
  serviceOf portal message = .shell ∧ ∀ deed ∈ handleHTTPRequest portal message, deed.isWeb = false

section

variable {portal : Portal} {message : HTTPRequest}

theorem createInteractiveShell_quiet :
    ∀ deed ∈ createInteractiveShell portal message, deed.isWeb = false := by
  unfold createInteractiveShell
  intro deed member
  split at member
  next =>
    rw [List.mem_singleton.mp member]
    rfl
  next =>
    split at member
    next =>
      rw [List.mem_singleton.mp member]
      rfl
    next =>
      split at member
      next =>
        simp only [List.mem_cons, List.not_mem_nil, or_false] at member
        rcases member with rfl | rfl
        · rfl
        · rfl
      next =>
        simp only [List.mem_cons, List.not_mem_nil, or_false] at member
        rcases member with rfl | rfl
        · rfl
        · rfl

theorem serviceOf_eq_shell : serviceOf portal message = .shell ↔
    allowedHTTPRoute portal.escapes message.method message.path = true ∧ byteLen message.body ≤ maxHTTPBody ∧
      message.method = "POST" ∧ message.path = "/api/sessions" := by
  unfold serviceOf
  by_cases refused : ¬allowedHTTPRoute portal.escapes message.method message.path = true ∨
    byteLen message.body > maxHTTPBody
  · rw [if_pos refused]
    constructor
    · intro h
      cases h
    · rintro ⟨allowed, small, _⟩
      rcases refused with refused | large
      · exact absurd allowed refused
      · omega
  · rw [if_neg refused]
    obtain ⟨allowed, small⟩ := not_or.mp refused
    have allowed := not_not.mp allowed
    by_cases creates : message.method = "POST" ∧ message.path = "/api/sessions"
    · rw [if_pos creates]
      exact ⟨fun _ => ⟨allowed, Nat.le_of_not_lt small, creates⟩, fun _ => rfl⟩
    · rw [if_neg creates]
      constructor
      · intro h
        cases h
      · rintro ⟨_, _, h⟩
        exact absurd h creates

/-- Any other spelling of the path goes to the local web origin, if it has no scheme and a request can be made of it. -/
theorem other_spelling_goes_to_origin
    (allowed : allowedHTTPRoute portal.escapes message.method message.path = true)
    (small : byteLen message.body ≤ maxHTTPBody) (other : message.path ≠ "/api/sessions") {target : String}
    (resolved : localURL portal message.path = .ok target)
    (valid : portal.validRequest message.method target = true) :
    .web message.method target message.body ∈ handleHTTPRequest portal message := by
  have origin : serviceOf portal message = .origin := by
    have admitted : ¬(¬allowedHTTPRoute portal.escapes message.method message.path = true ∨
        byteLen message.body > maxHTTPBody) := by
      rintro (refused | large)
      · exact refused allowed
      · omega
    rw [serviceOf, if_neg admitted, if_neg fun h => other h.2]
  rw [handleHTTPRequest, origin]
  simp only [forward, resolved, valid]
  rw [if_neg (by simp)]
  split
  next => exact List.mem_cons_self
  next => exact List.mem_cons_self
  next =>
    split
    next => exact List.mem_cons_self
    next => exact List.mem_cons_self

end

/-- An admitted POST takes the control socket exactly where its path is spelled as the handler spells it; a body that is
too long is refused before. -/
theorem shell_takes_control (portal : Portal) (message : HTTPRequest)
    (allowed : allowedHTTPRoute portal.escapes message.method message.path = true)
    (post : message.method = "POST") :
    TakesControl portal message ↔ message.path = "/api/sessions" ∧ byteLen message.body ≤ maxHTTPBody := by
  constructor
  · rintro ⟨shell, _⟩
    obtain ⟨_, small, _, path⟩ := serviceOf_eq_shell.mp shell
    exact ⟨path, small⟩
  · rintro ⟨path, small⟩
    have shell := serviceOf_eq_shell.mpr ⟨allowed, small, post, path⟩
    refine ⟨shell, ?_⟩
    rw [handleHTTPRequest, shell]
    exact createInteractiveShell_quiet

/-- A portal on a computer with one directory; what has an escape is no path. -/
def homePortal : Portal where
  localOrigin := "http://127.0.0.1:8080"
  escapes :=
    { unescape := fun text => if '%' ∈ text.toList then none else some text
      authority := fun _ => true
      plain := fun _ plain => if_neg plain }
  escapedPath := fun path => path
  computer := ⟨some "/home", fun path => path = "/home", "/bin/bash", []⟩
  create := fun options => .ok (marshal (.object [("name", .string options.name)]))
  validRequest := fun _ _ => true
  fetch := fun _ _ _ => some (403, some "")

def createRequest (path : String) : HTTPRequest := ⟨"1", "POST", path, "\x7b\x7d"⟩

theorem plain_spelling_takes_control : TakesControl homePortal (createRequest "/api/sessions") := by
  have allowed : allowedHTTPRoute homePortal.escapes "POST" "/api/sessions" = true := by decide
  have small : byteLen "\x7b\x7d" ≤ maxHTTPBody := by decide
  exact (shell_takes_control homePortal (createRequest "/api/sessions") allowed rfl).mpr ⟨rfl, small⟩

/-- With a question mark at its end the same path is admitted and goes to the local web origin. -/
theorem empty_query_goes_to_origin :
    allowedHTTPRoute homePortal.escapes "POST" "/api/sessions?" = true ∧
      (parseRequestURI homePortal.escapes "/api/sessions?").map URL.path = some "/api/sessions" ∧
      ¬TakesControl homePortal (createRequest "/api/sessions?") ∧
      .web "POST" "http://127.0.0.1:8080/api/sessions?" "\x7b\x7d" ∈
        handleHTTPRequest homePortal (createRequest "/api/sessions?") := by
  have allowed : allowedHTTPRoute homePortal.escapes "POST" "/api/sessions?" = true := by decide
  have resolved : localURL homePortal "/api/sessions?" = .ok "http://127.0.0.1:8080/api/sessions?" := by decide
  have origin : serviceOf homePortal (createRequest "/api/sessions?") = .origin := by decide
  refine ⟨allowed, by decide, ?_, other_spelling_goes_to_origin allowed (by decide) (by decide) resolved rfl⟩
  rintro ⟨shell, _⟩
  rw [origin] at shell
  cases shell

end TermLinks.Connector
