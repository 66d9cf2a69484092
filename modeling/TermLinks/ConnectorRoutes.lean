import TermLinks.Connector
import TermLinks.GoNet

namespace TermLinks.Connector

open GoNet (split hasPrefix hasSuffix trimPrefix parseRequestURI Escapes)
open FilePath (trimSuffix)

def validCoordinatorID (id : String) : Bool := id.utf8ByteSize = 24 && id.toList.all isHex

/-- `allowedHTTPRoute` from where it has the decoded path. -/
def allowedPath (method path : String) : Bool :=
  if method = "POST" ∧ path = "/api/logout" then true
  else if method = "GET" ∧ (path = "/api/me" ∨ path = "/api/sessions") then true
  else if method = "POST" ∧ path = "/api/sessions" then true
  else if method = "GET" ∧ path = "/api/terminal-history" then true
  else if hasPrefix path "/api/terminal-history/session/" then
    match split '/' (trimPrefix path "/api/terminal-history/session/") with
    | [id, action] => method = "POST" && validSessionID id && action = "favorite"
    | _ => false
  else if hasPrefix path "/api/terminal-history/" then
    match split '/' (trimPrefix path "/api/terminal-history/") with
    | [id] => (method = "PATCH" || method = "DELETE") && validSessionID id
    | [id, action] => method = "POST" && validSessionID id && action = "open"
    | _ => false
  else if method = "GET" ∧ (path = "/api/agents" ∨ path = "/api/projects/suggestions" ∨ path = "/api/workflows") then
    true
  else if method = "POST" ∧
      (path = "/api/agents/refresh" ∨ path = "/api/workflows/compile" ∨ path = "/api/workflows") then true
  else if hasPrefix path "/api/workflows/" then
    match split '/' (trimPrefix path "/api/workflows/") with
    | [id] => method = "GET" && validCoordinatorID id
    | [id, action] => method = "POST" && (action = "cancel" || action = "messages") && validCoordinatorID id
    | [id, stages, stage, action] =>
      method = "POST" && stages = "stages" && action = "input" && validCoordinatorID id && validCoordinatorID stage
    | _ => false
  else if method = "PATCH" ∧ hasPrefix path "/api/sessions/" then validSessionID (trimPrefix path "/api/sessions/")
  else if method = "POST" ∧ hasPrefix path "/api/sessions/" then
    match split '/' (trimPrefix path "/api/sessions/") with
    | [id, viewer, action] =>
      if validSessionID id ∧ viewer = "viewer" then action = "show" || action = "hide" else stopPath method path
    | _ => stopPath method path
  else stopPath method path
where
  /-- The end of the cascade. -/
  stopPath (method path : String) : Bool :=
    if method ≠ "POST" ∨ ¬hasPrefix path "/api/sessions/" ∨ ¬hasSuffix path "/stop" then false
    else validSessionID (trimSuffix (trimPrefix path "/api/sessions/") "/stop")

def allowedHTTPRoute (escapes : Escapes) (method requestPath : String) : Bool :=
  match parseRequestURI escapes requestPath with
  | none => false
  | some parsed => if parsed.rawQuery ≠ "" then false else allowedPath method parsed.path

/-- A handler that `WebHandler` registers: its pattern, and whether it goes through `requireWebAuth`. -/
structure Route where
  pattern : String
  requireWebAuth : Bool
deriving DecidableEq

/-- The routes of `WebHandler`. -/
def webHandler : List Route :=
  [⟨"GET /api/mode", false⟩,
    ⟨"POST /api/login", false⟩,
    ⟨"POST /api/logout", true⟩,
    ⟨"GET /api/me", true⟩,
    ⟨"GET /api/sessions", true⟩,
    ⟨"POST /api/sessions", true⟩,
    ⟨"PATCH /api/sessions/\x7bid\x7d", true⟩,
    ⟨"POST /api/sessions/\x7bid\x7d/stop", true⟩,
    ⟨"POST /api/sessions/\x7bid\x7d/viewer/show", true⟩,
    ⟨"POST /api/sessions/\x7bid\x7d/viewer/hide", true⟩,
    ⟨"GET /api/terminal-history", true⟩,
    ⟨"POST /api/terminal-history/session/\x7bsessionID\x7d/favorite", true⟩,
    ⟨"PATCH /api/terminal-history/\x7bid\x7d", true⟩,
    ⟨"DELETE /api/terminal-history/\x7bid\x7d", true⟩,
    ⟨"POST /api/terminal-history/\x7bid\x7d/open", true⟩,
    ⟨"GET /api/agents", true⟩,
    ⟨"POST /api/agents/refresh", true⟩,
    ⟨"GET /api/projects/suggestions", true⟩,
    ⟨"POST /api/workflows/compile", true⟩,
    ⟨"GET /api/workflows", true⟩,
    ⟨"POST /api/workflows", true⟩,
    ⟨"GET /api/workflows/\x7bid\x7d", true⟩,
    ⟨"POST /api/workflows/\x7bid\x7d/messages", true⟩,
    ⟨"POST /api/workflows/\x7bid\x7d/cancel", true⟩,
    ⟨"POST /api/workflows/\x7bid\x7d/stages/\x7bstageID\x7d/input", true⟩,
    ⟨"GET /ws/sessions/\x7bid\x7d", true⟩,
    ⟨"/", false⟩]

/-- The routes of the API that only a logged in browser gets to. -/
def authenticatedAPI : List Route :=
  webHandler.filter fun route =>
    route.requireWebAuth && (GoNet.parsePattern route.pattern).segments.take 2 = ["", "api"]

/-- What the source makes ids of: twelve random bytes in hex for workflows and their stages, sixteen for the others. -/
def idLength (collection : String) : Nat :=
  if collection = "workflows" ∨ collection = "stages" then 24 else 32

/-- An id in the place of a wildcard: lowercase hex of the length of its kind. -/
def isID (collection segment : String) : Bool :=
  segment.toList.length = idLength collection && segment.toList.all isHex

def Route.serves (route : Route) (method path : String) : Bool :=
  (GoNet.parsePattern route.pattern).serves isID method path

/-- The parts of a path after those of a prefix that ends in a slash. -/
def below : List String → List String → Option (List String)
  | [], [] => none
  | [], part :: parts => some (part :: parts)
  | _ :: _, [] => none
  | segment :: start, part :: parts => if segment = part then below start parts else none

def favoriteParts (method : String) : List String → Bool
  | [id, action] => method = "POST" && validSessionID id && action = "favorite"
  | _ => false

def historyParts (method : String) : List String → Bool
  | [id] => (method = "PATCH" || method = "DELETE") && validSessionID id
  | [id, action] => method = "POST" && validSessionID id && action = "open"
  | _ => false

def workflowParts (method : String) : List String → Bool
  | [id] => method = "GET" && validCoordinatorID id
  | [id, action] => method = "POST" && (action = "cancel" || action = "messages") && validCoordinatorID id
  | [id, stages, stage, action] =>
    method = "POST" && stages = "stages" && action = "input" && validCoordinatorID id && validCoordinatorID stage
  | _ => false

def sessionParts (method : String) : List String → Bool
  | [id] => method = "PATCH" && validSessionID id
  | [id, stop] => method = "POST" && stop = "stop" && validSessionID id
  | [id, viewer, action] =>
    method = "POST" && validSessionID id && viewer = "viewer" && (action = "show" || action = "hide")
  | _ => false

/-- `allowedPath` on the parts of the path. -/
def allowedParts (method : String) (parts : List String) : Bool :=
  if method = "POST" ∧ parts = ["", "api", "logout"] then true
  else if method = "GET" ∧ (parts = ["", "api", "me"] ∨ parts = ["", "api", "sessions"]) then true
  else if method = "POST" ∧ parts = ["", "api", "sessions"] then true
  else if method = "GET" ∧ parts = ["", "api", "terminal-history"] then true
  else
    match below ["", "api", "terminal-history", "session"] parts with
    | some rest => favoriteParts method rest
    | none =>
      match below ["", "api", "terminal-history"] parts with
      | some rest => historyParts method rest
      | none =>
        if method = "GET" ∧ (parts = ["", "api", "agents"] ∨ parts = ["", "api", "projects", "suggestions"] ∨
          parts = ["", "api", "workflows"]) then true
        else if method = "POST" ∧ (parts = ["", "api", "agents", "refresh"] ∨
          parts = ["", "api", "workflows", "compile"] ∨ parts = ["", "api", "workflows"]) then true
        else
          match below ["", "api", "workflows"] parts with
          | some rest => workflowParts method rest
          | none =>
            match below ["", "api", "sessions"] parts with
            | some rest => sessionParts method rest
            | none => false

section

variable {method path rest : String}

theorem path_eq_iff (literal : String) : path = literal ↔ split '/' path = split '/' literal :=
  ⟨fun h => by rw [h], GoNet.split_injective⟩

theorem slash_append (start : String) : start ++ "/" ++ rest = start ++ String.ofList ('/' :: rest.toList) :=
  String.toList_inj.mp (by simp)

theorem split_of_prefix (start : String) (h : hasPrefix path (start ++ "/") = true) :
    split '/' path = split '/' start ++ split '/' (trimPrefix path (start ++ "/")) := by
  obtain ⟨rest, rfl⟩ := GoNet.hasPrefix_iff.mp h
  rw [GoNet.trimPrefix_append, slash_append, GoNet.split_append]

theorem hasPrefix_of_split (start : String) {more : List String} (next : more ≠ [])
    (h : split '/' path = split '/' start ++ more) : hasPrefix path (start ++ "/") = true := by
  have whole := GoNet.split_eq_append next h
  refine GoNet.hasPrefix_iff.mpr ⟨String.ofList (['/'].intercalate (more.map String.toList)), ?_⟩
  rw [slash_append, String.toList_ofList]
  exact whole

theorem below_eq_some {start parts rest : List String} :
    below start parts = some rest ↔ parts = start ++ rest ∧ rest ≠ [] := by
  induction start generalizing parts with
  | nil =>
    cases parts with
    | nil => simp [below]
    | cons part parts =>
      simp only [below, Option.some.injEq, List.nil_append]
      constructor
      · rintro rfl
        exact ⟨rfl, List.cons_ne_nil _ _⟩
      · exact And.left
  | cons segment start ih =>
    cases parts with
    | nil => simp [below]
    | cons part parts =>
      rw [below, List.cons_append, List.cons.injEq]
      by_cases same : segment = part
      · rw [if_pos same, ih]
        simp [same]
      · rw [if_neg same]
        simp [Ne.symm same]

theorem hasPrefix_eq (start : String) :
    hasPrefix path (start ++ "/") = (below (split '/' start) (split '/' path)).isSome := by
  cases there : below (split '/' start) (split '/' path) with
  | some rest =>
    obtain ⟨whole, next⟩ := below_eq_some.mp there
    exact hasPrefix_of_split start next whole
  | none =>
    rw [Option.isSome_none, Bool.eq_false_iff]
    intro begins
    have whole := split_of_prefix start begins
    rw [below_eq_some.mpr ⟨whole, GoNet.split_ne_nil⟩] at there
    cases there

theorem split_trimPrefix (start : String) {rest : List String}
    (h : below (split '/' start) (split '/' path) = some rest) :
    split '/' (trimPrefix path (start ++ "/")) = rest := by
  obtain ⟨whole, next⟩ := below_eq_some.mp h
  have other := split_of_prefix start (hasPrefix_of_split start next whole)
  rw [whole] at other
  exact (List.append_cancel_left other).symm

theorem hex_plain {id : String} (h : id.toList.all isHex = true) : '/' ∉ id.toList := by
  intro member
  exact absurd (List.all_eq_true.mp h '/' member) (by decide)

theorem validSessionID_hex {id : String} (h : validSessionID id = true) : id.toList.all isHex = true := by
  simp only [validSessionID, Bool.and_eq_true] at h
  exact h.2

/-- A text with a slash in it is no id. -/
theorem validSessionID_split (text : String) :
    validSessionID text = match split '/' text with | [id] => validSessionID id | _ => false := by
  by_cases valid : validSessionID text = true
  · rw [GoNet.split_eq_singleton (hex_plain (validSessionID_hex valid))]
  · have refused := Bool.eq_false_iff.mpr valid
    rw [refused]
    split
    next id whole =>
      have same : text = id := by
        have glued := @GoNet.intercalate_split '/' text
        rw [whole] at glued
        exact (String.toList_inj.mp (by simpa using glued)).symm
      rw [← same, refused]
    next => rfl

theorem stop_parts {text : String} :
    (match split '/' text with | [id, stop] => stop = "stop" && validSessionID id | _ => false) = true ↔
      ∃ id, text = id ++ "/stop" ∧ validSessionID id = true := by
  constructor
  · intro given
    split at given
    next id stop whole =>
      simp only [Bool.and_eq_true, decide_eq_true_eq] at given
      obtain ⟨rfl, valid⟩ := given
      have alone : split '/' id = [id] := GoNet.split_eq_singleton (hex_plain (validSessionID_hex valid))
      have joined : split '/' text = split '/' id ++ ["stop"] := by rw [whole, alone]; rfl
      refine ⟨id, ?_, valid⟩
      rw [GoNet.split_eq_append (List.cons_ne_nil _ _) joined]
      rfl
    next => cases given
  · rintro ⟨id, rfl, valid⟩
    have alone : split '/' id = [id] := GoNet.split_eq_singleton (hex_plain (validSessionID_hex valid))
    have last : split '/' "stop" = ["stop"] := by decide
    have whole : split '/' (id ++ "/stop") = [id, "stop"] := by
      rw [show "/stop" = String.ofList ('/' :: "stop".toList) by decide, GoNet.split_append, alone, last]
      rfl
    rw [whole]
    simpa using valid

theorem stopPath_eq {rest : List String} : below ["", "api", "sessions"] (split '/' path) = some rest →
    allowedPath.stopPath "POST" path =
      match rest with | [id, stop] => stop = "stop" && validSessionID id | _ => false := by
  intro h
  have start : split '/' "/api/sessions" = ["", "api", "sessions"] := by decide
  rw [← start] at h
  obtain ⟨text, rfl⟩ := GoNet.hasPrefix_iff.mp
    (hasPrefix_of_split "/api/sessions" (below_eq_some.mp h).2 (below_eq_some.mp h).1)
  have trimmed := split_trimPrefix _ h
  have front : "/api/sessions" ++ "/" = "/api/sessions/" := by decide
  have there : hasPrefix ("/api/sessions/" ++ text) "/api/sessions/" = true := GoNet.hasPrefix_iff.mpr ⟨text, rfl⟩
  rw [GoNet.trimPrefix_append] at trimmed
  subst trimmed
  rw [Bool.eq_iff_iff, stop_parts, front, allowedPath.stopPath, GoNet.trimPrefix_append, there]
  constructor
  · intro given
    split at given
    next => cases given
    next admitted =>
      simp only [not_or, Decidable.not_not] at admitted
      by_cases ends : "/stop".toList <:+ text.toList
      · exact ⟨_, (FilePath.trimSuffix_append ends).symm, given⟩
      · rw [trimSuffix, if_neg ends] at given
        obtain ⟨stem, whole⟩ := GoNet.hasSuffix_iff.mp admitted.2.2
        have some : text.toList ≠ [] := by
          intro empty
          rw [String.toList_eq_nil_iff.mp empty] at given
          exact absurd given (by decide)
        -- An id would end in the last letter of the suffix, which is no hex digit.
        have last := congrArg (fun line : String => line.toList.getLast?) whole
        simp only [String.toList_append] at last
        rw [List.getLast?_append_of_ne_nil _ some, List.getLast?_append_of_ne_nil _ (by decide)] at last
        have digit := List.all_eq_true.mp (validSessionID_hex given) 'p' (List.mem_of_getLast? (last.trans (by decide)))
        exact absurd digit (by decide)
  · rintro ⟨id, rfl, valid⟩
    have ends : "/stop".toList <:+ (id ++ "/stop").toList := ⟨id.toList, by simp⟩
    have same : trimSuffix (id ++ "/stop") "/stop" = id :=
      (String.append_left_inj _).mp (FilePath.trimSuffix_append ends)
    have suffix : hasSuffix ("/api/sessions/" ++ (id ++ "/stop")) "/stop" = true :=
      GoNet.hasSuffix_iff.mpr ⟨"/api/sessions/" ++ id, String.append_assoc.symm⟩
    rw [same, suffix]
    simpa using valid

theorem literal_iff {parts : List String} (literal : String) (h : split '/' literal = parts) :
    path = literal ↔ split '/' path = parts := by
  rw [path_eq_iff, h]

/-- What is left for a POST under the sessions: a viewer to show or hide, or a session to stop. -/
theorem tail_eq (rest : List String) :
    (match rest with
      | [id, viewer, action] =>
        if validSessionID id = true ∧ viewer = "viewer" then decide (action = "show") || decide (action = "hide")
        else match rest with | [id, stop] => stop = "stop" && validSessionID id | _ => false
      | _ => match rest with | [id, stop] => stop = "stop" && validSessionID id | _ => false) =
      sessionParts "POST" rest := by
  match rest with
  | [] => rfl
  | [id] => rfl
  | [id, stop] => rfl
  | [id, viewer, action] =>
    by_cases both : validSessionID id = true ∧ viewer = "viewer"
    · simp [sessionParts, both.1, both.2]
    · simp only [sessionParts, if_neg both]
      simp only [not_and] at both
      cases valid : validSessionID id with
      | false => simp
      | true => simp [both valid]
  | _ :: _ :: _ :: _ :: _ => rfl

theorem patch_eq (rest : List String) :
    (match rest with | [id] => validSessionID id | _ => false) = sessionParts "PATCH" rest := by
  match rest with
  | [] => rfl
  | [id] => simp [sessionParts]
  | [id, stop] => simp [sessionParts]
  | [id, viewer, action] => simp [sessionParts]
  | _ :: _ :: _ :: _ :: _ => rfl

theorem other_eq (patch : method ≠ "PATCH") (post : method ≠ "POST") (rest : List String) :
    sessionParts method rest = false := by
  match rest with
  | [] => rfl
  | [id] => simp [sessionParts, patch]
  | [id, stop] => simp [sessionParts, post]
  | [id, viewer, action] => simp [sessionParts, post]
  | _ :: _ :: _ :: _ :: _ => rfl

theorem allowedPath_eq : allowedPath method path = allowedParts method (split '/' path) := by
  have sessions : split '/' "/api/sessions" = ["", "api", "sessions"] := by decide
  have workflows : split '/' "/api/workflows" = ["", "api", "workflows"] := by decide
  have history : split '/' "/api/terminal-history" = ["", "api", "terminal-history"] := by decide
  have favorite : split '/' "/api/terminal-history/session" = ["", "api", "terminal-history", "session"] := by decide
  have atSessions : hasPrefix path "/api/sessions/" = _ := hasPrefix_eq "/api/sessions"
  have atWorkflows : hasPrefix path "/api/workflows/" = _ := hasPrefix_eq "/api/workflows"
  have atHistory : hasPrefix path "/api/terminal-history/" = _ := hasPrefix_eq "/api/terminal-history"
  have atFavorite : hasPrefix path "/api/terminal-history/session/" = _ := hasPrefix_eq "/api/terminal-history/session"
  rw [sessions] at atSessions
  rw [workflows] at atWorkflows
  rw [history] at atHistory
  rw [favorite] at atFavorite
  have logout := @literal_iff path _ "/api/logout" (by decide : _ = ["", "api", "logout"])
  have me := @literal_iff path _ "/api/me" (by decide : _ = ["", "api", "me"])
  have agents := @literal_iff path _ "/api/agents" (by decide : _ = ["", "api", "agents"])
  have refresh := @literal_iff path _ "/api/agents/refresh" (by decide : _ = ["", "api", "agents", "refresh"])
  have compile := @literal_iff path _ "/api/workflows/compile" (by decide : _ = ["", "api", "workflows", "compile"])
  have suggestions := @literal_iff path _ "/api/projects/suggestions"
    (by decide : _ = ["", "api", "projects", "suggestions"])
  simp only [allowedPath, allowedParts, atFavorite, atHistory, atWorkflows, atSessions, logout, me, agents, refresh,
    compile, suggestions, literal_iff "/api/sessions" sessions, literal_iff "/api/terminal-history" history,
    literal_iff "/api/workflows" workflows]
  have favorite' := fun rest => @split_trimPrefix path "/api/terminal-history/session" rest
  have history' := fun rest => @split_trimPrefix path "/api/terminal-history" rest
  have workflows' := fun rest => @split_trimPrefix path "/api/workflows" rest
  have sessions' := fun rest => @split_trimPrefix path "/api/sessions" rest
  have stop := fun rest => @stopPath_eq path rest
  have alone := validSessionID_split (trimPrefix path "/api/sessions/")
  rw [favorite] at favorite'
  rw [history] at history'
  rw [workflows] at workflows'
  rw [sessions] at sessions'
  generalize split '/' path = parts at *
  congr 1
  congr 1
  congr 1
  congr 1
  cases hf : below ["", "api", "terminal-history", "session"] parts with
  | some rest => exact congrArg (favoriteParts method) (favorite' rest hf)
  | none =>
    cases hh : below ["", "api", "terminal-history"] parts with
    | some rest => exact congrArg (historyParts method) (history' rest hh)
    | none =>
      rw [Option.isSome_none, if_neg Bool.false_ne_true, if_neg Bool.false_ne_true]
      refine if_congr Iff.rfl rfl (if_congr Iff.rfl rfl ?_)
      cases hw : below ["", "api", "workflows"] parts with
      | some rest => exact congrArg (workflowParts method) (workflows' rest hw)
      | none =>
        rw [Option.isSome_none, if_neg Bool.false_ne_true]
        cases hs : below ["", "api", "sessions"] parts with
        | some rest =>
          have same : split '/' (trimPrefix path "/api/sessions/") = rest := sessions' rest hs
          have stopped := stop rest hs
          rw [same] at alone
          rw [same, alone, Option.isSome_some]
          by_cases patch : method = "PATCH"
          · subst patch
            rw [if_pos ⟨rfl, rfl⟩]
            exact patch_eq rest
          · rw [if_neg fun both => patch both.1]
            by_cases post : method = "POST"
            · subst post
              rw [if_pos ⟨rfl, rfl⟩, stopped]
              exact tail_eq rest
            · rw [if_neg fun both => post both.1, allowedPath.stopPath, if_pos (Or.inl post)]
              exact (other_eq patch post rest).symm
        | none =>
          rw [hs] at atSessions
          simp [allowedPath.stopPath, atSessions]

/-- `parsePattern` on the characters of a text. -/
def patternOf (text : List Char) : GoNet.Pattern :=
  match text.splitOn ' ' with
  | [method, path] => ⟨String.ofList method, (path.splitOn '/').map String.ofList⟩
  | _ => ⟨"", (text.splitOn '/').map String.ofList⟩

theorem parsePattern_ofList (text : List Char) :
    GoNet.parsePattern (String.ofList text) = patternOf text := by
  unfold GoNet.parsePattern patternOf split
  simp only [String.toList_ofList]
  cases parts : text.splitOn ' ' with
  | nil => rfl
  | cons method rest =>
    cases rest with
    | nil => rfl
    | cons path more =>
      cases more with
      | nil => simp [String.toList_ofList]
      | cons _ _ => rfl

theorem webHandler_patterns :
    webHandler.map (fun route => (GoNet.parsePattern route.pattern, route.requireWebAuth)) =
    [(⟨"GET", ["", "api", "mode"]⟩, false),
      (⟨"POST", ["", "api", "login"]⟩, false),
      (⟨"POST", ["", "api", "logout"]⟩, true),
      (⟨"GET", ["", "api", "me"]⟩, true),
      (⟨"GET", ["", "api", "sessions"]⟩, true),
      (⟨"POST", ["", "api", "sessions"]⟩, true),
      (⟨"PATCH", ["", "api", "sessions", "\x7bid\x7d"]⟩, true),
      (⟨"POST", ["", "api", "sessions", "\x7bid\x7d", "stop"]⟩, true),
      (⟨"POST", ["", "api", "sessions", "\x7bid\x7d", "viewer", "show"]⟩, true),
      (⟨"POST", ["", "api", "sessions", "\x7bid\x7d", "viewer", "hide"]⟩, true),
      (⟨"GET", ["", "api", "terminal-history"]⟩, true),
      (⟨"POST", ["", "api", "terminal-history", "session", "\x7bsessionID\x7d", "favorite"]⟩, true),
      (⟨"PATCH", ["", "api", "terminal-history", "\x7bid\x7d"]⟩, true),
      (⟨"DELETE", ["", "api", "terminal-history", "\x7bid\x7d"]⟩, true),
      (⟨"POST", ["", "api", "terminal-history", "\x7bid\x7d", "open"]⟩, true),
      (⟨"GET", ["", "api", "agents"]⟩, true),
      (⟨"POST", ["", "api", "agents", "refresh"]⟩, true),
      (⟨"GET", ["", "api", "projects", "suggestions"]⟩, true),
      (⟨"POST", ["", "api", "workflows", "compile"]⟩, true),
      (⟨"GET", ["", "api", "workflows"]⟩, true),
      (⟨"POST", ["", "api", "workflows"]⟩, true),
      (⟨"GET", ["", "api", "workflows", "\x7bid\x7d"]⟩, true),
      (⟨"POST", ["", "api", "workflows", "\x7bid\x7d", "messages"]⟩, true),
      (⟨"POST", ["", "api", "workflows", "\x7bid\x7d", "cancel"]⟩, true),
      (⟨"POST", ["", "api", "workflows", "\x7bid\x7d", "stages", "\x7bstageID\x7d", "input"]⟩, true),
      (⟨"GET", ["", "ws", "sessions", "\x7bid\x7d"]⟩, true),
      (⟨"", ["", ""]⟩, false)] := by
  simp only [webHandler, List.map_cons, List.map_nil, List.cons.injEq, Prod.mk.injEq, and_true]
  repeat' apply And.intro
  all_goals exact (parsePattern_ofList _).trans rfl

theorem authenticatedAPI_patterns : authenticatedAPI.map (fun route => GoNet.parsePattern route.pattern) =
    [⟨"POST", ["", "api", "logout"]⟩,
      ⟨"GET", ["", "api", "me"]⟩,
      ⟨"GET", ["", "api", "sessions"]⟩,
      ⟨"POST", ["", "api", "sessions"]⟩,
      ⟨"PATCH", ["", "api", "sessions", "\x7bid\x7d"]⟩,
      ⟨"POST", ["", "api", "sessions", "\x7bid\x7d", "stop"]⟩,
      ⟨"POST", ["", "api", "sessions", "\x7bid\x7d", "viewer", "show"]⟩,
      ⟨"POST", ["", "api", "sessions", "\x7bid\x7d", "viewer", "hide"]⟩,
      ⟨"GET", ["", "api", "terminal-history"]⟩,
      ⟨"POST", ["", "api", "terminal-history", "session", "\x7bsessionID\x7d", "favorite"]⟩,
      ⟨"PATCH", ["", "api", "terminal-history", "\x7bid\x7d"]⟩,
      ⟨"DELETE", ["", "api", "terminal-history", "\x7bid\x7d"]⟩,
      ⟨"POST", ["", "api", "terminal-history", "\x7bid\x7d", "open"]⟩,
      ⟨"GET", ["", "api", "agents"]⟩,
      ⟨"POST", ["", "api", "agents", "refresh"]⟩,
      ⟨"GET", ["", "api", "projects", "suggestions"]⟩,
      ⟨"POST", ["", "api", "workflows", "compile"]⟩,
      ⟨"GET", ["", "api", "workflows"]⟩,
      ⟨"POST", ["", "api", "workflows"]⟩,
      ⟨"GET", ["", "api", "workflows", "\x7bid\x7d"]⟩,
      ⟨"POST", ["", "api", "workflows", "\x7bid\x7d", "messages"]⟩,
      ⟨"POST", ["", "api", "workflows", "\x7bid\x7d", "cancel"]⟩,
      ⟨"POST", ["", "api", "workflows", "\x7bid\x7d", "stages", "\x7bstageID\x7d", "input"]⟩] := by
  have parsed : authenticatedAPI.map (fun route => GoNet.parsePattern route.pattern) =
      ((webHandler.map fun route => (GoNet.parsePattern route.pattern, route.requireWebAuth)).filter fun row =>
        row.2 && row.1.segments.take 2 = ["", "api"]).map Prod.fst := by
    rw [List.filter_map, List.map_map]
    rfl
  rw [parsed, webHandler_patterns]
  rfl

def served (method : String) (parts : List String) : Bool :=
  (authenticatedAPI.map fun route => GoNet.parsePattern route.pattern).any fun pattern =>
    pattern.allows method && GoNet.matchSegments isID "" pattern.segments parts

theorem utf8Size_hex {c : Char} (h : isHex c = true) : c.utf8Size = 1 := by
  have small : c.val ≤ 0x7f := by
    simp only [isHex, Bool.or_eq_true, Bool.and_eq_true, decide_eq_true_eq] at h
    rcases h with ⟨_, high⟩ | ⟨_, high⟩
    · exact UInt32.le_trans high (by decide)
    · exact UInt32.le_trans high (by decide)
  exact if_pos small

theorem length_hex {id : String} (h : id.toList.all isHex = true) : id.utf8ByteSize = id.toList.length := by
  obtain ⟨digits, rfl⟩ : ∃ digits, id = String.ofList digits := ⟨id.toList, String.ofList_toList.symm⟩
  rw [String.toList_ofList] at h ⊢
  induction digits with
  | nil => rfl
  | cons digit digits ih =>
    rw [List.all_cons, Bool.and_eq_true] at h
    rw [String.ofList_cons, String.utf8ByteSize_append, ih h.2, List.length_cons]
    have one := utf8Size_hex h.1
    simp [one]
    omega

theorem isID_eq (collection segment : String) : isID collection segment =
    (segment.utf8ByteSize = idLength collection && segment.toList.all isHex) := by
  unfold isID
  cases hex : segment.toList.all isHex with
  | false => simp
  | true => rw [length_hex hex]

@[simp] theorem isID_sessions (segment : String) : isID "sessions" segment = validSessionID segment :=
  isID_eq "sessions" segment

@[simp] theorem isID_session (segment : String) : isID "session" segment = validSessionID segment :=
  isID_eq "session" segment

@[simp] theorem isID_history (segment : String) : isID "terminal-history" segment = validSessionID segment :=
  isID_eq "terminal-history" segment

@[simp] theorem isID_workflows (segment : String) : isID "workflows" segment = validCoordinatorID segment :=
  isID_eq "workflows" segment

@[simp] theorem isID_stages (segment : String) : isID "stages" segment = validCoordinatorID segment :=
  isID_eq "stages" segment

section

attribute [local simp] GoNet.matchSegments GoNet.Pattern.allows GoNet.isWildcard allowedParts below

theorem parts_sessions (more : List String) : allowedParts method ("" :: "api" :: "sessions" :: more) = true ↔
    method ≠ "HEAD" ∧ served method ("" :: "api" :: "sessions" :: more) = true := by
  rw [served, authenticatedAPI_patterns]
  match more with
  | [] =>
    simp
    grind
  | [id] =>
    simp [sessionParts]
    grind
  | [id, stop] =>
    simp [sessionParts]
    grind
  | [id, viewer, action] =>
    simp [sessionParts]
    grind
  | _ :: _ :: _ :: _ :: _ =>
    simp [sessionParts]

theorem parts_history (more : List String) :
    allowedParts method ("" :: "api" :: "terminal-history" :: more) = true ↔
    method ≠ "HEAD" ∧ served method ("" :: "api" :: "terminal-history" :: more) = true := by
  have word : validSessionID "session" = false := by decide
  rw [served, authenticatedAPI_patterns]
  match more with
  | [] =>
    simp
    grind
  | [id] =>
    simp [historyParts]
    grind
  | [id, action] =>
    simp [historyParts]
    grind [favoriteParts]
  | [session, id, action] =>
    simp [historyParts]
    grind [favoriteParts]
  | _ :: _ :: _ :: _ :: _ =>
    simp [historyParts]
    grind [favoriteParts]

theorem parts_workflows (more : List String) :
    allowedParts method ("" :: "api" :: "workflows" :: more) = true ↔
    method ≠ "HEAD" ∧ served method ("" :: "api" :: "workflows" :: more) = true := by
  rw [served, authenticatedAPI_patterns]
  match more with
  | [] =>
    simp
    grind
  | [id] =>
    simp [workflowParts]
    grind
  | [id, action] =>
    simp [workflowParts]
    grind
  | [_, _, _] => simp [workflowParts]
  | [id, stages, stage, action] =>
    simp [workflowParts]
    grind
  | _ :: _ :: _ :: _ :: _ :: _ =>
    simp [workflowParts]

/-- The routes without an id, and the paths that are under none of the collections. -/
theorem parts_others {resource : String} (sessions : resource ≠ "sessions")
    (history : resource ≠ "terminal-history") (workflows : resource ≠ "workflows") (more : List String) :
    allowedParts method ("" :: "api" :: resource :: more) = true ↔
      method ≠ "HEAD" ∧ served method ("" :: "api" :: resource :: more) = true := by
  rw [served, authenticatedAPI_patterns]
  simp [sessions, history, workflows,
    sessions.symm, history.symm, workflows.symm]
  match more with
  | [] =>
    simp
    grind
  | [action] =>
    simp
    grind
  | _ :: _ :: _ => simp

/-- A path that is neither the root of a collection of the API nor under one is not served. -/
theorem served_outside {parts : List String}
    (outside : ∀ resource more, parts ≠ "" :: "api" :: resource :: more) :
    served method parts = false := by
  rw [served, authenticatedAPI_patterns]
  match parts with
  | [] => simp
  | [_] => simp
  | [_, _] => simp
  | root :: api :: resource :: more =>
    by_cases first : root = ""
    · by_cases second : api = "api"
      · exact absurd (first ▸ second ▸ rfl) (outside resource more)
      · simp [Ne.symm second]
    · simp [Ne.symm first]

theorem parts_outside {parts : List String}
    (outside : ∀ resource more, parts ≠ "" :: "api" :: resource :: more) :
    allowedParts method parts = true ↔ method ≠ "HEAD" ∧ served method parts = true := by
  rw [served_outside outside]
  match parts with
  | [] => simp
  | [_] => simp
  | [_, _] => simp
  | root :: api :: resource :: more =>
    by_cases first : root = ""
    · by_cases second : api = "api"
      · exact absurd (first ▸ second ▸ rfl) (outside resource more)
      · simp [second, Ne.symm second]
    · simp [first, Ne.symm first]

theorem served_inside {parts : List String} (h : served method parts = true) :
    ∃ resource more, parts = "" :: "api" :: resource :: more ∧ resource ≠ "login" ∧ resource ≠ "mode" := by
  by_cases inside : ∃ resource more, parts = "" :: "api" :: resource :: more
  · obtain ⟨resource, more, rfl⟩ := inside
    refine ⟨resource, more, rfl, ?_, ?_⟩
    · rintro rfl
      rw [served, authenticatedAPI_patterns] at h
      simp at h
    · rintro rfl
      rw [served, authenticatedAPI_patterns] at h
      simp at h
  · rw [served_outside fun resource more same => inside ⟨resource, more, same⟩] at h
    cases h

end

theorem allowedParts_iff (parts : List String) :
    allowedParts method parts = true ↔ method ≠ "HEAD" ∧ served method parts = true := by
  by_cases inside : ∃ resource more, parts = "" :: "api" :: resource :: more
  · obtain ⟨resource, more, rfl⟩ := inside
    by_cases sessions : resource = "sessions"
    · subst sessions
      exact parts_sessions more
    · by_cases history : resource = "terminal-history"
      · subst history
        exact parts_history more
      · by_cases workflows : resource = "workflows"
        · subst workflows
          exact parts_workflows more
        · exact parts_others sessions history workflows more
  · exact parts_outside fun resource more same => inside ⟨resource, more, same⟩

theorem serves_iff : (∃ route ∈ authenticatedAPI, route.serves method path = true) ↔
    served method (split '/' path) = true := by
  simp only [served, Route.serves, GoNet.Pattern.serves, List.any_map, List.any_eq_true, Function.comp_apply]

/-- What a request path has without escapes, a query or control bytes. -/
def isPlain (c : Char) : Bool := c ≠ '%' && c ≠ '?' && !GoNet.isControl c

theorem isPlain_hex {c : Char} (h : isHex c = true) : isPlain c = true := by
  simp only [isHex, Bool.or_eq_true, Bool.and_eq_true, decide_eq_true_eq] at h
  have low : 0x30 ≤ c.val.toNat := by
    rcases h with ⟨low, _⟩ | ⟨low, _⟩
    · exact UInt32.le_iff_toNat_le.mp low
    · exact Nat.le_trans (by decide) (UInt32.le_iff_toNat_le.mp low)
  have high : c.val.toNat ≤ 0x66 := by
    rcases h with ⟨_, high⟩ | ⟨_, high⟩
    · exact Nat.le_trans (UInt32.le_iff_toNat_le.mp high) (by decide)
    · exact UInt32.le_iff_toNat_le.mp high
  have percent : c ≠ '%' := by
    rintro rfl
    exact absurd low (by decide)
  have question : c ≠ '?' := by
    rintro rfl
    exact absurd h (by decide)
  have space : ¬c.val < 0x20 := fun below => by
    have := UInt32.lt_iff_toNat_lt.mp below
    have : (0x20 : UInt32).toNat = 0x20 := rfl
    omega
  have delete : c.val ≠ 0x7f := fun same => by
    rw [same] at high
    exact absurd high (by decide)
  simp [isPlain, GoNet.isControl, percent, question, space, delete]

/-- What matches a pattern has only the characters of its literals and of ids. -/
theorem matched_plain {collection : String} {segments parts : List String}
    (literals : ∀ segment ∈ segments, segment.toList.all isPlain = true) (closed : segments.getLast? ≠ some "")
    (h : GoNet.matchSegments isID collection segments parts = true) :
    ∀ part ∈ parts, part.toList.all isPlain = true := by
  induction segments generalizing collection parts with
  | nil =>
    cases parts with
    | nil => exact nofun
    | cons part parts => cases h
  | cons segment segments ih =>
    cases parts with
    | nil => cases h
    | cons part parts =>
      have closed' : segments.getLast? ≠ some "" := by
        cases segments with
        | nil => exact nofun
        | cons next segments => simpa [List.getLast?_cons_cons] using closed
      have later := fun matched => @ih segment parts
        (fun other member => literals other (List.mem_cons_of_mem _ member)) closed' matched
      rw [GoNet.matchSegments] at h
      split at h
      next last =>
        obtain ⟨rfl, rfl⟩ := last
        exact absurd rfl closed
      next =>
        split at h
        next =>
          rw [Bool.and_eq_true] at h
          obtain ⟨id, matched⟩ := h
          refine List.forall_mem_cons.mpr ⟨?_, later matched⟩
          rw [isID, Bool.and_eq_true] at id
          exact List.all_eq_true.mpr fun c member => isPlain_hex (List.all_eq_true.mp id.2 c member)
        next =>
          rw [Bool.and_eq_true, decide_eq_true_eq] at h
          obtain ⟨rfl, matched⟩ := h
          exact List.forall_mem_cons.mpr ⟨literals segment List.mem_cons_self, later matched⟩

theorem served_plain (h : served method (split '/' path) = true) : path.toList.all isPlain = true := by
  have table : ∀ pattern ∈ authenticatedAPI.map fun route => GoNet.parsePattern route.pattern,
      (∀ segment ∈ pattern.segments, segment.toList.all isPlain = true) ∧ pattern.segments.getLast? ≠ some "" := by
    rw [authenticatedAPI_patterns]
    decide
  simp only [served, List.any_eq_true, Bool.and_eq_true] at h
  obtain ⟨pattern, member, _, matched⟩ := h
  have parts := matched_plain (table pattern member).1 (table pattern member).2 matched
  refine List.all_eq_true.mpr fun c inside => ?_
  rcases @GoNet.mem_split '/' _ _ inside with rfl | ⟨part, there, inside⟩
  · decide
  · exact List.all_eq_true.mp (parts part there) c inside

/-- A request path without escapes that has no query is its own path, or that with a question mark behind it. -/
theorem parsed_plain (escapes : Escapes) {requestPath : String} (rooted : requestPath.toList.head? = some '/')
    (plain : '%' ∉ requestPath.toList) :
    (∃ path, parseRequestURI escapes requestPath = some ⟨path, ""⟩ ∧ served method (split '/' path) = true) ↔
      ∃ path, (requestPath = path ∨ requestPath = path ++ "?") ∧ served method (split '/' path) = true := by
  constructor
  · rintro ⟨path, parsed, given⟩
    refine ⟨path, ?_, given⟩
    have control : requestPath.toList.any GoNet.isControl = false := by
      rw [Bool.eq_false_iff]
      intro control
      rw [parseRequestURI, if_pos control] at parsed
      cases parsed
    rw [GoNet.parseRequestURI_plain escapes rooted plain control, Option.some.injEq, GoNet.URL.mk.injEq] at parsed
    obtain ⟨rfl, after⟩ := parsed
    rw [String.ofList_eq_empty_iff] at after
    rcases @GoNet.cut_eq '?' requestPath.toList with ⟨whole, _⟩ | whole
    · exact Or.inl (String.toList_inj.mp (by rw [String.toList_ofList]; exact whole))
    · rw [after] at whole
      exact Or.inr (String.toList_inj.mp (by simpa using whole))
  · rintro ⟨path, same, given⟩
    have chars := List.all_eq_true.mp (served_plain given)
    have question : '?' ∉ path.toList := fun member => absurd (chars '?' member) (by decide)
    have control : ∀ c ∈ path.toList, GoNet.isControl c = false := by
      intro c member
      have fine := chars c member
      simp only [isPlain, Bool.and_eq_true, Bool.not_eq_true'] at fine
      exact fine.2
    refine ⟨path, ?_, given⟩
    rcases same with rfl | rfl
    · have clear : requestPath.toList.any GoNet.isControl = false := by
        rw [List.any_eq_false]
        intro c member
        simp [control c member]
      rw [GoNet.parseRequestURI_plain escapes rooted plain clear, GoNet.cut_of_not_mem question, String.ofList_toList]
    · have clear : (path ++ "?").toList.any GoNet.isControl = false := by
        rw [String.toList_append, List.any_append, Bool.or_eq_false_iff]
        refine ⟨?_, by decide⟩
        rw [List.any_eq_false]
        intro c member
        simp [control c member]
      have cut : GoNet.cut '?' (path ++ "?").toList = (path.toList, []) := by
        rw [String.toList_append]
        exact GoNet.cut_append _ _ question
      rw [GoNet.parseRequestURI_plain escapes rooted plain clear, cut, String.ofList_toList]

theorem allowedHTTPRoute_iff (escapes : Escapes) (requestPath : String) :
    allowedHTTPRoute escapes method requestPath = true ↔
    method ≠ "HEAD" ∧ ∃ path, parseRequestURI escapes requestPath = some ⟨path, ""⟩ ∧
      served method (split '/' path) = true := by
  unfold allowedHTTPRoute
  cases parseRequestURI escapes requestPath with
  | none => simp
  | some parsed =>
    obtain ⟨path, rawQuery⟩ := parsed
    by_cases query : rawQuery = ""
    · subst query
      simp [allowedPath_eq, allowedParts_iff]
    · simp [query]

end

/-- Whatever `url.ParseRequestURI` makes of a request path, the connector lets it through exactly when the query is
empty and a route of the authenticated API serves the method and the path, except that a GET route serves HEAD. -/
theorem allowlist_is_the_api (escapes : Escapes) (method requestPath : String) :
    (allowedHTTPRoute escapes method requestPath = true ↔ method ≠ "HEAD" ∧
      ∃ path, parseRequestURI escapes requestPath = some ⟨path, ""⟩ ∧
        ∃ route ∈ authenticatedAPI, route.serves method path = true) ∧
    (requestPath.toList.head? = some '/' → '%' ∉ requestPath.toList →
      (allowedHTTPRoute escapes method requestPath = true ↔ method ≠ "HEAD" ∧
        ∃ path, (requestPath = path ∨ requestPath = path ++ "?") ∧
          ∃ route ∈ authenticatedAPI, route.serves method path = true)) ∧
    (allowedHTTPRoute escapes method requestPath = true →
      ∃ path, parseRequestURI escapes requestPath = some ⟨path, ""⟩ ∧ hasPrefix path "/api/" = true ∧
        ∀ other, ∀ pattern ∈ ["GET /api/mode", "POST /api/login", "GET /ws/sessions/\x7bid\x7d"],
          (⟨pattern, false⟩ : Route).serves other path = false) := by
  refine ⟨?_, ?_, ?_⟩
  · simp only [allowedHTTPRoute_iff, serves_iff]
  · intro rooted plain
    simp only [allowedHTTPRoute_iff, serves_iff, parsed_plain escapes rooted plain]
  · intro allowed
    obtain ⟨_, path, parsed, given⟩ := (allowedHTTPRoute_iff escapes requestPath).mp allowed
    obtain ⟨resource, more, parts, login, mode⟩ := served_inside given
    refine ⟨path, parsed, ?_, ?_⟩
    · exact hasPrefix_of_split "/api" (List.cons_ne_nil resource more) parts
    · intro other pattern member
      have patterns : GoNet.parsePattern "GET /api/mode" = ⟨"GET", ["", "api", "mode"]⟩ ∧
          GoNet.parsePattern "POST /api/login" = ⟨"POST", ["", "api", "login"]⟩ ∧
          GoNet.parsePattern "GET /ws/sessions/\x7bid\x7d" = ⟨"GET", ["", "ws", "sessions", "\x7bid\x7d"]⟩ :=
        ⟨(parsePattern_ofList _).trans rfl, (parsePattern_ofList _).trans rfl, (parsePattern_ofList _).trans rfl⟩
      simp only [List.mem_cons, List.not_mem_nil, or_false] at member
      rcases member with rfl | rfl | rfl
      · simp [Route.serves, GoNet.Pattern.serves, patterns.1, parts, GoNet.matchSegments, GoNet.isWildcard, mode.symm]
      · simp [Route.serves, GoNet.Pattern.serves, patterns.2.1, parts, GoNet.matchSegments,
          GoNet.isWildcard, login.symm]
      · simp [Route.serves, GoNet.Pattern.serves, patterns.2.2, parts, GoNet.matchSegments, GoNet.isWildcard]

theorem apiMe_served : (⟨"GET /api/me", true⟩ : Route) ∈ authenticatedAPI :=
  List.mem_filter.mpr ⟨by simp [webHandler], by decide⟩

theorem allowlist_is_the_api_me :
    allowedHTTPRoute ⟨some, fun _ => true, fun _ _ => rfl⟩ "GET" "/api/me?" = true := by
  have whole := (allowlist_is_the_api ⟨some, fun _ => true, fun _ _ => rfl⟩ "GET" "/api/me?").2.1
    (by decide) (by decide)
  exact whole.mpr ⟨by decide, "/api/me", Or.inr rfl, ⟨"GET /api/me", true⟩, apiMe_served, by decide⟩

/-- The daemon serves HEAD where it serves GET, and the connector does not let it through. -/
theorem head_is_refused : (∃ route ∈ authenticatedAPI, route.serves "HEAD" "/api/me" = true) ∧
    parseRequestURI ⟨some, fun _ => true, fun _ _ => rfl⟩ "/api/me" = some ⟨"/api/me", ""⟩ ∧
    allowedHTTPRoute ⟨some, fun _ => true, fun _ _ => rfl⟩ "HEAD" "/api/me" = false := by
  refine ⟨⟨⟨"GET /api/me", true⟩, apiMe_served, ?_⟩, ?_, ?_⟩
  · decide
  · decide
  · decide

end TermLinks.Connector
