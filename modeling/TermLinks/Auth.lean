import TermLinks.CloudPacket

namespace TermLinks.Auth

open Cloud (rawURLEncode)

/-- Instants and durations in nanoseconds. -/
abbrev minute : Int := 60000000000

abbrev sessionDuration : Int := 43200000000000

/-- What `rand.Read` draws for a session id. -/
abbrev Raw := { raw : Bytes // raw.length = 32 }

variable {Digest : Type} [DecidableEq Digest]

/-- The maps by their values; a client without attempts has none. -/
structure Manager (Digest : Type) where
  token : Digest
  sessions : Digest → Option Int
  attempts : String → List Int

def Manager.new (sha256 : String → Digest) (token : String) : Manager Digest :=
  ⟨sha256 token, fun _ => none, fun _ => []⟩

/-- One round of the loop over `attempts`, which overwrites from the front the array that it reads. -/
def keep (cutoff : Int) (state : List Int × Nat) (i : Nat) : List Int × Nat :=
  match state.1[i]? with
  | some attempt => if cutoff < attempt then (state.1.set state.2 attempt, state.2 + 1) else state
  | none => state

/-- `kept := attempts[:0]` and the loop that fills it. -/
def prune (cutoff : Int) (attempts : List Int) : List Int :=
  let (array, kept) := (List.range attempts.length).foldl (keep cutoff) (attempts, 0)
  array.take kept

inductive Reply
  | issued (sessionID : String) (expires : Int)
  | rateLimited
  | invalidCredentials
  | noRandom
  | valid (answer : Bool)
  | loggedOut
deriving DecidableEq

inductive Call
  | login (clientID candidate : String) (drawn : Option Raw)
  | valid (sessionID : String)
  | logout (sessionID : String)
deriving DecidableEq

/-- A call, and what the clock shows. -/
structure Event where
  now : Int
  call : Call
deriving DecidableEq

namespace Manager

/-- The session whose time has come is not there any more. -/
def expire (m : Manager Digest) (now : Int) : Manager Digest :=
  { m with sessions := fun id => (m.sessions id).filter (now < ·) }

def login (sha256 : String → Digest) (m : Manager Digest) (now : Int) (clientID candidate : String)
    (drawn : Option Raw) : Reply × Manager Digest :=
  let m := m.expire now
  let cutoff := now - minute
  let m := { m with attempts := fun id => prune cutoff (m.attempts id) }
  let recent := prune cutoff (m.attempts clientID)
  if recent.length ≥ 5 then (.rateLimited, { m with attempts := Function.update m.attempts clientID recent })
  else
    let m := { m with attempts := Function.update m.attempts clientID (recent ++ [now]) }
    if sha256 candidate ≠ m.token then (.invalidCredentials, m)
    else
      let m := { m with attempts := Function.update m.attempts clientID [] }
      match drawn with
      | none => (.noRandom, m)
      | some raw =>
        let sessionID := rawURLEncode raw
        let expires := now + sessionDuration
        (.issued sessionID expires, { m with sessions := Function.update m.sessions (sha256 sessionID) (some expires) })

def remove (sha256 : String → Digest) (m : Manager Digest) (sessionID : String) : Manager Digest :=
  { m with sessions := Function.update m.sessions (sha256 sessionID) none }

def valid (sha256 : String → Digest) (m : Manager Digest) (now : Int) (sessionID : String) :
    Bool × Manager Digest :=
  if sessionID = "" then (false, m)
  else
    match m.sessions (sha256 sessionID) with
    | some expires => if now < expires then (true, m) else (false, m.remove sha256 sessionID)
    | none => (false, m.remove sha256 sessionID)

def step (sha256 : String → Digest) (m : Manager Digest) (event : Event) : Reply × Manager Digest :=
  match event.call with
  | .login clientID candidate drawn => m.login sha256 event.now clientID candidate drawn
  | .valid sessionID =>
    let (answer, m) := m.valid sha256 event.now sessionID
    (.valid answer, m)
  | .logout sessionID => (.loggedOut, m.remove sha256 sessionID)

/-- The calls with their replies. -/
def history (sha256 : String → Digest) (m : Manager Digest) : List Event → List (Event × Reply)
  | [] => []
  | event :: events => (event, (m.step sha256 event).1) :: history sha256 (m.step sha256 event).2 events

def after (sha256 : String → Digest) (m : Manager Digest) (events : List Event) : Manager Digest :=
  events.foldl (fun m event => (m.step sha256 event).2) m

end Manager

section

omit [DecidableEq Digest]

theorem keep_range {cutoff : Int} {attempts : List Int} {n : Nat} (h : n ≤ attempts.length) :
    ∃ array kept, (List.range n).foldl (keep cutoff) (attempts, 0) = (array, kept) ∧ kept ≤ n ∧
      array.length = attempts.length ∧ array.take kept = (attempts.take n).filter (cutoff < ·) ∧
      array.drop n = attempts.drop n := by
  induction n with
  | zero => exact ⟨attempts, 0, rfl, Nat.le_refl 0, rfl, by simp, rfl⟩
  | succ n ih =>
    obtain ⟨array, kept, folded, le, length, taken, dropped⟩ := ih (by omega)
    have bound : n < attempts.length := by omega
    have here : array[n]? = some attempts[n] := by
      have first := congrArg List.head? dropped
      rwa [List.head?_drop, List.head?_drop, List.getElem?_eq_getElem bound] at first
    have rest : array.drop (n + 1) = attempts.drop (n + 1) := by
      have tail := congrArg List.tail dropped
      rwa [List.tail_drop, List.tail_drop] at tail
    rw [List.range_succ, List.foldl_append, folded, List.foldl_cons, List.foldl_nil,
      List.take_succ_eq_append_getElem bound,
      List.filter_append]
    simp only [keep, here]
    by_cases recent : cutoff < attempts[n]
    · rw [if_pos recent]
      refine ⟨array.set kept attempts[n], kept + 1, rfl, by omega, by simp [length], ?_, ?_⟩
      · have room : kept < (array.set kept attempts[n]).length := by
          rw [List.length_set]
          omega
        rw [List.take_succ_eq_append_getElem room, List.take_set_of_le (Nat.le_refl kept), taken]
        simp [recent]
      · rw [List.drop_set_of_lt (by omega)]
        exact rest
    · rw [if_neg recent]
      exact ⟨array, kept, rfl, by omega, length, by simp [taken, recent], rest⟩

/-- Overwriting the array that is read loses nothing. -/
theorem prune_eq_filter (cutoff : Int) (attempts : List Int) :
    prune cutoff attempts = attempts.filter (cutoff < ·) := by
  obtain ⟨array, kept, folded, _, _, taken, _⟩ := @keep_range cutoff attempts attempts.length (Nat.le_refl _)
  rw [List.take_length] at taken
  rw [prune, folded]
  exact taken

end

end TermLinks.Auth
