import Mathlib.Data.Prod.Lex
import Mathlib.Order.WithBot
import TermLinks.GoText
import TermLinks.Ranking
import TermLinks.RowTable
import TermLinks.Timestamp

namespace TermLinks.TerminalHistory

def maxFavorites : Nat := 100
def maxRecent : Nat := 10
def maxNameRunes : Nat := 80
def maxCwdBytes : Nat := 4096

/-- The fields of `session.Info` that the history reads; the session manager draws every id. -/
structure SessionInfo where
  id : String
  name : String
  cwd : String
  startedAt : Time
  endedAt : Option Time
  running : Bool
  named : id ≠ ""
deriving DecidableEq

/-- When the session ended, for one that is no longer running. -/
def SessionInfo.ended (info : SessionInfo) : Option Time := if info.running then none else info.endedAt

/-- A row of `saved_terminals`; timestamps are the texts the column holds. -/
structure SavedTerminal where
  id : Nat
  sourceSessionID : String
  activeSessionID : String
  name : String
  cwd : String
  favorite : Bool
  createdAt : String
  updatedAt : String
  lastOpenedAt : String
  lastClosedAt : Option String
deriving DecidableEq

/-- The table in rowid order; `newID` never draws an id twice. -/
structure Store where
  rows : List SavedTerminal
  nextID : Nat
deriving DecidableEq

def Store.empty : Store := ⟨[], 0⟩

inductive StoreError
  | notFound | favoriteLimit | invalidCwd | notEnded | constraint
deriving DecidableEq, Repr

def safeMetadata (info : SessionInfo) : Except StoreError (String × String) :=
  let name := trimSpace (String.ofList (info.name.toList.filter (·.val ≠ 0)))
  let name := if name = "" then "Terminal" else name
  let name := String.ofList (name.toList.take maxNameRunes)
  if info.cwd = "" ∨ byteLen info.cwd > maxCwdBytes ∨ info.cwd.toList.any (·.val = 0) then .error .invalidCwd
  else .ok (name, info.cwd)

namespace SavedTerminal

/-- `source_session_id=? OR active_session_id=?`. -/
def ofSession (sessionID : String) (row : SavedTerminal) : Bool :=
  row.sourceSessionID = sessionID || row.activeSessionID = sessionID

/-- `MAX(updated_at,last_opened_at,COALESCE(last_closed_at,''))`, a maximum of texts. -/
def activity (row : SavedTerminal) : String :=
  max (max row.updatedAt row.lastOpenedAt) (row.lastClosedAt.getD "")

/-- The row `reconcileEnded` inserts for a session without one. -/
def ofEnded (id : Nat) (info : SessionInfo) (name cwd : String) (ended : Time) : SavedTerminal where
  id := id
  sourceSessionID := info.id
  activeSessionID := ""
  name := name
  cwd := cwd
  favorite := false
  createdAt := encodeTime info.startedAt
  updatedAt := encodeTime ended
  lastOpenedAt := encodeTime info.startedAt
  lastClosedAt := some (encodeTime ended)

/-- The update `reconcileEnded` makes to a row it closes. -/
def close (sessionID ended : String) (row : SavedTerminal) : SavedTerminal :=
  { row with
    activeSessionID := if row.activeSessionID = sessionID then "" else row.activeSessionID
    lastClosedAt := some ended
    updatedAt := ended }

/-- The row was closed before and its link belongs to another session. -/
def settled (sessionID : String) (row : SavedTerminal) : Bool :=
  row.lastClosedAt.isSome && row.activeSessionID ≠ sessionID

/-- The activity, and the columns of `idx_saved_terminals_activity` behind it: SQLite sorts the rows as it reads them
from that index, where `NULL` is least. -/
def rank (row : SavedTerminal) : String ×ₗ WithBot String ×ₗ String :=
  toLex (row.activity, toLex (row.lastClosedAt.elim ⊥ WithBot.some, row.lastOpenedAt))

theorem activity_le_of_rank {a b : SavedTerminal} (h : a.rank ≤ b.rank) : a.activity ≤ b.activity :=
  Prod.Lex.monotone_fst _ _ h

/-- Most recently active first, ties in the order of the index; rows that tie there too are read in rowid order. -/
def before (a b : SavedTerminal) : Prop := b.rank ≤ a.rank

instance : DecidableRel before := fun a b => inferInstanceAs (Decidable (b.rank ≤ a.rank))

end SavedTerminal

namespace Store

def reconcileEnded (s : Store) (info : SessionInfo) (ended : Time) : Except StoreError Store := do
  let (name, cwd) ← safeMetadata info
  match s.rows.find? (SavedTerminal.ofSession info.id) with
  | none =>
    return { rows := s.rows ++ [SavedTerminal.ofEnded s.nextID info name cwd ended], nextID := s.nextID + 1 }
  | some row =>
    if row.settled info.id then return s
    else return { s with
      rows := updateWhere (fun other => other.id = row.id)
        (SavedTerminal.close info.id (encodeTime ended)) s.rows }

def clearMissingActiveSessions (s : Store) (known : List String) : Store :=
  { s with
    rows := updateWhere (fun row => row.activeSessionID ≠ "" ∧ row.activeSessionID ∉ known)
      (fun row => { row with activeSessionID := "" }) s.rows }

def recent (rows : List SavedTerminal) : List SavedTerminal := rows.filter fun row => !row.favorite

/-- The ids of the most recent rows that are not favorites. -/
def kept (rows : List SavedTerminal) : List Nat :=
  (topBy SavedTerminal.before maxRecent (recent rows)).map SavedTerminal.id

def pruneRecent (s : Store) : Store :=
  { s with rows := s.rows.filter fun row => row.favorite || row.id ∈ kept s.rows }

def reconcileSession (s : Store) (info : SessionInfo) : Except StoreError Store :=
  match info.ended with
  | none => .ok s
  | some ended => s.reconcileEnded info ended

def reconcile (s : Store) (sessions : List SessionInfo) : Except StoreError Store := do
  let s ← sessions.foldlM reconcileSession s
  return (s.clearMissingActiveSessions (sessions.map SessionInfo.id)).pruneRecent

def recordEnded (s : Store) (info : SessionInfo) : Except StoreError Store :=
  match info.ended with
  | none => .error .notEnded
  | some ended => do
    let s ← s.reconcileEnded info ended
    return s.pruneRecent

def get (s : Store) (id : Nat) : Except StoreError SavedTerminal :=
  match findRow SavedTerminal.id id s.rows with
  | none => .error .notFound
  | some row => .ok row

def enforceFavoriteLimit (s : Store) : Except StoreError Unit :=
  if (s.rows.filter fun row => row.favorite).length ≥ maxFavorites then .error .favoriteLimit else .ok ()

/-- `SaveSession` up to its commit, and the id of the entry it then reads. -/
def saveSession (s : Store) (info : SessionInfo) (favorite : Bool) (now : Time) :
    Except StoreError (Store × Nat) := do
  let (name, cwd) ← safeMetadata info
  let found := s.rows.find? (SavedTerminal.ofSession info.id)
  if favorite && found.all (fun row => !row.favorite) then s.enforceFavoriteLimit
  match found with
  | none =>
    let row : SavedTerminal :=
      { id := s.nextID, sourceSessionID := info.id, activeSessionID := "", name, cwd, favorite
        createdAt := encodeTime now, updatedAt := encodeTime now, lastOpenedAt := encodeTime now
        lastClosedAt := none }
    return (Store.pruneRecent { rows := s.rows ++ [row], nextID := s.nextID + 1 }, row.id)
  | some entry =>
    return (Store.pruneRecent { s with
      rows := updateWhere (fun row => row.id = entry.id)
        (fun row => { row with favorite, updatedAt := encodeTime now }) s.rows }, entry.id)

/-- `Update` up to its commit. -/
def update (s : Store) (id : Nat) (name : Option String) (favorite : Option Bool) (now : Time) :
    Except StoreError Store := do
  let entry ← s.get id
  if favorite = some true && !entry.favorite then s.enforceFavoriteLimit
  return Store.pruneRecent { s with
    rows := updateWhere (fun row => row.id = id)
      (fun row => { row with
        name := name.getD entry.name
        favorite := favorite.getD entry.favorite
        updatedAt := encodeTime now }) s.rows }

def delete (s : Store) (id : Nat) : Except StoreError Store :=
  if s.rows.any (fun row => row.id = id) then .ok { s with rows := s.rows.filter fun row => row.id ≠ id }
  else .error .notFound

/-- `MarkOpened`; the active links that are set are unique. -/
def markOpened (s : Store) (id : Nat) (sessionID : String) (openedAt : Time) : Except StoreError Store :=
  if !s.rows.any (fun row => row.id = id) then .error .notFound
  else if sessionID ≠ "" ∧ s.rows.any (fun row => row.id ≠ id ∧ row.activeSessionID = sessionID) then
    .error .constraint
  else .ok { s with
    rows := updateWhere (fun row => row.id = id)
      (fun row => { row with
        activeSessionID := sessionID
        lastOpenedAt := encodeTime openedAt
        updatedAt := encodeTime openedAt }) s.rows }

def renameSession (s : Store) (sessionID name : String) (now : Time) : Store :=
  { s with
    rows := updateWhere (SavedTerminal.ofSession sessionID)
      (fun row => { row with name, updatedAt := encodeTime now }) s.rows }

end Store

/-- The calls that write the database. -/
inductive Op
  | reconcile (sessions : List SessionInfo)
  | recordEnded (info : SessionInfo)
  | saveSession (info : SessionInfo) (favorite : Bool) (now : Time)
  | update (id : Nat) (name : Option String) (favorite : Option Bool) (now : Time)
  | delete (id : Nat)
  | markOpened (id : Nat) (sessionID : String) (openedAt : Time)
  | renameSession (sessionID name : String) (now : Time)

/-- What is committed: a call that fails is rolled back. -/
def Store.commit (s : Store) : Except StoreError Store → Store
  | .ok t => t
  | .error _ => s

def Store.apply (s : Store) : Op → Store
  | .reconcile sessions => s.commit (s.reconcile sessions)
  | .recordEnded info => s.commit (s.recordEnded info)
  | .saveSession info favorite now => s.commit ((s.saveSession info favorite now).map Prod.fst)
  | .update id name favorite now => s.commit (s.update id name favorite now)
  | .delete id => s.commit (s.delete id)
  | .markOpened id sessionID openedAt => s.commit (s.markOpened id sessionID openedAt)
  | .renameSession sessionID name now => s.renameSession sessionID name now

end TermLinks.TerminalHistory
