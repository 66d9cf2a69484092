import Mathlib.Algebra.Group.Int.Defs
import Mathlib.Data.List.AList
import TermLinks.Octets

namespace TermLinks.Connector

def maxUploadSize : Int := 100 * 2 ^ 20

def maxUploadChunk : Nat := 192 * 2 ^ 10

def maxUploadNameBytes : Nat := 240

abbrev Table := AList fun _ : String => Nat

structure FileUpload where
  name : String
  size : Int
  content : Bytes
  closed : Bool
deriving DecidableEq

/-- Everything written so far counts as received. -/
def FileUpload.received (upload : FileUpload) : Int := upload.content.length

inductive Item
  | terminal | desktop | capture
deriving DecidableEq

/-- How a temporary file ended: removed, or linked to its name. -/
inductive Fate
  | removed | finalized
deriving DecidableEq

/-- A connection or capture until its `Close`, or an upload until its temporary file is gone. -/
inductive Resource
  | connection (item : Item) (closed : Bool)
  | upload (upload : FileUpload) (fate : Option Fate)
deriving DecidableEq

def Resource.released : Resource → Bool
  | .connection _ closed => closed
  | .upload _ fate => fate.isSome

/-- `browserChannel` with the resources its handlers opened; the maps lead to positions in `resources`. `taken`
is set once `closeChannel` has swapped the maps. -/
structure BrowserChannel where
  id : String
  authenticated : Bool
  receiveSeq : UInt32
  sockets : Table
  desktops : Table
  windows : Table
  uploads : Table
  resources : List Resource
  taken : Bool

/-- The maps with a connection or capture and a goroutine that reads it. -/
inductive Line
  | terminal | desktop | window
deriving DecidableEq

inductive View
  | desktop | window
deriving DecidableEq

def View.line : View → Line
  | .desktop => .desktop
  | .window => .window

def View.item : View → Item
  | .desktop => .desktop
  | .window => .capture

inductive Effect
  | httpRequest | create | terminal | desktop | windowList | capture | upload
deriving DecidableEq

def View.effect : View → Effect
  | .desktop => .desktop
  | .window => .capture

/-- Where the handler of an inner message stands; the string is the id of the message, `r` the resource at hand. -/
inductive Handler
  | httpRequest (method path : String)
  | listWindows
  | dialTerminal (id : String)
  | registerTerminal (id : String) (r : Nat)
  | announceTerminal (id : String) (r : Nat)
  | openView (view : View) (id : String)
  | acquireView (view : View) (id : String)
  | registerView (view : View) (id : String) (r : Nat)
  | announceView (view : View) (id : String) (r : Nat)
  /-- `readLocalSocket`, `readDesktop`, `streamWindow` -/
  | stream (line : Line) (id : String) (r : Nat)
  /-- `removeLocalSocket`, `removeDesktop`, `removeWindow` -/
  | remove (line : Line) (id : String) (r : Nat)
  | release (r : Nat)
  /-- `writeLocalSocket`, `writeDesktop` with input that fits or does not -/
  | write (line : Line) (id : String) (fits : Bool)
  /-- `closeLocalSocket`, `closeDesktop`, `closeWindow` -/
  | closeLine (line : Line) (id : String)
  | shut (line : Line) (r : Nat)
  | startUpload (id name : String) (size : Int)
  | createTemp (id name : String) (size : Int)
  | registerUpload (id : String) (r : Nat)
  | chunk (id : String) (offset : Int) (data : Option Bytes)
  | writeChunk (id : String) (r : Nat) (offset : Int) (data : Option Bytes)
  /-- `removeFileUpload` -/
  | dropUpload (id : String) (r : Nat)
  /-- `cleanupFileUpload` -/
  | cleanup (r : Nat)
  | finishUpload (id : String)
  | syncFile (r : Nat)
  | closeFile (r : Nat)
  /-- `reserveUploadPath` -/
  | reserve (r : Nat)
  | cancelUpload (id : String)
deriving DecidableEq

/-- One step of a handler: the channel after it, what it did outside, the goroutine it started and where it goes on. -/
structure Move where
  channel : BrowserChannel
  effect : Option Effect
  spawn : Option Handler
  next : Option Handler

/-- `filepath.Base` on a path with forward slashes. -/
def filepathBase (path : String) : String :=
  if path = "" then "."
  else
    let trimmed := path.toList.reverse.dropWhile (· = '/')
    if trimmed = [] then "/" else String.ofList (trimmed.takeWhile (· ≠ '/')).reverse

/-- `unicode.IsControl`. -/
def isControl (character : Char) : Bool :=
  character.toNat < 0x20 || (0x7f ≤ character.toNat && character.toNat < 0xa0)

def validUploadName (name : String) : Bool :=
  !(name = "" || name.utf8ByteSize > maxUploadNameBytes || name = "." || name = "..") &&
    !(filepathBase name ≠ name || name.toList.any fun c => c = '/' || c = '\\') &&
    name.toList.all fun c => !isControl c

namespace BrowserChannel

def lines (channel : BrowserChannel) : Line → Table
  | .terminal => channel.sockets
  | .desktop => channel.desktops
  | .window => channel.windows

def setLines (channel : BrowserChannel) (table : Table) : Line → BrowserChannel
  | .terminal => { channel with sockets := table }
  | .desktop => { channel with desktops := table }
  | .window => { channel with windows := table }

def setResource (channel : BrowserChannel) (r : Nat) (resource : Resource) : BrowserChannel :=
  { channel with resources := channel.resources.set r resource }

/-- `Close` of a connection or capture. -/
def close (channel : BrowserChannel) (r : Nat) : BrowserChannel :=
  match channel.resources[r]? with
  | some (.connection item _) => channel.setResource r (.connection item true)
  | _ => channel

def acquire (channel : BrowserChannel) (resource : Resource) : BrowserChannel :=
  { channel with resources := channel.resources ++ [resource] }

/-- `len(channel.desktops) != 0 || len(channel.windows) != 0`. -/
def viewing (channel : BrowserChannel) : Bool :=
  channel.desktops.entries.length ≠ 0 || channel.windows.entries.length ≠ 0

def uploadsFull (channel : BrowserChannel) (id : String) : Bool :=
  (channel.uploads.lookup id).isSome || channel.uploads.entries.length ≥ 2

def upload (channel : BrowserChannel) (r : Nat) : Option FileUpload :=
  match channel.resources[r]? with
  | some (.upload upload _) => some upload
  | _ => none

def setUpload (channel : BrowserChannel) (r : Nat) (upload : FileUpload) : BrowserChannel :=
  match channel.resources[r]? with
  | some (.upload _ fate) => channel.setResource r (.upload upload fate)
  | _ => channel

/-- `cleanupFileUpload`; removing a file that is gone changes nothing. -/
def cleanup (channel : BrowserChannel) (r : Nat) : BrowserChannel :=
  match channel.resources[r]? with
  | some (.upload upload fate) =>
    channel.setResource r (.upload { upload with closed := true } (fate.or (some .removed)))
  | _ => channel

def finalize (channel : BrowserChannel) (r : Nat) : BrowserChannel :=
  match channel.resources[r]? with
  | some (.upload upload fate) => channel.setResource r (.upload upload (fate.or (some .finalized)))
  | _ => channel

/-- `Close` of a connection in `closeChannel` and its kin; a window is only cancelled there. -/
def shut (channel : BrowserChannel) (line : Line) (r : Nat) : BrowserChannel :=
  match line with
  | .terminal | .desktop => channel.close r
  | .window => channel

end BrowserChannel

def Move.stop (channel : BrowserChannel) : Move := ⟨channel, none, none, none⟩

def Move.goto (channel : BrowserChannel) (next : Handler) : Move := ⟨channel, none, none, some next⟩

/-- The condition on a chunk in `writeFileUpload`. -/
def FileUpload.admits (upload : FileUpload) (offset : Int) (data : Bytes) : Bool :=
  !upload.closed && data.length ≤ maxUploadChunk && offset = upload.received &&
    upload.received + data.length ≤ upload.size

/-- One step of a handler. `ok` is the answer of whatever it calls (a dial, an `Open`, a send, a file operation,
the checks outside the channel); `reachable` says that its channel id is in the table, without which no send
succeeds. -/
def Handler.move (channel : BrowserChannel) (reachable ok : Bool) : Handler → Move
  | .httpRequest method path =>
    if !ok then .stop channel
    else ⟨channel, some (if method = "POST" ∧ path = "/api/sessions" then .create else .httpRequest), none, none⟩
  | .listWindows => ⟨channel, if ok then some .windowList else none, none, none⟩
  | .dialTerminal id =>
    if ok then
      ⟨channel.acquire (.connection .terminal false), some .terminal, none,
        some (.registerTerminal id channel.resources.length)⟩
    else ⟨channel, some .terminal, none, none⟩
  | .registerTerminal id r =>
    let replaced := match channel.sockets.lookup id with
      | some previous => channel.close previous
      | none => channel
    .goto { replaced with sockets := channel.sockets.insert id r } (.announceTerminal id r)
  | .announceTerminal id r => ⟨channel, none, some (.stream .terminal id r), none⟩
  | .openView view id => if !ok || channel.viewing then .stop channel else .goto channel (.acquireView view id)
  | .acquireView view id =>
    if ok then
      ⟨channel.acquire (.connection view.item false), some view.effect, none,
        some (.registerView view id channel.resources.length)⟩
    else ⟨channel, some view.effect, none, none⟩
  | .registerView view id r =>
    if channel.viewing then .goto channel (.release r)
    else .goto (channel.setLines ((channel.lines view.line).insert id r) view.line) (.announceView view id r)
  | .announceView view id r =>
    match view with
    | .desktop =>
      if ok && reachable then ⟨channel, none, some (.stream .desktop id r), none⟩
      else .goto channel (.remove .desktop id r)
    | .window =>
      if ok && reachable then .goto channel (.stream .window id r)
      else .goto channel (.closeLine .window id)
  | .stream line id r => .goto channel (.remove line id r)
  | .remove line id r =>
    .goto (if (channel.lines line).lookup id = some r then channel.setLines ((channel.lines line).erase id) line
      else channel) (.release r)
  | .release r => .stop (channel.close r)
  | .write line id fits =>
    if ((channel.lines line).lookup id).isNone || (fits && ok) then .stop channel
    else .goto channel (.closeLine line id)
  | .closeLine line id =>
    match (channel.lines line).lookup id with
    | some r => .goto (channel.setLines ((channel.lines line).erase id) line) (.shut line r)
    | none => .stop channel
  | .shut line r => .stop (channel.shut line r)
  | .startUpload id name size =>
    if !validUploadName name || size < 0 || size > maxUploadSize || !ok || channel.uploadsFull id then .stop channel
    else .goto channel (.createTemp id name size)
  | .createTemp id name size =>
    if ok then
      ⟨channel.acquire (.upload ⟨name, size, [], false⟩ none), some .upload, none,
        some (.registerUpload id channel.resources.length)⟩
    else ⟨channel, some .upload, none, none⟩
  | .registerUpload id r =>
    if channel.uploadsFull id then .goto channel (.cleanup r)
    else .stop { channel with uploads := channel.uploads.insert id r }
  | .chunk id offset data =>
    match channel.uploads.lookup id with
    | some r => .goto channel (.writeChunk id r offset data)
    | none => .stop channel
  | .writeChunk id r offset data =>
    match channel.upload r, data with
    | some upload, some data =>
      if upload.admits offset data && ok then
        .stop (channel.setUpload r { upload with content := upload.content ++ data })
      else .goto channel (.dropUpload id r)
    | _, _ => .goto channel (.dropUpload id r)
  | .dropUpload id r =>
    .goto (if channel.uploads.lookup id = some r then { channel with uploads := channel.uploads.erase id }
      else channel) (.cleanup r)
  | .cleanup r => .stop (channel.cleanup r)
  | .finishUpload id =>
    match channel.uploads.lookup id with
    | some r => .goto { channel with uploads := channel.uploads.erase id } (.syncFile r)
    | none => .stop channel
  | .syncFile r =>
    match channel.upload r with
    | some upload =>
      if upload.closed || upload.received ≠ upload.size || !ok then .goto channel (.cleanup r)
      else .goto channel (.closeFile r)
    | none => .stop channel
  | .closeFile r =>
    match channel.upload r with
    | some upload =>
      .goto (channel.setUpload r { upload with closed := true }) (if ok then .reserve r else .cleanup r)
    | none => .stop channel
  | .reserve r => if ok then .stop (channel.finalize r) else .goto channel (.cleanup r)
  | .cancelUpload id =>
    match channel.uploads.lookup id with
    | some r => .goto { channel with uploads := channel.uploads.erase id } (.cleanup r)
    | none => .stop channel

/-- The parts of a channel that no handler writes. -/
structure SameLink (channel other : BrowserChannel) : Prop where
  id : other.id = channel.id
  authenticated : other.authenticated = channel.authenticated
  receiveSeq : other.receiveSeq = channel.receiveSeq
  taken : other.taken = channel.taken

section

variable {channel : BrowserChannel}

theorem SameLink.refl (channel : BrowserChannel) : SameLink channel channel := ⟨rfl, rfl, rfl, rfl⟩

theorem link_setLines (channel : BrowserChannel) (table : Table) (line : Line) :
    SameLink channel (channel.setLines table line) := by
  cases line <;> exact ⟨rfl, rfl, rfl, rfl⟩

theorem link_close (channel : BrowserChannel) (r : Nat) : SameLink channel (channel.close r) := by
  unfold BrowserChannel.close
  split <;> exact ⟨rfl, rfl, rfl, rfl⟩

theorem link_setUpload (channel : BrowserChannel) (r : Nat) (upload : FileUpload) :
    SameLink channel (channel.setUpload r upload) := by
  unfold BrowserChannel.setUpload
  split <;> exact ⟨rfl, rfl, rfl, rfl⟩

theorem link_cleanup (channel : BrowserChannel) (r : Nat) : SameLink channel (channel.cleanup r) := by
  unfold BrowserChannel.cleanup
  split <;> exact ⟨rfl, rfl, rfl, rfl⟩

theorem link_finalize (channel : BrowserChannel) (r : Nat) : SameLink channel (channel.finalize r) := by
  unfold BrowserChannel.finalize
  split <;> exact ⟨rfl, rfl, rfl, rfl⟩

theorem link_shut (channel : BrowserChannel) (line : Line) (r : Nat) :
    SameLink channel (channel.shut line r) := by
  cases line with
  | terminal => exact link_close channel r
  | desktop => exact link_close channel r
  | window => exact SameLink.refl channel

theorem link_move (channel : BrowserChannel) (reachable ok : Bool) (handler : Handler) :
    SameLink channel (handler.move channel reachable ok).channel := by
  have same := SameLink.refl channel
  cases handler with
  | registerTerminal id r =>
    simp only [Handler.move]
    split
    next previous there =>
      have closed := link_close channel previous
      exact ⟨closed.id, closed.authenticated, closed.receiveSeq, closed.taken⟩
    next => exact ⟨rfl, rfl, rfl, rfl⟩
  | registerView view id r =>
    simp only [Handler.move]
    split
    next => exact same
    next => exact link_setLines channel _ _
  | announceView view id r =>
    simp only [Handler.move]
    cases view <;> dsimp only <;> split <;> exact same
  | remove line id r =>
    simp only [Handler.move]
    split
    next => exact link_setLines channel _ _
    next => exact same
  | closeLine line id =>
    simp only [Handler.move]
    split
    next => exact link_setLines channel _ _
    next => exact same
  | writeChunk id r offset data =>
    simp only [Handler.move]
    split
    next =>
      split
      next => exact link_setUpload channel _ _
      next => exact same
    next => exact same
  | dropUpload id r =>
    simp only [Handler.move]
    split
    next => exact ⟨rfl, rfl, rfl, rfl⟩
    next => exact same
  | syncFile r =>
    simp only [Handler.move]
    split
    next => split <;> exact same
    next => exact same
  | closeFile r =>
    simp only [Handler.move]
    split
    next => exact link_setUpload channel _ _
    next => exact same
  | reserve r =>
    simp only [Handler.move]
    split
    next => exact link_finalize channel r
    next => exact same
  | release r => exact link_close channel r
  | shut line r => exact link_shut channel line r
  | cleanup r => exact link_cleanup channel r
  | listWindows | announceTerminal | stream => exact same
  | httpRequest | dialTerminal | openView | acquireView | write | startUpload | createTemp | registerUpload | chunk
  | finishUpload | cancelUpload =>
    simp only [Handler.move]
    split <;> exact ⟨rfl, rfl, rfl, rfl⟩

end

end TermLinks.Connector
