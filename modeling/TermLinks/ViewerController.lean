import TermLinks.Exec

namespace TermLinks.Viewer

/-- In the unit of the clock. -/
def viewerOpenTimeout : Nat := 15

/-- A socket in `clients`, with the show it was registered for. -/
structure Client where
  connection : Nat
  viewer : Option Nat
deriving DecidableEq

/-- `viewerState`; `owner` is the show that last set `desired`. -/
structure ViewerState where
  desired : Bool
  openingBy : Option Nat
  clients : List Client
  owner : Option Nat
deriving DecidableEq

def ViewerState.new : ViewerState := ⟨false, none, [], none⟩

inductive Request
  | show
  | hide
  | status
  | register (connection : Nat)
  | unregister (connection : Nat)
deriving DecidableEq

inductive Answer
  | visible | opening | hidden | failed | registered | refused | unregistered
deriving DecidableEq

/-- What clears `desired` or closes a window: a hide, the opening timeout of a show, the disconnect of a
socket registered for a show, the failed launch of a show, or a show that finds itself no longer wanted. -/
inductive Cause
  | hide (call : Nat)
  | timeout (viewer : Option Nat)
  | disconnect (viewer : Option Nat)
  | failure (call : Nat)
  | late (call : Nat)
deriving DecidableEq

structure Undo where
  viewer : Nat
  cause : Cause
deriving DecidableEq

/-- Where a request stands after its first section under `v.mu`. -/
inductive Pc
  /-- in the `close` of `expireOpening`, with `v.mu` held -/
  | expiring (window : Option Nat)
  /-- in `launch`; the window, once it is open -/
  | launching (window : Option Nat)
  /-- `launch` has failed, before the lock -/
  | failing
  /-- `launch` has returned, before the lock -/
  | checking
  /-- at its call of `close` -/
  | close (cause : Cause)
  /-- in `Close`, which has forgotten the window it closes -/
  | closing (window : Nat)
  | returned (answer : Answer)
deriving DecidableEq

structure Call where
  request : Request
  pc : Pc
deriving DecidableEq

/-- The controller and the platform for one session. A window is named after the show that opened it. -/
structure State where
  state : Option ViewerState
  locked : Bool
  now : Nat
  windows : List Nat
  handle : Option Nat
  closing : List Nat
  calls : List Call
  undos : List Undo
deriving DecidableEq

def State.initial : State := ⟨none, false, 0, [], none, [], [], []⟩

inductive Label
  | request (request : Request)
  | expired (call : Nat)
  | opened (call : Nat)
  | recorded (call : Nat)
  | launchFails (call : Nat)
  | launchError (call : Nat)
  | check (call : Nat)
  | close (call : Nat)
  | closed (call : Nat)
  | tick (now : Nat)
deriving DecidableEq

/-- The show whose `desired` flag is cleared, if it was set. -/
def ViewerState.cleared (state : ViewerState) (cause : Cause) : List Undo :=
  if state.desired then state.owner.toList.map fun viewer => ⟨viewer, cause⟩ else []

def ViewerState.without (state : ViewerState) (connection : Nat) : ViewerState :=
  { state with clients := state.clients.filter fun client => client.connection ≠ connection }

def ViewerState.register (state : ViewerState) (connection : Nat) : ViewerState :=
  { state with
    openingBy := none
    clients := (state.without connection).clients ++ [⟨connection, state.owner⟩] }

namespace State

/-- `v.state(id)`. -/
def found (s : State) : ViewerState := s.state.getD .new

/-- The condition of `expireOpening`. -/
def expires (s : State) (state : ViewerState) : Bool :=
  state.desired && state.clients = [] && state.openingBy.any (· < s.now)

def addCall (s : State) (request : Request) (pc : Pc) : State :=
  { s with calls := s.calls ++ [⟨request, pc⟩] }

def setPc (s : State) (call : Nat) (c : Call) (pc : Pc) : State :=
  { s with calls := s.calls.set call { c with pc } }

/-- `Close` forgets the recorded window and starts to close it. -/
def takeHandle (s : State) (cause : Cause) : State :=
  { s with
    handle := none
    closing := s.closing ++ s.handle.toList
    undos := s.undos ++ s.handle.toList.map fun window => ⟨window, cause⟩ }

def closeWindow (s : State) (window : Nat) : State :=
  { s with windows := s.windows.filter (· ≠ window) }

/-- `expireOpening` of a state that has expired, up to the end of `close`. -/
def expire (s : State) (request : Request) (state : ViewerState) : State :=
  { ({ s with undos := s.undos ++ state.cleared (.timeout state.owner) }.takeHandle (.timeout state.owner)).addCall
      request (.expiring s.handle) with
    state := some { state with desired := false, openingBy := none }
    locked := true }

/-- A show that launches: no viewer is registered and none is wanted. -/
def launches (state : ViewerState) : Bool := state.clients = [] && !state.desired

def wanted (s : State) (call : Nat) (state : ViewerState) : ViewerState :=
  { state with desired := true, openingBy := some (s.now + viewerOpenTimeout), owner := some call }

end State

open State

/-- The rest of the first section of `show`, for the request at this position. -/
def showSection (s : State) (call : Nat) (state : ViewerState) : ViewerState × Pc :=
  if launches state then (s.wanted call state, .launching none)
  else (state, .returned (if state.clients = [] then .opening else .visible))

/-- A request up to the end of its first section, or to the `close` in it. -/
def begin (s : State) : Request → State
  | .show =>
    if s.expires s.found then s.expire .show s.found
    else { s with state := some (showSection s s.calls.length s.found).1 }.addCall .show
      (showSection s s.calls.length s.found).2
  | .hide =>
    { s with
      state := none
      undos := s.undos ++ s.found.cleared (.hide s.calls.length) }.addCall .hide (.close (.hide s.calls.length))
  | .status =>
    match s.state with
    | none => s.addCall .status (.returned .hidden)
    | some state =>
      if s.expires state then s.expire .status state
      else if state.clients ≠ [] then s.addCall .status (.returned .visible)
      else if state.desired then s.addCall .status (.returned .opening)
      else { s with state := none }.addCall .status (.returned .hidden)
  | .register connection =>
    if s.expires s.found then s.expire (.register connection) s.found
    else if !s.found.desired then
      { s with state := some s.found }.addCall (.register connection) (.returned .refused)
    else
      { s with state := some (s.found.register connection) }.addCall (.register connection) (.returned .registered)
  | .unregister connection =>
    match s.state with
    | none => s.addCall (.unregister connection) (.returned .unregistered)
    | some state =>
      match state.clients.find? fun client => client.connection = connection with
      | none => s.addCall (.unregister connection) (.returned .unregistered)
      | some client =>
        if (state.without connection).clients = [] then
          { s with
            state := none
            undos := s.undos ++ state.cleared (.disconnect client.viewer) }.addCall (.unregister connection)
            (.close (.disconnect client.viewer))
        else
          { s with state := some (state.without connection) }.addCall (.unregister connection)
            (.returned .unregistered)

/-- What a request answers after its `close`. -/
def afterClose : Request → Answer
  | .unregister _ => .unregistered
  | _ => .hidden

/-- A request goes on after `expireOpening` has deleted the state. -/
def expiredStep (s : State) (call : Nat) (c : Call) (window : Option Nat) : State :=
  { (window.elim s s.closeWindow).setPc call c (match c.request with
      | .show => (showSection s call .new).2
      | .register _ => .returned .refused
      | _ => .returned .hidden) with
    locked := false
    state := if c.request = .show then some (showSection s call .new).1 else none }

/-- The error path of `show`. -/
def launchErrorStep (s : State) (call : Nat) (c : Call) : State :=
  { s with
    state := if s.found.clients = [] then none else some { s.found with desired := false, openingBy := none }
    undos := s.undos ++ s.found.cleared (.failure call) }.setPc call c (.returned .failed)

def step (s : State) : Label → Option State
  | .request request => if s.locked then none else some (begin s request)
  | .expired call =>
    match s.calls[call]? with
    | some ⟨request, .expiring window⟩ => some (expiredStep s call ⟨request, .expiring window⟩ window)
    | _ => none
  | .opened call =>
    match s.calls[call]? with
    | some ⟨request, .launching none⟩ =>
      some { s.setPc call ⟨request, .launching none⟩ (.launching (some call)) with windows := s.windows ++ [call] }
    | _ => none
  | .recorded call =>
    match s.calls[call]? with
    | some ⟨request, .launching (some window)⟩ =>
      some { s.setPc call ⟨request, .launching (some window)⟩ .checking with handle := some window }
    | _ => none
  | .launchFails call =>
    match s.calls[call]? with
    | some ⟨request, .launching none⟩ => some (s.setPc call ⟨request, .launching none⟩ .failing)
    | _ => none
  | .launchError call =>
    match s.calls[call]? with
    | some ⟨request, .failing⟩ => if s.locked then none else some (launchErrorStep s call ⟨request, .failing⟩)
    | _ => none
  | .check call =>
    match s.calls[call]? with
    | some ⟨request, .checking⟩ =>
      if s.locked then none
      else some ({ s with state := some s.found }.setPc call ⟨request, .checking⟩
        (if s.found.desired then .returned .opening else .close (.late call)))
    | _ => none
  | .close call =>
    match s.calls[call]? with
    | some ⟨request, .close cause⟩ =>
      some ((s.takeHandle cause).setPc call ⟨request, .close cause⟩
        (s.handle.elim (.returned (afterClose request)) .closing))
    | _ => none
  | .closed call =>
    match s.calls[call]? with
    | some ⟨request, .closing window⟩ =>
      some ((s.closeWindow window).setPc call ⟨request, .closing window⟩ (.returned (afterClose request)))
    | _ => none
  | .tick now => if s.now ≤ now then some { s with now } else none

theorem found_of_some {s : State} {state : ViewerState} (h : s.state = some state) : s.found = state := by
  unfold State.found
  rw [h]
  rfl

theorem showSection_launches {s : State} {k : Nat} {state : ViewerState} (h : launches state = true) :
    showSection s k state = (s.wanted k state, .launching none) := by
  simp [showSection, h]

theorem showSection_returns {s : State} {k : Nat} {state : ViewerState} (h : launches state = false) :
    showSection s k state = (state, .returned (if state.clients = [] then .opening else .visible)) := by
  simp [showSection, h]

/-- A request runs into the timeout, starts a launch, clears the slot for its `close`, or returns. -/
theorem begin_cases (s : State) (request : Request) :
    (s.expires s.found = true ∧ begin s request = s.expire request s.found) ∨
    (request = .show ∧ begin s request =
      { s with state := some (s.wanted s.calls.length s.found) }.addCall .show (.launching none)) ∨
    (∃ cause, (∀ call, cause ≠ .late call) ∧ begin s request =
      { s with state := none, undos := s.undos ++ s.found.cleared cause }.addCall request (.close cause)) ∨
    ∃ state answer, begin s request = { s with state := state }.addCall request (.returned answer) ∧
      ((state.getD .new).desired = true → s.found.desired = true) := by
  cases request with
  | «show» =>
    unfold begin
    dsimp only
    split
    next expires => exact Or.inl ⟨expires, rfl⟩
    next =>
      cases launches : State.launches s.found with
      | true =>
        rw [showSection_launches launches]
        exact Or.inr (Or.inl ⟨rfl, rfl⟩)
      | false =>
        rw [showSection_returns launches]
        exact Or.inr (Or.inr (Or.inr ⟨some s.found, _, rfl, fun wanted => wanted⟩))
  | hide => exact Or.inr (Or.inr (Or.inl ⟨.hide s.calls.length, nofun, rfl⟩))
  | status =>
    unfold begin
    dsimp only
    split
    next => exact Or.inr (Or.inr (Or.inr ⟨s.state, _, rfl, fun wanted => wanted⟩))
    next state there =>
      have found := found_of_some there
      subst found
      split
      next expires => exact Or.inl ⟨expires, rfl⟩
      next =>
        split
        next => exact Or.inr (Or.inr (Or.inr ⟨s.state, _, rfl, fun wanted => wanted⟩))
        next =>
          split
          next => exact Or.inr (Or.inr (Or.inr ⟨s.state, _, rfl, fun wanted => wanted⟩))
          next =>
            refine Or.inr (Or.inr (Or.inr ⟨none, _, rfl, ?_⟩))
            intro wanted
            cases wanted
  | register connection =>
    unfold begin
    dsimp only
    split
    next expires => exact Or.inl ⟨expires, rfl⟩
    next =>
      split
      next => exact Or.inr (Or.inr (Or.inr ⟨some s.found, _, rfl, fun wanted => wanted⟩))
      next => exact Or.inr (Or.inr (Or.inr ⟨some (s.found.register connection), _, rfl, fun wanted => wanted⟩))
  | unregister connection =>
    unfold begin
    dsimp only
    split
    next => exact Or.inr (Or.inr (Or.inr ⟨s.state, _, rfl, fun wanted => wanted⟩))
    next state there =>
      have found := found_of_some there
      subst found
      split
      next => exact Or.inr (Or.inr (Or.inr ⟨s.state, _, rfl, fun wanted => wanted⟩))
      next client registered =>
        split
        next => exact Or.inr (Or.inr (Or.inl ⟨.disconnect client.viewer, nofun, rfl⟩))
        next => exact Or.inr (Or.inr (Or.inr ⟨some (s.found.without connection), _, rfl, fun wanted => wanted⟩))

/-- After the timeout a show launches and any other request returns. -/
theorem expiredStep_calls (s : State) (k : Nat) (request : Request) (window : Option Nat) :
    ∃ pc, (expiredStep s k ⟨request, .expiring window⟩ window).calls = s.calls.set k ⟨request, pc⟩ ∧
      (request = .show ∧ pc = .launching none ∨ request ≠ .show ∧ ∃ answer, pc = .returned answer) := by
  have calls : (window.elim s s.closeWindow).calls = s.calls := by cases window <;> rfl
  cases request with
  | «show» =>
    refine ⟨.launching none, ?_, Or.inl ⟨rfl, rfl⟩⟩
    simp [expiredStep, setPc, calls, showSection, launches, ViewerState.new]
  | register connection => exact ⟨_, by simp only [expiredStep, setPc, calls], Or.inr ⟨nofun, .refused, rfl⟩⟩
  | _ => exact ⟨_, by simp only [expiredStep, setPc, calls], Or.inr ⟨nofun, .hidden, rfl⟩⟩

/-- The windows that are open and that no `Close` is closing. -/
def State.openWindows (s : State) : List Nat := s.windows.filter (· ∉ s.closing)

/-- Still to act on the state or on the recorded window. -/
def Pc.busy : Pc → Bool
  | .launching _ | .failing | .checking | .close _ => true
  | .expiring _ | .closing _ | .returned _ => false

/-- No earlier request of the session is still to act. -/
def State.Settled (s : State) : Prop := ∀ c ∈ s.calls, c.pc.busy = false

instance (s : State) : Decidable s.Settled := inferInstanceAs (Decidable (∀ c ∈ s.calls, c.pc.busy = false))

/-- A show launches only once every earlier request has acted. -/
def State.Exclusive (s : State) : Label → Prop
  | .request .show => s.expires s.found = false → launches s.found = true → s.Settled
  | .expired call => (s.calls[call]?).map Call.request = some .show → s.Settled
  | _ => True

instance : (s : State) → (label : Label) → Decidable (s.Exclusive label)
  | s, .request .show =>
    inferInstanceAs (Decidable (s.expires s.found = false → launches s.found = true → s.Settled))
  | s, .expired call => inferInstanceAs (Decidable ((s.calls[call]?).map Call.request = some .show → s.Settled))
  | _, .request .hide | _, .request .status | _, .request (.register _) | _, .request (.unregister _)
  | _, .opened _ | _, .recorded _ | _, .launchFails _ | _, .launchError _ | _, .check _ | _, .close _
  | _, .closed _ | _, .tick _ => isTrue trivial

end TermLinks.Viewer
