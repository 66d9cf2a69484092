import TermLinks.CoordinatorManager

namespace TermLinks.Coordinator

/-- What `safePrompt` asks of a text. -/
def NulFree (text : String) : Prop := text.toList.any (fun c => c.val = 0) = false

instance (text : String) : Decidable (NulFree text) := inferInstanceAs (Decidable (_ = false))

theorem nulFree_append {a b : String} : NulFree (a ++ b) ↔ NulFree a ∧ NulFree b := by
  simp only [NulFree, String.toList_append, List.any_append, Bool.or_eq_false_iff]

theorem nulFree_ofList {text : List Char} :
    NulFree (String.ofList text) ↔ text.any (fun c => c.val = 0) = false := by
  rw [NulFree, String.toList_ofList]

theorem nulFree_of_subset {a b : String} (sub : a.toList ⊆ b.toList) (plain : NulFree b) : NulFree a := by
  rw [NulFree, List.any_eq_false] at plain ⊢
  exact fun c inside => plain c (sub inside)

theorem dropBytes_subset (excess : Nat) (text : List Char) : dropBytes excess text ⊆ text := by
  induction excess, text using dropBytes.induct with
  | case1 text => simp [dropBytes]
  | case2 excess => simp [dropBytes]
  | case3 excess c rest ih =>
    rw [dropBytes]
    exact fun d inside => List.mem_cons_of_mem c (ih inside)

theorem nulFree_utf8Tail {value : String} (plain : NulFree value) (limit : Nat) :
    NulFree (utf8Tail value limit) := by
  unfold utf8Tail
  split
  next => exact plain
  next =>
    refine nulFree_of_subset ?_ plain
    rw [String.toList_ofList]
    exact dropBytes_subset _ _

theorem nulFree_join {texts : List String} (h : ∀ text ∈ texts, NulFree text) :
    NulFree (String.join texts) := by
  induction texts with
  | nil => decide
  | cons text texts ih =>
    obtain ⟨first, rest⟩ := List.forall_mem_cons.mp h
    rw [String.join_cons]
    exact nulFree_append.mpr ⟨first, ih rest⟩

theorem nulFree_teamRoomContext {messages : List RoomMessage}
    (h : ∀ message ∈ messages, NulFree message.senderID ∧ NulFree message.recipient ∧ NulFree message.body) :
    NulFree (teamRoomContext messages) := by
  have arrow : NulFree " → @" := nulFree_ofList.mpr (by decide)
  have colon : NulFree ":\n" := nulFree_ofList.mpr (by decide)
  have blank : NulFree "\n\n" := nulFree_ofList.mpr (by decide)
  have note : NulFree "[Earlier room discussion omitted to keep context bounded.]\n\n" := nulFree_ofList.mpr (by decide)
  have human : NulFree "Human" := nulFree_ofList.mpr (by decide)
  have at_sign : NulFree "@" := nulFree_ofList.mpr (by decide)
  unfold teamRoomContext
  dsimp only
  refine nulFree_of_subset (sublist_trimSpace _).subset ?_
  generalize shown : (messages.filter fun message => !(message.kind = .status || trimSpace message.body = "")) = kept
  have whole : NulFree (String.join (kept.map fun message =>
      contextSender message ++ " → @" ++ message.recipient ++ ":\n" ++ message.body ++ "\n\n")) := by
    refine nulFree_join ?_
    intro text inside
    obtain ⟨message, member, rfl⟩ := List.mem_map.mp inside
    rw [← shown] at member
    obtain ⟨sender, recipient, body⟩ := h message (List.mem_of_mem_filter member)
    have from_whom : NulFree (contextSender message) := by
      unfold contextSender
      split
      next => exact human
      next => exact nulFree_append.mpr ⟨at_sign, sender⟩
      next => exact sender
    simp only [nulFree_append]
    exact ⟨⟨⟨⟨⟨from_whom, arrow⟩, recipient⟩, colon⟩, body⟩, blank⟩
  split
  next => exact nulFree_append.mpr ⟨note, nulFree_utf8Tail whole _⟩
  next => exact whole

set_option maxRecDepth 2000 in
theorem nulFree_roomPreamble : NulFree roomPreamble := by
  unfold roomPreamble
  simp only [nulFree_append]
  refine ⟨⟨⟨?_, ?_⟩, ?_⟩, ?_⟩
  · exact nulFree_ofList.mpr (by decide)
  · exact nulFree_ofList.mpr (by decide)
  · exact nulFree_ofList.mpr (by decide)
  · exact nulFree_ofList.mpr (by decide)

theorem nulFree_roomPrompt {prompt : String} {messages : List RoomMessage} (own : NulFree prompt)
    (h : ∀ message ∈ messages, NulFree message.senderID ∧ NulFree message.recipient ∧ NulFree message.body) :
    NulFree (roomPrompt prompt messages) := by
  unfold roomPrompt
  dsimp only
  split
  next => exact nulFree_append.mpr ⟨nulFree_append.mpr ⟨own, nulFree_roomPreamble⟩, nulFree_teamRoomContext h⟩
  next => exact own

theorem safePrompt_plain {prompt : String} (plain : NulFree prompt) :
    safePrompt prompt = .ok (String.ofList (prompt.toList.filter keepRune)) :=
  if_neg (by rw [plain]; exact Bool.false_ne_true)

/-- The texts a room prompt is made of hold no NUL. -/
def plainRoom (prompt : String) (messages : List RoomMessage) : Bool :=
  decide (NulFree prompt) && messages.all fun message =>
    decide (NulFree message.senderID) && decide (NulFree message.recipient) && decide (NulFree message.body)

theorem nulFree_of_plainRoom {prompt : String} {messages : List RoomMessage}
    (plain : plainRoom prompt messages = true) :
    NulFree (roomPrompt prompt messages) := by
  obtain ⟨own, others⟩ := Bool.and_eq_true_iff.mp plain
  refine nulFree_roomPrompt (of_decide_eq_true own) fun message member => ?_
  have texts := List.all_eq_true.mp others message member
  simpa only [Bool.and_eq_true, decide_eq_true_eq, and_assoc] using texts

/-- The step of a runner that composes the prompt of its turn, for a room of plain texts: the prompt itself is not
looked at. -/
def composeStep (host : Host) (s : State) (r : Nat) (R : Runner) (workflow : Workflow)
    (stage : Stage) (agent : Agent) : Option State :=
  let messages := s.store.messagesOf workflow.id 500
  if R.cancelled = false ∧ plainRoom stage.prompt messages = true then
    let prompt := String.ofList ((roomPrompt stage.prompt messages).toList.filter keepRune)
    match agentCommand host agent with
    | .error message => some (s.setRunner r { R with pc := .finishStage workflow stage .failed "" message false })
    | .ok command => some (s.setRunner r { R with pc := .start workflow stage agent prompt command })
  else none

theorem runnerStep_of_composeStep {host : Host} {s t : State} {r : Nat} {R : Runner}
    {workflow : Workflow} {stage : Stage} {agent : Agent} (at_messages : R.pc = .messages workflow stage agent)
    (h : composeStep host s r R workflow stage agent = some t) : runnerStep host s r R .ok = some t := by
  unfold composeStep at h
  dsimp only at h
  split at h
  next fit =>
    obtain ⟨live, plain⟩ := fit
    have safe := safePrompt_plain (nulFree_of_plainRoom plain)
    unfold runnerStep
    rw [at_messages]
    dsimp only [advance]
    rw [if_neg (Bool.eq_false_iff.mp live), safe]
    dsimp only
    revert h
    cases agentCommand host agent with
    | error message => exact id
    | ok command => exact id
  next => cases h

/-- `step`, for runs whose rooms hold plain texts: their long prompts need not be computed. -/
def replay (host : Host) (s : State) (label : Label) : Option State :=
  match label with
  | .runner r .ok => s.runners[r]?.bind fun R =>
    match R.pc with
    | .messages workflow stage agent => composeStep host s r R workflow stage agent
    | _ => runnerStep host s r R .ok
  | label => step host s label

theorem step_of_replay {host : Host} {s t : State} {label : Label} (h : replay host s label = some t) :
    step host s label = some t := by
  unfold replay at h
  split at h
  next r =>
    obtain ⟨R, here, h⟩ := Option.bind_eq_some_iff.mp h
    refine Option.bind_eq_some_iff.mpr ⟨R, here, ?_⟩
    split at h
    next at_messages => exact runnerStep_of_composeStep at_messages h
    next => exact h
  next => exact h

end TermLinks.Coordinator
