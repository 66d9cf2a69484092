import TermLinks.Double
import TermLinks.Octets

namespace TermLinks.TerminalReply

def maxHeldTerminalReplyBytes : Nat := 4096

structure TerminalReplyGate where
  generation : Double
  replaying : Bool
  held : Option Bytes
deriving DecidableEq

namespace TerminalReplyGate

def new : TerminalReplyGate := ⟨.finite 0, false, none⟩

def beginSnapshot (gate : TerminalReplyGate) : TerminalReplyGate × Double :=
  (⟨gate.generation.add (.finite 1), true, none⟩, gate.generation.add (.finite 1))

/-- Holds a reply back while a snapshot is replayed, and lets it through otherwise. -/
def receive (gate : TerminalReplyGate) (data : Bytes) : TerminalReplyGate × Option Bytes :=
  if gate.replaying = false then (gate, some data)
  else if 0 < data.length ∧ data.length ≤ maxHeldTerminalReplyBytes then ({ gate with held := some data }, none)
  else (gate, none)

def finishSnapshot (gate : TerminalReplyGate) (generation : Double) : TerminalReplyGate × Option Bytes :=
  if gate.replaying = false ∨ generation.strictEquals gate.generation = false then (gate, none)
  else ({ gate with replaying := false, held := none }, gate.held)

def reset (gate : TerminalReplyGate) : TerminalReplyGate := ⟨gate.generation.add (.finite 1), false, none⟩

end TerminalReplyGate

inductive Call
  | beginSnapshot
  | receive (data : Bytes)
  | finishSnapshot (generation : Double)
  | reset
deriving DecidableEq

namespace Call

def step (gate : TerminalReplyGate) : Call → TerminalReplyGate
  | .beginSnapshot => gate.beginSnapshot.1
  | .receive data => (gate.receive data).1
  | .finishSnapshot generation => (gate.finishSnapshot generation).1
  | .reset => gate.reset

/-- A received reply small enough to be held. -/
def reply : Call → Option Bytes
  | .receive data => if 1 ≤ data.length ∧ data.length ≤ 4096 then some data else none
  | .beginSnapshot | .finishSnapshot _ | .reset => none

end Call

/-- The gate behind the given calls. -/
def after (calls : List Call) : TerminalReplyGate := calls.foldl Call.step .new

/-- The last reply of 1 to 4096 bytes among the calls. -/
def lastReply (calls : List Call) : Option Bytes := (calls.filterMap Call.reply).getLast?

/-- The latest snapshot has the generation and is still being replayed; `since` are the calls since it began. -/
structure Replaying (calls : List Call) (generation : Double) (since : List Call) : Prop where
  begun : ∃ before, calls = before ++ .beginSnapshot :: since ∧ (after before).beginSnapshot.2 = generation
  latest : .beginSnapshot ∉ since
  running : .reset ∉ since
  unfinished : .finishSnapshot generation ∉ since

section

variable {calls since : List Call} {generation : Double}

theorem after_snoc (calls : List Call) (call : Call) : after (calls ++ [call]) = call.step (after calls) := by
  simp [after]

/-- A generation is a number, so it equals itself. -/
theorem generation_ne_nan (calls : List Call) : (after calls).generation ≠ .nan := by
  induction calls using List.reverseRecOn with
  | nil => exact nofun
  | append_singleton calls call ih =>
    rw [after_snoc]
    cases call with
    | beginSnapshot => exact Double.add_finite_ne_nan ih 1
    | reset => exact Double.add_finite_ne_nan ih 1
    | receive data =>
      simp only [Call.step, TerminalReplyGate.receive]
      split
      next => exact ih
      next => split <;> exact ih
    | finishSnapshot other =>
      simp only [Call.step, TerminalReplyGate.finishSnapshot]
      split <;> exact ih

theorem lastReply_snoc (call : Call) : lastReply (since ++ [call]) = call.reply.or (lastReply since) := by
  unfold lastReply
  rw [List.filterMap_append]
  cases held : call.reply with
  | none => simp [held]
  | some data => simp [held]

/-- What a call that neither begins, resets nor finishes the replay does to a replaying gate. -/
theorem step_replaying {held : Option Bytes} {call : Call} (latest : call ≠ .beginSnapshot)
    (running : call ≠ .reset) (unfinished : call ≠ .finishSnapshot generation) :
    call.step ⟨generation, true, held⟩ = ⟨generation, true, call.reply.or held⟩ := by
  cases call with
  | beginSnapshot => exact absurd rfl latest
  | reset => exact absurd rfl running
  | receive data =>
    simp only [Call.step, TerminalReplyGate.receive, Call.reply]
    rw [if_neg (by simp)]
    by_cases small : 1 ≤ data.length ∧ data.length ≤ 4096
    · have fits : 0 < data.length ∧ data.length ≤ maxHeldTerminalReplyBytes := small
      rw [if_pos fits, if_pos small]
      rfl
    · have unfit : ¬(0 < data.length ∧ data.length ≤ maxHeldTerminalReplyBytes) := small
      rw [if_neg unfit, if_neg small]
      rfl
  | finishSnapshot other =>
    have apart : other ≠ generation := fun same => unfinished (congrArg _ same)
    have differs : other.strictEquals generation = false := by simp [Double.strictEquals, apart]
    simp only [Call.step, TerminalReplyGate.finishSnapshot, Call.reply]
    rw [if_pos (Or.inr differs)]
    rfl

/-- During a replay the gate holds the last small reply since the snapshot began. -/
theorem after_replaying (h : Replaying calls generation since) :
    after calls = ⟨generation, true, lastReply since⟩ := by
  obtain ⟨⟨before, rfl, begun⟩, latest, running, unfinished⟩ := h
  induction since using List.reverseRecOn with
  | nil =>
    rw [after_snoc, ← begun]
    rfl
  | append_singleton since call ih =>
    simp only [List.mem_append, List.mem_singleton, not_or] at latest running unfinished
    have earlier := ih latest.1 running.1 unfinished.1
    rw [← List.cons_append, ← List.append_assoc, after_snoc, earlier, lastReply_snoc]
    exact step_replaying (Ne.symm latest.2) (Ne.symm running.2) (Ne.symm unfinished.2)

theorem replaying_snoc {call : Call} (h : Replaying calls generation since) (latest : call ≠ .beginSnapshot)
    (running : call ≠ .reset) (unfinished : call ≠ .finishSnapshot generation) :
    Replaying (calls ++ [call]) generation (since ++ [call]) := by
  obtain ⟨before, rfl, begun⟩ := h.begun
  refine ⟨⟨before, by simp, begun⟩, ?_, ?_, ?_⟩
  · simpa using ⟨h.latest, Ne.symm latest⟩
  · simpa using ⟨h.running, Ne.symm running⟩
  · simpa using ⟨h.unfinished, Ne.symm unfinished⟩

/-- The gate replays only what a snapshot began and nothing has ended. -/
theorem exists_replaying (replaying : (after calls).replaying = true) :
    ∃ since, Replaying calls (after calls).generation since := by
  induction calls using List.reverseRecOn with
  | nil => cases replaying
  | append_singleton calls call ih =>
    rw [after_snoc] at replaying
    cases call with
    | beginSnapshot =>
      rw [after_snoc]
      exact ⟨[], ⟨calls, rfl, rfl⟩, List.not_mem_nil, List.not_mem_nil, List.not_mem_nil⟩
    | reset => cases replaying
    | receive data =>
      have same : ((after calls).receive data).1.replaying = (after calls).replaying ∧
          ((after calls).receive data).1.generation = (after calls).generation := by
        unfold TerminalReplyGate.receive
        split
        next => exact ⟨rfl, rfl⟩
        next => split <;> exact ⟨rfl, rfl⟩
      obtain ⟨since, earlier⟩ := ih (same.1.symm.trans replaying)
      refine ⟨since ++ [.receive data], ?_⟩
      rw [after_snoc, Call.step, same.2]
      exact replaying_snoc earlier nofun nofun nofun
    | finishSnapshot other =>
      rw [after_snoc]
      simp only [Call.step, TerminalReplyGate.finishSnapshot] at replaying ⊢
      split at replaying
      next idle =>
        rw [if_pos idle]
        have still : (after calls).replaying = true := replaying
        obtain ⟨since, earlier⟩ := ih still
        have differs := idle.resolve_left (by rw [still]; exact nofun)
        have unfinished : Call.finishSnapshot other ≠ .finishSnapshot (after calls).generation := by
          intro same
          rw [Call.finishSnapshot.injEq] at same
          have equal := Double.strictEquals_iff.mpr ⟨generation_ne_nan calls, rfl⟩
          rw [same, equal] at differs
          cases differs
        refine ⟨since ++ [.finishSnapshot other], ?_⟩
        refine replaying_snoc earlier ?_ ?_ unfinished
        · exact nofun
        · exact nofun
      next => cases replaying

theorem not_replaying (idle : ¬∃ generation since, Replaying calls generation since) :
    (after calls).replaying = false := by
  rw [Bool.eq_false_iff]
  exact fun replaying => idle ⟨_, exists_replaying replaying⟩

/-- A finish of anything but the replayed snapshot does nothing. -/
theorem finish_of_not_replaying (idle : ¬∃ since, Replaying calls generation since) :
    (after calls).finishSnapshot generation = (after calls, none) := by
  unfold TerminalReplyGate.finishSnapshot
  rw [if_pos]
  by_cases replaying : (after calls).replaying = true
  · refine Or.inr ?_
    have apart : generation ≠ (after calls).generation := by
      rintro rfl
      exact idle (exists_replaying replaying)
    simp [Double.strictEquals, apart]
  · exact Or.inl (Bool.not_eq_true _ ▸ replaying)

theorem finish_of_replaying (h : Replaying calls generation since) :
    (after calls).finishSnapshot generation = (⟨generation, false, none⟩, lastReply since) := by
  have gate := after_replaying h
  have number := generation_ne_nan calls
  rw [gate] at number ⊢
  have same : generation.strictEquals generation = true := by simpa [Double.strictEquals] using number
  simp [TerminalReplyGate.finishSnapshot, same]

/-- Until another snapshot begins, an idle gate stays idle. -/
theorem idle_of_no_begin {more : List Call} (idle : (after calls).replaying = false)
    (h : .beginSnapshot ∉ more) :
    (after (calls ++ more)).replaying = false := by
  induction more using List.reverseRecOn with
  | nil => rwa [List.append_nil]
  | append_singleton more call ih =>
    simp only [List.mem_append, List.mem_singleton, not_or] at h
    have earlier := ih h.1
    rw [← List.append_assoc, after_snoc]
    cases call with
    | beginSnapshot => exact absurd rfl h.2
    | reset => rfl
    | receive data => simp [Call.step, TerminalReplyGate.receive, earlier]
    | finishSnapshot other => simp [Call.step, TerminalReplyGate.finishSnapshot, earlier]

end

/-- Whatever was called in whatever order, data pass through unless a snapshot is being replayed, a finish of the
replayed snapshot gives the last small reply since it began and any other does nothing; after a reply, nothing is
given until another snapshot begins. -/
theorem replayed_snapshots_send_one_reply (calls : List Call) :
    ((¬∃ generation since, Replaying calls generation since) →
      ∀ data, (after calls).receive data = (after calls, some data)) ∧
    ((∃ generation since, Replaying calls generation since) → ∀ data, ((after calls).receive data).2 = none) ∧
    (∀ generation since, Replaying calls generation since →
      ((after calls).finishSnapshot generation).2 = lastReply since) ∧
    (∀ generation, (¬∃ since, Replaying calls generation since) →
      (after calls).finishSnapshot generation = (after calls, none)) ∧
    ∀ generation reply more, ((after calls).finishSnapshot generation).2 = some reply →
    .beginSnapshot ∉ more →
      ∀ other, ((after (calls ++ .finishSnapshot generation :: more)).finishSnapshot other).2 = none := by
  refine ⟨?_, ?_, ?_, fun generation => finish_of_not_replaying, ?_⟩
  · intro idle data
    simp [TerminalReplyGate.receive, not_replaying idle]
  · rintro ⟨generation, since, h⟩ data
    rw [after_replaying h]
    simp only [TerminalReplyGate.receive]
    split
    next idle => cases idle
    next => split <;> rfl
  · intro generation since h
    rw [finish_of_replaying h]
  · intro generation reply more given none_begins other
    have replaying : ∃ since, Replaying calls generation since := by
      by_contra idle
      rw [finish_of_not_replaying idle] at given
      cases given
    obtain ⟨since, h⟩ := replaying
    have ended : (after (calls ++ [.finishSnapshot generation])).replaying = false := by
      rw [after_snoc, Call.step, finish_of_replaying h]
    have idle := idle_of_no_begin ended none_begins
    rw [List.append_assoc, List.singleton_append] at idle
    simp [TerminalReplyGate.finishSnapshot, idle]

/-- A late finish of a superseded snapshot gives nothing, that of the current one its last reply. -/
theorem replayed_snapshots_send_one_reply_superseded :
    Replaying [.beginSnapshot, .receive [1], .beginSnapshot, .receive [2], .receive [],
      .finishSnapshot (.finite 1)]
      (.finite 2) [.receive [2], .receive [], .finishSnapshot (.finite 1)] ∧
    ((after [.beginSnapshot, .receive [1], .beginSnapshot, .receive [2], .receive [],
      .finishSnapshot (.finite 1)]).finishSnapshot (.finite 2)).2 = some [2] := by
  have replaying : Replaying
      [.beginSnapshot, .receive [1], .beginSnapshot, .receive [2], .receive [], .finishSnapshot (.finite 1)]
      (.finite 2) [.receive [2], .receive [], .finishSnapshot (.finite 1)] :=
    ⟨⟨[.beginSnapshot, .receive [1]], rfl, by decide +kernel⟩, by decide, by decide, by decide⟩
  exact ⟨replaying, (replayed_snapshots_send_one_reply _).2.2.1 _ _ replaying⟩

end TermLinks.TerminalReply
