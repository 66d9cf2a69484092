import TermLinks.CoordinatorManager
import TermLinks.LineDiscipline
import TermLinks.TimestampParse

namespace TermLinks.Coordinator

open Tty (Terminal Input lineFeed)

/-- The largest message `Session.Write` takes. -/
def maxInputMessage : Nat := 64 * 1024

/-- `Write` of a session that is running. -/
def sessionWrite (interpret : Terminal → UInt8 → Terminal) (tty : Terminal) (data : Bytes) :
    Except String Terminal :=
  if data = [] then .ok tty
  else if data.length > maxInputMessage then .error "input message is too large"
  else .ok (tty.write interpret data)

def maxPromptSlice : Nat := 32 * 1024

/-- The loop of `writePrompt`. -/
def writeSlices (interpret : Terminal → UInt8 → Terminal) (tty : Terminal) (data : Bytes) :
    Except String Terminal :=
  if data = [] then .ok tty
  else do
    let tty ← sessionWrite interpret tty (data.take maxPromptSlice)
    writeSlices interpret tty (data.drop maxPromptSlice)
termination_by data.length
decreasing_by
  simp only [maxPromptSlice, List.length_drop]
  have := List.length_pos_iff.mpr ‹_›
  omega

def promptMagic : String := "TERMLINKS_AGENT_PROMPT_V1"

/-- `fmt.Sprintf("TERMLINKS_AGENT_PROMPT_V1 %d\n", length)`. -/
def promptHeader (length : Nat) : String := promptMagic ++ " " ++ toString length ++ "\n"

def writePrompt (interpret : Terminal → UInt8 → Terminal) (tty : Terminal) (agentID prompt : String) :
    Except String Terminal := do
  let data := utf8 (prompt ++ "\n")
  let data := if agentID = "claude" then utf8 (promptHeader data.length) ++ data else data
  let tty ← writeSlices interpret tty data
  if agentID = "claude" then return tty
  sessionWrite interpret tty [4]

/-- A string of bytes as text; what is not UTF-8 is not. -/
def textOf (bytes : Bytes) : String :=
  match String.fromUTF8? ⟨bytes.toArray⟩ with
  | some text => text
  | none => String.ofList (bytes.map fun b => if b < 0x80 then Char.ofNat b.toNat else '\ufffd')

/-- Whether a number has a minus sign, and what follows its sign. -/
def cutSign : List Char → Bool × List Char
  | '-' :: rest => (true, rest)
  | '+' :: rest => (false, rest)
  | rest => (false, rest)

/-- `strconv.Atoi`. -/
def atoi (text : String) : Option Int :=
  let (negative, digits) := cutSign text.toList
  if digits = [] ∨ digits.all Char.isDigit = false then none
  else
    let n : Int := if negative then -(parseDigits digits : Int) else parseDigits digits
    if -9223372036854775808 ≤ n ∧ n ≤ 9223372036854775807 then some n else none

def maximumPromptBytes : Int := 128 * 1024

/-- What becomes of reading a prompt: one can wait for bytes that never come. -/
inductive PromptRead
  | prompt (bytes : Bytes)
  | failed (error : String)
  | waiting
deriving DecidableEq

/-- `runAgentStdio` up to the start of the agent, which gets the prompt on its standard input. -/
def runAgentStdio (input : Input) : PromptRead :=
  if lineFeed ∉ input.bytes then
    if input.ended then .failed "read agent prompt header: EOF" else .waiting
  else
    let header := input.bytes.takeWhile (· ≠ lineFeed) ++ [lineFeed]
    let rest := input.bytes.drop header.length
    match fields (textOf header) with
    | [magic, length] =>
      if magic ≠ promptMagic then .failed "invalid internal agent prompt header"
      else
        match atoi length with
        | none => .failed "agent prompt is empty or too large"
        | some promptLength =>
          if promptLength < 1 ∨ promptLength > maximumPromptBytes then .failed "agent prompt is empty or too large"
          else if promptLength.toNat ≤ rest.length then .prompt (rest.take promptLength.toNat)
          else if input.ended then
            .failed (if rest = [] then "read agent prompt: EOF" else "read agent prompt: unexpected EOF")
          else .waiting
    | _ => .failed "invalid internal agent prompt header"

/-- The bytes the agent gets to read: through the runner for claude, up to the end of the file for codex. -/
def agentPrompt (agentID : String) (input : Input) : Option Bytes :=
  if agentID = "claude" then
    match runAgentStdio input with
    | .prompt bytes => some bytes
    | _ => none
  else if input.ended then some input.bytes
  else none

section

variable {interpret : Terminal → UInt8 → Terminal}

theorem writeSlices_eq (tty : Terminal) (data : Bytes) :
    writeSlices interpret tty data = .ok (tty.write interpret data) := by
  induction size : data.length using Nat.strongRecOn generalizing tty data with
  | ind size ih =>
    rw [writeSlices]
    by_cases empty : data = []
    · rw [if_pos empty, empty]
      rfl
    · have positive := List.length_pos_iff.mpr empty
      have some : data.take maxPromptSlice ≠ [] := by
        rw [← List.length_pos_iff, List.length_take, maxPromptSlice]
        omega
      have short : ¬(data.take maxPromptSlice).length > maxInputMessage := by
        rw [List.length_take, maxPromptSlice, maxInputMessage]
        omega
      have written : sessionWrite interpret tty (data.take maxPromptSlice) =
          .ok (tty.write interpret (data.take maxPromptSlice)) := by
        rw [sessionWrite, if_neg some, if_neg short]
      have later := ih (data.drop maxPromptSlice).length (by rw [List.length_drop, maxPromptSlice]; omega)
        (tty.write interpret (data.take maxPromptSlice)) (data.drop maxPromptSlice) rfl
      rw [if_neg empty, written]
      refine later.trans ?_
      rw [← Tty.write_append, List.take_append_drop]

/-- For codex the prompt is written and the file ended. -/
theorem writePrompt_codex (tty : Terminal) (prompt : String) : writePrompt interpret tty "codex" prompt =
    .ok ((tty.write interpret (utf8 (prompt ++ "\n"))).write interpret [4]) := by
  have other : ¬"codex" = "claude" := by decide
  simp only [writePrompt, if_neg other, writeSlices_eq]
  rfl

/-- For claude the header goes before it. -/
theorem writePrompt_claude (tty : Terminal) (prompt : String) : writePrompt interpret tty "claude" prompt =
    .ok (tty.write interpret
      (utf8 (promptHeader (utf8 (prompt ++ "\n")).length) ++ utf8 (prompt ++ "\n"))) := by
  simp only [writePrompt, if_true, writeSlices_eq]
  rfl

end

end TermLinks.Coordinator
