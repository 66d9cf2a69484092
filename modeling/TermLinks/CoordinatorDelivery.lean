import Mathlib.Data.Bool.AllAny
import TermLinks.CoordinatorPrompt
import TermLinks.CoordinatorStatus

namespace TermLinks.Coordinator

open Tty (Terminal lineFeed cutLine isPlain)

def MentionToken.char? : MentionToken → Option Char
  | .text c => some c
  | _ => none

theorem mentionTokens_sublist (room : Nat) (request : List Char) :
    ((mentionTokens room request).filterMap MentionToken.char?).Sublist request := by
  induction request generalizing room with
  | nil => exact .slnil
  | cons c rest ih =>
    unfold mentionTokens
    split
    next => exact (ih _).cons c
    next =>
      split
      next => exact (ih _).cons c
      next => exact (ih _).cons_cons c

/-- What stands with a mention is a part of the request. -/
theorem groupMentions_sublist (tokens : List MentionToken) :
    (groupMentions tokens).1.Sublist (tokens.filterMap MentionToken.char?) ∧
      ∀ mention ∈ (groupMentions tokens).2, mention.2.Sublist
        (tokens.filterMap MentionToken.char?) := by
  induction tokens with
  | nil => exact ⟨.slnil, fun mention h => absurd h List.not_mem_nil⟩
  | cons token rest ih =>
    obtain ⟨front, texts⟩ := ih
    cases token with
    | text c => exact ⟨front.cons_cons c, fun mention h => (texts mention h).cons c⟩
    | start =>
      refine ⟨List.nil_sublist _, fun mention h => ?_⟩
      rcases List.mem_cons.mp h with rfl | h
      · exact front
      · exact texts mention h
    | name c => exact ⟨front, texts⟩

theorem byteLen_mention {request : String} {mention : String × String} (h : mention ∈ mentions request) :
    byteLen mention.2 ≤ byteLen request := by
  obtain ⟨found, member, rfl⟩ := List.mem_map.mp h
  have part := ((groupMentions_sublist _).2 found member).trans (mentionTokens_sublist 0 request.toList)
  have count := byteCount_sublist part
  rw [byteCount_toList] at count
  simpa only [byteLen, byteCount_ofList] using count

theorem byteLen_trimSpace (text : String) : byteLen (trimSpace text) ≤ byteLen text := by
  have count := byteCount_sublist (sublist_trimSpace text)
  rwa [byteCount_toList, byteCount_toList] at count

theorem byteLen_trimListPunctuation (text : String) :
    byteLen (trimListPunctuation text) ≤ byteLen text := by
  have count := byteCount_sublist
    (List.dropWhile_sublist (p := (· ∈ [' ', ',', ':', ';', '-', '\n', '\t'])) (l := text.toList))
  rw [byteCount_toList] at count
  rwa [byteLen, trimListPunctuation, byteCount_ofList]

theorem byteLen_compileStage {installed available : List Agent} {newID : Nat → String} {index : Nat}
    {mention text : String} {stage : Stage} (short : byteLen text ≤ maxRequestBytes)
    (h : compileStage installed available newID index mention text = .ok stage) :
    byteLen stage.prompt ≤ maxRequestBytes := by
  have trimmed := byteLen_trimListPunctuation (trimSpace text)
  have spaces := byteLen_trimSpace text
  unfold compileStage at h
  dsimp only at h
  split at h
  next => cases h
  next =>
    split at h
    next => cases h
    next =>
      split at h
      next => cases h
      next =>
        cases h
        dsimp only
        split
        next => decide
        next => omega

theorem byteLen_compileStages {installed available : List Agent} {newID : Nat → String} {index : Nat}
    {found : List (String × String)} {stages : List Stage}
    (short : ∀ mention ∈ found, byteLen mention.2 ≤ maxRequestBytes)
    (h : compileStages installed available newID index found = .ok stages) :
    ∀ stage ∈ stages, byteLen stage.prompt ≤ maxRequestBytes := by
  induction found generalizing index stages with
  | nil =>
    cases h
    exact fun stage member => absurd member List.not_mem_nil
  | cons mention found ih =>
    obtain ⟨front, others⟩ := List.forall_mem_cons.mp short
    unfold compileStages at h
    obtain ⟨stage, first, h⟩ := bind_ok_iff.mp h
    obtain ⟨later, rest, h⟩ := bind_ok_iff.mp h
    cases h
    exact List.forall_mem_cons.mpr ⟨byteLen_compileStage front first, ih others rest⟩

/-- No stage of a compiled request asks for more than the request may hold. -/
theorem byteLen_compile {request cwd : String} {agents : List Agent} {newID : Nat → String}
    {draft : Draft} (h : compile request cwd agents newID = .ok draft) :
    ∀ stage ∈ draft.stages, byteLen stage.prompt ≤ maxRequestBytes := by
  unfold compile at h
  dsimp only at h
  split at h
  next => cases h
  next =>
    split at h
    next => cases h
    next short =>
      have room : byteLen (trimSpace request) ≤ maxRequestBytes := by omega
      split at h
      next => cases h
      next =>
        obtain ⟨stages, compiled, h⟩ := bind_ok_iff.mp h
        have texts := byteLen_compileStages (fun mention member => Nat.le_trans (byteLen_mention member) room) compiled
        split at h
        next =>
          cases h
          exact texts
        next =>
          split at h
          next => cases h
          next =>
            cases h
            intro stage member
            rw [List.mem_singleton.mp member]
            exact room

theorem byteCount_dropBytes (excess : Nat) (text : List Char) :
    byteCount (dropBytes excess text) ≤ byteCount text - excess := by
  induction excess, text using dropBytes.induct with
  | case1 text => simp [dropBytes]
  | case2 excess => simp [dropBytes, byteCount]
  | case3 excess c rest ih =>
    rw [dropBytes, byteCount_cons]
    omega

theorem byteLen_utf8Tail (value : String) (limit : Nat) : byteLen (utf8Tail value limit) ≤ limit := by
  unfold utf8Tail
  split
  next fits => exact fits
  next long =>
    have dropped := byteCount_dropBytes (byteLen value - limit) value.toList
    rw [byteCount_toList] at dropped
    rw [byteLen, byteCount_ofList]
    have same : byteLen value = value.utf8ByteSize := rfl
    omega

theorem byteLen_append (a b : String) : byteLen (a ++ b) = byteLen a + byteLen b :=
  String.utf8ByteSize_append

theorem byteLen_teamRoomContext (messages : List RoomMessage) :
    byteLen (teamRoomContext messages) ≤ 64 * 1024 + 60 := by
  unfold teamRoomContext
  dsimp only
  refine Nat.le_trans (byteLen_trimSpace _) ?_
  split
  next =>
    have note : byteLen "[Earlier room discussion omitted to keep context bounded.]\n\n" = 60 := by decide
    have tail := byteLen_utf8Tail (String.join ((messages.filter fun message =>
      !(message.kind = .status || trimSpace message.body = "")).map fun message =>
        contextSender message ++ " → @" ++ message.recipient ++ ":\n" ++ message.body ++ "\n\n")) (64 * 1024)
    rw [byteLen_append, note]
    omega
  next => omega

theorem byteLen_roomPrompt (prompt : String) (messages : List RoomMessage) :
    byteLen (roomPrompt prompt messages) ≤ byteLen prompt + 64 * 1024 + 1024 := by
  have context := byteLen_teamRoomContext messages
  unfold roomPrompt
  dsimp only
  split
  next =>
    have preamble : byteLen roomPreamble ≤ 512 := by decide +kernel
    rw [byteLen_append, byteLen_append]
    omega
  next => omega

theorem byteLen_safePrompt {text prompt : String} (h : safePrompt text = .ok prompt) :
    byteLen prompt ≤ byteLen text := by
  unfold safePrompt at h
  split at h
  next => cases h
  next =>
    cases h
    have kept := byteCount_sublist (List.filter_sublist (p := keepRune) (l := text.toList))
    rw [byteCount_toList] at kept
    rwa [byteLen, byteCount_ofList]

/-- With its line feed the prompt of a stage is of a length the runner takes. -/
theorem length_prompt {request cwd : String} {agents : List Agent} {newID : Nat → String}
    {draft : Draft} {stage : Stage} {messages : List RoomMessage} {prompt : String}
    (accepted : compile request cwd agents newID = .ok draft) (member : stage ∈ draft.stages)
    (safe : safePrompt (roomPrompt stage.prompt messages) = .ok prompt) :
    (utf8 prompt).length < 131072 := by
  have asked := byteLen_compile accepted stage member
  have room := byteLen_roomPrompt stage.prompt messages
  have kept := byteLen_safePrompt safe
  have length : (utf8 prompt).length = byteLen prompt := length_utf8 prompt
  rw [maxRequestBytes] at asked
  omega

theorem plain_utf8EncodeChar {c : Char} (kept : keepRune c = true) (other : c ≠ '\n') :
    ∀ b ∈ String.utf8EncodeChar c, isPlain b = true := by
  have code : c.val.toNat ≠ 10 := by
    intro same
    exact other (Char.val_inj.mp (UInt32.toNat_inj.mp same))
  have kept : c.val.toNat = 9 ∨ 32 ≤ c.val.toNat ∧ c.val.toNat ≠ 127 := by
    simp only [keepRune, Bool.or_eq_true, Bool.and_eq_true, decide_eq_true_eq] at kept
    rcases kept with (rfl | rfl) | ⟨low, high⟩
    · exact absurd rfl code
    · exact .inl rfl
    · exact .inr ⟨low, fun same => high (UInt32.toNat_inj.mp same)⟩
  intro b member
  have value : b.toNat = 9 ∨ 32 ≤ b.toNat ∧ b.toNat ≠ 127 := by
    unfold String.utf8EncodeChar at member
    dsimp only at member
    split at member
    next small =>
      rw [List.mem_singleton.mp member, UInt8.toNat_ofNat']
      omega
    next =>
      right
      split at member
      next => 
        simp only [List.mem_cons, List.not_mem_nil, or_false] at member
        rcases member with rfl | rfl <;> rw [UInt8.toNat_ofNat'] <;> omega
      next =>
        split at member
        next =>
          simp only [List.mem_cons, List.not_mem_nil, or_false] at member
          rcases member with rfl | rfl | rfl <;> rw [UInt8.toNat_ofNat'] <;> omega
        next =>
          simp only [List.mem_cons, List.not_mem_nil, or_false] at member
          rcases member with rfl | rfl | rfl | rfl <;> rw [UInt8.toNat_ofNat'] <;> omega
  unfold isPlain
  simp only [Bool.or_eq_true, Bool.and_eq_true, decide_eq_true_eq, UInt8.le_iff_toNat_le, ne_eq, ← UInt8.toNat_inj]
  exact value

theorem utf8_flatMap (text : String) : utf8 text = text.toList.flatMap String.utf8EncodeChar := by
  rw [← utf8_ofList, String.ofList_toList]

/-- A sanitised prompt is line feeds, and bytes that go into a line as they are. -/
theorem safePrompt_bytes {text prompt : String} (h : safePrompt text = .ok prompt) :
    ∀ b ∈ utf8 prompt, b = lineFeed ∨ isPlain b = true := by
  unfold safePrompt at h
  split at h
  next => cases h
  next =>
    cases h
    intro b member
    rw [utf8_ofList] at member
    obtain ⟨c, kept, member⟩ := List.mem_flatMap.mp member
    by_cases feed : c = '\n'
    · rw [feed] at member
      exact .inl (List.mem_singleton.mp member)
    · exact .inr (plain_utf8EncodeChar (List.mem_filter.mp kept).2 feed b member)

theorem utf8_line (text : String) : utf8 (text ++ "\n") = utf8 text ++ [lineFeed] := by
  rw [utf8_append]
  rfl

/-- The header without its line feed. -/
def headerLine (length : Nat) : String := promptMagic ++ " " ++ toString length

theorem toList_headerLine (length : Nat) :
    (headerLine length).toList = promptMagic.toList ++ ' ' :: Nat.toDigits 10 length := by
  have digits : (toString length).toList = Nat.toDigits 10 length := by
    rw [Nat.toString_eq_ofList_toDigits, String.toList_ofList]
  rw [headerLine, String.toList_append, String.toList_append, digits]
  simp

theorem digit_of_mem {n : Nat} {c : Char} (h : c ∈ Nat.toDigits 10 n) : c.isDigit = true :=
  Nat.isDigit_of_mem_toDigits (by decide) (by decide) h

theorem digit_kept {c : Char} (h : c.isDigit = true) :
    keepRune c = true ∧ c ≠ '\n' ∧ isSpace c = false := by
  obtain ⟨low, high⟩ : 48 ≤ c.val.toNat ∧ c.val.toNat ≤ 57 := by
    simp only [Char.isDigit, Bool.and_eq_true, decide_eq_true_eq] at h
    exact ⟨h.1, h.2⟩
  obtain ⟨n, ten, rfl⟩ : ∃ n, n < 10 ∧ c = Nat.digitChar n := by
    refine ⟨c.val.toNat - 48, by omega, Char.val_inj.mp (UInt32.toNat_inj.mp ?_)⟩
    have all : ∀ n < 10, (Nat.digitChar n).val.toNat = n + 48 := by decide
    rw [all _ (by omega)]
    omega
  have all : ∀ n < 10, keepRune (Nat.digitChar n) = true ∧ Nat.digitChar n ≠ '\n' ∧
    isSpace (Nat.digitChar n) = false := by
    decide
  exact all n ten

theorem headerLine_plain (length : Nat) : ∀ b ∈ utf8 (headerLine length), isPlain b = true := by
  intro b member
  rw [utf8_flatMap, toList_headerLine] at member
  obtain ⟨c, here, member⟩ := List.mem_flatMap.mp member
  have kept : keepRune c = true ∧ c ≠ '\n' := by
    rcases List.mem_append.mp here with here | here
    · have all : ∀ c ∈ promptMagic.toList, keepRune c = true ∧ c ≠ '\n' := List.all_iff_forall_prop.mp (by decide)
      exact all c here
    · rcases List.mem_cons.mp here with rfl | here
      · decide
      · obtain ⟨kept, feed, _⟩ := digit_kept (digit_of_mem here)
        exact ⟨kept, feed⟩
  exact plain_utf8EncodeChar kept.1 kept.2 b member

theorem byteCount_le (cs : List Char) : byteCount cs ≤ 4 * cs.length := by
  induction cs with
  | nil => exact Nat.le_refl _
  | cons c cs ih =>
    have size := Char.utf8Size_le_four c
    rw [byteCount_cons, List.length_cons]
    omega

theorem length_headerLine {length : Nat} (short : length ≤ 131072) :
    (utf8 (headerLine length)).length ≤ Tty.maxLine := by
  have padded := congrArg List.length
    (@replicate_append_toDigits 6 length (by omega) (by decide))
  rw [List.length_append, List.length_replicate, length_decimals] at padded
  have magic : promptMagic.toList.length = 25 := by decide
  have count := byteCount_le (headerLine length).toList
  rw [byteCount_toList, toList_headerLine, List.length_append, List.length_cons, magic] at count
  rw [length_utf8, Tty.maxLine]
  omega

theorem textOf_utf8 (text : String) : textOf (utf8 text) = text := by
  have same : (⟨(utf8 text).toArray⟩ : ByteArray) = text.toByteArray := rfl
  unfold textOf
  rw [same, String.fromUTF8?, dif_pos text.isValidUTF8]
  rfl

theorem fields_header (length : Nat) :
    fields (headerLine length ++ "\n") = [promptMagic, toString length] := by
  have magic : ∀ c ∈ promptMagic.toList, isSpace c = false := List.all_iff_forall_prop.mp (by decide)
  have digits : ∀ c ∈ Nat.toDigits 10 length, isSpace c = false := fun c h => (digit_kept (digit_of_mem h)).2.2
  have some : Nat.toDigits 10 length ≠ [] := Nat.toDigits_ne_nil
  have name : promptMagic.toList ≠ [] := by decide
  have split : (headerLine length ++ "\n").toList.splitOnP isSpace =
      [promptMagic.toList, Nat.toDigits 10 length, []] := by
    have list : (headerLine length ++ "\n").toList =
        promptMagic.toList ++ ' ' :: (Nat.toDigits 10 length ++ '\n' :: []) := by
      rw [String.toList_append, toList_headerLine]
      simp
    rw [list, List.splitOnP_append_cons _ _ (by decide), List.splitOnP_append_cons _ _ (by decide),
      List.splitOnP_eq_singleton magic, List.splitOnP_eq_singleton digits, List.splitOnP_nil]
    rfl
  unfold fields
  rw [split, Nat.toString_eq_ofList_toDigits]
  simp [some, name, String.ofList_toList]

theorem atoi_toString {length : Nat} (short : length ≤ 131072) :
    atoi (toString length) = some (length : Int) := by
  have list : (toString length).toList = Nat.toDigits 10 length := by
    rw [Nat.toString_eq_ofList_toDigits, String.toList_ofList]
  have some : Nat.toDigits 10 length ≠ [] := Nat.toDigits_ne_nil
  have digits : (Nat.toDigits 10 length).all Char.isDigit = true :=
    List.all_eq_true.mpr fun c h => digit_of_mem h
  have value : parseDigits (Nat.toDigits 10 length) = length := by
    have padded := congrArg parseDigits (@replicate_append_toDigits 6 length (by omega) (by decide))
    have zeros := parseDigits_zeros [] (6 - (Nat.toDigits 10 length).length)
    rw [List.nil_append] at zeros
    rw [parseDigits_decimals (by omega), parseDigits_append, zeros] at padded
    simpa [parseDigits] using padded
  unfold atoi
  rw [list]
  cases front : Nat.toDigits 10 length with
  | nil => exact absurd front some
  | cons c rest =>
    have first : c.isDigit = true := digit_of_mem (front ▸ List.mem_cons_self)
    rw [front] at digits value
    have sign : c ≠ '-' ∧ c ≠ '+' := by
      constructor <;> (rintro rfl; exact absurd first (by decide))
    have unsigned : cutSign (c :: rest) = (false, c :: rest) := by
      unfold cutSign
      split
      next same => exact absurd (List.cons.inj same).1 sign.1
      next same => exact absurd (List.cons.inj same).1 sign.2
      next => rfl
    have refused : ¬(c :: rest = [] ∨ (c :: rest).all Char.isDigit = false) := by
      rintro (none | none)
      · cases none
      · rw [digits] at none
        cases none
    have range : -9223372036854775808 ≤ (length : Int) ∧ (length : Int) ≤ 9223372036854775807 := by omega
    simp only [unsigned, if_neg refused, value, Bool.false_eq_true, if_false, if_pos range]

section

variable {interpret : Terminal → UInt8 → Terminal} {prompt : String}

/-- What is read of the written prompt. -/
def delivered (prompt : String) : Bytes := ((Tty.lines (utf8 prompt)).map cutLine).flatten

theorem delivered_length (prompt : String) :
    (delivered prompt).length ≤ (utf8 (prompt ++ "\n")).length := by
  rw [utf8_line, ← Tty.glue_lines]
  exact Tty.cut_length_lt.1

theorem delivered_eq_iff (prompt : String) :
    delivered prompt = utf8 (prompt ++ "\n") ↔
      ∀ line ∈ Tty.lines (utf8 prompt), line.length ≤ Tty.maxLine := by
  rw [utf8_line, ← Tty.glue_lines]
  exact Tty.cut_eq_iff

theorem takeWhile_cut (parts : List Bytes) :
    (parts.map cutLine).takeWhile (· ≠ []) = parts.map cutLine ∧
      (parts.map cutLine).any (· = []) = false := by
  have all : ∀ record ∈ parts.map cutLine, record ≠ [] := by
    intro record member
    obtain ⟨line, _, rfl⟩ := List.mem_map.mp member
    exact Tty.cutLine_ne_nil line
  refine ⟨List.takeWhile_eq_self_iff.mpr fun record member => decide_eq_true (all record member), ?_⟩
  exact List.any_eq_false.mpr fun record member => by simpa using all record member

/-- Codex reads what is left of the prompt, and the end of the file. -/
theorem input_codex (plain : ∀ b ∈ utf8 prompt, b = lineFeed ∨ isPlain b = true) :
    ∃ tty, writePrompt interpret .start "codex" prompt = .ok tty ∧
    tty.input = ⟨delivered prompt, true⟩ := by
  obtain ⟨whole, nonempty⟩ := takeWhile_cut (Tty.lines (utf8 prompt))
  have typed : Terminal.start.write interpret (utf8 (prompt ++ "\n")) =
      ⟨[], (Tty.lines (utf8 prompt)).map cutLine⟩ := by
    rw [utf8_line, Tty.write_lines (Tty.plain_lines plain) rfl]
    rfl
  have ended : Terminal.write interpret ⟨[], (Tty.lines (utf8 prompt)).map cutLine⟩ [4] =
      ⟨[], (Tty.lines (utf8 prompt)).map cutLine ++ [[]]⟩ := rfl
  refine ⟨_, writePrompt_codex .start prompt, ?_⟩
  rw [typed, ended, Terminal.input, List.takeWhile_append_of_pos (by simpa using List.takeWhile_eq_self_iff.mp whole)]
  simp [delivered]

/-- Claude's runner reads the header and what is left of the prompt, and more may come. -/
theorem input_claude (plain : ∀ b ∈ utf8 prompt, b = lineFeed ∨ isPlain b = true)
    (short : (utf8 (prompt ++ "\n")).length ≤ 131072) :
    ∃ tty, writePrompt interpret .start "claude" prompt = .ok tty ∧
      tty.input = ⟨utf8 (headerLine (utf8 (prompt ++ "\n")).length) ++ lineFeed :: delivered prompt,
        false⟩ := by
  have header := headerLine_plain (utf8 (prompt ++ "\n")).length
  have fits := length_headerLine short
  have text : utf8 (promptHeader (utf8 (prompt ++ "\n")).length) ++ utf8 (prompt ++ "\n") =
      (utf8 (headerLine (utf8 (prompt ++ "\n")).length) ++ lineFeed :: utf8 prompt) ++ [lineFeed] := by
    rw [promptHeader, ← headerLine, utf8_line, utf8_line]
    simp
  refine ⟨_, writePrompt_claude .start prompt, ?_⟩
  rw [text]
  generalize utf8 (headerLine (utf8 (prompt ++ "\n")).length) = line at header fits ⊢
  have free : lineFeed ∉ line := fun member => absurd (header _ member) (by decide)
  have all : ∀ b ∈ line ++ lineFeed :: utf8 prompt, b = lineFeed ∨ isPlain b = true := by
    intro b member
    rcases List.mem_append.mp member with member | member
    · exact .inr (header b member)
    · rcases List.mem_cons.mp member with feed | member
      · exact .inl feed
      · exact plain b member
  have typed : Terminal.start.write interpret ((line ++ lineFeed :: utf8 prompt) ++ [lineFeed]) =
      ⟨[], (line :: Tty.lines (utf8 prompt)).map cutLine⟩ := by
    rw [Tty.write_lines (Tty.plain_lines all) rfl, Tty.lines_append line _ free]
    rfl
  obtain ⟨whole, nonempty⟩ := takeWhile_cut (line :: Tty.lines (utf8 prompt))
  have first : cutLine line = line ++ [lineFeed] := by rw [cutLine, List.take_of_length_le fits]
  rw [typed, Terminal.input, whole, nonempty, List.map_cons, List.flatten_cons, first]
  simp [delivered]

/-- The runner takes the length of the header, and then waits for as many bytes. -/
theorem runAgentStdio_header {length : Nat} (rest : Bytes) (positive : 1 ≤ length) (short : length ≤ 131072) :
    runAgentStdio ⟨utf8 (headerLine length) ++ lineFeed :: rest, false⟩ =
      if length ≤ rest.length then .prompt (rest.take length) else .waiting := by
  have header := headerLine_plain length
  have line := fields_header length
  have back := textOf_utf8 (headerLine length ++ "\n")
  rw [utf8_line] at back
  generalize utf8 (headerLine length) = bytes at header back ⊢
  have ordinary : ∀ b ∈ bytes, decide (b ≠ lineFeed) = true := by
    intro b member
    refine decide_eq_true fun feed => ?_
    rw [feed] at member
    exact absurd (header _ member) (by decide)
  have front : (bytes ++ lineFeed :: rest).takeWhile (· ≠ lineFeed) = bytes := by
    rw [List.takeWhile_append_of_pos ordinary, List.takeWhile_cons_of_neg (by simp), List.append_nil]
  have behind : (bytes ++ lineFeed :: rest).drop (bytes ++ [lineFeed]).length = rest := by
    have split : bytes ++ lineFeed :: rest = (bytes ++ [lineFeed]) ++ rest := by simp
    rw [split]
    exact List.drop_left
  have feed : lineFeed ∈ bytes ++ lineFeed :: rest := List.mem_append_right _ List.mem_cons_self
  have range : ¬((length : Int) < 1 ∨ (length : Int) > maximumPromptBytes) := by
    rw [maximumPromptBytes]
    omega
  simp only [runAgentStdio, front, behind, back, line, atoi_toString short, not_not.mpr feed, if_false, if_neg range,
    ne_eq, not_true_eq_false, Int.toNat_natCast, Bool.false_eq_true]

/-- The agent reads exactly the prompt, and its runner does not refuse the length. -/
def Delivered (interpret : Terminal → UInt8 → Terminal) (agentID prompt : String) : Prop :=
  ∃ tty, writePrompt interpret .start agentID prompt = .ok tty ∧
    agentPrompt agentID tty.input = some (utf8 (prompt ++ "\n")) ∧
    (agentID = "claude" → runAgentStdio tty.input ≠ .failed "agent prompt is empty or too large")

theorem delivered_codex (plain : ∀ b ∈ utf8 prompt, b = lineFeed ∨ isPlain b = true) :
    Delivered interpret "codex" prompt ↔
      ∀ line ∈ Tty.lines (utf8 prompt), line.length ≤ Tty.maxLine := by
  obtain ⟨tty, written, input⟩ := @input_codex interpret _ plain
  have other : ¬"codex" = "claude" := by decide
  have read : agentPrompt "codex" tty.input = some (delivered prompt) := by
    rw [input, agentPrompt, if_neg other, if_pos rfl]
  rw [← delivered_eq_iff]
  constructor
  · rintro ⟨tty', again, got, _⟩
    cases written.symm.trans again
    exact Option.some.inj (read.symm.trans got)
  · intro whole
    exact ⟨tty, written, read.trans (congrArg some whole), fun h => absurd h other⟩

theorem delivered_claude (plain : ∀ b ∈ utf8 prompt, b = lineFeed ∨ isPlain b = true)
    (short : (utf8 (prompt ++ "\n")).length ≤ 131072) :
    Delivered interpret "claude" prompt ↔
      ∀ line ∈ Tty.lines (utf8 prompt), line.length ≤ Tty.maxLine := by
  obtain ⟨tty, written, input⟩ := @input_claude interpret _ plain short
  have positive : 1 ≤ (utf8 (prompt ++ "\n")).length := by
    rw [utf8_line, List.length_append, List.length_singleton]
    omega
  have run := runAgentStdio_header (delivered prompt) positive short
  have atMost := delivered_length prompt
  rw [← delivered_eq_iff]
  constructor
  · rintro ⟨tty', again, got, _⟩
    cases written.symm.trans again
    rw [agentPrompt, if_pos rfl, input, run] at got
    by_cases enough : (utf8 (prompt ++ "\n")).length ≤ (delivered prompt).length
    · rw [if_pos enough, List.take_of_length_le atMost] at got
      exact Option.some.inj got
    · rw [if_neg enough] at got
      cases got
  · intro whole
    have got : runAgentStdio tty.input = .prompt (utf8 (prompt ++ "\n")) := by
      rw [input, run, whole, if_pos (Nat.le_refl _), List.take_length]
    refine ⟨tty, written, ?_, fun _ => ?_⟩
    · rw [agentPrompt, if_pos rfl, got]
    · rw [got]
      exact fun h => by cases h

/-- Of what `writePrompt` writes the runner refuses nothing: it reads it or waits. -/
theorem runner_refuses_nothing {tty : Terminal} (plain : ∀ b ∈ utf8 prompt, b = lineFeed ∨ isPlain b = true)
    (short : (utf8 (prompt ++ "\n")).length ≤ 131072)
    (written : writePrompt interpret .start "claude" prompt = .ok tty)
    (error : String) : runAgentStdio tty.input ≠ .failed error := by
  obtain ⟨tty', again, input⟩ := @input_claude interpret _ plain short
  cases written.symm.trans again
  have positive : 1 ≤ (utf8 (prompt ++ "\n")).length := by
    rw [utf8_line, List.length_append, List.length_singleton]
    omega
  rw [input, runAgentStdio_header (delivered prompt) positive short]
  intro failed
  split at failed
  next => cases failed
  next => cases failed

end

/-- The agent of a stage reads exactly its prompt where no line of it is longer than a line of the terminal, and the
length is never refused. -/
theorem agent_reads_its_prompt (interpret : Terminal → UInt8 → Terminal) {request cwd : String}
    {agents : List Agent} {newID : Nat → String} {draft : Draft} {stage : Stage}
    {messages : List RoomMessage} {prompt : String}
    (accepted : compile request cwd agents newID = .ok draft) (member : stage ∈ draft.stages)
    (supported : stage.agentID = "codex" ∨ stage.agentID = "claude")
    (safe : safePrompt (roomPrompt stage.prompt messages) = .ok prompt) :
    (Delivered interpret stage.agentID prompt ↔
      ∀ line ∈ Tty.lines (utf8 prompt), line.length ≤ Tty.maxLine) ∧
      ∀ tty, writePrompt interpret .start stage.agentID prompt = .ok tty → stage.agentID = "claude" →
        ∀ error, runAgentStdio tty.input ≠ .failed error := by
  have plain := safePrompt_bytes safe
  have length := length_prompt accepted member safe
  have short : (utf8 (prompt ++ "\n")).length ≤ 131072 := by
    rw [utf8_line, List.length_append, List.length_singleton]
    omega
  rcases supported with codex | claude
  · rw [codex]
    exact ⟨delivered_codex plain, fun tty _ other => absurd other (by decide)⟩
  · rw [claude]
    exact ⟨delivered_claude plain short, fun tty written _ => runner_refuses_nothing plain short written⟩

def claudeAgent : Agent :=
  ⟨"claude", "Claude", "/bin/claude", "", true, true, "authenticated", "structured-cli", ⟨2025, 1, 1, 0, 0, 0, 0⟩⟩

/-- A request without mentions goes to the only agent there is. -/
theorem compile_plain {request : String} (spoken : trimSpace request = request) (nonempty : request ≠ "")
    (fits : byteLen request ≤ maxRequestBytes) (plain : mentions request = []) :
    ∃ draft stage, compile request "/" [claudeAgent] toString = .ok draft ∧ stage ∈ draft.stages ∧
      stage.agentID = "claude" ∧ stage.prompt = request := by
  have ready : knownAgents.find? (fun candidate => (agentNamed ([claudeAgent].filter fun agent =>
      agent.available && agent.runnable && agent.authStatus ≠ "needs-login") candidate).isSome) = some "claude" := by
    decide
  have small : ¬byteLen request > maxRequestBytes := by omega
  have eight : ¬0 > 8 := by decide
  have compiled : compile request "/" [claudeAgent] toString = .ok
      { request, cwd := "/"
        stages := [
          { id := toString 0, workflowID := "", position := 0, agentID := "claude"
            title := stageTitle "claude" request, prompt := request, status := .queued, sessionID := ""
            output := "", error := "", startedAt := none, endedAt := none }] } := by
    simp only [compile, spoken, if_neg nonempty, if_neg small, plain, List.length_nil, if_neg eight,
      compileStages, ready]
    rfl
  exact ⟨_, _, compiled, List.mem_singleton.mpr rfl, rfl, rfl⟩

/-- A request of one line: `n` times the letter a. -/
def longRequest (n : Nat) : String := String.ofList (List.replicate n 'a')

theorem mentions_longRequest (n : Nat) : mentions (longRequest n) = [] := by
  have tokens : mentionTokens 0 (List.replicate n 'a') = List.replicate n (.text 'a') := by
    induction n with
    | zero => rfl
    | succ n ih =>
      have other : ¬('a' = '@' ∧ (List.replicate n 'a').head?.any mentionLetter = true) :=
        fun h => absurd h.1 (by decide)
      rw [List.replicate_succ, mentionTokens, if_neg (by omega), if_neg other, ih, List.replicate_succ]
  have groups : ∀ n, (groupMentions (List.replicate n (MentionToken.text 'a'))).2 = [] := by
    intro n
    induction n with
    | zero => rfl
    | succ n ih => exact ih
  rw [mentions, longRequest, String.toList_ofList, tokens, groups]
  rfl

theorem trimSpace_longRequest (n : Nat) : trimSpace (longRequest n) = longRequest n := by
  have letter : isSpace 'a' = false := by decide
  rw [trimSpace, longRequest, String.toList_ofList]
  simp [letter]

theorem byteLen_longRequest (n : Nat) : byteLen (longRequest n) = n := by
  have size : Char.utf8Size 'a' = 1 := by decide
  rw [byteLen, longRequest, byteCount_ofList]
  induction n with
  | zero => rfl
  | succ n ih => rw [List.replicate_succ, byteCount_cons, ih, size, Nat.add_comm]

theorem safePrompt_longRequest (n : Nat) :
    safePrompt (roomPrompt (longRequest n) []) = .ok (longRequest n) := by
  have context : teamRoomContext [] = "" := by decide +kernel
  have quiet : ¬teamRoomContext [] ≠ "" := fun h => h context
  have letter : keepRune 'a' = true := by decide
  have zero : ¬(longRequest n).toList.any (·.val = 0) = true := by
    rw [longRequest, String.toList_ofList]
    simp
  rw [roomPrompt, if_neg quiet, safePrompt, if_neg zero, longRequest, String.toList_ofList, List.filter_replicate,
    if_pos letter]

theorem lines_longRequest (n : Nat) : Tty.lines (utf8 (longRequest n)) = [utf8 (longRequest n)] := by
  apply Tty.lines_last
  intro member
  rw [longRequest, utf8_ofList] at member
  obtain ⟨c, letter, member⟩ := List.mem_flatMap.mp member
  rw [List.eq_of_mem_replicate letter] at member
  exact absurd member (by decide)

/-- It is accepted, and is sent as it is. -/
theorem compile_longRequest {n : Nat} (positive : 0 < n) (fits : n ≤ 49152) :
    ∃ draft stage, compile (longRequest n) "/" [claudeAgent] toString = .ok draft ∧
    stage ∈ draft.stages ∧
      stage.agentID = "claude" ∧ safePrompt (roomPrompt stage.prompt []) = .ok (longRequest n) := by
  have bytes := byteLen_longRequest n
  have nonempty : longRequest n ≠ "" := by
    intro none
    rw [none] at bytes
    have zero : byteLen "" = 0 := rfl
    omega
  obtain ⟨draft, stage, compiled, member, agent, asked⟩ := compile_plain (trimSpace_longRequest n) nonempty
    (by rw [bytes, maxRequestBytes]; omega) (mentions_longRequest n)
  exact ⟨draft, stage, compiled, member, agent, by rw [asked, safePrompt_longRequest]⟩

theorem agent_reads_short_line :
    ∃ draft stage, compile (longRequest 1) "/" [claudeAgent] toString = .ok draft ∧
    stage ∈ draft.stages ∧ Delivered (fun tty _ => tty) stage.agentID (longRequest 1) := by
  obtain ⟨draft, stage, compiled, member, agent, safe⟩ := compile_longRequest (n := 1) (by decide) (by decide)
  refine ⟨draft, stage, compiled, member, ?_⟩
  refine (agent_reads_its_prompt (fun tty _ => tty) compiled member (.inr agent) safe).1.mpr ?_
  rw [lines_longRequest]
  decide

/-- A line of 4096 bytes the agent does not read, though the request is accepted. -/
theorem long_line_is_cut :
    ∃ draft stage, compile (longRequest 4096) "/" [claudeAgent] toString = .ok draft ∧
    stage ∈ draft.stages ∧ stage.agentID = "claude" ∧
    safePrompt (roomPrompt stage.prompt []) = .ok (longRequest 4096) ∧
    ¬Delivered (fun tty _ => tty) stage.agentID (longRequest 4096) := by
  obtain ⟨draft, stage, compiled, member, agent, safe⟩ := compile_longRequest (n := 4096) (by omega) (by omega)
  refine ⟨draft, stage, compiled, member, agent, safe, ?_⟩
  have bytes := byteLen_longRequest 4096
  rw [byteLen] at bytes
  have short : (utf8 (longRequest 4096 ++ "\n")).length ≤ 131072 := by
    rw [utf8_line, List.length_append, length_utf8, bytes, List.length_singleton]
    omega
  rw [agent, delivered_claude (safePrompt_bytes safe) short, lines_longRequest]
  intro whole
  have line := whole _ (List.mem_singleton.mpr rfl)
  rw [length_utf8, Tty.maxLine] at line
  omega

end TermLinks.Coordinator
