import TermLinks.Octets

namespace TermLinks.Tty

/-- The longest input line; the line feed is not counted. -/
def maxLine : Nat := 4095

def lineFeed : UInt8 := 10

/-- What ends the input: the line so far is handed over as it is. -/
def endOfFile : UInt8 := 4

/-- The input side of a terminal in canonical mode: the line being typed, and what can be read, a record for each
line feed or end of file. -/
structure Terminal where
  line : Bytes
  records : List Bytes
deriving DecidableEq

def Terminal.start : Terminal := ⟨[], []⟩

/-- A byte that goes into the line as it is. -/
def isPlain (b : UInt8) : Bool := b = 9 || (0x20 ≤ b && b ≠ 0x7f)

/-- One byte of input; `interpret` is what the other control characters do. -/
def Terminal.type (interpret : Terminal → UInt8 → Terminal) (tty : Terminal) (b : UInt8) : Terminal :=
  if b = lineFeed then ⟨[], tty.records ++ [tty.line ++ [lineFeed]]⟩
  else if b = endOfFile then ⟨[], tty.records ++ [tty.line]⟩
  else if isPlain b then
    -- Of a line that is too long the excess is discarded.
    if tty.line.length < maxLine then { tty with line := tty.line ++ [b] } else tty
  else interpret tty b

def Terminal.write (interpret : Terminal → UInt8 → Terminal) (tty : Terminal) (data : Bytes) : Terminal :=
  data.foldl (Terminal.type interpret) tty

/-- What a reader gets: bytes, and whether the file ends after them or more may come. -/
structure Input where
  bytes : Bytes
  ended : Bool
deriving DecidableEq

/-- An empty record reads as the end of the file. -/
def Terminal.input (tty : Terminal) : Input :=
  ⟨(tty.records.takeWhile (· ≠ [])).flatten, tty.records.any (· = [])⟩

/-- What is left of a line. -/
def cutLine (line : Bytes) : Bytes := line.take maxLine ++ [lineFeed]

/-- The lines of a text that a line feed ends. -/
def lines (text : Bytes) : List Bytes := text.splitOn lineFeed

section

variable {interpret : Terminal → UInt8 → Terminal} {tty : Terminal} {text : Bytes}

theorem write_append (first second : Bytes) :
    tty.write interpret (first ++ second) = (tty.write interpret first).write interpret second :=
  List.foldl_append

theorem type_plain {b : UInt8} {line : Bytes} (plain : isPlain b = true) (here : tty.line = line.take maxLine) :
    tty.type interpret b = { tty with line := (line ++ [b]).take maxLine } := by
  have feed : b ≠ lineFeed := by
    rintro rfl
    exact absurd plain (by decide)
  have final : b ≠ endOfFile := by
    rintro rfl
    exact absurd plain (by decide)
  have length : tty.line.length = min maxLine line.length := by rw [here, List.length_take]
  rw [Terminal.type, if_neg feed, if_neg final, if_pos plain]
  by_cases room : tty.line.length < maxLine
  · have short : line.length < maxLine := by omega
    rw [if_pos room, here, List.take_of_length_le (Nat.le_of_lt short),
      List.take_of_length_le (by rw [List.length_append, List.length_singleton]; omega)]
  · have long : maxLine ≤ line.length := by omega
    rw [if_neg room, List.take_append_of_le_length long, ← here]

/-- A line of plain bytes behind what is being typed. -/
theorem write_plain {line : Bytes} (plain : ∀ b ∈ text, isPlain b = true)
    (here : tty.line = line.take maxLine) :
    tty.write interpret text = { tty with line := (line ++ text).take maxLine } := by
  induction text generalizing tty line with
  | nil =>
    rw [List.append_nil, ← here]
    rfl
  | cons b text ih =>
    obtain ⟨first, rest⟩ := List.forall_mem_cons.mp plain
    have step := @type_plain interpret _ _ _ first here
    have later := @ih (tty.type interpret b) (line ++ [b]) rest (by rw [step])
    rw [List.append_assoc, List.singleton_append] at later
    rw [Terminal.write, List.foldl_cons]
    refine later.trans ?_
    rw [step]

theorem write_line {line : Bytes} (plain : ∀ b ∈ line, isPlain b = true) (fresh : tty.line = []) :
    tty.write interpret (line ++ [lineFeed]) = ⟨[], tty.records ++ [cutLine line]⟩ := by
  have typed := @write_plain interpret _ _ [] plain fresh
  rw [write_append, typed]
  rfl

theorem lines_append (line rest : Bytes) (free : lineFeed ∉ line) :
    lines (line ++ lineFeed :: rest) = line :: lines rest :=
  List.splitOn_append_cons_self_of_not_mem free rest

/-- A text is a line, or a line and a text behind its line feed. -/
theorem lines_induction {P : Bytes → Prop} (last : ∀ line, lineFeed ∉ line → P line)
    (more : ∀ line rest, lineFeed ∉ line → P rest → P (line ++ lineFeed :: rest)) (text : Bytes) :
    P text := by
  induction size : text.length using Nat.strongRecOn generalizing text with
  | ind size ih =>
    by_cases feed : lineFeed ∈ text
    · obtain ⟨line, rest, rfl, free⟩ := List.eq_append_cons_of_mem feed
      rw [List.length_append, List.length_cons] at size
      exact more line rest free (ih rest.length (by omega) rest rfl)
    · exact last text feed

theorem lines_last {line : Bytes} (free : lineFeed ∉ line) : lines line = [line] :=
  List.splitOn_eq_singleton free

theorem mem_lines {line : Bytes} (h : line ∈ lines text) : lineFeed ∉ line ∧ line ⊆ text := by
  induction text using lines_induction with
  | last text free =>
    rw [lines_last free] at h
    rw [List.mem_singleton.mp h]
    exact ⟨free, List.Subset.refl _⟩
  | more first rest free ih =>
    rw [lines_append first rest free] at h
    rcases List.mem_cons.mp h with rfl | h
    · exact ⟨free, List.subset_append_left _ _⟩
    · obtain ⟨other, part⟩ := ih h
      exact ⟨other, fun b member => List.mem_append_right _ (List.mem_cons_of_mem _ (part member))⟩

/-- Where the text holds no other control character, no line of it does. -/
theorem plain_lines (h : ∀ b ∈ text, b = lineFeed ∨ isPlain b = true) :
    ∀ line ∈ lines text, ∀ b ∈ line, isPlain b = true := by
  intro line member b here
  obtain ⟨free, part⟩ := mem_lines member
  rcases h b (part here) with rfl | plain
  · exact absurd here free
  · exact plain

/-- The text is written as its lines, each cut to the longest. -/
theorem write_lines (plain : ∀ line ∈ lines text, ∀ b ∈ line, isPlain b = true) (fresh : tty.line = []) :
    tty.write interpret (text ++ [lineFeed]) = ⟨[], tty.records ++ (lines text).map cutLine⟩ := by
  induction text using lines_induction generalizing tty with
  | last line free =>
    rw [lines_last free] at plain ⊢
    exact write_line (plain line (List.mem_singleton.mpr rfl)) fresh
  | more line rest free ih =>
    rw [lines_append line rest free] at plain ⊢
    obtain ⟨first, others⟩ := List.forall_mem_cons.mp plain
    have typed := @write_line interpret _ _ first fresh
    have later := @ih ⟨[], tty.records ++ [cutLine line]⟩ others rfl
    have split : line ++ lineFeed :: rest ++ [lineFeed] = (line ++ [lineFeed]) ++ (rest ++ [lineFeed]) := by simp
    rw [split, write_append, typed, later]
    simp

theorem glue_lines (text : Bytes) : (lines text).flatMap (· ++ [lineFeed]) = text ++ [lineFeed] := by
  induction text using lines_induction with
  | last line free =>
    rw [lines_last free]
    simp
  | more line rest free ih =>
    rw [lines_append line rest free, List.flatMap_cons, ih]
    simp

/-- Something is lost exactly where a line is longer than the longest. -/
theorem cut_length_lt {parts : List Bytes} :
    (parts.map cutLine).flatten.length ≤ (parts.flatMap (· ++ [lineFeed])).length ∧
      ((parts.map cutLine).flatten.length = (parts.flatMap (· ++ [lineFeed])).length ↔
        ∀ line ∈ parts, line.length ≤ maxLine) := by
  induction parts with
  | nil => simp
  | cons line parts ih =>
    obtain ⟨le, same⟩ := ih
    have first : (cutLine line).length = min maxLine line.length + 1 := by
      rw [cutLine, List.length_append, List.length_take, List.length_singleton]
    rw [List.map_cons, List.flatten_cons, List.length_append, List.flatMap_cons, List.length_append, first,
      List.length_append, List.length_singleton, List.forall_mem_cons, ← same]
    omega

theorem cut_eq_iff {parts : List Bytes} :
    (parts.map cutLine).flatten = parts.flatMap (· ++ [lineFeed]) ↔
      ∀ line ∈ parts, line.length ≤ maxLine := by
  constructor
  · intro same
    exact cut_length_lt.2.mp (congrArg List.length same)
  · intro short
    have all : parts.map cutLine = parts.map (· ++ [lineFeed]) := by
      apply List.map_congr_left
      intro line member
      rw [cutLine, List.take_of_length_le (short line member)]
    rw [all, List.flatMap_def]

/-- No line is empty once it has its line feed. -/
theorem cutLine_ne_nil (line : Bytes) : cutLine line ≠ [] := by
  simp [cutLine]

end

end TermLinks.Tty
