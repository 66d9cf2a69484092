import TermLinks.ShellLexer
import TermLinks.Utf16Text

namespace TermLinks.Attachments

open E2E (units)
open Shell (Token Word literalPiece quoteWith quotedPiece tokens)
open Utf16 (Units isWhite scalars)

/-- `replaceAll` of a pattern of one unit. -/
def replaceAll (pattern : UInt16) (replacement text : Units) : Units :=
  text.flatMap fun u => if u = pattern then replacement else [u]

def shellQuotePath (path : Units) : Units := 0x27 :: replaceAll 0x27 (units "'\\''") path ++ [0x27]

def directAttachmentInput (path : Units) : Units := 0x20 :: shellQuotePath path

structure AttachmentInsertion where
  value : Units
  caret : Nat
deriving DecidableEq

/-- `Math.max(low, Math.min(position, length))`. -/
def clamp (low length : Nat) (position : Int) : Nat := max low (min position length).toNat

def insertAttachmentPath (value path : Units) (selectionStart selectionEnd : Int) : AttachmentInsertion :=
  let start := clamp 0 value.length selectionStart
  let stop := clamp start value.length selectionEnd
  let front : Units := if 0 < start ∧ ¬(value.take start).getLast?.any isWhite then [0x20] else []
  let back : Units := if stop < value.length ∧ ¬(value.drop stop).head?.any isWhite then [0x20] else []
  let inserted := front ++ shellQuotePath path ++ back
  ⟨value.take start ++ inserted ++ value.drop stop, start + inserted.length⟩

/-- `shellQuote` of the daemon. -/
def shellQuote (value : String) : String :=
  String.ofList ('\'' :: (value.toList.flatMap fun c => if c = '\'' then "'\"'\"'".toList else [c]) ++ ['\''])

def darwinAttachCommand (executable stateDir sessionID : String) : String :=
  "env TERMLINKS_STATE_DIR=" ++ shellQuote stateDir ++ " " ++ shellQuote executable ++ " __viewer " ++
    shellQuote sessionID ++ "; exit 0"

theorem scalars_cons_head {u : UInt16} {rest : Units}
    (apart : ∀ v ∈ rest.head?, (Utf16.isHigh u && Utf16.isLow v) = false) :
    scalars (u :: rest) = Utf16.single u :: scalars rest := by
  cases rest with
  | nil => rfl
  | cons v rest =>
    have lone := apart v rfl
    rw [Utf16.scalars, if_neg (by simp [lone])]

theorem single_ne_quote {u : UInt16} (other : u ≠ 0x27) : Utf16.single u ≠ '\'' := by
  intro same
  by_cases surrogate : Utf16.isHigh u = true ∨ Utf16.isLow u = true
  · rw [Utf16.single_eq_of_surrogate surrogate] at same
    exact absurd same (by decide)
  · obtain ⟨high, low⟩ := not_or.mp surrogate
    have units := Utf16.encodeChar_single (Bool.eq_false_iff.mpr high) (Bool.eq_false_iff.mpr low)
    have quote : Utf16.encodeChar '\'' = [0x27] := by decide
    rw [same, quote] at units
    exact other (List.singleton_inj.mp units).symm

theorem pairValue_ne_quote {u v : UInt16} (high : Utf16.isHigh u = true) (low : Utf16.isLow v = true) :
    Char.ofNat (Utf16.pairValue u v) ≠ '\'' := by
  intro same
  have units := Utf16.encodeChar_pairValue high low
  have quote : Utf16.encodeChar '\'' = [0x27] := by decide
  rw [same, quote] at units
  exact absurd (congrArg List.length units) (by simp)

theorem replaceAll_cons (u : UInt16) (replacement rest : Units) :
    replaceAll 0x27 replacement (u :: rest) = (if u = 0x27 then replacement else [u]) ++ replaceAll
      0x27 replacement rest :=
  List.flatMap_cons

/-- Replacing the quotes of a text is the same before and after it is encoded. -/
theorem scalars_replaceAll (path : Units) :
    scalars (replaceAll 0x27 (units "'\\''") path ++ [0x27]) =
      ((scalars path).flatMap fun c => if c = '\'' then ['\'', '\\', '\'', '\''] else [c]) ++ ['\''] := by
  have mark : units "'\\''" = [0x27, 0x5c, 0x27, 0x27] := by decide
  have plain : Utf16.isHigh 0x27 = false ∧ Utf16.isHigh 0x5c = false ∧ Utf16.isLow 0x27 = false := by decide
  obtain ⟨quoteHigh, backslashHigh, quoteLow⟩ := plain
  have chars : Utf16.single 0x27 = '\'' ∧ Utf16.single 0x5c = '\\' := by decide
  obtain ⟨quote, backslash⟩ := chars
  rw [mark]
  fun_induction scalars path with
  | case1 u v rest pair ih =>
    obtain ⟨high, low⟩ := Bool.and_eq_true_iff.mp pair
    have first : u ≠ 0x27 := by
      rintro rfl
      exact absurd (high.symm.trans quoteHigh) (by decide)
    have second : v ≠ 0x27 := by
      rintro rfl
      exact absurd (low.symm.trans quoteLow) (by decide)
    rw [replaceAll_cons, replaceAll_cons, if_neg first, if_neg second, List.flatMap_cons,
      if_neg (pairValue_ne_quote high low)]
    simp only [List.append_assoc]
    rw [← ih]
    show scalars (u :: v :: _) = _
    rw [scalars, if_pos pair]
    rfl
  | case2 u v rest pair ih =>
    rw [replaceAll_cons, List.flatMap_cons, List.append_assoc, List.append_assoc, ← ih]
    by_cases here : u = 0x27
    · rw [here, if_pos rfl, quote, if_pos rfl]
      simp only [List.cons_append, List.nil_append, Utf16.scalars_cons quoteHigh, Utf16.scalars_cons
        backslashHigh, quote,
        backslash]
    · rw [if_neg here, if_neg (single_ne_quote here)]
      apply scalars_cons_head
      intro w head
      rw [replaceAll_cons] at head
      by_cases next : v = 0x27
      · rw [if_pos next] at head
        cases head
        simp [quoteLow]
      · rw [if_neg next] at head
        cases head
        simpa using pair
  | case3 u =>
    by_cases here : u = 0x27
    · rw [here]
      decide
    · have front : replaceAll 0x27 [0x27, 0x5c, 0x27, 0x27] [u] = [u] := by
        rw [replaceAll_cons, if_neg here]
        rfl
      rw [front, List.flatMap_cons, if_neg (single_ne_quote here)]
      have apart : ∀ v ∈ ([0x27] : Units).head?, (Utf16.isHigh u && Utf16.isLow v) = false := by
        rintro v ⟨⟩
        simp [quoteLow]
      show scalars (u :: [0x27]) = _
      rw [scalars_cons_head apart]
      exact congrArg (Utf16.single u :: ·) (congrArg (· :: []) quote)
  | case4 => decide

theorem scalars_shellQuotePath (path : Units) :
    scalars (shellQuotePath path) = quoteWith ['\'', '\\', '\'', '\''] (scalars path) := by
  have plain : Utf16.isHigh 0x27 = false := by decide
  have mark : Utf16.single 0x27 = '\'' := by decide
  rw [shellQuotePath, quoteWith, List.cons_append, List.cons_append, Utf16.scalars_cons plain, scalars_replaceAll, mark]

/-- The text is one word, of the given characters, none of which stands unquoted. -/
def OneWord (text word : List Char) : Prop :=
  ∃ pieces : Word, tokens text = some [.word pieces] ∧ pieces.value = word ∧ pieces.Quoted

theorem shellQuotePath_word (path : Units) : OneWord (scalars (shellQuotePath path)) (scalars path) := by
  refine ⟨_, ?_, @Shell.value_quoted .escaped _, Shell.quoted_pieces (by decide) _⟩
  rw [scalars_shellQuotePath]
  exact Shell.tokens_quoteWith Shell.writesQuote_escaped _

/-- What is typed for an attachment is the quoted path behind a space. -/
theorem directAttachmentInput_word (path : Units) :
    OneWord (scalars (directAttachmentInput path)) (scalars path) := by
  obtain ⟨pieces, word, value, quoted⟩ := shellQuotePath_word path
  have plain : Utf16.isHigh 0x20 = false := by decide
  have space : Utf16.single 0x20 = ' ' := by decide
  refine ⟨pieces, ?_, value, quoted⟩
  rw [directAttachmentInput, Utf16.scalars_cons plain, space, tokens, Shell.lex_space]
  exact congrArg (Option.map (Shell.close none)) word

theorem toList_shellQuote (value : String) :
    (shellQuote value).toList = quoteWith ['\'', '"', '\'', '"', '\''] value.toList := by
  have mark : "'\"'\"'".toList = ['\'', '"', '\'', '"', '\''] := by decide
  rw [shellQuote, String.toList_ofList, mark]
  rfl

theorem shellQuote_word (value : String) : OneWord (shellQuote value).toList value.toList := by
  refine ⟨_, ?_, @Shell.value_quoted .double _, Shell.quoted_pieces (by decide) _⟩
  rw [toList_shellQuote]
  exact Shell.tokens_quoteWith Shell.writesQuote_double _

/-- The pieces of a text that stands unquoted, and of one that went through `shellQuote`. -/
def bare (text : String) : Word := text.toList.map literalPiece

def quoted (text : String) : Word := text.toList.map (quotedPiece .double)

theorem darwinAttachCommand_tokens (executable stateDir sessionID : String) :
    tokens (darwinAttachCommand executable stateDir sessionID).toList =
      some [.word (bare "env"), .word (bare "TERMLINKS_STATE_DIR=" ++ quoted stateDir),
        .word (quoted executable),
        .word (bare "__viewer"), .word (quoted sessionID), .operator ';', .word (bare "exit"),
          .word (bare "0")] := by
  have literals : Shell.Literal "env".toList ∧ Shell.Literal "TERMLINKS_STATE_DIR=".toList ∧
    Shell.Literal "__viewer".toList ∧
      Shell.Literal "exit".toList ∧ Shell.Literal "0".toList := by
    refine ⟨?_, ?_, ?_, ?_, ?_⟩
    all_goals exact List.all_iff_forall_prop.mp (by decide)
  obtain ⟨env, assignment, viewer, exit, zero⟩ := literals
  have nonempty : "env".toList ≠ [] ∧ "TERMLINKS_STATE_DIR=".toList ≠ [] ∧ "__viewer".toList ≠ [] ∧ "exit".toList ≠ [] ∧
      "0".toList ≠ [] := by decide
  obtain ⟨env', assignment', viewer', exit', zero'⟩ := nonempty
  have front : "env TERMLINKS_STATE_DIR=".toList = "env".toList ++ ' ' :: "TERMLINKS_STATE_DIR=".toList := by decide
  have middle : " __viewer ".toList = ' ' :: ("__viewer".toList ++ [' ']) := by decide
  have back : "; exit 0".toList = ';' :: ' ' :: ("exit".toList ++ ' ' :: ("0".toList ++ [])) := by decide
  have space : " ".toList = [' '] := by decide
  have escape := Shell.writesQuote_double
  unfold darwinAttachCommand
  simp only [String.toList_append, toList_shellQuote, front, middle, back, space]
  simp only [List.append_assoc, List.cons_append, List.nil_append]
  rw [tokens, Shell.lex_literal_word env' env, Shell.lex_space, Shell.lex_literal_word assignment' assignment,
    Shell.lex_quoteWith escape, Shell.lex_space, Shell.lex_quoteWith escape, Shell.lex_space,
    Shell.lex_literal_word viewer' viewer, Shell.lex_space, Shell.lex_quoteWith escape,
    Shell.lex_operator (by decide), Shell.lex_space, Shell.lex_literal_word exit' exit, Shell.lex_space,
    Shell.lex_literal_word zero' zero]
  rfl

/-- What becomes of a draft: the clamped selection goes, and the quoted path stands in its place, apart from what is
before and after it. A space is put in only beside a neighbour that is not blank. -/
structure Inserted (value path : Units) (start stop : Nat) (result : AttachmentInsertion)
    (front back : Units) : Prop where
  bounds : start ≤ stop ∧ stop ≤ value.length
  replaced : result.value = value.take start ++ (front ++ shellQuotePath path ++ back) ++ value.drop stop
  spaces : (front = [] ∨ front = [0x20]) ∧ (back = [] ∨ back = [0x20])
  before : ∀ u ∈ (value.take start ++ front).getLast?, isWhite u = true
  after : ∀ u ∈ (back ++ value.drop stop).head?, isWhite u = true
  spareFront : (∀ u ∈ (value.take start).getLast?, isWhite u = true) → front = []
  spareBack : (∀ u ∈ (value.drop stop).head?, isWhite u = true) → back = []
  caret : result.value.take result.caret = value.take start ++ (front ++ shellQuotePath path ++ back) ∧
    result.caret ≤ result.value.length

theorem clamp_bounds {low length : Nat} (h : low ≤ length) (position : Int) :
    low ≤ clamp low length position ∧ clamp low length position ≤ length := by
  unfold clamp
  omega

theorem insertAttachmentPath_inserted (value path : Units) (selectionStart selectionEnd : Int) :
    ∃ front back, Inserted value path (clamp 0 value.length selectionStart)
      (clamp (clamp 0 value.length selectionStart) value.length selectionEnd)
      (insertAttachmentPath value path selectionStart selectionEnd) front back := by
  obtain ⟨_, startBound⟩ := clamp_bounds (Nat.zero_le value.length) selectionStart
  obtain ⟨ordered, stopBound⟩ := clamp_bounds startBound selectionEnd
  unfold insertAttachmentPath
  dsimp only
  generalize clamp 0 value.length selectionStart = start at *
  generalize clamp start value.length selectionEnd = stop at *
  have space : isWhite 0x20 = true := by decide
  have length : (value.take start).length = start := by
    rw [List.length_take]
    omega
  refine ⟨_, _, ⟨ordered, stopBound⟩, rfl, ⟨?_, ?_⟩, ?_, ?_, ?_, ?_, ?_, ?_⟩
  · split
    next => exact .inr rfl
    next => exact .inl rfl
  · split
    next => exact .inr rfl
    next => exact .inl rfl
  · split
    next =>
      intro u last
      rw [List.getLast?_append, List.getLast?_singleton] at last
      cases last
      exact space
    next blank =>
      intro u last
      rw [List.append_nil] at last
      by_cases first : 0 < start
      · have white : (value.take start).getLast?.any isWhite = true := by
          by_contra other
          exact blank ⟨first, other⟩
        rw [Option.mem_def.mp last] at white
        exact white
      · have none : value.take start = [] := by
          rw [Nat.eq_zero_of_not_pos first, List.take_zero]
        rw [none] at last
        exact nomatch last
  · split
    next =>
      rintro u ⟨⟩
      exact space
    next blank =>
      intro u head
      rw [List.nil_append] at head
      by_cases more : stop < value.length
      · have white : (value.drop stop).head?.any isWhite = true := by
          by_contra other
          exact blank ⟨more, other⟩
        rw [Option.mem_def.mp head] at white
        exact white
      · have none : value.drop stop = [] := List.drop_eq_nil_of_le (Nat.le_of_not_lt more)
        rw [none] at head
        exact nomatch head
  · intro blank
    split
    next needed =>
      have some_last : (value.take start).getLast?.isSome := by
        rw [List.getLast?_isSome, ← List.length_pos_iff, length]
        exact needed.1
      obtain ⟨u, last⟩ := Option.isSome_iff_exists.mp some_last
      exact absurd (by rw [last]; exact blank u last) needed.2
    next => rfl
  · intro blank
    split
    next needed =>
      have some_head : (value.drop stop).head?.isSome := by
        rw [List.isSome_head?, ← List.length_pos_iff, List.length_drop]
        exact Nat.sub_pos_of_lt needed.1
      obtain ⟨u, head⟩ := Option.isSome_iff_exists.mp some_head
      exact absurd (by rw [head]; exact blank u head) needed.2
    next => rfl
  · rw [← List.length_append.trans (congrArg (· + _) length)]
    exact List.take_left
  · simp only [List.length_append, length]
    omega

example : insertAttachmentPath (units "open now") (units "/tmp/report.pdf") 5 5 =
    ⟨units "open '/tmp/report.pdf' now", 23⟩ := by
  decide

/-- A quoted path is one word to the shell, so the viewer's command line has the words it is to have; and a path goes
into a draft in place of the selection, apart from its neighbours. -/
theorem quoted_paths_are_words :
    (∀ path : Units, OneWord (scalars (shellQuotePath path)) (scalars path)) ∧
    (∀ value : String, OneWord (shellQuote value).toList value.toList) ∧
    (∀ executable stateDir sessionID : String,
      tokens (darwinAttachCommand executable stateDir sessionID).toList =
        some [.word (bare "env"), .word (bare "TERMLINKS_STATE_DIR=" ++ quoted stateDir),
          .word (quoted executable),
          .word (bare "__viewer"), .word (quoted sessionID), .operator ';', .word (bare "exit"),
            .word (bare "0")]) ∧
    (∀ text : String, (bare text).value = text.toList ∧ (quoted text).value = text.toList ∧
      (quoted text).Quoted) ∧
    ∀ (value path : Units) (selectionStart selectionEnd : Int),
      ∃ front back, Inserted value path (clamp 0 value.length selectionStart)
        (clamp (clamp 0 value.length selectionStart) value.length selectionEnd)
        (insertAttachmentPath value path selectionStart selectionEnd) front back :=
  ⟨shellQuotePath_word, shellQuote_word, darwinAttachCommand_tokens,
    fun text => ⟨Shell.value_literal _, Shell.value_quoted _, Shell.quoted_pieces (by decide) _⟩,
    insertAttachmentPath_inserted⟩

end TermLinks.Attachments
