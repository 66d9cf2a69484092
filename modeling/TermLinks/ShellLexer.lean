import Mathlib.Data.Bool.AllAny
import Mathlib.Data.List.Basic

namespace TermLinks.Shell

/-- How a character of a word stands in the text. -/
inductive Quoting
  | unquoted
  | escaped
  | single
  | double
deriving DecidableEq

structure Piece where
  char : Char
  quoting : Quoting
deriving DecidableEq

abbrev Word := List Piece

/-- An operator of two characters comes as two tokens. -/
inductive Token
  | word (pieces : Word)
  | operator (c : Char)
deriving DecidableEq

inductive Mode
  | plain
  | escaped
  | single
  | double
  | doubleEscaped
deriving DecidableEq

def operators : List Char := [';', '&', '|', '<', '>', '(', ')', '\n']

/-- Unquoted, these begin an expansion, a pattern or a comment. -/
def active : List Char := ['$', '\x60', '*', '?', '[', '~', '#']

/-- The word read so far goes out, if there is one. -/
def close (word : Option Word) (tokens : List Token) : List Token := (word.map Token.word).toList ++ tokens

def extend (word : Option Word) (c : Char) (quoting : Quoting) : Option Word :=
  some (word.getD [] ++ [⟨c, quoting⟩])

/-- The tokens of a text by the quoting rules of the POSIX shell; none if a quote is left open or something in the text
is expanded. A word that has only quotes is empty, but it is a word. -/
def lex : Mode → Option Word → List Char → Option (List Token)
  | .plain, word, [] => some (close word [])
  | _, _, [] => none
  | .plain, word, c :: rest =>
    if c = '\'' then lex .single (some (word.getD [])) rest
    else if c = '"' then lex .double (some (word.getD [])) rest
    else if c = '\\' then lex .escaped word rest
    else if c = ' ' ∨ c = '\t' then (lex .plain none rest).map (close word)
    else if c ∈ operators then (lex .plain none rest).map fun tokens => close word (.operator c :: tokens)
    else if c ∈ active then none
    else lex .plain (extend word c .unquoted) rest
  | .escaped, word, c :: rest =>
    if c = '\n' then lex .plain word rest else lex .plain (extend word c .escaped) rest
  | .single, word, c :: rest => if c = '\'' then lex .plain word rest else lex .single (extend word c .single) rest
  | .double, word, c :: rest =>
    if c = '"' then lex .plain word rest
    else if c = '\\' then lex .doubleEscaped word rest
    else if c = '$' ∨ c = '\x60' then none
    else lex .double (extend word c .double) rest
  | .doubleEscaped, word, c :: rest =>
    if c = '\n' then lex .double word rest
    else if c ∈ ['$', '\x60', '"', '\\'] then lex .double (extend word c .escaped) rest
    else lex .double (extend (extend word '\\' .double) c .double) rest

theorem lex_plain_cons (word : Option Word) (c : Char) (rest : List Char) :
    lex .plain word (c :: rest) =
      if c = '\'' then lex .single (some (word.getD [])) rest
      else if c = '"' then lex .double (some (word.getD [])) rest
      else if c = '\\' then lex .escaped word rest
      else if c = ' ' ∨ c = '\t' then (lex .plain none rest).map (close word)
      else if c ∈ operators then (lex .plain none rest).map fun tokens => close word (.operator c :: tokens)
      else if c ∈ active then none
      else lex .plain (extend word c .unquoted) rest := rfl

theorem lex_single_cons (word : Option Word) (c : Char) (rest : List Char) :
    lex .single word (c :: rest) = if c = '\'' then lex .plain word rest else lex .single
      (extend word c .single) rest :=
  rfl

def tokens (text : List Char) : Option (List Token) := lex .plain none text

/-- The word after quote removal. -/
def Word.value (word : Word) : List Char := word.map Piece.char

/-- No character of the word stands unquoted. -/
def Word.Quoted (word : Word) : Prop := ∀ piece ∈ word, piece.quoting ≠ .unquoted

/-- A text in single quotes, in which `escape` stands for a quote. -/
def quoteWith (escape text : List Char) : List Char :=
  '\'' :: (text.flatMap fun c => if c = '\'' then escape else [c]) ++ ['\'']

/-- Within single quotes, the text leaves them, writes a quote, and opens them again. -/
def WritesQuote (escape : List Char) (quoting : Quoting) : Prop :=
  ∀ word rest, lex .single (some word) (escape ++ rest) = lex .single (some (word ++ [⟨'\'', quoting⟩])) rest

def quotedPiece (quoting : Quoting) (c : Char) : Piece := ⟨c, if c = '\'' then quoting else .single⟩

def literalPiece (c : Char) : Piece := ⟨c, .unquoted⟩

/-- Nothing in the text means anything to the lexer. -/
def Literal (text : List Char) : Prop :=
  ∀ c ∈ text, c ∉ ['\'', '"', '\\', ' ', '\t'] ∧ c ∉ operators ∧ c ∉ active

section

variable {escape : List Char} {quoting : Quoting}

theorem lex_single (writes : WritesQuote escape quoting) (text rest : List Char) (word : Word) :
    lex .single (some word) ((text.flatMap fun c => if c = '\'' then escape else [c]) ++ '\'' :: rest) =
      lex .plain (some (word ++ text.map (quotedPiece quoting))) rest := by
  induction text generalizing word with
  | nil => simp [lex_single_cons]
  | cons c text ih =>
    rw [List.flatMap_cons, List.append_assoc]
    by_cases quote : c = '\''
    · rw [if_pos quote, writes, ih]
      simp [quotedPiece, quote]
    · rw [if_neg quote, List.singleton_append, lex_single_cons, if_neg quote]
      show lex .single (some (word ++ [⟨c, .single⟩])) _ = _
      rw [ih]
      simp [quotedPiece, quote]

/-- A quoted text goes on with the word before it. -/
theorem lex_quoteWith (writes : WritesQuote escape quoting) (text rest : List Char) (word : Option Word) :
    lex .plain word (quoteWith escape text ++ rest) =
      lex .plain (some (word.getD [] ++ text.map (quotedPiece quoting))) rest := by
  have inner := lex_single writes text rest (word.getD [])
  rw [quoteWith, List.cons_append, List.cons_append, List.append_assoc, List.singleton_append,
    lex_plain_cons, if_pos rfl]
  exact inner

theorem tokens_quoteWith (writes : WritesQuote escape quoting) (text : List Char) :
    tokens (quoteWith escape text) = some [.word (text.map (quotedPiece quoting))] := by
  have all := lex_quoteWith writes text [] none
  rw [List.append_nil] at all
  rw [tokens, all]
  rfl

theorem value_quoted (text : List Char) : Word.value (text.map (quotedPiece quoting)) = text := by
  rw [Word.value, List.map_map]
  exact List.map_id text

theorem quoted_pieces (closed : quoting ≠ .unquoted) (text : List Char) :
    Word.Quoted (text.map (quotedPiece quoting)) := by
  intro piece member
  obtain ⟨c, _, rfl⟩ := List.mem_map.mp member
  by_cases quote : c = '\''
  · rw [quotedPiece, if_pos quote]
    exact closed
  · rw [quotedPiece, if_neg quote]
    exact nofun

theorem value_literal (text : List Char) : Word.value (text.map literalPiece) = text := by
  rw [Word.value, List.map_map]
  exact List.map_id text

theorem lex_literal {text : List Char} (literal : Literal text) (rest : List Char) (word : Word) :
    lex .plain (some word) (text ++ rest) = lex .plain (some (word ++ text.map literalPiece)) rest := by
  induction text generalizing word with
  | nil => simp
  | cons c text ih =>
    obtain ⟨here, later⟩ := List.forall_mem_cons.mp literal
    obtain ⟨plain, operator, quiet⟩ := here
    simp only [List.mem_cons, List.not_mem_nil, or_false, not_or] at plain
    obtain ⟨single, double, backslash, space, tab⟩ := plain
    rw [List.cons_append, lex_plain_cons, if_neg single, if_neg double, if_neg backslash,
      if_neg (not_or.mpr ⟨space, tab⟩),
      if_neg operator, if_neg quiet]
    show lex .plain (some (word ++ [⟨c, .unquoted⟩])) _ = _
    rw [ih later]
    simp [literalPiece]

/-- A literal text that is not empty begins a word. -/
theorem lex_literal_word {text : List Char} (nonempty : text ≠ []) (literal : Literal text) (rest : List Char) :
    lex .plain none (text ++ rest) = lex .plain (some (text.map literalPiece)) rest := by
  obtain ⟨c, text, rfl⟩ := List.exists_cons_of_ne_nil nonempty
  obtain ⟨⟨plain, operator, quiet⟩, later⟩ := List.forall_mem_cons.mp literal
  simp only [List.mem_cons, List.not_mem_nil, or_false, not_or] at plain
  obtain ⟨single, double, backslash, space, tab⟩ := plain
  rw [List.cons_append, lex_plain_cons, if_neg single, if_neg double, if_neg backslash,
    if_neg (not_or.mpr ⟨space, tab⟩),
    if_neg operator, if_neg quiet]
  exact lex_literal later rest [⟨c, .unquoted⟩]

theorem lex_space (word : Option Word) (rest : List Char) :
    lex .plain word (' ' :: rest) = (lex .plain none rest).map (close word) := by
  rw [lex_plain_cons, if_neg (by decide), if_neg (by decide), if_neg (by decide), if_pos (.inl rfl)]

theorem lex_operator {c : Char} (operator : c ∈ operators) (word : Option Word) (rest : List Char) :
    lex .plain word (c :: rest) = (lex .plain none rest).map fun tokens =>
      close word (.operator c :: tokens) := by
  have other : c ≠ '\'' ∧ c ≠ '"' ∧ c ≠ '\\' ∧ ¬(c = ' ' ∨ c = '\t') := by
    have table : ∀ c ∈ operators, c ≠ '\'' ∧ c ≠ '"' ∧ c ≠ '\\' ∧ ¬(c = ' ' ∨ c = '\t') :=
      List.all_iff_forall_prop.mp (by decide)
    exact table c operator
  obtain ⟨single, double, backslash, blank⟩ := other
  rw [lex_plain_cons, if_neg single, if_neg double, if_neg backslash, if_neg blank, if_pos operator]

end

/-- The quote as an escaped character between two quoted texts. -/
theorem writesQuote_escaped : WritesQuote ['\'', '\\', '\'', '\''] .escaped := by
  intro word rest
  rfl

/-- The quote in double quotes between two quoted texts. -/
theorem writesQuote_double : WritesQuote ['\'', '"', '\'', '"', '\''] .double := by
  intro word rest
  rfl

end TermLinks.Shell
