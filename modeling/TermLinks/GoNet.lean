import TermLinks.FilePath

namespace TermLinks.GoNet

/-- `strings.Split` at one character. -/
def split (separator : Char) (text : String) : List String :=
  (text.toList.splitOn separator).map String.ofList

/-- `strings.HasPrefix`. -/
def hasPrefix (text start : String) : Bool := decide (start.toList <+: text.toList)

/-- `strings.HasSuffix`. -/
def hasSuffix (text tail : String) : Bool := decide (tail.toList <:+ text.toList)

/-- `strings.TrimPrefix`. -/
def trimPrefix (text start : String) : String :=
  if hasPrefix text start then String.ofList (text.toList.drop start.toList.length) else text

/-- `strings.Cut` at one character: what is before its first occurrence, and after it. -/
def cut (separator : Char) (text : List Char) : List Char × List Char :=
  (text.takeWhile (· ≠ separator), (text.dropWhile (· ≠ separator)).drop 1)

/-- What this development reads of a `url.URL`. -/
structure URL where
  path : String
  rawQuery : String
deriving DecidableEq

/-- The parts of `net/url` that only escapes and absolute URIs come to. -/
structure Escapes where
  unescape : String → Option String
  authority : String → Bool
  /-- A text without an escape stands for itself. -/
  plain : ∀ text, '%' ∉ text.toList → unescape text = some text

def isControl (c : Char) : Bool := c.val < 0x20 || c.val = 0x7f

def isSchemeChar (c : Char) : Bool := c.isAlpha || c.isDigit || c = '+' || c = '-' || c = '.'

/-- `getScheme`: a scheme starts with a letter and ends at a colon, and a colon with no scheme is an error. -/
def getScheme (rawURL : List Char) : Option (List Char × List Char) :=
  match rawURL with
  | [] => some ([], [])
  | c :: _ =>
    if c = ':' then none
    else if c.isAlpha then
      match rawURL.dropWhile isSchemeChar with
      | ':' :: rest => some (rawURL.takeWhile isSchemeChar, rest)
      | _ => some ([], rawURL)
    else some ([], rawURL)

/-- `url.ParseRequestURI`. -/
def parseRequestURI (escapes : Escapes) (rawURL : String) : Option URL :=
  if rawURL.toList.any isControl then none
  else if rawURL = "" then none
  else if rawURL = "*" then some ⟨"*", ""⟩
  else
    match getScheme rawURL.toList with
    | none => none
    | some (scheme, text) =>
      -- A question mark at the very end leaves the query empty as well.
      let (rest, rawQuery) := cut '?' text
      if rest.head? ≠ some '/' then
        if scheme ≠ [] then some ⟨"", String.ofList rawQuery⟩ else none
      else if scheme ≠ [] ∧ rest.take 2 = ['/', '/'] then
        if escapes.authority (String.ofList ((rest.drop 2).takeWhile (· ≠ '/'))) then
          (escapes.unescape (String.ofList ((rest.drop 2).dropWhile (· ≠ '/')))).map (⟨·, String.ofList rawQuery⟩)
        else none
      else (escapes.unescape (String.ofList rest)).map (⟨·, String.ofList rawQuery⟩)

/-- A pattern of `http.ServeMux`: a method, which may be missing, and the segments of its path. -/
structure Pattern where
  method : String
  segments : List String
deriving DecidableEq

def parsePattern (text : String) : Pattern :=
  match split ' ' text with
  | [method, path] => ⟨method, split '/' path⟩
  | _ => ⟨"", split '/' text⟩

/-- A pattern without a method is for every method, and one for GET is for HEAD too. -/
def Pattern.allows (pattern : Pattern) (method : String) : Bool :=
  pattern.method = "" || method = pattern.method || (pattern.method = "GET" && method = "HEAD")

def isWildcard (segment : String) : Bool :=
  segment.toList.head? = some '{' && segment.toList.getLast? = some '}'

/-- The segments of a path against those of a pattern; `accepts` has the literal before a wildcard and what stands
in the wildcard's place. A pattern that ends in a slash is for every path below it. -/
def matchSegments (accepts : String → String → Bool) : String → List String → List String → Bool
  | _, [], [] => true
  | collection, p :: ps, s :: ss =>
    if p = "" ∧ ps = [] then true
    else if isWildcard p then accepts collection s && matchSegments accepts p ps ss
    else p = s && matchSegments accepts p ps ss
  | _, _, _ => false

def Pattern.serves (pattern : Pattern) (accepts : String → String → Bool) (method path : String) : Bool :=
  pattern.allows method && matchSegments accepts "" pattern.segments (split '/' path)

section

variable {separator : Char} {text other start rest : String}

theorem split_injective (h : split separator text = split separator other) : text = other := by
  have same : text.toList.splitOn separator = other.toList.splitOn separator :=
    (List.map_inj_right fun _ _ h => String.ofList_injective h).mp h
  have glued := congrArg (fun parts => [separator].intercalate parts) same
  simp only [List.intercalate_splitOn] at glued
  exact String.toList_inj.mp glued

theorem split_append : split separator (text ++ String.ofList (separator :: rest.toList)) =
    split separator text ++ split separator rest := by
  simp only [split, String.toList_append, String.toList_ofList, List.splitOn_append_cons_self, List.map_append]

theorem split_ne_nil : split separator text ≠ [] := by
  simp [split]

theorem split_eq_singleton (h : separator ∉ text.toList) : split separator text = [text] := by
  simp [split, List.splitOn_eq_singleton h]

theorem hasPrefix_iff : hasPrefix text start = true ↔ ∃ rest, text = start ++ rest := by
  simp only [hasPrefix, decide_eq_true_eq]
  constructor
  · rintro ⟨rest, whole⟩
    exact ⟨String.ofList rest, String.toList_inj.mp (by simp [whole])⟩
  · rintro ⟨rest, rfl⟩
    exact ⟨rest.toList, by simp⟩

theorem hasSuffix_iff : hasSuffix text other = true ↔ ∃ stem, text = stem ++ other := by
  simp only [hasSuffix, decide_eq_true_eq]
  constructor
  · rintro ⟨stem, whole⟩
    exact ⟨String.ofList stem, String.toList_inj.mp (by simp [whole])⟩
  · rintro ⟨stem, rfl⟩
    exact ⟨stem.toList, by simp⟩

theorem trimPrefix_append : trimPrefix (start ++ rest) start = rest := by
  have there : hasPrefix (start ++ rest) start = true := hasPrefix_iff.mpr ⟨rest, rfl⟩
  rw [trimPrefix, if_pos there]
  simp

theorem intercalate_append {first more : List (List Char)} (some : first ≠ []) (next : more ≠ []) :
    [separator].intercalate (first ++ more) =
      [separator].intercalate first ++ separator :: [separator].intercalate more := by
  induction first with
  | nil => exact absurd rfl some
  | cons part first ih =>
    rw [List.cons_append]
    by_cases last : first = []
    · subst last
      rw [List.nil_append, List.intercalate_cons_of_ne_nil next]
      simp
    · have both : first ++ more ≠ [] := by simp [last]
      rw [List.intercalate_cons_of_ne_nil both, List.intercalate_cons_of_ne_nil last, ih last]
      simp

/-- A text is its parts with the separator between them. -/
theorem intercalate_split :
    [separator].intercalate ((split separator text).map String.toList) = text.toList := by
  have parts : (split separator text).map String.toList = text.toList.splitOn separator := by
    simp [split, Function.comp_def]
  rw [parts, List.intercalate_splitOn]

/-- The parts of a text that has a separator after its start. -/
theorem split_eq_append {more : List String} (next : more ≠ [])
    (h : split separator text = split separator start ++ more) :
    text = start ++ String.ofList (separator :: [separator].intercalate (more.map String.toList)) := by
  have whole := @intercalate_split separator text
  rw [h, List.map_append, intercalate_append (by simp [split_ne_nil]) (by simpa using next), intercalate_split] at whole
  exact String.toList_inj.mp (by simp [← whole])

theorem mem_split {c : Char} (h : c ∈ text.toList) :
    c = separator ∨ ∃ part ∈ split separator text, c ∈ part.toList := by
  have parts : ∀ parts : List (List Char), c ∈ [separator].intercalate parts → c = separator ∨
    ∃ part ∈ parts, c ∈ part := by
    intro parts
    induction parts with
    | nil => simp
    | cons part parts ih =>
      intro member
      by_cases last : parts = []
      · subst last
        exact Or.inr ⟨part, List.mem_singleton.mpr rfl, by simpa using member⟩
      · rw [List.intercalate_cons_of_ne_nil last] at member
        simp only [List.append_assoc, List.singleton_append, List.mem_append, List.mem_cons] at member
        rcases member with here | between | later
        · exact Or.inr ⟨part, List.mem_cons_self, here⟩
        · exact Or.inl between
        · rcases ih later with between | ⟨other, there, inside⟩
          · exact Or.inl between
          · exact Or.inr ⟨other, List.mem_cons_of_mem _ there, inside⟩
  rw [← @intercalate_split separator] at h
  rcases parts _ h with between | ⟨part, there, inside⟩
  · exact Or.inl between
  · obtain ⟨text, member, rfl⟩ := List.mem_map.mp there
    exact Or.inr ⟨text, member, inside⟩

theorem cut_append (before after : List Char) (free : separator ∉ before) :
    cut separator (before ++ separator :: after) = (before, after) := by
  have all : ∀ c ∈ before, c ≠ separator := fun c member same => free (same ▸ member)
  have front := @List.takeWhile_append_of_pos _ (· ≠ separator) before (separator :: after)
    (by simpa using all)
  have back := @List.dropWhile_append_of_pos _ (· ≠ separator) before (separator :: after)
    (by simpa using all)
  simp only [cut, front, back]
  simp

theorem cut_of_not_mem {text : List Char} (free : separator ∉ text) : cut separator text = (text, []) := by
  have all : ∀ c ∈ text, c ≠ separator := fun c member same => free (same ▸ member)
  have front := @List.takeWhile_append_of_pos _ (· ≠ separator) text [] (by simpa using all)
  have back := @List.dropWhile_append_of_pos _ (· ≠ separator) text [] (by simpa using all)
  simp only [List.append_nil, List.takeWhile_nil, List.dropWhile_nil] at front back
  simp only [cut, front, back, List.drop_nil]

theorem cut_eq (text : List Char) : text = (cut separator text).1 ∧ (cut separator text).2 = [] ∨
    text = (cut separator text).1 ++ separator :: (cut separator text).2 := by
  have whole := List.takeWhile_append_dropWhile (p := (· ≠ separator)) (l := text)
  cases rest : text.dropWhile (· ≠ separator) with
  | nil =>
    rw [rest, List.append_nil] at whole
    refine Or.inl ⟨whole.symm, ?_⟩
    simp only [cut, rest, List.drop_nil]
  | cons c after =>
    have stopped : c = separator := by
      have first := List.head?_dropWhile_not (fun c => decide (c ≠ separator)) text
      rw [rest] at first
      simpa using first
    subst stopped
    refine Or.inr ?_
    rw [rest] at whole
    simp only [cut, rest, List.drop_succ_cons, List.drop_zero]
    exact whole.symm

/-- An absolute path without escapes parses to itself up to the first question mark, and the query after it. -/
theorem parseRequestURI_plain (escapes : Escapes) {rawURL : String} (rooted : rawURL.toList.head? = some '/')
    (plain : '%' ∉ rawURL.toList) (control : rawURL.toList.any isControl = false) :
    parseRequestURI escapes rawURL = some ⟨String.ofList (cut '?' rawURL.toList).1,
      String.ofList (cut '?' rawURL.toList).2⟩ := by
  have nonempty : rawURL ≠ "" := by
    rintro rfl
    exact absurd rooted (by decide)
  have path : rawURL ≠ "*" := by
    rintro rfl
    exact absurd rooted (by decide)
  rw [parseRequestURI, control, if_neg Bool.false_ne_true, if_neg nonempty, if_neg path]
  cases chars : rawURL.toList with
  | nil =>
    rw [chars] at rooted
    cases rooted
  | cons c rest =>
    rw [chars] at rooted plain
    have slash : c = '/' := by simpa using rooted
    subst slash
    have noScheme : getScheme ('/' :: rest) = some ([], '/' :: rest) := by
      simp only [getScheme]
      rw [if_neg (by decide), if_neg (by decide)]
    have front : (cut '?' ('/' :: rest)).1.head? = some '/' := rfl
    have same : '%' ∉ (String.ofList (cut '?' ('/' :: rest)).1).toList := by
      rw [String.toList_ofList]
      exact fun member => plain ((List.takeWhile_sublist _).mem member)
    rw [noScheme]
    simp only [front, ne_eq, not_true_eq_false, if_false, false_and]
    rw [escapes.plain _ same]
    rfl

end

end TermLinks.GoNet
