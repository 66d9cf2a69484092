import TermLinks.CoordinatorCompile
import TermLinks.CoordinatorStatus

namespace TermLinks.Coordinator

/-- No mention begins in the text. -/
def Plain (text : List Char) : Prop :=
  ∀ before after, text = before ++ '@' :: after → after.head?.any mentionLetter = false

/-- What the pattern takes after the at sign. -/
def IsName (name : List Char) : Prop :=
  ∃ letter more, name = letter :: more ∧ mentionLetter letter = true ∧ (∀ c ∈ more, mentionRune c = true) ∧
    more.length ≤ 31

/-- The name could not have been longer. -/
def Longest (name text : List Char) : Prop := name.length = 32 ∨ text.head?.any mentionRune = false

def segment (mention : List Char × List Char) : List Char := '@' :: mention.1 ++ mention.2

/-- The request cut at its leftmost-longest mentions. -/
structure Decomposed (request before : List Char) (found : List (List Char × List Char)) : Prop where
  whole : request = before ++ found.flatMap segment
  front : Plain before
  names : ∀ mention ∈ found, IsName mention.1
  longest : ∀ mention ∈ found, Longest mention.1 mention.2
  texts : ∀ mention ∈ found, Plain mention.2

theorem plain_nil : Plain [] := by
  intro before after split
  exact absurd split.symm (by simp)

theorem plain_cons {c : Char} {text : List Char} :
    Plain (c :: text) ↔ ¬(c = '@' ∧ text.head?.any mentionLetter = true) ∧ Plain text := by
  constructor
  · intro plain
    constructor
    · rintro ⟨rfl, letter⟩
      have none := plain [] text rfl
      exact absurd (letter.symm.trans none) (by decide)
    · rintro before after rfl
      exact plain (c :: before) after rfl
  · rintro ⟨here, plain⟩ before after split
    cases before with
    | nil =>
      obtain ⟨rfl, rfl⟩ := List.cons.inj split
      exact Bool.eq_false_iff.mpr fun letter => here ⟨rfl, letter⟩
    | cons first before =>
      obtain ⟨_, rest⟩ := List.cons.inj split
      exact plain before after rest

theorem letter_mentionRune {c : Char} (h : mentionLetter c = true) : mentionRune c = true := by
  simp [mentionRune, h]

/-- The runes that a name takes of what follows the at sign. -/
def nameOf (room : Nat) (text : List Char) : List Char := (text.takeWhile mentionRune).take room

theorem nameOf_append_drop (room : Nat) (text : List Char) :
    nameOf room text ++ text.drop (nameOf room text).length = text := by
  have front : nameOf room text <+: text := (List.take_prefix _ _).trans (List.takeWhile_prefix _)
  exact List.prefix_iff_eq_append.mp front

theorem mentionTokens_name (room : Nat) (text : List Char) :
    mentionTokens room text =
      (nameOf room text).map .name ++ mentionTokens 0 (text.drop (nameOf room text).length) := by
  induction text generalizing room with
  | nil => simp [nameOf, mentionTokens]
  | cons c rest ih =>
    by_cases taken : 0 < room ∧ mentionRune c = true
    · obtain ⟨more, rfl⟩ : ∃ more, room = more + 1 := ⟨room - 1, by omega⟩
      have name : nameOf (more + 1) (c :: rest) = c :: nameOf more rest := by
        rw [nameOf, List.takeWhile_cons_of_pos taken.2, List.take_succ_cons]
        rfl
      rw [mentionTokens, if_pos taken, name, ih]
      rfl
    · have name : nameOf room (c :: rest) = [] := by
        by_cases full : room = 0
        · rw [nameOf, full, List.take_zero]
        · have other : ¬mentionRune c = true := fun rune => taken ⟨by omega, rune⟩
          rw [nameOf, List.takeWhile_cons_of_neg other, List.take_nil]
      rw [name, mentionTokens, if_neg taken]
      simp [mentionTokens]

theorem groupMentions_names (name : List Char) (tokens : List MentionToken) :
    groupMentions (name.map .name ++ tokens) = groupMentions tokens := by
  induction name with
  | nil => rfl
  | cons c name ih => exact ih

/-- The text before the first mention of the request, and its mentions. -/
def cutMentions (request : List Char) : List Char × List (List Char × List Char) :=
  groupMentions (mentionTokens 0 request)

theorem cutMentions_text {c : Char} {rest : List Char} (h : ¬(c = '@' ∧ rest.head?.any mentionLetter = true)) :
    cutMentions (c :: rest) = (c :: (cutMentions rest).1, (cutMentions rest).2) := by
  rw [cutMentions, mentionTokens, if_neg (by simp), if_neg h]
  rfl

theorem mentionTokens_zero_head (text : List Char) (c : Char) :
    (mentionTokens 0 text).head? ≠ some (.name c) := by
  cases text with
  | nil => simp [mentionTokens]
  | cons first rest =>
    rw [mentionTokens, if_neg (by simp)]
    split
    next => simp
    next => simp

theorem takeWhile_names (name : List Char) {tokens : List MentionToken}
    (other : ∀ c, tokens.head? ≠ some (.name c)) :
    ((name.map MentionToken.name ++ tokens).takeWhile fun token => token matches .name _).filterMap
      (fun | .name c => some c | _ => none) = name := by
  induction name with
  | nil =>
    cases tokens with
    | nil => rfl
    | cons token tokens =>
      cases token with
      | text c => rfl
      | start => rfl
      | name c => exact absurd rfl (other c)
  | cons c name ih =>
    rw [List.map_cons, List.cons_append, List.takeWhile_cons_of_pos rfl, List.filterMap_cons]
    exact congrArg (c :: ·) ih

theorem cutMentions_start {rest : List Char} (h : rest.head?.any mentionLetter = true) :
    cutMentions ('@' :: rest) =
      ([], (nameOf 32 rest, (cutMentions (rest.drop (nameOf 32 rest).length)).1) ::
        (cutMentions (rest.drop (nameOf 32 rest).length)).2) := by
  have other := mentionTokens_zero_head (rest.drop (nameOf 32 rest).length)
  rw [cutMentions, mentionTokens, if_neg (by simp), if_pos ⟨rfl, h⟩, mentionTokens_name]
  unfold groupMentions
  dsimp only
  rw [groupMentions_names]
  exact congrArg (fun name => ([], (name, (cutMentions (rest.drop (nameOf 32 rest).length)).1) ::
    (cutMentions (rest.drop (nameOf 32 rest).length)).2)) (takeWhile_names _ other)

theorem nameOf_isName {rest : List Char} (h : rest.head?.any mentionLetter = true) :
    IsName (nameOf 32 rest) := by
  cases rest with
  | nil => exact absurd h (by simp)
  | cons letter rest =>
    have letter' : mentionLetter letter = true := by simpa using h
    refine ⟨letter, (rest.takeWhile mentionRune).take 31, ?_, letter', ?_, ?_⟩
    · rw [nameOf, List.takeWhile_cons_of_pos (letter_mentionRune letter')]
      rfl
    · intro c member
      exact List.all_eq_true.mp List.all_takeWhile c (List.mem_of_mem_take member)
    · rw [List.length_take]
      omega

theorem head_mem {text : List Char} {p : Char → Bool} (h : text.head?.any p = true) :
    ∃ c rest, text = c :: rest ∧ p c = true := by
  cases text with
  | nil => exact absurd h (by simp)
  | cons c rest => exact ⟨c, rest, rfl, by simpa using h⟩

theorem dropWhile_head (p : Char → Bool) (text : List Char) : (text.dropWhile p).head?.any p = false := by
  have stop := List.head?_dropWhile_not p text
  cases found : (text.dropWhile p).head? with
  | none => rfl
  | some c =>
    rw [found] at stop
    simpa using stop

/-- What follows a name that is not full is no rune of a name. -/
theorem nameOf_longest (rest : List Char) :
    (nameOf 32 rest).length = 32 ∨ (rest.drop (nameOf 32 rest).length).head?.any mentionRune = false := by
  by_cases full : 32 ≤ (rest.takeWhile mentionRune).length
  · left
    rw [nameOf, List.length_take]
    omega
  · right
    have all : nameOf 32 rest = rest.takeWhile mentionRune := List.take_of_length_le (by omega)
    have behind : rest.drop (rest.takeWhile mentionRune).length = rest.dropWhile mentionRune := by
      conv_lhs => arg 2; rw [← List.takeWhile_append_dropWhile (p := mentionRune) (l := rest)]
      exact List.drop_left
    rw [all, behind]
    exact dropWhile_head mentionRune rest

theorem head_append {text rest : List Char} {p : Char → Bool} (h : (text ++ rest).head?.any p = false) :
    text.head?.any p = false := by
  cases text with
  | nil => rfl
  | cons c text => simpa using h

theorem cutMentions_sound (request : List Char) :
    Decomposed request (cutMentions request).1 (cutMentions request).2 := by
  induction length : request.length using Nat.strong_induction_on generalizing request with
  | _ n ih =>
    cases request with
    | nil => exact ⟨rfl, plain_nil, by simp [cutMentions, mentionTokens, groupMentions],
        by simp [cutMentions, mentionTokens, groupMentions], by simp [cutMentions, mentionTokens, groupMentions]⟩
    | cons c rest =>
      rw [List.length_cons] at length
      by_cases start : c = '@' ∧ rest.head?.any mentionLetter = true
      · obtain ⟨rfl, letter⟩ := start
        rw [cutMentions_start letter]
        have whole := nameOf_append_drop 32 rest
        have named := nameOf_isName letter
        have longest := nameOf_longest rest
        obtain ⟨whole', front, names, longest', texts⟩ := ih (rest.drop (nameOf 32 rest).length).length
          (by rw [List.length_drop]; omega) (rest.drop (nameOf 32 rest).length) rfl
        refine ⟨?_, plain_nil, List.forall_mem_cons.mpr ⟨named, names⟩, List.forall_mem_cons.mpr ⟨?_, longest'⟩,
          List.forall_mem_cons.mpr ⟨front, texts⟩⟩
        · rw [List.nil_append, List.flatMap_cons, segment, List.cons_append, List.cons_append,
            List.append_assoc, ← whole', whole]
        · rw [whole'] at longest
          exact longest.imp_right head_append
      · rw [cutMentions_text start]
        obtain ⟨whole, front, names, longest, texts⟩ := ih rest.length (by omega) rest rfl
        refine ⟨?_, plain_cons.mpr ⟨?_, front⟩, names, longest, texts⟩
        · rw [List.cons_append, ← whole]
        · rintro ⟨rfl, letter⟩
          refine start ⟨rfl, ?_⟩
          obtain ⟨first, others, here, first'⟩ := head_mem letter
          rw [whole, here]
          simpa using first'

theorem nameOf_append {name rest : List Char} (named : IsName name)
    (longest : name.length = 32 ∨ rest.head?.any mentionRune = false) : nameOf 32 (name ++ rest) = name := by
  obtain ⟨letter, more, rfl, letter', runes, short⟩ := named
  have all : ∀ c ∈ letter :: more, mentionRune c = true := List.forall_mem_cons.mpr ⟨letter_mentionRune letter', runes⟩
  rw [nameOf, List.takeWhile_append_of_pos all]
  obtain full | stop := longest
  · rw [← full]
    exact List.take_left
  · have none : rest.takeWhile mentionRune = [] := by
      cases rest with
      | nil => rfl
      | cons c rest => exact List.takeWhile_cons_of_neg (by simpa using stop)
    rw [none, List.append_nil]
    apply List.take_of_length_le
    rw [List.length_cons]
    omega

theorem segments_head {found : List (List Char × List Char)} {p : Char → Bool} (at_ : p '@' = false) :
    (found.flatMap segment).head?.any p = false := by
  cases found with
  | nil => rfl
  | cons mention found => simpa [segment] using at_

theorem append_head {text rest : List Char} {p : Char → Bool} (front : text.head?.any p = false)
    (back : rest.head?.any p = false) : (text ++ rest).head?.any p = false := by
  cases text with
  | nil => exact back
  | cons c text => simpa using front

theorem cutMentions_plain {before : List Char} {found : List (List Char × List Char)} (plain : Plain before)
    (back : cutMentions (found.flatMap segment) = ([], found)) :
    cutMentions (before ++ found.flatMap segment) = (before, found) := by
  induction before with
  | nil => exact back
  | cons c before ih =>
    obtain ⟨here, plain⟩ := plain_cons.mp plain
    have quiet : ¬(c = '@' ∧ (before ++ found.flatMap segment).head?.any mentionLetter = true) := by
      rintro ⟨rfl, letter⟩
      have front : before.head?.any mentionLetter = false := Bool.eq_false_iff.mpr fun h => here ⟨rfl, h⟩
      have none := append_head front (@segments_head found mentionLetter (by decide))
      exact absurd (letter.symm.trans none) (by decide)
    rw [List.cons_append, cutMentions_text quiet, ih plain]

theorem cutMentions_complete {request before : List Char} {found : List (List Char × List Char)}
    (h : Decomposed request before found) : cutMentions request = (before, found) := by
  obtain ⟨rfl, front, names, longest, texts⟩ := h
  apply cutMentions_plain front
  clear front
  induction found with
  | nil => rfl
  | cons mention found ih =>
    obtain ⟨name, text⟩ := mention
    obtain ⟨named, names⟩ := List.forall_mem_cons.mp names
    obtain ⟨long, longest⟩ := List.forall_mem_cons.mp longest
    obtain ⟨plain, texts⟩ := List.forall_mem_cons.mp texts
    have later := cutMentions_plain plain (ih names longest texts)
    have longest' : name.length = 32 ∨ (text ++ found.flatMap segment).head?.any mentionRune = false :=
      long.imp_right fun stop => append_head stop (segments_head (by decide))
    have taken := nameOf_append named longest'
    have letter : (name ++ (text ++ found.flatMap segment)).head?.any mentionLetter = true := by
      obtain ⟨first, more, rfl, first', _⟩ := named
      simpa using first'
    have split : ((name, text) :: found).flatMap segment = '@' :: (name ++ (text ++ found.flatMap segment)) := by
      rw [List.flatMap_cons, segment, List.cons_append, List.cons_append, List.append_assoc]
    rw [split, cutMentions_start letter, taken, List.drop_left, later]

/-- An agent of the list that the stage can be given to. -/
def Ready (agents : List Agent) (agentID : String) : Prop :=
  ∃ agent ∈ agents, toLower agent.id = agentID ∧ agent.available = true ∧ agent.runnable = true ∧
    agent.authStatus ≠ "needs-login"

/-- The agent can be named in a request: the last installed one of its name is the one that must be runnable. -/
structure Addressable (agents : List Agent) (agentID : String) : Prop where
  known : agentID ∈ knownAgents
  ready : Ready agents agentID
  enabled : ∀ agent, agentNamed (agents.filter (·.available)) agentID = some agent → agent.runnable = true

def defaultPrompt : String := "Continue the requested workflow and report the result."

def listPunctuation : List Char := [' ', ',', ':', ';', '-', '\n', '\t']

/-- The text cut into white space, leading list punctuation, the rest and white space, each cut as far as it goes. -/
structure Trimmed (text lead punctuation rest trail : List Char) : Prop where
  whole : text = lead ++ (punctuation ++ rest) ++ trail
  leading : ∀ c ∈ lead, isSpace c = true
  trailing : ∀ c ∈ trail, isSpace c = true
  front : (punctuation ++ rest).head?.any isSpace = false
  back : (punctuation ++ rest).getLast?.any isSpace = false
  listed : ∀ c ∈ punctuation, c ∈ listPunctuation
  stop : rest.head?.any (fun c => decide (c ∈ listPunctuation)) = false

/-- The prompt is what the text holds besides surrounding white space and leading list punctuation, or the default when
that is nothing. -/
def PromptOf (text : List Char) (prompt : String) : Prop :=
  ∃ lead punctuation rest trail, Trimmed text lead punctuation rest trail ∧
    prompt = if rest = [] then defaultPrompt else String.ofList rest

structure Directed (agents : List Agent) (position : Nat) (mention : List Char × List Char)
    (stage : Stage) : Prop where
  position : stage.position = position
  agentID : stage.agentID = toLower (String.ofList mention.1)
  addressable : Addressable agents stage.agentID
  prompt : ∀ prompt, PromptOf mention.2 prompt ↔ prompt = stage.prompt

/-- The first agent of the preference order that is ready. -/
def Preferred (agents : List Agent) (agentID : String) : Prop :=
  ∃ before after, knownAgents = before ++ agentID :: after ∧ Ready agents agentID ∧
    ∀ earlier ∈ before, ¬Ready agents earlier

theorem agentNamed_isSome {agents : List Agent} {id : String} :
    (agentNamed agents id).isSome = true ↔ ∃ agent ∈ agents, toLower agent.id = id := by
  simp [agentNamed]

theorem ready_iff {agents : List Agent} {id : String} :
    (agentNamed (agents.filter fun agent =>
      agent.available && agent.runnable && agent.authStatus ≠ "needs-login") id).isSome = true ↔
      Ready agents id := by
  rw [agentNamed_isSome]
  simp only [List.mem_filter, Ready]
  constructor
  · rintro ⟨agent, ⟨member, usable⟩, named⟩
    simp only [Bool.and_eq_true, decide_eq_true_eq] at usable
    exact ⟨agent, member, named, usable.1.1, usable.1.2, usable.2⟩
  · rintro ⟨agent, member, named, available, runnable, login⟩
    exact ⟨agent, ⟨member, by simp [available, runnable, login]⟩, named⟩

theorem dropWhile_lead {p : Char → Bool} {lead text : List Char} (leading : ∀ c ∈ lead, p c = true)
    (stop : text.head?.any p = false) : (lead ++ text).dropWhile p = text := by
  rw [List.dropWhile_append_of_pos leading]
  cases text with
  | nil => rfl
  | cons c text => exact List.dropWhile_cons_of_neg (by simpa using stop)

/-- `trimSpace` leaves the text between its surrounding white space. -/
theorem trimSpace_core {lead core trail : List Char} (leading : ∀ c ∈ lead, isSpace c = true)
    (trailing : ∀ c ∈ trail, isSpace c = true) (front : core.head?.any isSpace = false)
    (back : core.getLast?.any isSpace = false) :
    trimSpace (String.ofList (lead ++ core ++ trail)) = String.ofList core := by
  rw [trimSpace, String.toList_ofList, List.append_assoc, List.dropWhile_append_of_pos leading]
  have trailing' : ∀ c ∈ trail.reverse, isSpace c = true := fun c member => trailing c (List.mem_reverse.mp member)
  have back : core.reverse.head?.any isSpace = false := by rwa [List.head?_reverse]
  have cut : ((core ++ trail).reverse.dropWhile isSpace).reverse = core := by
    rw [List.reverse_append, dropWhile_lead trailing' back, List.reverse_reverse]
  cases core with
  | nil =>
    have none : trail.dropWhile isSpace = [] := by
      simpa only [List.append_nil] using @dropWhile_lead isSpace trail [] trailing rfl
    rw [List.nil_append, none]
    rfl
  | cons c core =>
    have kept : (c :: core ++ trail).dropWhile isSpace = c :: core ++ trail :=
      List.dropWhile_cons_of_neg (by simpa using front)
    rw [kept, cut]

/-- Every text is cut in such a way. -/
theorem trimmed_exists (text : List Char) :
    ∃ lead punctuation rest trail, Trimmed text lead punctuation rest trail := by
  let behind := text.dropWhile isSpace
  let core := (behind.reverse.dropWhile isSpace).reverse
  have all : ∀ (p : Char → Bool) (l : List Char), ∀ c ∈ l.takeWhile p, p c = true :=
    fun p l c member => List.all_eq_true.mp List.all_takeWhile c member
  have cut : core ++ (behind.reverse.takeWhile isSpace).reverse = behind := by
    rw [← List.reverse_append, List.takeWhile_append_dropWhile, List.reverse_reverse]
  have listed : core.takeWhile (decide <| · ∈ listPunctuation) ++
      core.dropWhile (decide <| · ∈ listPunctuation) = core :=
    List.takeWhile_append_dropWhile
  refine ⟨text.takeWhile isSpace, core.takeWhile (decide <| · ∈ listPunctuation),
    core.dropWhile (decide <| · ∈ listPunctuation), (behind.reverse.takeWhile isSpace).reverse,
    ?_, all isSpace text, ?_, ?_, ?_, fun c member => of_decide_eq_true (all _ core c member), dropWhile_head _ core⟩
  · rw [listed, List.append_assoc, cut, List.takeWhile_append_dropWhile]
  · exact fun c member => all isSpace behind.reverse c (List.mem_reverse.mp member)
  · rw [listed]
    have front := dropWhile_head isSpace text
    change behind.head?.any isSpace = false at front
    rw [← cut] at front
    exact head_append front
  · rw [listed, List.getLast?_reverse]
    exact dropWhile_head isSpace behind.reverse

theorem trimmed_rest {text lead punctuation rest trail : List Char}
    (h : Trimmed text lead punctuation rest trail) :
    trimListPunctuation (trimSpace (String.ofList text)) = String.ofList rest := by
  obtain ⟨rfl, leading, trailing, front, back, listed, stop⟩ := h
  have cut : (punctuation ++ rest).dropWhile (fun c => decide (c ∈ listPunctuation)) = rest :=
    dropWhile_lead (fun c member => decide_eq_true (listed c member)) stop
  rw [trimSpace_core leading trailing front back, trimListPunctuation, String.toList_ofList]
  exact congrArg String.ofList cut

/-- A text has one prompt, and the two trims find it. -/
theorem promptOf_iff {text : List Char} {prompt : String} :
    PromptOf text prompt ↔ prompt =
      if trimListPunctuation (trimSpace (String.ofList text)) = "" then defaultPrompt
      else trimListPunctuation (trimSpace (String.ofList text)) := by
  have empty : ∀ rest : List Char, String.ofList rest = "" ↔ rest = [] := by
    intro rest
    rw [← String.toList_inj, String.toList_ofList]
    exact Iff.rfl
  constructor
  · rintro ⟨lead, punctuation, rest, trail, trimmed, rfl⟩
    simp only [trimmed_rest trimmed, empty]
  · intro h
    obtain ⟨lead, punctuation, rest, trail, trimmed⟩ := trimmed_exists text
    simp only [trimmed_rest trimmed, empty] at h
    exact ⟨lead, punctuation, rest, trail, trimmed, h⟩

/-- The agents a mention can name. -/
def installedOf (agents : List Agent) : List Agent := agents.filter (·.available)

def availableOf (agents : List Agent) : List Agent :=
  agents.filter fun agent => agent.available && agent.runnable && agent.authStatus ≠ "needs-login"

theorem compileStage_ok {agents : List Agent} {newID : Nat → String} {index : Nat}
    {mention : List Char × List Char} {stage : Stage}
    (h : compileStage (installedOf agents) (availableOf agents) newID index
      (String.ofList mention.1) (String.ofList mention.2) = .ok stage) :
    Directed agents index mention stage := by
  unfold compileStage at h
  dsimp only at h
  split at h
  next => cases h
  next known =>
    split at h
    next => cases h
    next enabled =>
      split at h
      next => cases h
      next ready =>
        cases h
        have prompt := @promptOf_iff mention.2
        unfold defaultPrompt at prompt
        refine ⟨rfl, rfl, ⟨Decidable.not_not.mp known, ?_, ?_⟩, ?_⟩
        · apply ready_iff.mp
          rwa [Option.isNone_iff_eq_none, ← Option.not_isSome_iff_eq_none, not_not] at ready
        · intro agent found
          have found : agentNamed (installedOf agents) (toLower (String.ofList mention.1)) = some agent := found
          rw [found] at enabled
          simpa using enabled
        · intro other
          dsimp only
          exact prompt

theorem compileStage_addressable {agents : List Agent} {newID : Nat → String} {index : Nat}
    {mention : List Char × List Char} (h : Addressable agents (toLower (String.ofList mention.1))) :
    ∃ stage, compileStage (installedOf agents) (availableOf agents) newID index (String.ofList mention.1)
      (String.ofList mention.2) = .ok stage := by
  obtain ⟨known, ready, enabled⟩ := h
  have runnable : ¬(agentNamed (installedOf agents) (toLower (String.ofList mention.1))).any
    (fun candidate => !candidate.runnable) = true := by
    intro blocked
    obtain ⟨agent, found, off⟩ := (Option.any_eq_true _ _).mp blocked
    have on := enabled agent found
    rw [on] at off
    exact nomatch off
  have present : ¬(agentNamed (availableOf agents) (toLower (String.ofList mention.1))).isNone = true := by
    rw [Option.isNone_iff_eq_none, ← Option.not_isSome_iff_eq_none, not_not]
    exact ready_iff.mpr ready
  rw [compileStage, if_neg (not_not_intro known), if_neg runnable, if_neg present]
  exact ⟨_, rfl⟩

/-- Cut into mentions, the request compiles to a stage for each, in their order. -/
theorem compileStages_ok {agents : List Agent} {newID : Nat → String} {index : Nat}
    {found : List (List Char × List Char)} {stages : List Stage}
    (h : compileStages (installedOf agents) (availableOf agents) newID index
      (found.map fun (name, text) => (String.ofList name, String.ofList text)) = .ok stages) :
    stages.length = found.length ∧
      ∀ i mention, found[i]? = some mention → ∃ stage, stages[i]? = some stage ∧
      Directed agents (index + i) mention stage := by
  induction found generalizing index stages with
  | nil =>
    cases h
    exact ⟨rfl, fun i mention here => absurd here (by simp)⟩
  | cons mention found ih =>
    rw [List.map_cons, compileStages] at h
    obtain ⟨stage, first, h⟩ := bind_ok_iff.mp h
    obtain ⟨later, rest, h⟩ := bind_ok_iff.mp h
    cases h
    obtain ⟨length, others⟩ := ih rest
    refine ⟨by rw [List.length_cons, length, List.length_cons], fun i other here => ?_⟩
    cases i with
    | zero =>
      rw [List.getElem?_cons_zero] at here
      cases Option.some.inj here
      exact ⟨stage, rfl, compileStage_ok first⟩
    | succ i =>
      obtain ⟨next, there, directed⟩ := others i other here
      refine ⟨next, there, ?_⟩
      rwa [Nat.add_right_comm, Nat.add_assoc] at directed

theorem compileStages_addressable {agents : List Agent} {newID : Nat → String} {index : Nat}
    {found : List (List Char × List Char)}
    (h : ∀ mention ∈ found, Addressable agents (toLower (String.ofList mention.1))) :
    ∃ stages, compileStages (installedOf agents) (availableOf agents) newID index
      (found.map fun (name, text) => (String.ofList name, String.ofList text)) = .ok stages := by
  induction found generalizing index with
  | nil => exact ⟨[], rfl⟩
  | cons mention found ih =>
    obtain ⟨first, others⟩ := List.forall_mem_cons.mp h
    obtain ⟨stage, compiled⟩ := compileStage_addressable first
    obtain ⟨stages, rest⟩ := ih others
    refine ⟨stage :: stages, ?_⟩
    rw [List.map_cons, compileStages]
    exact bind_ok_iff.mpr ⟨stage, compiled, bind_ok_iff.mpr ⟨stages, rest, rfl⟩⟩

theorem find_preferred {agents : List Agent} {agentID : String} (h : knownAgents.find? (fun candidate =>
      (agentNamed (availableOf agents) candidate).isSome) = some agentID) :
    Preferred agents agentID := by
  obtain ⟨ready, before, after, split, none⟩ := List.find?_eq_some_iff_append.mp h
  refine ⟨before, after, split, ready_iff.mp ready, fun earlier member ready => ?_⟩
  have off := none earlier member
  rw [Bool.not_eq_true', Bool.eq_false_iff] at off
  exact off (ready_iff.mpr ready)

/-- What a draft is made of: a stage for each mention, or the whole request for one agent. -/
def Staged (agents : List Agent) (request : String) (found : List (List Char × List Char))
    (stages : List Stage) : Prop :=
  (found ≠ [] ∧ found.length ≤ 8 ∧ stages.length = found.length ∧
    ∀ i mention, found[i]? = some mention → ∃ stage, stages[i]? = some stage ∧ Directed agents i mention stage) ∨
  found = [] ∧ ∃ stage, stages = [stage] ∧ stage.position = 0 ∧ Preferred agents stage.agentID ∧ stage.prompt = request

/-- The request cannot be compiled. -/
def Refused (agents : List Agent) (request : String) (found : List (List Char × List Char)) : Prop :=
  request = "" ∨ maxRequestBytes < byteLen request ∨ 8 < found.length ∨
    (∃ mention ∈ found, ¬Addressable agents (toLower (String.ofList mention.1))) ∨
    found = [] ∧ ∀ agentID ∈ knownAgents, ¬Ready agents agentID

theorem mentions_decomposed {request : String} {before : List Char} {found : List (List Char × List Char)}
    (h : Decomposed request.toList before found) :
    mentions request = found.map fun (name, text) => (String.ofList name, String.ofList text) := by
  have cut := cutMentions_complete h
  rw [mentions, ← cutMentions, cut]

theorem compile_ok {request cwd : String} {agents : List Agent} {newID : Nat → String} {before : List Char}
    {found : List (List Char × List Char)} {draft : Draft}
    (cut : Decomposed (trimSpace request).toList before found)
    (h : compile request cwd agents newID = .ok draft) :
    draft.request = trimSpace request ∧ draft.cwd = cwd ∧ trimSpace request ≠ "" ∧
      byteLen (trimSpace request) ≤ maxRequestBytes ∧
      Staged agents (trimSpace request) found draft.stages := by
  have cut := mentions_decomposed cut
  unfold compile at h
  dsimp only at h
  rw [cut, List.length_map] at h
  split at h
  next => cases h
  next nonempty =>
    split at h
    next => cases h
    next fits =>
      have fits : byteLen (trimSpace request) ≤ maxRequestBytes := Nat.le_of_not_lt fits
      split at h
      next => cases h
      next few =>
        obtain ⟨stages, compiled, h⟩ := bind_ok_iff.mp h
        obtain ⟨length, directed⟩ := compileStages_ok compiled
        split at h
        next some =>
          cases h
          refine ⟨rfl, rfl, nonempty, fits, .inl ⟨?_, Nat.le_of_not_lt few, length, ?_⟩⟩
          · rintro rfl
            exact some (List.length_eq_zero_iff.mp length)
          · intro i mention here
            have stage := directed i mention here
            rwa [Nat.zero_add] at stage
        next none =>
          have none : found = [] := by
            rw [Decidable.not_not.mp none] at length
            exact List.length_eq_zero_iff.mp length.symm
          split at h
          next => cases h
          next agentID chosen =>
            cases h
            exact ⟨rfl, rfl, nonempty, fits, .inr ⟨none, _, rfl, rfl, find_preferred chosen, rfl⟩⟩

theorem compile_succeeds {request : String} (cwd : String) {agents : List Agent} (newID : Nat → String)
    {before : List Char} {found : List (List Char × List Char)}
    (cut : Decomposed (trimSpace request).toList before found) (h : ¬Refused agents (trimSpace request) found) :
    ∃ draft, compile request cwd agents newID = .ok draft := by
  simp only [Refused, not_or, not_lt, not_exists, not_and, not_not, not_forall] at h
  obtain ⟨nonempty, fits, few, addressable, ready⟩ := h
  have cut := mentions_decomposed cut
  obtain ⟨stages, compiled⟩ := @compileStages_addressable agents newID 0 found addressable
  have small : ¬byteLen (trimSpace request) > maxRequestBytes := by omega
  have eight : ¬found.length > 8 := by omega
  unfold compile
  dsimp only
  rw [if_neg nonempty, if_neg small, cut, List.length_map, if_neg eight]
  by_cases stageless : stages = []
  · obtain ⟨length, _⟩ := compileStages_ok compiled
    have none : found = [] := by
      rw [stageless] at length
      exact List.length_eq_zero_iff.mp length.symm
    obtain ⟨agentID, known, one⟩ := ready none
    have chosen : (knownAgents.find? fun candidate =>
        (agentNamed (availableOf agents) candidate).isSome).isSome = true :=
      List.find?_isSome.mpr ⟨agentID, known, ready_iff.mpr one⟩
    obtain ⟨first, chosen⟩ := Option.isSome_iff_exists.mp chosen
    unfold installedOf availableOf at compiled
    unfold availableOf at chosen
    rw [compiled, stageless]
    dsimp only [bind, Except.bind]
    rw [if_neg (not_not_intro rfl), chosen]
    exact ⟨_, rfl⟩
  · unfold installedOf availableOf at compiled
    rw [compiled]
    dsimp only [bind, Except.bind]
    rw [if_pos stageless]
    exact ⟨_, rfl⟩

/-- A request is cut in one way at its leftmost-longest mentions, and compiles to a stage for each of them or, without
any, to one stage for the preferred agent; what cannot be compiled that way is an error. -/
theorem compile_mentions (request cwd : String) (agents : List Agent) (newID : Nat → String) :
    ∃ before found, Decomposed (trimSpace request).toList before found ∧
      (∀ other others, Decomposed (trimSpace request).toList other others → other = before ∧ others = found) ∧
      match compile request cwd agents newID with
      | .ok draft => draft.request = trimSpace request ∧ draft.cwd = cwd ∧ trimSpace request ≠ "" ∧
          byteLen (trimSpace request) ≤ maxRequestBytes ∧ Staged agents (trimSpace request) found draft.stages
      | .error _ => Refused agents (trimSpace request) found := by
  have cut := cutMentions_sound (trimSpace request).toList
  refine ⟨_, _, cut, fun other others h => ?_, ?_⟩
  · have same := cutMentions_complete h
    rw [same]
    exact ⟨rfl, rfl⟩
  cases compiled : compile request cwd agents newID with
  | ok draft => exact compile_ok cut compiled
  | error message =>
    by_contra accepted
    obtain ⟨draft, succeeded⟩ := compile_succeeds cwd newID cut accepted
    exact nomatch compiled.symm.trans succeeded

end TermLinks.Coordinator
