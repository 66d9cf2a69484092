import Mathlib.Data.List.Infix
import Mathlib.Tactic.Common

namespace TermLinks

universe u v

/-- Words that can be told apart where they stand: each begins with a start symbol and holds no other, and none is
the beginning of another. -/
structure PrefixCode (α : Type u) (β : Type v) where
  encode : α → List β
  start : β → Bool
  starts : ∀ a, ∃ b rest, encode a = b :: rest ∧ start b = true ∧ ∀ x ∈ rest, start x = false
  injective : ∀ {a a'}, encode a <+: encode a' → a = a'

/-- The longest of the prefixes that are admitted and within the limit. -/
structure LongestPrefix {β : Type v} (admitted : List β → Prop) (limit : Nat) (whole cut : List β) :
    Prop where
  front : cut <+: whole
  fits : cut.length ≤ limit
  holds : admitted cut
  longest : ∀ other, other <+: whole → other.length ≤ limit → admitted other → other.length ≤ cut.length

/-- The longest of the suffixes that are admitted and within the limit. -/
structure LongestSuffix {β : Type v} (admitted : List β → Prop) (limit : Nat) (whole cut : List β) :
    Prop where
  back : cut <:+ whole
  fits : cut.length ≤ limit
  holds : admitted cut
  longest : ∀ other, other <:+ whole → other.length ≤ limit → admitted other → other.length ≤ cut.length

namespace PrefixCode

variable {α : Type u} {β : Type v} (code : PrefixCode α β)

/-- The symbols are words, one behind the other. -/
def Words (symbols : List β) : Prop := ∃ as : List α, symbols = as.flatMap code.encode

variable {code} {front back symbols : List β}

theorem words_nil : code.Words [] := ⟨[], rfl⟩

theorem words_encode (a : α) : code.Words (code.encode a) := ⟨[a], by simp⟩

theorem words_append (hf : code.Words front) (hb : code.Words back) : code.Words (front ++ back) := by
  obtain ⟨as, rfl⟩ := hf
  obtain ⟨bs, rfl⟩ := hb
  exact ⟨as ++ bs, by simp⟩

theorem encode_pos (a : α) : 0 < (code.encode a).length := by
  obtain ⟨b, rest, eq, -, -⟩ := code.starts a
  rw [eq]
  exact Nat.succ_pos _

/-- Only the first symbol of a word starts one. -/
theorem tail_of_encode {a : α} {b : β} (eq : code.encode a = front ++ b :: back) (inside : front ≠ []) :
    code.start b = false := by
  obtain ⟨first, rest, word, -, others⟩ := code.starts a
  cases front with
  | nil => exact absurd rfl inside
  | cons f front =>
    rw [word, List.cons_append] at eq
    obtain ⟨-, rfl⟩ := List.cons.inj eq
    exact others b (by simp)

theorem head_of_words {b : β} (h : code.Words (b :: back)) : code.start b = true := by
  obtain ⟨as, eq⟩ := h
  cases as with
  | nil => cases eq
  | cons a as =>
    obtain ⟨first, rest, word, starts, -⟩ := code.starts a
    rw [List.flatMap_cons, word, List.cons_append] at eq
    obtain ⟨rfl, -⟩ := List.cons.inj eq
    exact starts

/-- Words may be parted where a start symbol stands. -/
theorem words_split (h : code.Words (front ++ back)) (cut : ∀ b ∈ back.head?, code.start b = true) :
    code.Words front ∧ code.Words back := by
  obtain ⟨as, eq⟩ := h
  induction as generalizing front with
  | nil =>
    obtain ⟨rfl, rfl⟩ := List.append_eq_nil_iff.mp eq
    exact ⟨words_nil, words_nil⟩
  | cons a as ih =>
    rw [List.flatMap_cons] at eq
    rcases List.append_eq_append_iff.mp eq with ⟨part, word, rfl⟩ | ⟨more, rfl, rest⟩
    · by_cases whole : front = []
      · subst whole
        rw [List.nil_append] at word
        subst word
        exact ⟨words_nil, words_append (words_encode a) ⟨as, rfl⟩⟩
      · cases part with
        | nil =>
          rw [List.append_nil] at word
          subst word
          exact ⟨words_encode a, as, rfl⟩
        | cons b part =>
          have starts := cut b rfl
          rw [tail_of_encode word whole] at starts
          cases starts
    · obtain ⟨hf, hb⟩ := ih rest.symm
      exact ⟨words_append (words_encode a) hf, hb⟩

/-- What words are left behind words is words. -/
theorem words_right (h : code.Words (front ++ back)) (hf : code.Words front) : code.Words back := by
  obtain ⟨as, rfl⟩ := hf
  induction as generalizing back with
  | nil => exact h
  | cons a as ih =>
    obtain ⟨bs, eq⟩ := h
    cases bs with
    | nil =>
      have some := code.encode_pos a
      have none := congrArg List.length eq
      simp only [List.flatMap_cons, List.length_append, List.flatMap_nil, List.length_nil] at none
      omega
    | cons b bs =>
      rw [List.flatMap_cons, List.flatMap_cons, List.append_assoc] at eq
      have same : a = b := by
        rcases List.append_eq_append_iff.mp eq with ⟨part, word, -⟩ | ⟨part, word, -⟩
        · exact code.injective ⟨part, word.symm⟩
        · exact (code.injective ⟨part, word.symm⟩).symm
      subst same
      exact ih ⟨bs, List.append_cancel_left eq⟩

theorem starts_of_take {i : Nat} (h : code.Words symbols) (ht : code.Words (symbols.take i)) {b : β}
    (here : symbols[i]? = some b) : code.start b = true := by
  have rest : code.Words (symbols.drop i) := words_right (by rwa [List.take_append_drop]) ht
  obtain ⟨inside, rfl⟩ := List.getElem?_eq_some_iff.mp here
  rw [List.drop_eq_getElem_cons inside] at rest
  exact head_of_words rest

/-- A cut before a start symbol, with no other from there to the limit, leaves the longest prefix. -/
theorem longestPrefix {limit stop : Nat} (h : code.Words symbols) (fits : stop ≤ limit)
    (cut : stop = 0 ∨ ∃ b, symbols[stop]? = some b ∧ code.start b = true)
    (last : ∀ i b, stop < i → i ≤ limit → symbols[i]? = some b → code.start b = false)
    (long : limit < symbols.length) : LongestPrefix code.Words limit symbols (symbols.take stop) := by
  refine ⟨?_, ?_, ?_, ?_⟩
  · exact List.take_prefix _ _
  · rw [List.length_take]
    omega
  · rcases cut with rfl | ⟨b, here, starts⟩
    · rw [List.take_zero]
      exact words_nil
    · refine (words_split (show code.Words (symbols.take stop ++ symbols.drop stop) from ?_) ?_).1
      · rwa [List.take_append_drop]
      · intro first same
        rw [List.head?_drop, here] at same
        cases same
        exact starts
  · intro other start small words
    have front := List.prefix_iff_eq_take.mp start
    rw [List.length_take]
    by_contra longer
    have inside : other.length < symbols.length := by omega
    have here : symbols[other.length]? = some symbols[other.length] := List.getElem?_eq_getElem inside
    rw [front] at words
    have starts := starts_of_take h words here
    rw [last other.length _ (by omega) small here] at starts
    cases starts

/-- What is left of the last symbols within the limit, from the first start symbol on, is the longest suffix. -/
theorem longestSuffix {limit : Nat} (h : code.Words symbols) (long : limit ≤ symbols.length) :
    LongestSuffix code.Words limit symbols
      ((symbols.drop (symbols.length - limit)).dropWhile fun b => !code.start b) := by
  have within := List.drop_suffix (symbols.length - limit) symbols
  have room : (symbols.drop (symbols.length - limit)).length = limit := by
    rw [List.length_drop]
    omega
  generalize symbols.drop (symbols.length - limit) = last at within room
  have back := (List.dropWhile_suffix (fun b => !code.start b)).trans within
  refine ⟨back, ?_, ?_, ?_⟩
  · have shorter := (List.dropWhile_suffix (l := last) (fun b => !code.start b)).length_le
    omega
  · obtain ⟨front, rfl⟩ := back
    refine (words_split h ?_).2
    intro first here
    have starts := List.head?_dropWhile_not (fun b => !code.start b) last
    rw [here] at starts
    simpa using starts
  · intro other suffix small words
    obtain ⟨skipped, rfl⟩ := List.suffix_of_suffix_length_le suffix within (by omega)
    cases other with
    | nil => exact Nat.zero_le _
    | cons b other =>
      have starts := head_of_words words
      have stays : ∃ rest, (skipped ++ b :: other).dropWhile (fun b => !code.start b) = rest ++ b :: other := by
        rw [List.dropWhile_append]
        split
        next =>
          rw [List.dropWhile_cons_of_neg (by simp [starts])]
          exact ⟨[], rfl⟩
        next => exact ⟨_, rfl⟩
      obtain ⟨rest, eq⟩ := stays
      rw [eq, List.length_append]
      omega

end PrefixCode

end TermLinks
