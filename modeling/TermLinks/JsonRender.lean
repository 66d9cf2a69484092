import Mathlib.Data.Bool.AllAny
import TermLinks.Json

namespace TermLinks.Json

theorem neZero_ten : NeZero 10 := ⟨by decide⟩

section

attribute [local instance] neZero_ten

def decimal (n : Nat) : List (Fin 10) :=
  if n = 0 then [0] else (Nat.digits 10 n).reverse.map (Fin.ofNat 10)

end

def digitChar (d : Fin 10) : Char := Char.ofNat (48 + d)

def renderExponent (e : Int) : List Char :=
  'e' :: (if e < 0 then '-' :: (decimal e.natAbs).map digitChar else (decimal e.natAbs).map digitChar)

def renderNumber (n : Number) : List Char :=
  (if n.negative then ['-'] else []) ++ (decimal n.whole).map digitChar ++
    (if n.fraction = [] then [] else '.' :: n.fraction.map digitChar) ++ (n.exponent.map renderExponent).getD []

def ofInt (n : Int) : Number := ⟨decide (n < 0), n.natAbs, [], none⟩

def unicodeEscape (n : Nat) : List Char :=
  ['\\', 'u', hexDigit (n / 4096 % 16), hexDigit (n / 256 % 16), hexDigit (n / 16 % 16), hexDigit (n % 16)]

/-- A character of a string; the writer escapes control characters and those of `extra` by number. -/
def escapeChar (extra : Char → Bool) (c : Char) : List Char :=
  match shortEscapes.find? fun pair => pair.1 = c with
  | some (_, short) => ['\\', short]
  | none => if c.toNat < 0x20 || extra c then unicodeEscape c.toNat else [c]

def quote (extra : Char → Bool) (text : String) : List Char :=
  '"' :: (text.toList.flatMap (escapeChar extra) ++ ['"'])

mutual

/-- The compact text of a value. -/
def render (extra : Char → Bool) : Value → List Char
  | .null => "null".toList
  | .bool true => "true".toList
  | .bool false => "false".toList
  | .number n => renderNumber n
  | .string text => quote extra text
  | .array vs => '[' :: (renderItems extra vs ++ [']'])
  | .object pairs => '\x7b' :: (renderMembers extra pairs ++ ['\x7d'])

def renderItems (extra : Char → Bool) : List Value → List Char
  | [] => []
  | [v] => render extra v
  | v :: w :: more => render extra v ++ ',' :: renderItems extra (w :: more)

def renderMembers (extra : Char → Bool) : List (String × Value) → List Char
  | [] => []
  | [(name, v)] => quote extra name ++ ':' :: render extra v
  | (name, v) :: pair :: more =>
    quote extra name ++ ':' :: (render extra v ++ ',' :: renderMembers extra (pair :: more))

end

theorem digit_digitChar (d : Fin 10) : digit (digitChar d) = some d := by
  have table : ∀ d : Fin 10, digit (digitChar d) = some d := by decide
  exact table d

/-- The next character does not go on with a number. -/
def Stops (rest : List Char) : Prop := ∀ c ∈ rest.head?, digit c = none ∧ c ≠ '.' ∧ c ≠ 'e' ∧ c ≠ 'E'

theorem stops_nil : Stops [] := fun c h => absurd h (by simp)

theorem stops_cons {c : Char} (h : c = ',' ∨ c = ']' ∨ c = '\x7d') (rest : List Char) :
    Stops (c :: rest) := by
  intro d mem
  have same : c = d := by simpa using mem
  subst same
  rcases h with rfl | rfl | rfl <;> decide

theorem digits_append (ds : List (Fin 10)) {rest : List Char} (h : ∀ c ∈ rest.head?, digit c = none) :
    digits (ds.map digitChar ++ rest) = (ds, rest) := by
  induction ds with
  | nil =>
    cases rest with
    | nil => rfl
    | cons c rest =>
      have other := h c (by simp)
      simp [digits, other]
  | cons d ds ih =>
    have first := digit_digitChar d
    simp [digits, first, ih]

theorem ofDigits_decimal (n : Nat) : ofDigits (decimal n) = n := by
  unfold ofDigits decimal
  split
  next zero => subst zero; rfl
  next =>
    have small : (Nat.digits 10 n).map (Fin.val ∘ Fin.ofNat 10) = Nat.digits 10 n := by
      have same : ∀ d ∈ Nat.digits 10 n, (Fin.val ∘ Fin.ofNat 10) d = d := fun d mem =>
        Nat.mod_eq_of_lt (Nat.digits_lt_base (by omega) mem)
      simpa using List.map_congr_left same
    rw [← List.map_reverse, List.reverse_reverse, List.map_map, small]
    exact Nat.ofDigits_digits 10 n

theorem decimal_ne_nil (n : Nat) : decimal n ≠ [] := by
  unfold decimal
  split
  next => exact List.cons_ne_nil _ _
  next positive =>
    have nonempty : Nat.digits 10 n ≠ [] := Nat.digits_ne_nil_iff_ne_zero.mpr positive
    simpa using nonempty

/-- No number but zero begins with a zero. -/
theorem decimal_head {n : Nat} {ds : List (Fin 10)} (h : decimal n = 0 :: ds) : ds = [] := by
  unfold decimal at h
  split at h
  next => exact (List.cons.inj h).2.symm
  next positive =>
    have nonempty : Nat.digits 10 n ≠ [] := Nat.digits_ne_nil_iff_ne_zero.mpr positive
    have last := Nat.getLast_digit_ne_zero 10 positive
    have bound := Nat.digits_lt_base (by omega) (List.getLast_mem nonempty)
    have front : (Nat.digits 10 n).reverse.head? = some ((Nat.digits 10 n).getLast nonempty) := by
      rw [List.head?_reverse, List.getLast?_eq_some_getLast nonempty]
    have zero : ((Nat.digits 10 n).reverse.map (Fin.ofNat 10)).head? = some 0 := by
      rw [h]
      rfl
    rw [List.head?_map, front, Option.map_some] at zero
    have value := congrArg Fin.val (Option.some.inj zero)
    have modulo : (Nat.digits 10 n).getLast nonempty % 10 = 0 := value
    omega

theorem wholePart_decimal (n : Nat) {rest : List Char} (h : ∀ c ∈ rest.head?, digit c = none) :
    wholePart ((decimal n).map digitChar ++ rest) = some (n, rest) := by
  have value := ofDigits_decimal n
  unfold wholePart
  rw [digits_append _ h]
  cases shape : decimal n with
  | nil => exact absurd shape (decimal_ne_nil n)
  | cons d ds =>
    rw [shape] at value
    have single : ¬(d = 0 ∧ ds ≠ []) := by
      rintro ⟨rfl, more⟩
      exact more (decimal_head shape)
    simp only [if_neg single, value]

theorem fractionPart_render (ds : List (Fin 10)) {rest : List Char}
    (h : ∀ c ∈ rest.head?, digit c = none ∧ c ≠ '.') :
    fractionPart ((if ds = [] then [] else '.' :: ds.map digitChar) ++ rest) = some (ds, rest) := by
  split
  next empty =>
    subst empty
    cases rest with
    | nil => rfl
    | cons c rest =>
      have other := (h c (by simp)).2
      simp [fractionPart, other]
  next some_digits =>
    have read := digits_append ds fun c mem => (h c mem).1
    simp [fractionPart, read, some_digits]

theorem digitChar_ne (d : Fin 10) : digitChar d ≠ '-' ∧ digitChar d ≠ '+' := by
  have table : ∀ d : Fin 10, digitChar d ≠ '-' ∧ digitChar d ≠ '+' := by decide
  exact table d

theorem exponentSign_decimal (n : Nat) (rest : List Char) :
    exponentSign ((decimal n).map digitChar ++ rest) = (false, (decimal n).map digitChar ++ rest) := by
  cases shape : decimal n with
  | nil => exact absurd shape (decimal_ne_nil n)
  | cons d ds =>
    have first := digitChar_ne d
    simp [exponentSign, first]

theorem exponentPart_render (e : Int) {rest : List Char} (h : ∀ c ∈ rest.head?, digit c = none) :
    exponentPart (renderExponent e ++ rest) = some (some e, rest) := by
  have read := digits_append (decimal e.natAbs) h
  have value := ofDigits_decimal e.natAbs
  have sign := exponentSign_decimal e.natAbs rest
  by_cases negative : e < 0
  · have back : signed true e.natAbs = e := by
      unfold signed
      rw [if_pos rfl]
      omega
    cases shape : decimal e.natAbs with
    | nil => exact absurd shape (decimal_ne_nil _)
    | cons d ds =>
      rw [shape] at value read
      simp only [renderExponent, negative, if_true, shape, exponentPart, List.cons_append, true_or, exponentSign]
      rw [read]
      simp only [value, back]
  · have back : signed false e.natAbs = e := by
      unfold signed
      rw [if_neg (by simp)]
      omega
    cases shape : decimal e.natAbs with
    | nil => exact absurd shape (decimal_ne_nil _)
    | cons d ds =>
      rw [shape] at value read sign
      simp only [renderExponent, negative, if_false, shape, exponentPart, List.cons_append, true_or, if_true]
      rw [sign, read]
      simp only [value, back]

theorem number_render (n : Number) {rest : List Char} (h : Stops rest) :
    number (renderNumber n ++ rest) = some (n, rest) := by
  obtain ⟨negative, whole, fraction, exponent⟩ := n
  have tail : ∃ tail, tail = (exponent.map renderExponent).getD [] ++ rest ∧
      (∀ c ∈ tail.head?, digit c = none ∧ c ≠ '.') ∧ exponentPart tail = some (exponent, rest) := by
    refine ⟨_, rfl, ?_⟩
    cases exponent with
    | none =>
      refine ⟨fun c mem => ⟨(h c mem).1, (h c mem).2.1⟩, ?_⟩
      cases rest with
      | nil => rfl
      | cons c rest =>
        have other := (h c (by simp)).2.2
        simp [exponentPart, other]
    | some e =>
      have read := exponentPart_render e fun c mem => (h c mem).1
      refine ⟨?_, read⟩
      intro c mem
      have same : 'e' = c := by simpa [renderExponent] using mem
      subst same
      decide
  obtain ⟨tail, tail_eq, clean, last⟩ := tail
  have middle := fractionPart_render fraction clean
  have after : ∀ c ∈ ((if fraction = [] then [] else '.' :: fraction.map digitChar) ++ tail).head?,
      digit c = none := by
    intro c mem
    split at mem
    next => exact (clean c mem).1
    next =>
      have same : '.' = c := by simpa using mem
      subst same
      decide
  have front := wholePart_decimal whole after
  have sign : minus ((if negative then ['-'] else []) ++ ((decimal whole).map digitChar ++
      ((if fraction = [] then [] else '.' :: fraction.map digitChar) ++ tail))) =
      (negative, (decimal whole).map digitChar ++
        ((if fraction = [] then [] else '.' :: fraction.map digitChar) ++ tail)) := by
    cases negative with
    | true => simp [minus]
    | false =>
      cases shape : decimal whole with
      | nil => exact absurd shape (decimal_ne_nil _)
      | cons d ds =>
        have first := digitChar_ne d
        simp [minus, first]
  unfold renderNumber number
  simp only [List.append_assoc, ← tail_eq, sign, front, middle, last, Option.bind_eq_bind, Option.bind_some]

theorem hexValue_hexDigit {n : Nat} (h : n < 16) : hexValue (hexDigit n) = some n := by
  have table : ∀ n < 16, hexValue (hexDigit n) = some n := by decide
  exact table n h

theorem hexUnit_escape {n : Nat} (h : n < 65536) :
    hexUnit (hexDigit (n / 4096 % 16)) (hexDigit (n / 256 % 16)) (hexDigit (n / 16 % 16))
      (hexDigit (n % 16)) =
      some (UInt16.ofNat n) := by
  have sum : ((n / 4096 % 16 * 16 + n / 256 % 16) * 16 + n / 16 % 16) * 16 + n % 16 = n := by omega
  unfold hexUnit
  rw [hexValue_hexDigit (by omega), hexValue_hexDigit (by omega), hexValue_hexDigit (by omega),
    hexValue_hexDigit (by omega)]
  simp only [Option.bind_eq_bind, Option.bind_some, sum]

theorem shortEscapes_find {c short : Char}
    (h : (shortEscapes.find? fun pair => pair.1 = c) = some (c, short)) :
    short ≠ 'u' ∧ unescape short = some c := by
  have mem := List.mem_of_find?_eq_some h
  have table : ∀ pair ∈ shortEscapes, pair.2 ≠ 'u' ∧ unescape pair.2 = some pair.1 := by decide
  exact table _ mem

theorem plain_of_find {c : Char} (h : (shortEscapes.find? fun pair => pair.1 = c) = none) :
    c ≠ '"' ∧ c ≠ '\\' := by
  have all := List.find?_eq_none.mp h
  have table : ∀ d ∈ ['"', '\\'], ∃ pair ∈ shortEscapes, pair.1 = d :=
    List.all_iff_forall_prop.mp (by decide)
  constructor
  · rintro rfl
    obtain ⟨pair, mem, same⟩ := table '"' (by simp)
    exact all pair mem (by simpa using same)
  · rintro rfl
    obtain ⟨pair, mem, same⟩ := table '\\' (by simp)
    exact all pair mem (by simpa using same)

/-- Reading one written character. -/
theorem stringBody_escapeChar {extra : Char → Bool} (basic : ∀ c, extra c → c.toNat < 65536) (c : Char)
    {rest more : List Char} {units : Utf16.Units} (h : stringBody rest = some (units, more)) :
    stringBody (escapeChar extra c ++ rest) = some (Utf16.encodeChar c ++ units, more) := by
  unfold escapeChar
  split
  next d short found =>
    have same : d = c := by simpa using List.find?_some found
    subst same
    obtain ⟨other, back⟩ := shortEscapes_find found
    rw [List.cons_append, List.cons_append, List.nil_append, stringBody.eq_def]
    simp [other, back, h]
  next absent =>
    obtain ⟨quote, slash⟩ := plain_of_find absent
    split
    next special =>
      have small : c.toNat < 65536 := by
        simp only [Bool.or_eq_true, decide_eq_true_eq] at special
        rcases special with control | other
        · omega
        · exact basic c other
      have unit := hexUnit_escape small
      simp [unicodeEscape, stringBody, unit, h, Utf16.encodeChar, small]
    next ordinary =>
      have visible : ¬c.toNat < 0x20 := by
        simp only [Bool.or_eq_true, decide_eq_true_eq, not_or] at ordinary
        exact ordinary.1
      cases rest with
      | nil => simp [stringBody] at h
      | cons d rest =>
        rw [List.singleton_append, stringBody.eq_def]
        simp [quote, slash, visible, h]

theorem stringBody_flatMap {extra : Char → Bool} (basic : ∀ c, extra c → c.toNat < 65536)
    (cs rest : List Char) :
    stringBody (cs.flatMap (escapeChar extra) ++ '"' :: rest) = some (Utf16.encode cs, rest) := by
  induction cs with
  | nil =>
    rw [List.flatMap_nil, List.nil_append]
    cases rest with
    | nil => rfl
    | cons d rest => simp [stringBody.eq_def, Utf16.encode]
  | cons c cs ih =>
    have read := stringBody_escapeChar basic c ih
    rw [List.flatMap_cons, List.append_assoc, read]
    rfl

/-- `string` reads back what `quote` wrote. -/
theorem string_quote {extra : Char → Bool} (basic : ∀ c, extra c → c.toNat < 65536) (text : String)
    (rest : List Char) : string (text.toList.flatMap (escapeChar extra) ++ '"' :: rest) =
      some (text, rest) := by
  have read := stringBody_flatMap basic text.toList rest
  have back := Utf16.scalars_encode text.toList
  unfold string
  rw [read]
  simp only [Option.bind_eq_bind, Option.bind_some, back, String.ofList_toList]

theorem skipSpace_cons {c : Char} (h : isSpace c = false) (rest : List Char) :
    skipSpace (c :: rest) = c :: rest := by
  unfold skipSpace
  rw [List.dropWhile_cons_of_neg (by simp [h])]

theorem expect_cons {c : Char} (h : isSpace c = false) (rest : List Char) :
    expect c (c :: rest) = some rest := by
  unfold expect
  rw [skipSpace_cons h]
  simp

theorem expect_other {c d : Char} (h : isSpace d = false) (other : d ≠ c) (rest : List Char) :
    expect c (d :: rest) = none := by
  unfold expect
  rw [skipSpace_cons h]
  simp [other]

theorem digitChar_opens (d : Fin 10) :
    isSpace (digitChar d) = false ∧ digitChar d ∉ ['"', '[', '\x7b', 'n', 't', 'f', ']'] := by
  have table : ∀ d : Fin 10, isSpace (digitChar d) = false ∧ digitChar d ∉ ['"', '[', '\x7b', 'n', 't', 'f', ']'] := by
    decide
  exact table d

theorem renderNumber_head (n : Number) : ∃ c cs, renderNumber n = c :: cs ∧ isSpace c = false ∧
    c ∉ ['"', '[', '\x7b', 'n', 't', 'f', ']'] := by
  obtain ⟨negative, whole, fraction, exponent⟩ := n
  cases negative with
  | true =>
    refine ⟨'-', _, rfl, ?_⟩
    decide
  | false =>
    cases shape : decimal whole with
    | nil => exact absurd shape (decimal_ne_nil _)
    | cons d ds =>
      refine ⟨digitChar d, ds.map digitChar ++ (if fraction = [] then [] else '.' :: fraction.map digitChar) ++
        (exponent.map renderExponent).getD [], ?_, digitChar_opens d⟩
      simp [renderNumber, shape]

theorem render_head (extra : Char → Bool) (v : Value) :
    ∃ c cs, render extra v = c :: cs ∧ isSpace c = false ∧ c ≠ ']' := by
  cases v with
  | null => exact ⟨'n', _, rfl, by decide⟩
  | bool b => cases b with
    | true => exact ⟨'t', _, rfl, by decide⟩
    | false => exact ⟨'f', _, rfl, by decide⟩
  | number n =>
    obtain ⟨c, cs, shape, space, other⟩ := renderNumber_head n
    refine ⟨c, cs, by rw [render, shape], space, ?_⟩
    rintro rfl
    simp at other
  | string text => exact ⟨'"', _, by rw [render, quote], by decide⟩
  | array vs => exact ⟨'[', _, by rw [render], by decide⟩
  | object pairs => exact ⟨'\x7b', _, by rw [render], by decide⟩

theorem renderItems_head (extra : Char → Bool) (v : Value) (vs : List Value) :
    ∃ c cs, renderItems extra (v :: vs) = c :: cs ∧ isSpace c = false ∧ c ≠ ']' := by
  obtain ⟨c, cs, shape, facts⟩ := render_head extra v
  cases vs with
  | nil => exact ⟨c, cs, by rw [renderItems, shape], facts⟩
  | cons w more =>
    refine ⟨c, cs ++ ',' :: renderItems extra (w :: more), ?_, facts⟩
    rw [renderItems, shape, List.cons_append]

theorem renderMembers_head (extra : Char → Bool) (pair : String × Value) (pairs : List (String × Value)) :
    ∃ cs, renderMembers extra (pair :: pairs) = '"' :: cs := by
  obtain ⟨name, v⟩ := pair
  cases pairs with
  | nil => exact ⟨_, by rw [renderMembers, quote, List.cons_append]⟩
  | cons pair more =>
    obtain ⟨other, w⟩ := pair
    exact ⟨_, by rw [renderMembers, quote, List.cons_append]⟩

/-- What `value` does with a text that starts a number. -/
theorem value_number {c : Char} {cs : List Char} {n : Number} {rest : List Char} (fuel : Nat)
    (space : isSpace c = false) (other : c ∉ ['"', '[', '\x7b', 'n', 't', 'f', ']'])
    (h : number (c :: cs) = some (n, rest)) : value (fuel + 1) (c :: cs) = some (.number n, rest) := by
  simp only [List.mem_cons, List.not_mem_nil, or_false, not_or] at other
  rw [value, skipSpace_cons space]
  simp [other, h]

mutual

/-- The parser reads back a rendered value, with any fuel that covers its text. -/
theorem value_render {extra : Char → Bool} (basic : ∀ c, extra c → c.toNat < 65536) (v : Value) {fuel : Nat}
    {rest : List Char} (enough : (render extra v).length ≤ fuel) (stops : Stops rest) :
    value fuel (render extra v ++ rest) = some (v, rest) := by
  obtain ⟨first, tail, head, -, -⟩ := render_head extra v
  have positive : 0 < (render extra v).length := by
    rw [head]
    exact Nat.succ_pos _
  obtain ⟨fuel, rfl⟩ : ∃ n, fuel = n + 1 := ⟨fuel - 1, by omega⟩
  match v with
  | .null => simp [render, value, skipSpace, isSpace, keyword]
  | .bool true => simp [render, value, skipSpace, isSpace, keyword]
  | .bool false => simp [render, value, skipSpace, isSpace, keyword]
  | .number n =>
    obtain ⟨c, cs, shape, space, other⟩ := renderNumber_head n
    have read := number_render n stops
    rw [render]
    rw [shape, List.cons_append] at read ⊢
    exact value_number fuel space other read
  | .string text =>
    have read := string_quote basic text rest
    rw [render, quote, List.cons_append, List.append_assoc, value, skipSpace_cons (by decide)]
    simp [read]
  | .array [] =>
    have closed := expect_cons (c := ']') (by decide) rest
    rw [render, renderItems, List.nil_append, List.cons_append, value, skipSpace_cons (by decide)]
    simp [closed]
  | .array (w :: ws) =>
    rw [render] at enough
    have size : (renderItems extra (w :: ws)).length < fuel := by
      simp only [List.length_cons, List.length_append, List.length_nil] at enough
      omega
    have inner : items fuel (renderItems extra (w :: ws) ++ ']' :: rest) = some (w :: ws, rest) :=
      items_render basic w ws size
    obtain ⟨c, cs, shape, space, other⟩ := renderItems_head extra w ws
    have opened := expect_other space other (cs ++ ']' :: rest)
    rw [render, List.cons_append, List.append_assoc, value, skipSpace_cons (by decide)]
    rw [shape, List.cons_append] at inner ⊢
    simp [opened, inner]
  | .object [] =>
    have closed := expect_cons (c := '\x7d') (by decide) rest
    rw [render, renderMembers, List.nil_append, List.cons_append, value, skipSpace_cons (by decide)]
    simp [closed]
  | .object (pair :: pairs) =>
    rw [render] at enough
    have size : (renderMembers extra (pair :: pairs)).length < fuel := by
      simp only [List.length_cons, List.length_append, List.length_nil] at enough
      omega
    have inner : members fuel (renderMembers extra (pair :: pairs) ++ '\x7d' :: rest) =
        some (pair :: pairs, rest) := members_render basic pair pairs size
    obtain ⟨cs, shape⟩ := renderMembers_head extra pair pairs
    have opened := expect_other (c := '\x7d') (d := '"') (by decide) (by decide) (cs ++ '\x7d' :: rest)
    rw [render, List.cons_append, List.append_assoc, value, skipSpace_cons (by decide)]
    rw [shape, List.cons_append] at inner ⊢
    simp [opened, inner]
termination_by fuel

theorem items_render {extra : Char → Bool} (basic : ∀ c, extra c → c.toNat < 65536) (v : Value)
    (vs : List Value) {fuel : Nat} {rest : List Char} (enough : (renderItems extra (v :: vs)).length < fuel) :
    items fuel (renderItems extra (v :: vs) ++ ']' :: rest) = some (v :: vs, rest) := by
  obtain ⟨fuel, rfl⟩ : ∃ n, fuel = n + 1 := ⟨fuel - 1, by omega⟩
  match vs with
  | [] =>
    rw [renderItems] at enough
    have inner : value fuel (render extra v ++ ']' :: rest) = some (v, ']' :: rest) :=
      value_render basic v (by omega) (stops_cons (by simp) rest)
    have last := expect_other (c := ',') (d := ']') (by decide) (by decide) rest
    have closed := expect_cons (c := ']') (by decide) rest
    rw [renderItems, items]
    simp [inner, last, closed]
  | w :: ws =>
    rw [renderItems, List.length_append, List.length_cons] at enough
    have front : value fuel (render extra v ++ ',' :: (renderItems extra (w :: ws) ++ ']' :: rest)) =
        some (v, ',' :: (renderItems extra (w :: ws) ++ ']' :: rest)) :=
      value_render basic v (by omega) (stops_cons (by simp) _)
    have inner : items fuel (renderItems extra (w :: ws) ++ ']' :: rest) = some (w :: ws, rest) :=
      items_render basic w ws (by omega)
    have comma := expect_cons (c := ',') (by decide) (renderItems extra (w :: ws) ++ ']' :: rest)
    rw [renderItems, List.append_assoc, List.cons_append, items]
    simp [front, comma, inner]
termination_by fuel

theorem members_render {extra : Char → Bool} (basic : ∀ c, extra c → c.toNat < 65536) (pair : String × Value)
    (pairs : List (String × Value)) {fuel : Nat} {rest : List Char}
    (enough : (renderMembers extra (pair :: pairs)).length < fuel) :
    members fuel (renderMembers extra (pair :: pairs) ++ '\x7d' :: rest) = some (pair :: pairs, rest) := by
  obtain ⟨fuel, rfl⟩ : ∃ n, fuel = n + 1 := ⟨fuel - 1, by omega⟩
  match pair, pairs with
  | (name, v), [] =>
    rw [renderMembers, List.length_append, List.length_cons] at enough
    have inner : value fuel (render extra v ++ '\x7d' :: rest) = some (v, '\x7d' :: rest) :=
      value_render basic v (by omega) (stops_cons (by simp) rest)
    have read := string_quote basic name (':' :: (render extra v ++ '\x7d' :: rest))
    have mark := fun rest => expect_cons (c := '"') (by decide) rest
    have colon := fun rest => expect_cons (c := ':') (by decide) rest
    have last := expect_other (c := ',') (d := '\x7d') (by decide) (by decide) rest
    have closed := expect_cons (c := '\x7d') (by decide) rest
    rw [renderMembers, quote, members]
    simp [mark, read, colon, inner, last, closed]
  | (name, v), other :: more =>
    rw [renderMembers, List.length_append, List.length_cons, List.length_append, List.length_cons] at enough
    have front : value fuel (render extra v ++ ',' :: (renderMembers extra (other :: more) ++ '\x7d' :: rest)) =
        some (v, ',' :: (renderMembers extra (other :: more) ++ '\x7d' :: rest)) :=
      value_render basic v (by omega) (stops_cons (by simp) _)
    have inner : members fuel (renderMembers extra (other :: more) ++ '\x7d' :: rest) =
        some (other :: more, rest) := members_render basic other more (by omega)
    have read := string_quote basic name
      (':' :: (render extra v ++ ',' :: (renderMembers extra (other :: more) ++ '\x7d' :: rest)))
    have mark := fun rest => expect_cons (c := '"') (by decide) rest
    have colon := fun rest => expect_cons (c := ':') (by decide) rest
    have comma := fun rest => expect_cons (c := ',') (by decide) rest
    rw [renderMembers, quote, members]
    simp [mark, read, colon, front, comma, inner]
termination_by fuel

end

theorem parse_render_space {extra : Char → Bool} (basic : ∀ c, extra c → c.toNat < 65536) (v : Value)
    {after : List Char} (stops : Stops after) (white : skipSpace after = []) :
    parse (String.ofList (render extra v ++ after)) = some v := by
  have size : (render extra v).length ≤ (render extra v ++ after).length + 1 := by
    rw [List.length_append]
    omega
  have read := value_render basic v size stops
  unfold parse parseChars
  rw [String.toList_ofList, read]
  simp [white]

/-- A text rendered by either writer parses to the value it was rendered from. -/
theorem parse_render {extra : Char → Bool} (basic : ∀ c, extra c → c.toNat < 65536) (v : Value) :
    parse (String.ofList (render extra v)) = some v := by
  have read := parse_render_space basic v stops_nil rfl
  rwa [List.append_nil] at read

end TermLinks.Json
