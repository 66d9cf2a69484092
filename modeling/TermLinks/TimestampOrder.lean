import Mathlib.Data.List.Lex
import Mathlib.Data.List.TakeWhile
import TermLinks.Timestamp

namespace TermLinks

/-- The decimal digits of `n` on `width` places. -/
def decimals : Nat → Nat → List Char
  | 0, _ => []
  | width + 1, n => decimals width (n / 10) ++ [Nat.digitChar (n % 10)]

@[simp] theorem length_decimals (width n : Nat) : (decimals width n).length = width := by
  induction width generalizing n with
  | zero => rfl
  | succ width ih => rw [decimals, List.length_append, ih, List.length_singleton]

theorem decimals_zero (width : Nat) : decimals width 0 = List.replicate width '0' := by
  induction width with
  | zero => rfl
  | succ width ih =>
    rw [decimals, Nat.zero_div, ih, List.replicate_succ']
    rfl

theorem replicate_append_toDigits {width n : Nat} (h : n < 10 ^ width) (positive : 0 < width) :
    List.replicate (width - (Nat.toDigits 10 n).length) '0' ++ Nat.toDigits 10 n = decimals width n := by
  induction width generalizing n with
  | zero => omega
  | succ width ih =>
    by_cases small : n < 10
    · rw [Nat.toDigits_of_lt_base small, decimals, Nat.div_eq_of_lt small, decimals_zero, Nat.mod_eq_of_lt small]
      rfl
    · have room : n / 10 < 10 ^ width := by
        rw [Nat.pow_succ] at h
        omega
      have more : 0 < width := by
        apply Nat.pos_of_ne_zero
        intro zero
        subst zero
        omega
      rw [Nat.toDigits_of_base_le (by omega) (by omega), decimals, ← ih room more, List.append_assoc]
      simp

theorem toList_padded {width n : Nat} (h : n < 10 ^ width) (positive : 0 < width) :
    (padded width n).toList = decimals width n := by
  unfold padded
  rw [String.toList_ofList, Nat.toString_eq_ofList_toDigits, String.toList_ofList]
  exact replicate_append_toDigits h positive

theorem digitChar_lt_iff {a b : Nat} (ha : a < 10) (hb : b < 10) :
    Nat.digitChar a < Nat.digitChar b ↔ a < b := by
  have all : ∀ a < 10, ∀ b < 10, (Nat.digitChar a < Nat.digitChar b ↔ a < b) := by decide
  exact all a ha b hb

theorem digitChar_inj {a b : Nat} (ha : a < 10) (hb : b < 10) :
    Nat.digitChar a = Nat.digitChar b ↔ a = b := by
  have all : ∀ a < 10, ∀ b < 10, (Nat.digitChar a = Nat.digitChar b ↔ a = b) := by decide
  exact all a ha b hb

/-- Numbers written on the same number of places compare as their texts do. -/
theorem decimals_append_lt_iff {width a b : Nat} (ha : a < 10 ^ width) (hb : b < 10 ^ width)
    {xs ys : List Char} :
    decimals width a ++ xs < decimals width b ++ ys ↔ a < b ∨ a = b ∧ xs < ys := by
  induction width generalizing a b xs ys with
  | zero =>
    rw [Nat.pow_zero] at ha hb
    have same : a = b := by omega
    simp [decimals, same]
  | succ width ih =>
    rw [Nat.pow_succ] at ha hb
    have lt := digitChar_lt_iff (a := a % 10) (b := b % 10) (by omega) (by omega)
    have eq := digitChar_inj (a := a % 10) (b := b % 10) (by omega) (by omega)
    rw [decimals, decimals, List.append_assoc, List.append_assoc, ih (by omega) (by omega),
      List.singleton_append, List.singleton_append, List.cons_lt_cons_iff, lt, eq]
    by_cases tail : xs < ys
    · simp only [tail, and_true]
      omega
    · simp only [tail, and_false, or_false]
      omega

/-- A digit, in the order of characters. -/
def IsDigit (c : Char) : Prop := '0' ≤ c ∧ c < 'Z'

theorem isDigit_digitChar {n : Nat} (h : n < 10) : IsDigit (Nat.digitChar n) := by
  have all : ∀ n < 10, '0' ≤ Nat.digitChar n ∧ Nat.digitChar n < 'Z' := by decide
  exact all n h

theorem isDigit_decimals (width n : Nat) : ∀ c ∈ decimals width n, IsDigit c := by
  induction width generalizing n with
  | zero => simp [decimals]
  | succ width ih =>
    intro c hc
    rcases List.mem_append.mp hc with hc | hc
    · exact ih (n / 10) c hc
    · rw [List.mem_singleton.mp hc]
      exact isDigit_digitChar (Nat.mod_lt _ (by omega))

theorem not_lt_replicate_zero {xs : List Char} (digits : ∀ c ∈ xs, IsDigit c) :
    ∀ n, xs.length = n → ¬ xs < List.replicate n '0' := by
  induction xs with
  | nil =>
    intro n hn
    subst hn
    simp
  | cons x xs ih =>
    intro n hn
    subst hn
    have hx := (digits x List.mem_cons_self).1
    have tail := ih (fun c hc => digits c (List.mem_cons_of_mem x hc)) xs.length rfl
    rw [List.length_cons, List.replicate_succ, List.cons_lt_cons_iff]
    rintro (lt | ⟨_, lt⟩)
    · exact absurd lt (not_lt.mpr hx)
    · exact tail lt

/-- Digits whose zeros at the end were dropped keep their order before a `Z` unless the smaller ones
are a prefix of the greater. -/
theorem dropped_zeros_lt_iff {xs ys : List Char} {m n : Nat} (hx : ∀ c ∈ xs, IsDigit c)
    (hy : ∀ c ∈ ys, IsDigit c) (len : xs.length + m = ys.length + n)
    (lt : xs ++ List.replicate m '0' < ys ++ List.replicate n '0') :
    xs ++ ['Z'] < ys ++ ['Z'] ↔ ¬ xs <+: ys := by
  induction xs generalizing ys with
  | nil =>
    have none : ¬ [] ++ ['Z'] < ys ++ ['Z'] := by
      cases ys with
      | nil => simp
      | cons y ys =>
        have low := (hy y List.mem_cons_self).2
        rw [List.nil_append, List.cons_append, List.cons_lt_cons_iff]
        rintro (high | ⟨same, _⟩)
        · exact absurd high (not_lt.mpr low.le)
        · exact absurd same (ne_of_gt low)
    simp only [none, List.nil_prefix, not_true_eq_false]
  | cons x xs ih =>
    cases ys with
    | nil =>
      exfalso
      refine not_lt_replicate_zero ?_ n ?_ lt
      · intro c hc
        rcases List.mem_append.mp hc with hc | hc
        · exact hx c hc
        · rw [(List.mem_replicate.mp hc).2]
          exact isDigit_digitChar (n := 0) (by omega)
      · rw [List.length_append, List.length_replicate, len, List.length_nil, Nat.zero_add]
    | cons y ys =>
      simp only [List.cons_append, List.cons_lt_cons_iff] at lt ⊢
      rcases lt with lt | ⟨rfl, lt⟩
      · have other : ¬ x :: xs <+: y :: ys := fun h => ne_of_lt lt (List.cons_prefix_cons.mp h).1
        simp [lt, other]
      · have tails := ih (fun c hc => hx c (List.mem_cons_of_mem x hc))
          (fun c hc => hy c (List.mem_cons_of_mem x hc)) (by simpa [Nat.add_right_comm] using len) lt
        simp [tails, List.cons_prefix_cons]

namespace Time

/-- A calendar instant with a year of at most four digits. -/
structure Valid (t : Time) : Prop where
  year : t.year < 10000
  month : t.month < 100
  day : t.day < 100
  hour : t.hour < 24
  minute : t.minute < 60
  second : t.second < 60
  nanosecond : t.nanosecond < 1000000000

/-- The fields from the year down. -/
def fields (t : Time) : List Nat := [t.year, t.month, t.day, t.hour, t.minute, t.second, t.nanosecond]

theorem fields_injective : Function.Injective fields := by
  intro a b h
  simp only [fields, List.cons.injEq, and_true] at h
  obtain ⟨_, _, _, _, _, _, _⟩ := h
  cases a
  cases b
  simp_all

/-- Instants in the order of time. -/
instance : LinearOrder Time := LinearOrder.lift' fields fields_injective

theorem lt_iff {a b : Time} : a < b ↔ a.fields < b.fields := Iff.rfl

def SameSecond (a b : Time) : Prop :=
  a.year = b.year ∧ a.month = b.month ∧ a.day = b.day ∧ a.hour = b.hour ∧ a.minute = b.minute ∧
    a.second = b.second

instance (a b : Time) : Decidable (SameSecond a b) := inferInstanceAs (Decidable (_ ∧ _))

/-- The digits that `time.RFC3339Nano` writes of the fraction. -/
def fractionDigits (t : Time) : List Char :=
  ((padded 9 t.nanosecond).toList.reverse.dropWhile (· = '0')).reverse

/-- The instants lie in one second, and the digits written of the first one's fraction begin those of the
second one's. -/
def Truncates (a b : Time) : Prop := SameSecond a b ∧ a.fractionDigits <+: b.fractionDigits

instance (a b : Time) : Decidable (Truncates a b) := inferInstanceAs (Decidable (_ ∧ _))

theorem fractionDigits_append (t : Time) (h : t.nanosecond < 1000000000) :
    ∃ n, decimals 9 t.nanosecond = t.fractionDigits ++ List.replicate n '0' := by
  have split := List.takeWhile_append_dropWhile (p := (· = '0')) (l := (decimals 9 t.nanosecond).reverse)
  have zeros : (decimals 9 t.nanosecond).reverse.takeWhile (· = '0') =
      List.replicate ((decimals 9 t.nanosecond).reverse.takeWhile (· = '0')).length '0' := by
    apply List.eq_replicate_of_mem
    intro c hc
    simpa using List.mem_takeWhile_imp hc
  refine ⟨((decimals 9 t.nanosecond).reverse.takeWhile (· = '0')).length, ?_⟩
  have turned := congrArg List.reverse split
  rw [List.reverse_append, List.reverse_reverse, zeros, List.reverse_replicate] at turned
  rw [fractionDigits, toList_padded h (by omega)]
  exact turned.symm

end Time

theorem toList_fraction (t : Time) :
    (fraction t.nanosecond ++ "Z").toList =
      if t.fractionDigits = [] then ['Z'] else '.' :: (t.fractionDigits ++ ['Z']) := by
  unfold fraction
  change (((if t.fractionDigits = [] then "" else "." ++ String.ofList t.fractionDigits) : String) ++ "Z").toList = _
  split
  next => rfl
  next => simp

theorem fraction_lt_iff {a b : Time} (ha : a.nanosecond < 1000000000) (hb : b.nanosecond < 1000000000)
    (lt : a.nanosecond < b.nanosecond) :
    (fraction a.nanosecond ++ "Z").toList < (fraction b.nanosecond ++ "Z").toList ↔
      ¬ a.fractionDigits <+: b.fractionDigits := by
  obtain ⟨m, hm⟩ := a.fractionDigits_append ha
  obtain ⟨n, hn⟩ := b.fractionDigits_append hb
  have texts := (@decimals_append_lt_iff 9 _ _ (by omega) (by omega) [] []).mpr (Or.inl lt)
  rw [List.append_nil, List.append_nil, hm, hn] at texts
  have lens : a.fractionDigits.length + m = b.fractionDigits.length + n := by
    have la := congrArg List.length hm
    have lb := congrArg List.length hn
    simp only [length_decimals, List.length_append, List.length_replicate] at la lb
    omega
  have digits : ∀ t : Time, t.nanosecond < 1000000000 → ∀ c ∈ t.fractionDigits, IsDigit c := by
    intro t ht c hc
    obtain ⟨k, hk⟩ := t.fractionDigits_append ht
    exact isDigit_decimals 9 t.nanosecond c (hk ▸ List.mem_append_left _ hc)
  have whole : b.fractionDigits ≠ [] := by
    intro empty
    rw [empty, List.nil_append] at texts
    refine not_lt_replicate_zero ?_ n ?_ texts
    · rw [← hm]
      exact isDigit_decimals 9 a.nanosecond
    · rw [List.length_append, List.length_replicate, lens, empty, List.length_nil, Nat.zero_add]
  rw [toList_fraction, toList_fraction, if_neg whole]
  by_cases empty : a.fractionDigits = []
  · have high : ¬ 'Z' < '.' := by decide
    have other : 'Z' ≠ '.' := by decide
    rw [if_pos empty, List.cons_lt_cons_iff]
    simp only [empty, high, other, false_and, or_false, List.nil_prefix, not_true_eq_false]
  · rw [if_neg empty, List.cons_lt_cons_iff]
    simp only [lt_irrefl, false_or, true_and]
    exact dropped_zeros_lt_iff (digits a ha) (digits b hb) lens texts

/-- The characters of a timestamp up to its seconds. -/
theorem toList_encodeTime {t : Time} (h : t.Valid) :
    (encodeTime t).toList =
      decimals 4 t.year ++ '-' :: (decimals 2 t.month ++ '-' :: (decimals 2 t.day ++ 'T' ::
        (decimals 2 t.hour ++ ':' :: (decimals 2 t.minute ++ ':' :: (decimals 2 t.second ++
          (fraction t.nanosecond ++ "Z").toList))))) := by
  have year := @toList_padded 4 _ h.year (by omega)
  have month := @toList_padded 2 _ h.month (by omega)
  have day := @toList_padded 2 _ h.day (by omega)
  have hour := @toList_padded 2 _ (Nat.lt_trans h.hour (by omega)) (by omega)
  have minute := @toList_padded 2 _ (Nat.lt_trans h.minute (by omega)) (by omega)
  have second := @toList_padded 2 _ (Nat.lt_trans h.second (by omega)) (by omega)
  simp only [encodeTime, String.toList_append, year, month, day, hour, minute, second, List.append_assoc]
  rfl

theorem cons_lt_cons_same {c : Char} {xs ys : List Char} : c :: xs < c :: ys ↔ xs < ys := by
  simp

/-- A timestamp sorts before that of a later instant unless its fraction is cut off within the other's. -/
theorem encodeTime_lt_iff {a b : Time} (ha : a.Valid) (hb : b.Valid) (lt : a < b) :
    encodeTime a < encodeTime b ↔ ¬ a.Truncates b := by
  have two : ∀ {n : Nat}, n < 60 → n < 10 ^ 2 := fun h => Nat.lt_trans h (by omega)
  have hours : ∀ {n : Nat}, n < 24 → n < 10 ^ 2 := fun h => Nat.lt_trans h (by omega)
  rw [String.lt_iff_toList_lt, toList_encodeTime ha, toList_encodeTime hb,
    decimals_append_lt_iff ha.year hb.year, cons_lt_cons_same,
    decimals_append_lt_iff ha.month hb.month, cons_lt_cons_same,
    decimals_append_lt_iff ha.day hb.day, cons_lt_cons_same,
    decimals_append_lt_iff (hours ha.hour) (hours hb.hour), cons_lt_cons_same,
    decimals_append_lt_iff (two ha.minute) (two hb.minute), cons_lt_cons_same,
    decimals_append_lt_iff (two ha.second) (two hb.second)]
  simp only [Time.lt_iff, Time.fields, List.cons_lt_cons_iff, lt_irrefl, and_false, or_false] at lt
  unfold Time.Truncates Time.SameSecond
  rcases lt with lt | ⟨year, lt | ⟨month, lt | ⟨day, lt | ⟨hour, lt | ⟨minute, lt | ⟨second, lt⟩⟩⟩⟩⟩⟩
  · simp [lt, ne_of_lt lt]
  · simp [year, lt, ne_of_lt lt]
  · simp [year, month, lt, ne_of_lt lt]
  · simp [year, month, day, lt, ne_of_lt lt]
  · simp [year, month, day, hour, lt, ne_of_lt lt]
  · simp [year, month, day, hour, minute, lt, ne_of_lt lt]
  · have tail := fraction_lt_iff ha.nanosecond hb.nanosecond lt
    simp [-String.toList_append, year, month, day, hour, minute, second, tail]

/-- Instants whose texts sort as they do. -/
structure Comparable (times : List Time) : Prop where
  valid : ∀ t ∈ times, t.Valid
  apart : ∀ a ∈ times, ∀ b ∈ times, a < b → ¬ a.Truncates b

theorem Comparable.encodeTime_le_iff {times : List Time} (h : Comparable times) {a b : Time} (ha : a ∈ times)
    (hb : b ∈ times) : encodeTime a ≤ encodeTime b ↔ a ≤ b := by
  rcases lt_trichotomy a b with lt | rfl | lt
  · have texts := (encodeTime_lt_iff (h.valid a ha) (h.valid b hb) lt).mpr (h.apart a ha b hb lt)
    simp only [texts.le, lt.le]
  · simp only [le_refl]
  · have texts := (encodeTime_lt_iff (h.valid b hb) (h.valid a ha) lt).mpr (h.apart b hb a ha lt)
    simp only [not_le.mpr texts, not_le.mpr lt]

theorem Comparable.max_encodeTime {times : List Time} (h : Comparable times) {a b : Time} (ha : a ∈ times)
    (hb : b ∈ times) : max (encodeTime a) (encodeTime b) = encodeTime (max a b) := by
  have le := h.encodeTime_le_iff ha hb
  rcases le_total a b with ab | ba
  · rw [max_eq_right ab, max_eq_right (le.mpr ab)]
  · rw [max_eq_left ba, max_eq_left ((h.encodeTime_le_iff hb ha).mpr ba)]

theorem Comparable.mono {times more : List Time} (h : Comparable more) (sub : ∀ t ∈ times, t ∈ more) :
    Comparable times where
  valid := fun t ht => h.valid t (sub t ht)
  apart := fun a ha b hb => h.apart a (sub a ha) b (sub b hb)

end TermLinks
