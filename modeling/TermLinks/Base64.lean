import Mathlib.Data.List.DropRight
import Mathlib.Tactic.Common

namespace TermLinks.Base64

/-- The six-bit groups of a byte sequence; a short last group is filled up with zero bits. -/
def sextets : List UInt8 → List Nat
  | a :: b :: c :: rest =>
    a.toNat / 4 :: (a.toNat % 4 * 16 + b.toNat / 16) :: (b.toNat % 16 * 4 + c.toNat / 64) ::
      c.toNat % 64 :: sextets rest
  | [a, b] => [a.toNat / 4, a.toNat % 4 * 16 + b.toNat / 16, b.toNat % 16 * 4]
  | [a] => [a.toNat / 4, a.toNat % 4 * 16]
  | [] => []

/-- The bytes of a sequence of groups; left-over bits are dropped, and one group alone holds no byte. -/
def octets : List Nat → Option (List UInt8)
  | a :: b :: c :: d :: rest =>
    (octets rest).map fun bytes =>
      UInt8.ofNat (a * 4 + b / 16) :: UInt8.ofNat (b % 16 * 16 + c / 4) ::
        UInt8.ofNat (c % 4 * 64 + d) :: bytes
  | [a, b, c] => some [UInt8.ofNat (a * 4 + b / 16), UInt8.ofNat (b % 16 * 16 + c / 4)]
  | [a, b] => some [UInt8.ofNat (a * 4 + b / 16)]
  | [_] => none
  | [] => some []

theorem sextet_lt (bytes : List UInt8) : ∀ n ∈ sextets bytes, n < 64 := by
  fun_induction sextets bytes with
  | case1 a b c rest ih =>
    have ha := a.toNat_lt
    have hb := b.toNat_lt
    have hc := c.toNat_lt
    intro n hn
    simp only [List.mem_cons] at hn
    rcases hn with h | h | h | h | h
    · omega
    · omega
    · omega
    · omega
    · exact ih n h
  | case2 a b =>
    have ha := a.toNat_lt
    have hb := b.toNat_lt
    intro n hn
    simp only [List.mem_cons, List.not_mem_nil, or_false] at hn
    omega
  | case3 a =>
    have ha := a.toNat_lt
    intro n hn
    simp only [List.mem_cons, List.not_mem_nil, or_false] at hn
    omega
  | case4 => simp

theorem length_sextets (bytes : List UInt8) : (sextets bytes).length = (4 * bytes.length + 2) / 3 := by
  fun_induction sextets bytes with
  | case1 a b c rest ih =>
    simp only [List.length_cons, ih]
    omega
  | case2 a b => simp only [List.length_cons, List.length_nil]
  | case3 a => simp only [List.length_cons, List.length_nil]
  | case4 => rfl

theorem ofNat_eq_of_toNat {n : Nat} {a : UInt8} (h : n = a.toNat) : UInt8.ofNat n = a := by
  subst h
  exact UInt8.ofNat_toNat

theorem octets_sextets (bytes : List UInt8) : octets (sextets bytes) = some bytes := by
  fun_induction sextets bytes with
  | case1 a b c rest ih =>
    have ha := a.toNat_lt
    have hb := b.toNat_lt
    have hc := c.toNat_lt
    have first : UInt8.ofNat (a.toNat / 4 * 4 + (a.toNat % 4 * 16 + b.toNat / 16) / 16) = a :=
      ofNat_eq_of_toNat (by omega)
    have second : UInt8.ofNat ((a.toNat % 4 * 16 + b.toNat / 16) % 16 * 16 +
        (b.toNat % 16 * 4 + c.toNat / 64) / 4) = b := ofNat_eq_of_toNat (by omega)
    have third : UInt8.ofNat ((b.toNat % 16 * 4 + c.toNat / 64) % 4 * 64 + c.toNat % 64) = c :=
      ofNat_eq_of_toNat (by omega)
    simp only [octets, ih, Option.map_some, first, second, third]
  | case2 a b =>
    have ha := a.toNat_lt
    have hb := b.toNat_lt
    have first : UInt8.ofNat (a.toNat / 4 * 4 + (a.toNat % 4 * 16 + b.toNat / 16) / 16) = a :=
      ofNat_eq_of_toNat (by omega)
    have second : UInt8.ofNat ((a.toNat % 4 * 16 + b.toNat / 16) % 16 * 16 +
        (b.toNat % 16 * 4) / 4) = b := ofNat_eq_of_toNat (by omega)
    simp only [octets, first, second]
  | case3 a =>
    have ha := a.toNat_lt
    have first : UInt8.ofNat (a.toNat / 4 * 4 + a.toNat % 4 * 16 / 16) = a :=
      ofNat_eq_of_toNat (by omega)
    simp only [octets, first]
  | case4 => rfl

/-- The letters, digits and two more characters that stand for six bits. -/
abbrev Alphabet := List Char

def urlAlphabet : Alphabet := "ABCDEFGHIJKLMNOPQRSTUVWXYZabcdefghijklmnopqrstuvwxyz0123456789-_".toList

def stdAlphabet : Alphabet := "ABCDEFGHIJKLMNOPQRSTUVWXYZabcdefghijklmnopqrstuvwxyz0123456789+/".toList

def encodeChar (alphabet : Alphabet) (n : Nat) : Char := alphabet.getD n 'A'

def decodeChar (alphabet : Alphabet) (c : Char) : Option Nat := alphabet.idxOf? c

theorem encodeChar_mem {alphabet : Alphabet} {n : Nat} (size : alphabet.length = 64) (h : n < 64) :
    encodeChar alphabet n ∈ alphabet := by
  have bound : n < alphabet.length := by omega
  rw [encodeChar, List.getD_eq_getElem?_getD, List.getElem?_eq_getElem bound, Option.getD_some]
  exact List.getElem_mem bound

/-- A text of six-bit groups; a character outside the alphabet fails. -/
def decodeChars (alphabet : Alphabet) : List Char → Option (List Nat)
  | [] => some []
  | c :: cs => (decodeChar alphabet c).bind fun n => (decodeChars alphabet cs).map (n :: ·)

theorem decodeChars_map {alphabet : Alphabet}
    (inverse : ∀ n < 64, decodeChar alphabet (encodeChar alphabet n) = some n)
    {ns : List Nat} (h : ∀ n ∈ ns, n < 64) :
    decodeChars alphabet (ns.map (encodeChar alphabet)) = some ns := by
  induction ns with
  | nil => rfl
  | cons n ns ih =>
    have hn := inverse n (h n List.mem_cons_self)
    have hns := ih (fun m hm => h m (List.mem_cons_of_mem n hm))
    simp only [List.map_cons, decodeChars, hn, hns, Option.bind_some, Option.map_some]

theorem decodeChar_urlAlphabet : ∀ n < 64, decodeChar urlAlphabet (encodeChar urlAlphabet n) = some n := by
  decide

theorem decodeChar_stdAlphabet : ∀ n < 64, decodeChar stdAlphabet (encodeChar stdAlphabet n) = some n := by
  decide

end TermLinks.Base64
