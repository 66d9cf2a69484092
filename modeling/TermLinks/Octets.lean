import Mathlib.Algebra.GroupWithZero.Nat
import Mathlib.Tactic.Common

namespace TermLinks

abbrev Bytes := List UInt8

/-- The bytes of a text. -/
def utf8 (text : String) : Bytes := text.toByteArray.data.toList

theorem utf8_append (a b : String) : utf8 (a ++ b) = utf8 a ++ utf8 b := by
  simp [utf8]

theorem utf8_injective {a b : String} (h : utf8 a = utf8 b) : a = b := by
  apply String.toByteArray_inj.mp
  apply ByteArray.ext
  exact Array.toList_inj.mp h

/-- The bytes of a list of characters in UTF-8. -/
def byteCount (cs : List Char) : Nat := (cs.map Char.utf8Size).sum

theorem byteCount_ofList (cs : List Char) : (String.ofList cs).utf8ByteSize = byteCount cs := by
  induction cs with
  | nil => rfl
  | cons c cs ih =>
    have split : String.ofList (c :: cs) = String.singleton c ++ String.ofList cs := by
      rw [← List.singleton_append, String.ofList_append, String.singleton_eq_ofList]
    rw [split, String.utf8ByteSize_append, String.utf8ByteSize_singleton, ih]
    rfl

theorem byteCount_toList (text : String) : byteCount text.toList = text.utf8ByteSize := by
  rw [← byteCount_ofList, String.ofList_toList]

theorem byteCount_append (a b : List Char) : byteCount (a ++ b) = byteCount a + byteCount b := by
  simp [byteCount]

theorem byteCount_cons (c : Char) (cs : List Char) : byteCount (c :: cs) = c.utf8Size + byteCount cs := rfl

theorem byteCount_sublist {xs ys : List Char} (h : xs.Sublist ys) : byteCount xs ≤ byteCount ys := by
  induction h with
  | slnil => exact Nat.le_refl _
  | cons c _ ih =>
    rw [byteCount_cons]
    omega
  | cons_cons c _ ih =>
    rw [byteCount_cons, byteCount_cons]
    omega

theorem length_utf8 (text : String) : (utf8 text).length = text.utf8ByteSize := by
  rfl

theorem utf8_ofList (cs : List Char) : utf8 (String.ofList cs) = cs.flatMap String.utf8EncodeChar := by
  simp [utf8, List.utf8Encode]

/-- Big-endian, four bytes; larger numbers lose their high part. -/
def putUint32 (n : Nat) : Bytes :=
  [UInt8.ofNat (n / 16777216), UInt8.ofNat (n / 65536), UInt8.ofNat (n / 256), UInt8.ofNat n]

def uint32 (bytes : Bytes) : Nat := bytes.foldl (fun n byte => n * 256 + byte.toNat) 0

@[simp] theorem length_putUint32 (n : Nat) : (putUint32 n).length = 4 := rfl

theorem uint32_putUint32 {n : Nat} (h : n < 4294967296) : uint32 (putUint32 n) = n := by
  simp only [uint32, putUint32, List.foldl_cons, List.foldl_nil, UInt8.toNat_ofNat']
  omega

theorem putUint32_injective {m n : Nat} (hm : m < 4294967296) (hn : n < 4294967296)
    (h : putUint32 m = putUint32 n) : m = n := by
  rw [← uint32_putUint32 hm, ← uint32_putUint32 hn, h]

theorem putUint32_uint32 {bytes : Bytes} (h : bytes.length = 4) : putUint32 (uint32 bytes) = bytes := by
  obtain ⟨a, b, c, d, rfl⟩ : ∃ a b c d, bytes = [a, b, c, d] := by
    match bytes, h with
    | [a, b, c, d], _ => exact ⟨a, b, c, d, rfl⟩
  have ha := a.toNat_lt
  have hb := b.toNat_lt
  have hc := c.toNat_lt
  have hd := d.toNat_lt
  simp only [uint32, putUint32, List.foldl_cons, List.foldl_nil, List.cons.injEq, and_true,
    ← UInt8.toNat_inj, UInt8.toNat_ofNat']
  omega

theorem uint32_lt {bytes : Bytes} (h : bytes.length = 4) : uint32 bytes < 4294967296 := by
  obtain ⟨a, b, c, d, rfl⟩ : ∃ a b c d, bytes = [a, b, c, d] := by
    match bytes, h with
    | [a, b, c, d], _ => exact ⟨a, b, c, d, rfl⟩
  have ha := a.toNat_lt
  have hb := b.toNat_lt
  have hc := c.toNat_lt
  have hd := d.toNat_lt
  simp only [uint32, List.foldl_cons, List.foldl_nil]
  omega

end TermLinks
