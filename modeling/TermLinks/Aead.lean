import TermLinks.Octets

namespace TermLinks

universe u

/-- Authenticated encryption with associated data: decryption undoes encryption, and a ciphertext is
its plaintext and a tag of sixteen bytes. -/
structure Aead (Key : Type u) where
  encrypt (key : Key) (nonce plaintext associated : Bytes) : Bytes
  decrypt (key : Key) (nonce ciphertext associated : Bytes) : Option Bytes
  decrypt_encrypt (key : Key) (nonce plaintext associated : Bytes) :
    decrypt key nonce (encrypt key nonce plaintext associated) associated = some plaintext
  length_encrypt (key : Key) (nonce plaintext associated : Bytes) :
    (encrypt key nonce plaintext associated).length = plaintext.length + 16

/-- A tag of zeros; the inputs of tests are sealed with it. -/
def Aead.zeroTag (Key : Type u) : Aead Key where
  encrypt _ _ plaintext _ := plaintext ++ List.replicate 16 0
  decrypt _ _ ciphertext _ := some (ciphertext.take (ciphertext.length - 16))
  decrypt_encrypt _ _ plaintext _ := by simp
  length_encrypt _ _ plaintext _ := by simp

/-- One encryption that took place. -/
structure Sealed (Key : Type u) where
  key : Key
  nonce : Bytes
  associated : Bytes
  plaintext : Bytes
  ciphertext : Bytes
deriving DecidableEq

variable {Key : Type u} [DecidableEq Key]

/-- Ideal decryption: it succeeds only on what was encrypted under the same key, nonce and associated data. -/
def openSealed (log : List (Sealed Key)) (key : Key) (nonce ciphertext associated : Bytes) : Option Bytes :=
  (log.find? fun s => s.key = key ∧ s.nonce = nonce ∧ s.associated = associated ∧ s.ciphertext = ciphertext).map
    Sealed.plaintext

theorem openSealed_eq_some {log : List (Sealed Key)} {key : Key} {nonce ciphertext associated plaintext : Bytes}
    (h : openSealed log key nonce ciphertext associated = some plaintext) :
    ⟨key, nonce, associated, plaintext, ciphertext⟩ ∈ log := by
  obtain ⟨s, found, rfl⟩ := Option.map_eq_some_iff.mp h
  have mem := List.mem_of_find?_eq_some found
  have same := List.find?_some found
  simp only [decide_eq_true_eq] at same
  obtain ⟨rfl, rfl, rfl, rfl⟩ := same
  exact mem

theorem openSealed_of_mem {log : List (Sealed Key)} {s : Sealed Key} (h : s ∈ log) :
    ∃ plaintext, openSealed log s.key s.nonce s.ciphertext s.associated = some plaintext := by
  have some : (log.find? fun t => t.key = s.key ∧ t.nonce = s.nonce ∧ t.associated = s.associated ∧
      t.ciphertext = s.ciphertext).isSome := by
    rw [List.find?_isSome]
    exact ⟨s, h, by simp⟩
  obtain ⟨t, ht⟩ := Option.isSome_iff_exists.mp some
  exact ⟨t.plaintext, by rw [openSealed, ht, Option.map_some]⟩

end TermLinks
