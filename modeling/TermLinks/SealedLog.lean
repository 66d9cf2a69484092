import TermLinks.Aead

namespace TermLinks

section

universe u

variable {Key : Type u} {aead : Aead Key} {log : List (Sealed Key)}

/-- What one encryption makes, for the log. -/
def Aead.seal (aead : Aead Key) (key : Key) (nonce associated plaintext : Bytes) : Sealed Key :=
  ⟨key, nonce, associated, plaintext, aead.encrypt key nonce plaintext associated⟩

def Sealed.Genuine (aead : Aead Key) (s : Sealed Key) : Prop :=
  s = aead.seal s.key s.nonce s.associated s.plaintext

/-- One ciphertext has one plaintext. -/
theorem plaintext_eq_of_genuine {s t : Sealed Key} (hs : s.Genuine aead) (ht : t.Genuine aead)
    (key : s.key = t.key) (nonce : s.nonce = t.nonce) (associated : s.associated = t.associated)
    (ciphertext : s.ciphertext = t.ciphertext) :
    s.plaintext = t.plaintext := by
  have made : s.ciphertext = aead.encrypt s.key s.nonce s.plaintext s.associated := congrArg Sealed.ciphertext hs
  have made' : t.ciphertext = aead.encrypt t.key t.nonce t.plaintext t.associated := congrArg Sealed.ciphertext ht
  have opened := aead.decrypt_encrypt s.key s.nonce s.plaintext s.associated
  have opened' := aead.decrypt_encrypt t.key t.nonce t.plaintext t.associated
  rw [← made, key, nonce, associated, ciphertext] at opened
  rw [← made'] at opened'
  exact Option.some.inj (opened.symm.trans opened')

variable [DecidableEq Key]

/-- Ideal decryption gives the plaintext of any entry it finds. -/
theorem openSealed_iff (genuine : ∀ s ∈ log, s.Genuine aead) {key : Key}
    {nonce ciphertext associated plaintext : Bytes} :
    openSealed log key nonce ciphertext associated = some plaintext ↔
      ⟨key, nonce, associated, plaintext, ciphertext⟩ ∈ log := by
  constructor
  · exact openSealed_eq_some
  · intro member
    obtain ⟨found, opened⟩ := openSealed_of_mem member
    have other := openSealed_eq_some opened
    have same : found = plaintext :=
      plaintext_eq_of_genuine (genuine _ other) (genuine _ member) rfl rfl rfl rfl
    rw [← same]
    exact opened

/-- A longer log opens what a shorter one opens. -/
theorem openSealed_mono {more : List (Sealed Key)} (genuine : ∀ s ∈ more, s.Genuine aead)
    (sub : ∀ s ∈ log, s ∈ more) {key : Key} {nonce ciphertext associated plaintext : Bytes}
    (h : openSealed log key nonce ciphertext associated = some plaintext) :
    openSealed more key nonce ciphertext associated = some plaintext :=
  (openSealed_iff genuine).mpr (sub _ (openSealed_eq_some h))

end

section

universe u v

variable {α : Type u} {β : Type v}

/-- Increasing numbers that contain all below a bound begin with them. -/
theorem getElem?_of_increasing {ns : List Nat} (increasing : ns.Pairwise (· < ·)) {bound : Nat}
    (all : ∀ n < bound, n ∈ ns) {n : Nat} (below : n < bound) : ns[n]? = some n := by
  induction n using Nat.strongRecOn with
  | _ n ih =>
    obtain ⟨k, there⟩ := List.mem_iff_getElem?.mp (all n below)
    obtain ⟨inside, value⟩ := List.getElem?_eq_some_iff.mp there
    have order := List.pairwise_iff_getElem.mp increasing
    -- its place is not before `n`, where the smaller numbers are
    have late : n ≤ k := by
      by_contra early
      have other := ih k (by omega) (by omega)
      rw [there] at other
      have same := Option.some.inj other
      omega
    by_cases same : k = n
    · rw [← same, there, same]
    · have between := order n k (by omega) inside (by omega)
      by_cases first : n = 0
      · omega
      · have previous := ih (n - 1) (by omega) (by omega)
        obtain ⟨_, value'⟩ := List.getElem?_eq_some_iff.mp previous
        have step := order (n - 1) n (by omega) (by omega) (by omega)
        omega

theorem prefix_of_getElem? {as bs : List α} (h : ∀ (n : Nat) (a : α), as[n]? = some a → bs[n]? = some a) :
    as <+: bs :=
  List.prefix_iff_getElem?.mpr fun n inside => h n _ (List.getElem?_eq_getElem inside)

/-- Entries that are told apart by `f` and agree on it are at most one. -/
theorem filter_length_le_one [DecidableEq β] {l : List α} {f : α → β} (distinct : (l.map f).Nodup)
    {p : α → Bool} (agree : ∀ a ∈ l, ∀ b ∈ l, p a → p b → f a = f b) : (l.filter p).length ≤ 1 := by
  have apart : ((l.filter p).map f).Nodup := distinct.sublist (List.filter_sublist.map f)
  cases found : l.filter p with
  | nil => exact Nat.zero_le _
  | cons a rest =>
    cases rest with
    | nil => exact Nat.le_refl _
    | cons b rest =>
      have first : a ∈ l.filter p := by rw [found]; exact List.mem_cons_self
      have second : b ∈ l.filter p := by rw [found]; exact List.mem_cons_of_mem a List.mem_cons_self
      rw [found] at apart
      obtain ⟨ha, pa⟩ := List.mem_filter.mp first
      obtain ⟨hb, pb⟩ := List.mem_filter.mp second
      have same := agree a ha b hb pa pb
      simp [same] at apart

/-- Entries told apart within their class by `g` are told apart by class and `g`. -/
theorem nodup_map_of_classes {γ : Type v} [DecidableEq β] {l : List α} {f : α → β} {g : α → γ}
    (classes : ∀ b, ((l.filter fun a => f a = b).map g).Nodup) : (l.map fun a => (f a, g a)).Nodup := by
  induction l with
  | nil => exact List.nodup_nil
  | cons a l ih =>
    rw [List.map_cons, List.nodup_cons]
    constructor
    · intro again
      obtain ⟨b, member, same⟩ := List.mem_map.mp again
      have class_a := classes (f a)
      rw [List.filter_cons_of_pos (by simp), List.map_cons, List.nodup_cons] at class_a
      apply class_a.1
      apply List.mem_map.mpr
      have parts := Prod.mk.inj same
      exact ⟨b, List.mem_filter.mpr ⟨member, by simpa using parts.1⟩, parts.2⟩
    · apply ih
      intro b
      have class_b := classes b
      rw [List.filter_cons] at class_b
      split at class_b
      next =>
        rw [List.map_cons, List.nodup_cons] at class_b
        exact class_b.2
      next => exact class_b

end

end TermLinks
