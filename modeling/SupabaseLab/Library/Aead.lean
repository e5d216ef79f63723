/-
  Library/Aead.lean --- authenticated encryption with associated data.

  A cipher is a pair of functions: `encrypt key nonce aad plain` gives a
  ciphertext, `decrypt` answers a plaintext or refuses.  Three sets of facts
  about it are kept apart.

    `Inverts`  decrypting undoes encrypting, and a ciphertext is one tag longer
               than its plaintext.
    `Lawful`   AES-GCM as a function: besides, a ciphertext that decrypts to a
               plaintext is what encrypting that plaintext gives.
    `Ideal`    what is assumed about an adversary: a ciphertext decrypts, under
               one key, only when the key really sealed that plaintext under
               that nonce and associated data.
    `IdealOn`  the same over all the keys of a system, with what its own
               ciphertexts are good for.

  The last two refer to a record of what was sealed, so they are statements
  about the runs of a system and not about the two functions alone.
-/
import SupabaseLab.Library.Octets

set_option autoImplicit false

namespace SupabaseLab.Library

/-- The two directions of an AEAD cipher. -/
structure Aead where
  encrypt : Bytes → Bytes → Bytes → Bytes → Bytes
  decrypt : Bytes → Bytes → Bytes → Bytes → Option Bytes

/-- One use of a key: what was sealed, under which nonce and associated data. -/
structure Sealing where
  key : Bytes
  nonce : Bytes
  aad : Bytes
  plain : Bytes
  deriving DecidableEq, Repr

namespace Aead

variable {A : Aead} {tag : Nat}

/-- Decrypting undoes encrypting; the tag has `tag` bytes. -/
structure Inverts (A : Aead) (tag : Nat) : Prop where
  length_encrypt : ∀ k n a p, (A.encrypt k n a p).length = p.length + tag
  decrypt_encrypt : ∀ k n a p, A.decrypt k n a (A.encrypt k n a p) = some p

/-- The cipher as a pair of functions. -/
structure Lawful (A : Aead) (tag : Nat) : Prop extends A.Inverts tag where
  encrypt_of_decrypt : ∀ k n a c p, A.decrypt k n a c = some p → A.encrypt k n a p = c

/-- The cipher is ideal for `key`, given the sealings made: decrypting succeeds
only for a plaintext really sealed under that key, nonce and associated data. -/
structure Ideal (A : Aead) (tag : Nat) (key : Bytes) (sealed : Sealing → Prop) : Prop where
  length_decrypt : ∀ n a c p, A.decrypt key n a c = some p → c.length = p.length + tag
  sealed_of_decrypt : ∀ n a c p, A.decrypt key n a c = some p → sealed ⟨key, n, a, p⟩

/-- The cipher is ideal for a system that made the sealings `log` and no others:
each opens to what it sealed, nothing else opens, and no two of them give the
same ciphertext under the same nonce. -/
structure IdealOn (A : Aead) (tag : Nat) (log : List Sealing) : Prop where
  length_encrypt : ∀ s ∈ log,
    (A.encrypt s.key s.nonce s.aad s.plain).length = s.plain.length + tag
  decrypt_encrypt : ∀ s ∈ log,
    A.decrypt s.key s.nonce s.aad (A.encrypt s.key s.nonce s.aad s.plain) = some s.plain
  sealed_of_decrypt : ∀ k n a c p, A.decrypt k n a c = some p →
    ⟨k, n, a, p⟩ ∈ log ∧ A.encrypt k n a p = c
  no_collision : ∀ s ∈ log, ∀ t ∈ log, s.nonce = t.nonce →
    A.encrypt s.key s.nonce s.aad s.plain = A.encrypt t.key t.nonce t.aad t.plain → s = t

/-- A ciphertext the system made opens under the associated data it was made
for, and under no other. -/
theorem IdealOn.aad_eq {log : List Sealing} (h : A.IdealOn tag log) {s : Sealing} (hs : s ∈ log)
    {k a p : Bytes}
    (hdec : A.decrypt k s.nonce a (A.encrypt s.key s.nonce s.aad s.plain) = some p) :
    a = s.aad := by
  obtain ⟨hmem, henc⟩ := h.sealed_of_decrypt _ _ _ _ _ hdec
  have heq := h.no_collision _ hmem s hs rfl henc
  exact congrArg Sealing.aad heq

theorem Inverts.encrypt_injective (h : A.Inverts tag) {k n a p q : Bytes}
    (heq : A.encrypt k n a p = A.encrypt k n a q) : p = q := by
  have hp := h.decrypt_encrypt k n a p
  rw [heq, h.decrypt_encrypt] at hp
  exact (Option.some.inj hp).symm

/-! ## Two concrete ciphers -/

/-- A cipher that leaves the plaintext readable and appends the byte sum of
everything it binds, sixteen times.  It is lawful; it protects nothing. -/
def checksum : Aead where
  encrypt k n a p := p ++ List.replicate 16 (k ++ n ++ a ++ p).sum
  decrypt k n a c :=
    let p := c.take (c.length - 16)
    if c = p ++ List.replicate 16 (k ++ n ++ a ++ p).sum then some p else none

theorem checksum_lawful : checksum.Lawful 16 where
  length_encrypt k n a p := by simp [checksum]
  decrypt_encrypt k n a p := by simp [checksum]
  encrypt_of_decrypt k n a c p h := by
    simp only [checksum] at h ⊢
    split at h
    · rename_i heq
      cases h
      exact heq.symm
    · cases h

/-- `A` as seen by an adversary who can forge nothing: it decrypts what the log
says was sealed and refuses the rest. -/
def restrict (A : Aead) (log : List Sealing) : Aead where
  encrypt := A.encrypt
  decrypt k n a c :=
    (log.find? fun s => s.key = k ∧ s.nonce = n ∧ s.aad = a ∧ A.encrypt k n a s.plain = c).map
      (·.plain)

theorem restrict_decrypt {log : List Sealing} {k n a c p : Bytes}
    (h : (A.restrict log).decrypt k n a c = some p) :
    ⟨k, n, a, p⟩ ∈ log ∧ A.encrypt k n a p = c := by
  obtain ⟨s, hfind, rfl⟩ := Option.map_eq_some_iff.mp h
  have hmatch := List.find?_some hfind
  simp only [decide_eq_true_eq] at hmatch
  obtain ⟨rfl, rfl, rfl, hc⟩ := hmatch
  exact ⟨List.mem_of_find?_eq_some hfind, hc⟩

theorem restrict_ideal (h : A.Inverts tag) (log : List Sealing) (key : Bytes) :
    (A.restrict log).Ideal tag key (· ∈ log) where
  length_decrypt n a c p hd := by
    rw [← (restrict_decrypt hd).2]
    exact h.length_encrypt _ _ _ _
  sealed_of_decrypt n a c p hd := (restrict_decrypt hd).1

theorem restrict_idealOn (h : A.Inverts tag) {log : List Sealing}
    (hcollision : ∀ s ∈ log, ∀ t ∈ log, s.nonce = t.nonce →
      A.encrypt s.key s.nonce s.aad s.plain = A.encrypt t.key t.nonce t.aad t.plain → s = t) :
    (A.restrict log).IdealOn tag log where
  length_encrypt s _ := h.length_encrypt _ _ _ _
  decrypt_encrypt s hs := by
    obtain ⟨t, hfind⟩ : ∃ t, log.find? (fun t => t.key = s.key ∧ t.nonce = s.nonce ∧
        t.aad = s.aad ∧ A.encrypt s.key s.nonce s.aad t.plain =
          A.encrypt s.key s.nonce s.aad s.plain) = some t :=
      Option.isSome_iff_exists.mp (List.find?_isSome.mpr ⟨s, hs, by simp⟩)
    have hmatch := List.find?_some hfind
    simp only [decide_eq_true_eq] at hmatch
    obtain ⟨-, -, -, hc⟩ := hmatch
    have hplain : t.plain = s.plain := h.encrypt_injective hc
    show (log.find? _).map (·.plain) = some s.plain
    rw [← hplain]
    exact congrArg (Option.map _) (hplain ▸ hfind)
  sealed_of_decrypt k n a c p hd := restrict_decrypt hd
  no_collision := hcollision

end Aead

/-! ## Nonce reuse -/

/-- No key and nonce pair seals two different things. -/
def NoReuse (log : List Sealing) : Prop :=
  ∀ s ∈ log, ∀ t ∈ log, s.key = t.key → s.nonce = t.nonce → s.plain = t.plain ∧ s.aad = t.aad

theorem NoReuse.nil : NoReuse [] := fun _ hs => absurd hs (List.not_mem_nil)

/-- Fewer sealings reuse no more. -/
theorem NoReuse.mono {log log' : List Sealing} (h : NoReuse log') (hsub : ∀ s ∈ log, s ∈ log') :
    NoReuse log :=
  fun s hs t ht => h s (hsub s hs) t (hsub t ht)

/-- New sealings may join a log when they agree with it and with one another. -/
theorem NoReuse.append {log new : List Sealing} (hlog : NoReuse log) (hnew : NoReuse new)
    (hcross : ∀ s ∈ log, ∀ t ∈ new, s.key = t.key → s.nonce = t.nonce →
      s.plain = t.plain ∧ s.aad = t.aad) : NoReuse (log ++ new) := by
  intro s hs t ht hk hn
  rcases List.mem_append.mp hs with hs | hs
  · rcases List.mem_append.mp ht with ht | ht
    · exact hlog s hs t ht hk hn
    · exact hcross s hs t ht hk hn
  · rcases List.mem_append.mp ht with ht | ht
    · obtain ⟨hp, ha⟩ := hcross t ht s hs hk.symm hn.symm
      exact ⟨hp.symm, ha.symm⟩
    · exact hnew s hs t ht hk hn

end SupabaseLab.Library
