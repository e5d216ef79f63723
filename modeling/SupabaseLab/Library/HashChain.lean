/-
  Library/HashChain.lean --- links that carry the digest of the link before.

  A link has its contents and a hash.  In a chain the hash is the digest of the
  contents and of the hash of the predecessor, if there is one.  When the digest is
  injective, a hash determines its link and every link before it.
-/
import Mathlib.Data.List.Basic

set_option autoImplicit false

namespace SupabaseLab.Library

variable {β H : Type}

/-- The hash of the link before index `i`. -/
def hashBefore (l : List (β × H)) : Nat → Option H
  | 0 => none
  | i + 1 => (l[i]?).map Prod.snd

/-- Every link carries the digest of its contents and of its predecessor's hash. -/
def Chained (digest : Option H → β → H) (l : List (β × H)) : Prop :=
  ∀ i b h, l[i]? = some (b, h) → h = digest (hashBefore l i) b

/-- The hash of a first link, or one that the digest gives. -/
def IsDigest (digest : Option H → β → H) (p : Option H) : Prop := ∀ h ∈ p, ∃ q b, h = digest q b

/-- The digest is injective on what a chain can hash. -/
def DigestInjective (digest : Option H → β → H) : Prop :=
  ∀ p b q c, IsDigest digest p → IsDigest digest q → digest p b = digest q c → p = q ∧ b = c

section

variable {digest : Option H → β → H} {l l' : List (β × H)} {b c : β} {h : H} {i j n : Nat}

theorem hashBefore_append (hi : i ≤ l.length) : hashBefore (l ++ l') i = hashBefore l i := by
  cases i with
  | zero => rfl
  | succ i => rw [hashBefore, hashBefore, List.getElem?_append_left hi]

theorem hashBefore_length : hashBefore l l.length = l.getLast?.map Prod.snd := by
  rw [List.getLast?_eq_getElem?]
  cases hlen : l.length with
  | zero => rw [List.eq_nil_of_length_eq_zero hlen]; rfl
  | succ n => rfl

theorem chained_nil : Chained digest ([] : List (β × H)) := by
  intro i b h hget
  rw [List.getElem?_nil] at hget
  cases hget

theorem chained_concat :
    Chained digest (l ++ [(b, h)]) ↔ Chained digest l ∧ h = digest (hashBefore l l.length) b := by
  constructor
  · intro hchain
    refine ⟨fun i c k hget => ?_, ?_⟩
    · have hi : i < l.length := (List.getElem?_eq_some_iff.mp hget).1
      rw [hchain i c k (by rw [List.getElem?_append_left hi, hget]),
        hashBefore_append (Nat.le_of_lt hi)]
    · rw [hchain l.length b h List.getElem?_concat_length, hashBefore_append (Nat.le_refl _)]
  · rintro ⟨hchain, hlast⟩ i c k hget
    rcases Nat.lt_trichotomy i l.length with hi | rfl | hi
    · rw [List.getElem?_append_left hi] at hget
      rw [hashBefore_append (Nat.le_of_lt hi), hchain i c k hget]
    · rw [List.getElem?_concat_length] at hget
      cases hget
      rw [hashBefore_append (Nat.le_refl _), hlast]
    · rw [List.getElem?_eq_none (by rw [List.length_append, List.length_singleton]; omega)] at hget
      cases hget

theorem Chained.take (hchain : Chained digest l) (n : Nat) : Chained digest (l.take n) := by
  intro i b h hget
  rw [List.getElem?_take] at hget
  split at hget
  · rename_i hi
    rw [hchain i b h hget]
    cases i with
    | zero => rfl
    | succ i => rw [hashBefore, hashBefore, List.getElem?_take, if_pos (Nat.lt_of_succ_lt hi)]
  · cases hget

theorem Chained.isDigest (hchain : Chained digest l) (i : Nat) : IsDigest digest (hashBefore l i) := by
  intro h hmem
  cases i with
  | zero => cases hmem
  | succ i =>
    obtain ⟨⟨b, k⟩, hget, rfl⟩ := Option.map_eq_some_iff.mp hmem
    exact ⟨_, b, hchain i b k hget⟩

/-- A hash determines its place and all links up to it. -/
theorem Chained.agree (hinj : DigestInjective digest) (hchain : Chained digest l)
    (hchain' : Chained digest l') (hi : l[i]? = some (b, h)) (hj : l'[j]? = some (c, h)) :
    i = j ∧ l.take (i + 1) = l'.take (j + 1) := by
  induction i generalizing j b c h with
  | zero =>
    obtain ⟨hprev, rfl⟩ := hinj _ _ _ _ (hchain.isDigest 0) (hchain'.isDigest j)
      ((hchain 0 b h hi).symm.trans (hchain' j c h hj))
    cases j with
    | zero => rw [List.take_add_one, List.take_add_one, hi, hj, List.take_zero, List.take_zero]; exact ⟨rfl, rfl⟩
    | succ j =>
      have hj' : j < l'.length := Nat.lt_of_succ_lt (List.getElem?_eq_some_iff.mp hj).1
      rw [hashBefore, hashBefore, List.getElem?_eq_getElem hj'] at hprev
      cases hprev
  | succ i ih =>
    obtain ⟨hprev, rfl⟩ := hinj _ _ _ _ (hchain.isDigest (i + 1)) (hchain'.isDigest j)
      ((hchain (i + 1) b h hi).symm.trans (hchain' j c h hj))
    have hi' : i < l.length := Nat.lt_of_succ_lt (List.getElem?_eq_some_iff.mp hi).1
    cases j with
    | zero =>
      rw [hashBefore, hashBefore, List.getElem?_eq_getElem hi'] at hprev
      cases hprev
    | succ j =>
      have hj' : j < l'.length := Nat.lt_of_succ_lt (List.getElem?_eq_some_iff.mp hj).1
      have hget : l[i]? = some (l[i].1, l[i].2) := List.getElem?_eq_getElem hi'
      have hget' : l'[j]? = some (l'[j].1, l'[j].2) := List.getElem?_eq_getElem hj'
      rw [hashBefore, hashBefore, hget, hget'] at hprev
      rw [← Option.some.inj hprev] at hget'
      obtain ⟨rfl, htake⟩ := ih hget hget'
      refine ⟨rfl, ?_⟩
      rw [List.take_add_one, List.take_add_one (l := l'), htake, hi, hj]

/-- The links of a chain have different hashes. -/
theorem Chained.index_unique (hinj : DigestInjective digest) (hchain : Chained digest l)
    (hi : l[i]? = some (b, h)) (hj : l[j]? = some (c, h)) : i = j :=
  (hchain.agree hinj hchain hi hj).1

/-- Two links of a chain have different predecessors. -/
theorem Chained.hashBefore_unique (hinj : DigestInjective digest) (hchain : Chained digest l)
    (hi : i < l.length) (hj : j < l.length) (heq : hashBefore l i = hashBefore l j) : i = j := by
  have hsome : ∀ k, k + 1 < l.length → ∃ b h, l[k]? = some (b, h) := fun k hk =>
    ⟨l[k].1, l[k].2, List.getElem?_eq_getElem (Nat.lt_of_succ_lt hk)⟩
  cases i with
  | zero =>
    cases j with
    | zero => rfl
    | succ j =>
      obtain ⟨b, h, hget⟩ := hsome j hj
      rw [hashBefore, hashBefore, hget] at heq
      cases heq
  | succ i =>
    obtain ⟨b, h, hget⟩ := hsome i hi
    cases j with
    | zero =>
      rw [hashBefore, hashBefore, hget] at heq
      cases heq
    | succ j =>
      obtain ⟨c, k, hget'⟩ := hsome j hj
      rw [hashBefore, hashBefore, hget, hget'] at heq
      obtain rfl : h = k := Option.some.inj heq
      rw [hchain.index_unique hinj hget hget']

end

end SupabaseLab.Library
