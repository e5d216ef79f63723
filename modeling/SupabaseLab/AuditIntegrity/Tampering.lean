/-
  AuditIntegrity/Tampering.lean --- which edits of the mirror `verify` reports.

  An edit keeps the hash of every row that it leaves in the mirror; it may change any
  other column, delete rows, move them and insert new ones.  `verify` reads the id and
  the joined text of a row, not its columns one by one, and never `prev_hash`.
-/
import SupabaseLab.AuditIntegrity.Mirror

set_option autoImplicit false

namespace SupabaseLab.AuditIntegrity

open Library

/-- The rows of the mirror, in the order of their key. -/
structure Mirror (Instant : Type) where
  rows : List (MirrorRow Instant)
  ordered : rows.Pairwise fun a b => a.seq < b.seq

/-- A mirror after an edit, with the place that each row had before; an inserted row
had none. -/
structure Edited {Instant : Type} (old : Mirror Instant) where
  new : Mirror Instant
  origin : Nat → Option Nat
  kept : ∀ j i r, origin j = some i → new.rows[j]? = some r →
    ∃ r₀, old.rows[i]? = some r₀ ∧ r.hash = r₀.hash
  once : ∀ j j' i, origin j = some i → origin j' = some i → j = j'

section

variable {Instant : Type} (sha : Sha256) (shown shown' : Instant → String) {old : Mirror Instant}

/-- The hash of the row before place `j`. -/
def Mirror.prevOf (m : Mirror Instant) : Nat → Option String
  | 0 => none
  | j + 1 => (m.rows[j]?).map MirrorRow.hash

/-- The mirror begins with old rows in their places, with the id, the joined text and
the hash they had, and goes on with inserted rows that continue the chain. -/
def Edited.Invisible (e : Edited old) : Prop :=
  ∃ k, (∀ j < k, ∃ r r₀, e.new.rows[j]? = some r ∧ old.rows[j]? = some r₀ ∧
      r.entryId = r₀.entryId ∧
      entryText shown' r.payload r.entryAt r.ip = entryText shown r₀.payload r₀.entryAt r₀.ip ∧
      r.hash = r₀.hash) ∧
    ∀ j r, k ≤ j → e.new.rows[j]? = some r →
      e.origin j = none ∧ r.hash = chainHash sha (e.new.prevOf j) (r.content shown')

variable {sha shown shown'}

theorem hashBefore_link (m : Mirror Instant) (j : Nat) :
    hashBefore (m.rows.map (MirrorRow.link shown)) j = m.prevOf j := by
  cases j with
  | zero => rfl
  | succ j =>
    rw [hashBefore, Mirror.prevOf, List.getElem?_map, Option.map_map]
    rfl

theorem verify_mirror (m : Mirror Instant) : (verify sha shown m.rows).firstBreak = none ↔
    Chained (chainHash sha) (m.rows.map (MirrorRow.link shown)) := by
  rw [verify_none_iff, inSeqOrder_eq m.ordered]

theorem getElem?_link (shown : Instant → String) {m : Mirror Instant} {j : Nat} {r : MirrorRow Instant}
    (h : m.rows[j]? = some r) :
    (m.rows.map (MirrorRow.link shown))[j]? = some (r.content shown, r.hash) := by
  rw [List.getElem?_map, h]
  rfl

/-- A row that is left in an accepted mirror is in its old place, after the links that
were before it. -/
theorem kept_agrees (hinj : Function.Injective sha.hex) {e : Edited old}
    (hold : Chained (chainHash sha) (old.rows.map (MirrorRow.link shown)))
    (hnew : Chained (chainHash sha) (e.new.rows.map (MirrorRow.link shown'))) {j i : Nat}
    {r : MirrorRow Instant} (horigin : e.origin j = some i) (hr : e.new.rows[j]? = some r) :
    (e.new.rows.map (MirrorRow.link shown')).take (j + 1) =
      (old.rows.map (MirrorRow.link shown)).take (j + 1) := by
  obtain ⟨r₀, hr₀, hhash⟩ := e.kept j i r horigin hr
  have hlink := getElem?_link shown' hr
  rw [hhash] at hlink
  obtain ⟨rfl, htake⟩ := hnew.agree (chainHash_injective hinj) hold hlink (getElem?_link shown hr₀)
  exact htake

/-- After the last row that was left there are inserted rows only. -/
theorem Edited.exists_lastKept (e : Edited old) (n : Nat) : ∃ k ≤ n,
    (k = 0 ∨ ∃ j i, k = j + 1 ∧ e.origin j = some i) ∧
      ∀ j, k ≤ j → j < n → e.origin j = none := by
  induction n with
  | zero => exact ⟨0, Nat.le_refl 0, .inl rfl, fun j _ hj => absurd hj (Nat.not_lt_zero j)⟩
  | succ n ih =>
    cases horigin : e.origin n with
    | some i =>
      exact ⟨n + 1, Nat.le_refl _, .inr ⟨n, i, rfl, horigin⟩, fun j hk hj => absurd hj (Nat.not_lt.mpr hk)⟩
    | none =>
      obtain ⟨k, hk, hlast, hnone⟩ := ih
      refine ⟨k, Nat.le_succ_of_le hk, hlast, fun j hkj hj => ?_⟩
      rcases Nat.lt_or_eq_of_le (Nat.le_of_lt_succ hj) with hlt | rfl
      · exact hnone j hkj hlt
      · exact horigin

theorem Edited.Invisible.prevOf_eq {e : Edited old} {k j : Nat}
    (hfirst : ∀ j < k, ∃ r r₀, e.new.rows[j]? = some r ∧ old.rows[j]? = some r₀ ∧
      r.entryId = r₀.entryId ∧
      entryText shown' r.payload r.entryAt r.ip = entryText shown r₀.payload r₀.entryAt r₀.ip ∧
      r.hash = r₀.hash) (hj : j < k) : e.new.prevOf j = old.prevOf j := by
  cases j with
  | zero => rfl
  | succ j =>
    obtain ⟨r, r₀, hr, hr₀, -, -, hhash⟩ := hfirst j (Nat.lt_of_succ_lt hj)
    rw [Mirror.prevOf, Mirror.prevOf, hr, hr₀, Option.map_some, Option.map_some, hhash]

/-- The edited mirror is accepted exactly when the edit cannot be seen. -/
theorem accepted_iff_invisible (hinj : Function.Injective sha.hex)
    (hold : (verify sha shown old.rows).firstBreak = none) (e : Edited old) :
    (verify sha shown' e.new.rows).firstBreak = none ↔ e.Invisible sha shown shown' := by
  rw [verify_mirror] at hold ⊢
  constructor
  · intro hnew
    obtain ⟨k, hk, hlast, hnone⟩ := e.exists_lastKept e.new.rows.length
    have hget : ∀ j < e.new.rows.length, ∃ r, e.new.rows[j]? = some r := fun j hj =>
      ⟨_, List.getElem?_eq_getElem hj⟩
    have hagree : (e.new.rows.map (MirrorRow.link shown')).take k =
        (old.rows.map (MirrorRow.link shown)).take k := by
      rcases hlast with rfl | ⟨j, i, rfl, horigin⟩
      · rw [List.take_zero, List.take_zero]
      · obtain ⟨r, hr⟩ := hget j hk
        exact kept_agrees hinj hold hnew horigin hr
    refine ⟨k, fun j hj => ?_, fun j r hkj hr => ?_⟩
    · obtain ⟨r, hr⟩ := hget j (Nat.lt_of_lt_of_le hj hk)
      have hlink := congrArg (fun l => l[j]?) hagree
      simp only [List.getElem?_take, if_pos hj] at hlink
      rw [getElem?_link shown' hr] at hlink
      obtain ⟨r₀, hr₀, heq⟩ := Option.map_eq_some_iff.mp ((List.getElem?_map ..).symm.trans hlink.symm)
      obtain ⟨hcontent, hhash⟩ := Prod.mk.inj heq
      obtain ⟨hid, htext⟩ := Prod.mk.inj hcontent
      exact ⟨r, r₀, hr, hr₀, hid.symm, htext.symm, hhash.symm⟩
    · refine ⟨hnone j hkj (List.getElem?_eq_some_iff.mp hr).1, ?_⟩
      rw [← hashBefore_link]
      exact hnew j _ _ (getElem?_link shown' hr)
  · rintro ⟨k, hfirst, hrest⟩ j b h hget
    obtain ⟨r, hr, heq⟩ := Option.map_eq_some_iff.mp ((List.getElem?_map ..).symm.trans hget)
    obtain ⟨rfl, rfl⟩ := Prod.mk.inj heq
    rw [hashBefore_link]
    rcases Nat.lt_or_ge j k with hj | hj
    · obtain ⟨r', r₀, hr', hr₀, hid, htext, hhash⟩ := hfirst j hj
      obtain rfl : r' = r := Option.some.inj (hr'.symm.trans hr)
      have hlink := hold j _ _ (getElem?_link shown hr₀)
      rw [hashBefore_link] at hlink
      rw [hhash, hlink, Edited.Invisible.prevOf_eq hfirst hj]
      exact congrArg (chainHash sha _) (Prod.ext hid.symm htext.symm)
    · exact (hrest j r hj hr).2

/-- An edit of an accepted mirror is reported exactly when it can be seen. -/
theorem edit_reported_iff (sha : Sha256) (hinj : Function.Injective sha.hex)
    (shown shown' : Instant → String) (old : Mirror Instant)
    (hold : (verify sha shown old.rows).firstBreak = none) (e : Edited old) :
    (verify sha shown' e.new.rows).firstBreak ≠ none ↔ ¬ e.Invisible sha shown shown' :=
  not_congr (accepted_iff_invisible hinj hold e)

end

/-! ## An edit that cannot be seen -/

def firstEntry : AuditEntry String :=
  ⟨⟨"00000000-0000-4000-8000-000000000001", by decide⟩, none, none, some "1"⟩

/-- A mirror of one entry. -/
def oneRow : Mirror String := ⟨[captureRow spelling id 1 firstEntry none], List.pairwise_singleton _ _⟩

/-- The address is moved into the payload, and `prev_hash` is made up. -/
def movedText : Edited oneRow where
  new := ⟨[{ captureRow spelling id 1 firstEntry none with
    payload := some "1", ip := none, prevHash := some "made up" }], List.pairwise_singleton _ _⟩
  origin j := if j = 0 then some 0 else none
  kept := by
    intro j i r horigin hr
    cases j with
    | zero =>
      cases horigin
      cases hr
      exact ⟨_, rfl, rfl⟩
    | succ j => cases horigin
  once := by
    intro j j' i hj hj'
    cases j with
    | zero =>
      cases j' with
      | zero => rfl
      | succ j' => cases hj'
    | succ j => cases hj

theorem oneRow_accepted : (verify spelling id oneRow.rows).firstBreak = none := by
  rw [verify_mirror]
  exact chained_concat.mpr ⟨chained_nil, rfl⟩

theorem edit_reported_iff_moved : (verify spelling id movedText.new.rows).firstBreak ≠ none ↔
    ¬ movedText.Invisible spelling id id :=
  edit_reported_iff spelling spelling_injective id id oneRow oneRow_accepted movedText

/-- Columns are changed, the hashes are not, and nothing is reported. -/
theorem moved_text_unreported : ¬ ∀ (sha : Sha256) (shown : String → String) (old : Mirror String),
    Function.Injective sha.hex → (verify sha shown old.rows).firstBreak = none →
      ∀ e : Edited old, ¬ e.new.rows <+: old.rows →
        (verify sha shown e.new.rows).firstBreak ≠ none := by
  intro h
  refine h spelling id oneRow spelling_injective oneRow_accepted movedText ?_ ?_
  · intro hprefix
    have hlast := congrArg MirrorRow.ip (List.cons_prefix_cons.mp hprefix).1
    cases hlast
  · rw [verify_mirror]
    exact chained_concat.mpr ⟨chained_nil, rfl⟩

end SupabaseLab.AuditIntegrity
