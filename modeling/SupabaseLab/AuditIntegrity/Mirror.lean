/-
  AuditIntegrity/Mirror.lean --- the hash-chained mirror of the audit table.

  Source: `audit_mirror.capture` and `audit_mirror.verify` of
  experiments/audit-integrity/tests/a09-hash-chain-mirror.ts.

  The database's SHA-256 is a parameter that gives lower-case hex.  How a session
  prints a timestamp depends on its settings, so the printing takes them.  A json
  value is its text.
-/
import Mathlib.Data.List.Induction
import SupabaseLab.Library.HashChain
import SupabaseLab.Library.Separated
import SupabaseLab.Library.StableSort
import SupabaseLab.Library.Uuid

set_option autoImplicit false

namespace SupabaseLab.AuditIntegrity

open Library

/-- `encode(sha256(convert_to(body, 'utf8')), 'hex')`. -/
structure Sha256 where
  hex : String → String
  lower : ∀ s, (hex s).toList.all isLowerHex = true

/-- A row of `auth.audit_log_entries`. -/
structure AuditEntry (Instant : Type) where
  id : Uuid
  payload : Option String
  createdAt : Option Instant
  ipAddress : Option String

/-- A row of `audit_mirror.entries`. -/
structure MirrorRow (Instant : Type) where
  seq : Nat
  entryId : Uuid
  payload : Option String
  entryAt : Option Instant
  ip : Option String
  prevHash : Option String
  hash : String
  deriving DecidableEq

section

variable {Instant : Type} (sha : Sha256) (shown : Instant → String)

/-- What is hashed of an entry, after the hash of the row before. -/
def entryText (payload : Option String) (entryAt : Option Instant) (ip : Option String) : String :=
  payload.getD "" ++ (entryAt.map shown).getD "" ++ ip.getD ""

/-- The hash of a row. -/
def chainHash (prev : Option String) (content : Uuid × String) : String :=
  sha.hex (prev.getD "genesis" ++ content.1.text ++ content.2)

/-- `select e.hash … order by e.seq desc limit 1`. -/
def newestHash (rows : List (MirrorRow Instant)) : Option String :=
  (rows.insertionSort fun a b => b.seq ≤ a.seq).head?.map MirrorRow.hash

/-- The row that `capture` inserts. -/
def captureRow (seq : Nat) (new : AuditEntry Instant) (prev : Option String) : MirrorRow Instant :=
  { seq := seq
    entryId := new.id
    payload := new.payload
    entryAt := new.createdAt
    ip := new.ipAddress
    prevHash := prev
    hash := chainHash sha prev (new.id, entryText shown new.payload new.createdAt new.ipAddress) }

structure Verdict where
  firstBreak : Option Nat
  checked : Nat
  deriving DecidableEq, Repr

def MirrorRow.content (r : MirrorRow Instant) : Uuid × String :=
  (r.entryId, entryText shown r.payload r.entryAt r.ip)

/-- The loop of `verify`, over the rows in the order of `seq`. -/
def verifyLoop : Option String → Verdict → List (MirrorRow Instant) → Verdict
  | _, v, [] => v
  | prev, v, r :: rest =>
    let calc_ := chainHash sha prev (r.content shown)
    verifyLoop (some r.hash)
      { firstBreak := if calc_ ≠ r.hash ∧ v.firstBreak = none then some r.seq else v.firstBreak
        checked := v.checked + 1 }
      rest

def inSeqOrder (rows : List (MirrorRow Instant)) : List (MirrorRow Instant) :=
  rows.insertionSort fun a b => a.seq ≤ b.seq

def verify (rows : List (MirrorRow Instant)) : Verdict :=
  verifyLoop sha shown none ⟨none, 0⟩ (inSeqOrder rows)

end

/-! ## The digest -/

section Digest

variable {sha : Sha256}

theorem Sha256.hyphen_notMem (s : String) : '-' ∉ (sha.hex s).toList :=
  hyphen_notMem_of_hex (List.all_eq_true.mp (sha.lower s))

/-- The hash is injective in the hash before, the id and the text that follows. -/
theorem chainHash_injective (hinj : Function.Injective sha.hex) : DigestInjective (chainHash sha) := by
  have hplain : ∀ p, IsDigest (chainHash sha) p → '-' ∉ (p.getD "genesis").toList := by
    intro p hp
    cases p with
    | none => decide
    | some h =>
      obtain ⟨q, b, rfl⟩ := hp h rfl
      exact Sha256.hyphen_notMem _
  have hgenesis : ∀ h, IsDigest (chainHash sha) (some h) → h ≠ "genesis" := by
    rintro h hp rfl
    obtain ⟨q, b, heq⟩ := hp "genesis" rfl
    have hlower := sha.lower (q.getD "genesis" ++ b.1.text ++ b.2)
    unfold chainHash at heq
    rw [← heq] at hlower
    revert hlower
    decide
  rintro p ⟨u, b⟩ q ⟨w, c⟩ hp hq heq
  have hbody := congrArg String.toList (hinj heq)
  obtain ⟨first, rest, hu, hfirst, hrest, hnot⟩ := u.exists_split
  obtain ⟨first', rest', hw, hfirst', hrest', hnot'⟩ := w.exists_split
  simp only [String.toList_append, hu, hw, List.append_assoc, List.cons_append] at hbody
  rw [← List.append_assoc, ← List.append_assoc] at hbody
  obtain ⟨hleft, hright⟩ := append_cons_inj
    (fun h => (List.mem_append.mp h).elim (hplain p hp) hnot)
    (fun h => (List.mem_append.mp h).elim (hplain q hq) hnot') hbody
  obtain ⟨hprev, rfl⟩ := List.append_inj' hleft (hfirst.trans hfirst'.symm)
  obtain ⟨rfl, htext⟩ := List.append_inj hright (hrest.trans hrest'.symm)
  have hid : u = w := Uuid.text_injective (String.toList_inj.mp (hu.trans hw.symm))
  refine ⟨?_, by rw [hid, String.toList_inj.mp htext]⟩
  have hprev := String.toList_inj.mp hprev
  match p, q with
  | none, none => rfl
  | none, some h => exact absurd hprev.symm (hgenesis h hq)
  | some h, none => exact absurd hprev (hgenesis h hp)
  | some h, some k => exact congrArg some hprev

/-- A digest that spells its text out, a run of ones for each character. -/
def spelling : Sha256 where
  hex s := String.ofList (s.toList.flatMap fun c => List.replicate c.toNat '1' ++ ['0'])
  lower s := by
    rw [String.toList_ofList, List.all_eq_true]
    intro d hd
    obtain ⟨c, -, hd⟩ := List.mem_flatMap.mp hd
    rcases List.mem_append.mp hd with hd | hd
    · rw [List.eq_of_mem_replicate hd]
      decide
    · rw [List.mem_singleton.mp hd]
      decide

theorem spelling_injective : Function.Injective spelling.hex := by
  have hcode : ∀ s t : List Char,
      (s.flatMap fun c => List.replicate c.toNat '1' ++ ['0']) =
        (t.flatMap fun c => List.replicate c.toNat '1' ++ ['0']) → s = t := by
    have hzero : ∀ n, '0' ∉ List.replicate n '1' := fun n hmem =>
      absurd (List.eq_of_mem_replicate hmem) (by decide)
    intro s
    induction s with
    | nil =>
      intro t h
      cases t with
      | nil => rfl
      | cons c t =>
        rw [List.flatMap_nil, List.flatMap_cons] at h
        exact absurd h.symm (List.append_ne_nil_of_left_ne_nil (List.append_ne_nil_of_right_ne_nil _
          (List.cons_ne_nil _ _)) _)
    | cons c s ih =>
      intro t h
      cases t with
      | nil =>
        rw [List.flatMap_nil, List.flatMap_cons] at h
        exact absurd h (List.append_ne_nil_of_left_ne_nil (List.append_ne_nil_of_right_ne_nil _
          (List.cons_ne_nil _ _)) _)
      | cons d t =>
        rw [List.flatMap_cons, List.flatMap_cons, List.append_assoc, List.append_assoc] at h
        obtain ⟨hone, hrest⟩ := append_cons_inj (hzero _) (hzero _) h
        have hlen := congrArg List.length hone
        rw [List.length_replicate, List.length_replicate] at hlen
        rw [Char.toNat_inj.mp hlen, ih t hrest]
  intro s t h
  exact String.toList_inj.mp (hcode _ _ (String.ofList_injective h))

end Digest

/-! ## The verdict -/

section Verdict

variable {Instant : Type} {sha : Sha256} {shown : Instant → String} {rows : List (MirrorRow Instant)}

/-- What the chain is made of. -/
def MirrorRow.link (shown : Instant → String) (r : MirrorRow Instant) : (Uuid × String) × String :=
  (r.content shown, r.hash)

theorem verifyLoop_concat (prev : Option String) (v : Verdict) (r : MirrorRow Instant) :
    (verifyLoop sha shown prev v (rows ++ [r])).firstBreak = none ↔
      (verifyLoop sha shown prev v rows).firstBreak = none ∧
        r.hash = chainHash sha ((rows.getLast?.map MirrorRow.hash).or prev) (r.content shown) := by
  induction rows generalizing prev v with
  | nil =>
    rw [List.nil_append, verifyLoop, verifyLoop, verifyLoop, List.getLast?_nil, Option.map_none,
      Option.none_or]
    show (if _ then some r.seq else v.firstBreak) = none ↔ _
    split
    · rename_i h
      exact ⟨fun hsome => absurd hsome (Option.some_ne_none _), fun heq => absurd heq.2.symm h.1⟩
    · rename_i h
      refine ⟨fun hnone => ⟨hnone, ?_⟩, fun heq => heq.1⟩
      by_contra hne
      exact h ⟨fun heq => hne heq.symm, hnone⟩
  | cons first rows ih =>
    rw [List.cons_append, verifyLoop, verifyLoop, ih, List.getLast?_cons]
    cases rows.getLast? with
    | none => rfl
    | some last => rfl

/-- Nothing is reported exactly when the rows, in the order of `seq`, are a chain. -/
theorem verify_none_iff : (verify sha shown rows).firstBreak = none ↔
    Chained (chainHash sha) ((inSeqOrder rows).map (MirrorRow.link shown)) := by
  unfold verify
  induction inSeqOrder rows using List.reverseRecOn with
  | nil => exact ⟨fun _ => chained_nil, fun _ => rfl⟩
  | append_singleton l r ih =>
    have hlast : (l.getLast?.map MirrorRow.hash).or none =
        hashBefore (l.map (MirrorRow.link shown)) (l.map (MirrorRow.link shown)).length := by
      rw [hashBefore_length, List.getLast?_map, Option.map_map, Option.or_none]
      rfl
    rw [verifyLoop_concat, ih, List.map_append, List.map_singleton, hlast]
    exact chained_concat.symm

theorem inSeqOrder_eq (h : rows.Pairwise fun a b => a.seq < b.seq) : inSeqOrder rows = rows :=
  List.Pairwise.insertionSort_eq (h.imp Nat.le_of_lt)

theorem mem_inSeqOrder {r : MirrorRow Instant} : r ∈ inSeqOrder rows ↔ r ∈ rows :=
  List.mem_insertionSort _

instance : Std.Total fun a b : MirrorRow Instant => b.seq ≤ a.seq where
  total a b := Nat.le_total b.seq a.seq

instance : IsTrans (MirrorRow Instant) fun a b => b.seq ≤ a.seq where
  trans _ _ _ hab hbc := Nat.le_trans hbc hab

/-- The newest of the rows that are in order is the last. -/
theorem newestHash_eq (h : rows.Pairwise fun a b => a.seq < b.seq) :
    newestHash rows = rows.getLast?.map MirrorRow.hash := by
  unfold newestHash
  cases hsort : rows.insertionSort (fun a b => b.seq ≤ a.seq) with
  | nil =>
    have hlen := List.length_insertionSort (fun a b : MirrorRow Instant => b.seq ≤ a.seq) rows
    rw [hsort] at hlen
    rw [List.eq_nil_of_length_eq_zero hlen.symm]
    rfl
  | cons a rest =>
    have ha : a ∈ rows := (List.mem_insertionSort fun a b : MirrorRow Instant => b.seq ≤ a.seq).mp
      (hsort ▸ List.mem_cons_self)
    induction rows using List.reverseRecOn with
    | nil => cases ha
    | append_singleton l r _ =>
      rw [List.getLast?_concat]
      have hle := rel_of_insertionSort_eq_cons hsort (List.mem_append_right l List.mem_cons_self)
      rcases List.mem_append.mp ha with hmem | hmem
      · have hlt := (List.pairwise_append.mp h).2.2 a hmem r List.mem_cons_self
        exact absurd hle (Nat.not_le.mpr hlt)
      · rw [List.mem_singleton.mp hmem]
        rfl

end Verdict

end SupabaseLab.AuditIntegrity
