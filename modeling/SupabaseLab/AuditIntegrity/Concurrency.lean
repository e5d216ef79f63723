/-
  AuditIntegrity/Concurrency.lean --- the mirror under concurrent transactions.

  A transaction of READ COMMITTED sees, in each statement, the committed rows and its
  own.  The trigger reads the newest row in one statement and inserts in a later one,
  with the next number of the sequence; a number that is drawn is not given back.
-/
import SupabaseLab.AuditIntegrity.Mirror
import SupabaseLab.Library.Machine

set_option autoImplicit false

namespace SupabaseLab.AuditIntegrity

open Library

/-- A row of an open transaction, with the settings of the session it was captured in. -/
structure Captured (Instant Settings : Type) where
  row : MirrorRow Instant
  settings : Settings

structure Transaction (Instant Settings : Type) where
  rows : List (Captured Instant Settings)
  /-- the trigger between its read and its insert -/
  capturing : Option (AuditEntry Instant × Option String)
  /-- how many rows of the mirror were committed at the first read -/
  seen : Option Nat

structure Database (Instant Settings : Type) where
  committed : List (MirrorRow Instant)
  lastSeq : Nat
  txs : Nat → Transaction Instant Settings

inductive AuditEvent (Instant Settings : Type) where
  | read (i : Nat) (new : AuditEntry Instant)
  | insert (i : Nat) (settings : Settings)
  | commit (i : Nat)
  | rollback (i : Nat)

section

variable {Instant Settings : Type}

def Transaction.fresh : Transaction Instant Settings := ⟨[], none, none⟩

def Database.initial : Database Instant Settings := ⟨[], 0, fun _ => .fresh⟩

def Database.setTx (db : Database Instant Settings) (i : Nat) (t : Transaction Instant Settings) :
    Database Instant Settings :=
  { db with txs := fun j => if j = i then t else db.txs j }

/-- The mirror as transaction `i` sees it. -/
def Database.visible (db : Database Instant Settings) (i : Nat) : List (MirrorRow Instant) :=
  db.committed ++ (db.txs i).rows.map Captured.row

variable (sha : Sha256) (shown : Settings → Instant → String)

/-- The transaction after the trigger's read. -/
def Database.read (db : Database Instant Settings) (i : Nat) (new : AuditEntry Instant) :
    Transaction Instant Settings :=
  { rows := (db.txs i).rows
    capturing := some (new, newestHash (db.visible i))
    seen := (db.txs i).seen.or (some db.committed.length) }

/-- The row that the trigger inserts. -/
def Database.insert (db : Database Instant Settings) (new : AuditEntry Instant)
    (prev : Option String) (settings : Settings) : Captured Instant Settings :=
  { row := captureRow sha (shown settings) (db.lastSeq + 1) new prev
    settings := settings }

def Database.commit (db : Database Instant Settings) (i : Nat) : Database Instant Settings :=
  { db with committed := db.visible i }.setTx i .fresh

def auditStep (db : Database Instant Settings) :
    AuditEvent Instant Settings → Option (Database Instant Settings)
  | .read i new =>
    match (db.txs i).capturing with
    | some _ => none
    | none => some (db.setTx i (db.read i new))
  | .insert i settings =>
    match (db.txs i).capturing with
    | none => none
    | some (new, prev) =>
      some ({ db with lastSeq := db.lastSeq + 1 }.setTx i { db.txs i with
        rows := (db.txs i).rows ++ [db.insert sha shown new prev settings]
        capturing := none })
  | .commit i =>
    match (db.txs i).capturing with
    | some _ => none
    | none => some (db.commit i)
  | .rollback i => some (db.setTx i .fresh)

/-- At a commit, no row of the mirror was committed since the transaction first read
it, and the timestamps of its rows read the same as in the session of `verify`. -/
def Timely (v : Settings) (db : Database Instant Settings) : AuditEvent Instant Settings → Prop
  | .commit i =>
    (∀ n ∈ (db.txs i).seen, n = db.committed.length) ∧
      ∀ c ∈ (db.txs i).rows, ∀ t ∈ c.row.entryAt, shown c.settings t = shown v t
  | _ => True

/-! ## What always holds -/

/-- The rows of `i` as links, the committed ones as `verify` reads them. -/
def Database.links (v : Settings) (db : Database Instant Settings) (i : Nat) :
    List ((Uuid × String) × String) :=
  db.committed.map (MirrorRow.link (shown v)) ++
    (db.txs i).rows.map fun c => c.row.link (shown c.settings)

/-- The row carries the hash that `capture` computed for it in some session. -/
def CapturedBy (r : MirrorRow Instant) (s : Settings) : Prop :=
  IsDigest (chainHash sha) r.prevHash ∧ r.hash = chainHash sha r.prevHash (r.content (shown s))

structure Recorded (db : Database Instant Settings) : Prop where
  committed : ∀ r ∈ db.committed, ∃ s, CapturedBy sha shown r s
  txs : ∀ i, ∀ c ∈ (db.txs i).rows, CapturedBy sha shown c.row c.settings
  reading : ∀ i new prev, (db.txs i).capturing = some (new, prev) → IsDigest (chainHash sha) prev
  started : ∀ i, (db.txs i).seen = none → (db.txs i).rows = [] ∧ (db.txs i).capturing = none
  stored : ∀ i, (db.txs i).seen ≠ none → (db.txs i).rows ≠ [] ∨ (db.txs i).capturing ≠ none
  committedSeq : ∀ r ∈ db.committed, r.seq ≤ db.lastSeq
  openSeq : ∀ i, ∀ c ∈ (db.txs i).rows, c.row.seq ≤ db.lastSeq
  apart : ∀ r ∈ db.committed, ∀ i, ∀ c ∈ (db.txs i).rows, r.seq ≠ c.row.seq
  openApart : ∀ i j, i ≠ j → ∀ c ∈ (db.txs i).rows, ∀ d ∈ (db.txs j).rows,
    c.row.seq ≠ d.row.seq

/-- While every commit was timely the committed rows are a chain, and a transaction
that no commit overtook continues it. -/
structure Clean (v : Settings) (db : Database Instant Settings) : Prop where
  ordered : db.committed.Pairwise fun a b => a.seq < b.seq
  chained : Chained (chainHash sha) (db.committed.map (MirrorRow.link (shown v)))
  seenLe : ∀ i n, (db.txs i).seen = some n → n ≤ db.committed.length
  first : ∀ i n c rest, (db.txs i).seen = some n → (db.txs i).rows = c :: rest →
    c.row.prevHash = hashBefore (db.committed.map (MirrorRow.link (shown v))) n
  firstRead : ∀ i n new prev, (db.txs i).seen = some n → (db.txs i).rows = [] →
    (db.txs i).capturing = some (new, prev) →
    prev = hashBefore (db.committed.map (MirrorRow.link (shown v))) n
  current : ∀ i, (db.txs i).seen = some db.committed.length →
    ((db.visible i).Pairwise fun a b => a.seq < b.seq) ∧ Chained (chainHash sha) (db.links shown v i) ∧
      ∀ new prev, (db.txs i).capturing = some (new, prev) → prev = newestHash (db.visible i)

/-- `c` is a row of `t` before or has a number that was just drawn. -/
structure Continues (db : Database Instant Settings) (i n : Nat)
    (t : Transaction Instant Settings) : Prop where
  captured : ∀ c ∈ t.rows, CapturedBy sha shown c.row c.settings
  reading : ∀ new prev, t.capturing = some (new, prev) → IsDigest (chainHash sha) prev
  started : t.seen = none → t.rows = [] ∧ t.capturing = none
  stored : t.seen ≠ none → t.rows ≠ [] ∨ t.capturing ≠ none
  seqLe : ∀ c ∈ t.rows, c.row.seq ≤ n
  drawn : ∀ c ∈ t.rows, c ∈ (db.txs i).rows ∨ db.lastSeq < c.row.seq

/-- A committed row cannot be in a chain, or two have the same predecessor. -/
def Broken (v : Settings) (rows : List (MirrorRow Instant)) : Prop :=
  (∃ r ∈ rows, r.hash ≠ chainHash sha r.prevHash (r.content (shown v))) ∨
    ∃ r ∈ rows, ∃ r' ∈ rows, r.seq ≠ r'.seq ∧ r.prevHash = r'.prevHash

end

section Steps

variable {Instant Settings : Type} {sha : Sha256} {shown : Settings → Instant → String}
  {db db' : Database Instant Settings} {e : AuditEvent Instant Settings} {i j n : Nat} {v : Settings}
  {t : Transaction Instant Settings}

@[simp] theorem committed_setTx : (db.setTx i t).committed = db.committed := rfl

@[simp] theorem lastSeq_setTx : (db.setTx i t).lastSeq = db.lastSeq := rfl

@[simp] theorem txs_setTx_self : (db.setTx i t).txs i = t := if_pos rfl

theorem txs_setTx_ne (h : j ≠ i) : (db.setTx i t).txs j = db.txs j := if_neg h

/-- The four ways an event goes. -/
inductive AuditMoves (sha : Sha256) (shown : Settings → Instant → String)
    (db : Database Instant Settings) :
    AuditEvent Instant Settings → Database Instant Settings → Prop where
  | read {i : Nat} {new : AuditEntry Instant} : (db.txs i).capturing = none →
      AuditMoves sha shown db (.read i new) (db.setTx i (db.read i new))
  | insert {i : Nat} {settings : Settings} {new : AuditEntry Instant} {prev : Option String} :
      (db.txs i).capturing = some (new, prev) →
      AuditMoves sha shown db (.insert i settings)
        ({ db with lastSeq := db.lastSeq + 1 }.setTx i { db.txs i with
          rows := (db.txs i).rows ++ [db.insert sha shown new prev settings]
          capturing := none })
  | commit {i : Nat} : (db.txs i).capturing = none →
      AuditMoves sha shown db (.commit i) (db.commit i)
  | rollback {i : Nat} : AuditMoves sha shown db (.rollback i) (db.setTx i .fresh)

theorem auditStep_moves (h : auditStep sha shown db e = some db') : AuditMoves sha shown db e db' := by
  cases e with
  | read i new =>
    simp only [auditStep] at h
    split at h
    · cases h
    · rename_i hidle
      cases h
      exact .read hidle
  | insert i settings =>
    simp only [auditStep] at h
    split at h
    · cases h
    · rename_i new prev hreading
      cases h
      exact .insert hreading
  | commit i =>
    simp only [auditStep] at h
    split at h
    · cases h
    · rename_i hidle
      cases h
      exact .commit hidle
  | rollback i =>
    cases h
    exact .rollback

/-! ## Every step keeps the record -/

theorem CapturedBy.isDigest {r : MirrorRow Instant} {s : Settings} (h : CapturedBy sha shown r s) :
    IsDigest (chainHash sha) (some r.hash) := by
  intro k hk
  cases hk
  exact ⟨_, _, h.2⟩

theorem Recorded.visible (h : Recorded sha shown db) : ∀ r ∈ db.visible i,
    ∃ s, CapturedBy sha shown r s := by
  intro r hr
  rcases List.mem_append.mp hr with hr | hr
  · exact h.committed r hr
  · obtain ⟨c, hc, rfl⟩ := List.mem_map.mp hr
    exact ⟨_, h.txs i c hc⟩

theorem exists_newest {rows : List (MirrorRow Instant)} {k : String} (h : newestHash rows = some k) :
    ∃ r ∈ rows, r.hash = k := by
  obtain ⟨r, hr, rfl⟩ := Option.map_eq_some_iff.mp h
  exact ⟨r, (List.mem_insertionSort _).mp (List.mem_of_mem_head? hr), rfl⟩

theorem Recorded.newest (h : Recorded sha shown db) :
    IsDigest (chainHash sha) (newestHash (db.visible i)) := by
  intro k hk
  obtain ⟨r, hr, rfl⟩ := exists_newest hk
  obtain ⟨s, hs⟩ := h.visible r hr
  exact hs.isDigest _ rfl

theorem Recorded.setTx (h : Recorded sha shown db) (hn : db.lastSeq ≤ n)
    (ht : Continues sha shown db i n t) :
    Recorded sha shown ({ db with lastSeq := n }.setTx i t) := by
  have hcases : ∀ j, (({ db with lastSeq := n }.setTx i t).txs j = t ∧ j = i) ∨
      (({ db with lastSeq := n }.setTx i t).txs j = db.txs j ∧ j ≠ i) := by
    intro j
    by_cases hj : j = i
    · exact .inl ⟨if_pos hj, hj⟩
    · exact .inr ⟨if_neg hj, hj⟩
  have hdrawn : ∀ r : MirrorRow Instant, r.seq ≤ db.lastSeq →
      (∀ c ∈ (db.txs i).rows, r.seq ≠ c.row.seq) → ∀ c ∈ t.rows, r.seq ≠ c.row.seq := by
    intro r hr hapart c hc
    rcases ht.drawn c hc with hold | hnew
    · exact hapart c hold
    · exact Nat.ne_of_lt (Nat.lt_of_le_of_lt hr hnew)
  constructor
  case committed => exact h.committed
  case txs =>
    intro j
    rcases hcases j with ⟨heq, -⟩ | ⟨heq, -⟩
    · rw [heq]
      exact ht.captured
    · rw [heq]
      exact h.txs j
  case reading =>
    intro j
    rcases hcases j with ⟨heq, -⟩ | ⟨heq, -⟩
    · rw [heq]
      exact ht.reading
    · rw [heq]
      exact h.reading j
  case started =>
    intro j
    rcases hcases j with ⟨heq, -⟩ | ⟨heq, -⟩
    · rw [heq]
      exact ht.started
    · rw [heq]
      exact h.started j
  case stored =>
    intro j
    rcases hcases j with ⟨heq, -⟩ | ⟨heq, -⟩
    · rw [heq]
      exact ht.stored
    · rw [heq]
      exact h.stored j
  case committedSeq => exact fun r hr => (h.committedSeq r hr).trans hn
  case openSeq =>
    intro j
    rcases hcases j with ⟨heq, -⟩ | ⟨heq, -⟩
    · rw [heq]
      exact ht.seqLe
    · rw [heq]
      exact fun c hc => (h.openSeq j c hc).trans hn
  case apart =>
    intro r hr j
    rcases hcases j with ⟨heq, rfl⟩ | ⟨heq, -⟩
    · rw [heq]
      exact hdrawn r (h.committedSeq r hr) (h.apart r hr j)
    · rw [heq]
      exact h.apart r hr j
  case openApart =>
    intro j k hjk c hc d hd
    rcases hcases j with ⟨heq, rfl⟩ | ⟨heq, hj⟩ <;> rcases hcases k with ⟨heq', rfl⟩ | ⟨heq', hk⟩
    · exact absurd rfl hjk
    · rw [heq] at hc
      rw [heq'] at hd
      exact (hdrawn d.row (h.openSeq k d hd) (fun c hc => h.openApart k j hk d hd c hc) c hc).symm
    · rw [heq] at hc
      rw [heq'] at hd
      exact hdrawn c.row (h.openSeq j c hc) (h.openApart j k hj c hc) d hd
    · rw [heq] at hc
      rw [heq'] at hd
      exact h.openApart j k hjk c hc d hd

theorem continues_fresh : Continues sha shown db i n .fresh where
  captured _ hc := absurd hc List.not_mem_nil
  reading _ _ h := by cases h
  started _ := ⟨rfl, rfl⟩
  stored h := absurd rfl h
  seqLe _ hc := absurd hc List.not_mem_nil
  drawn _ hc := absurd hc List.not_mem_nil

theorem Recorded.commit (h : Recorded sha shown db) (i : Nat) : Recorded sha shown (db.commit i) := by
  have hclosed : Recorded sha shown (db.setTx i .fresh) := h.setTx (Nat.le_refl _) continues_fresh
  refine { hclosed with committed := h.visible, committedSeq := ?_, apart := ?_ }
  · intro r hr
    rcases List.mem_append.mp hr with hr | hr
    · exact h.committedSeq r hr
    · obtain ⟨c, hc, rfl⟩ := List.mem_map.mp hr
      exact h.openSeq i c hc
  · intro r hr j c hc
    rcases List.mem_append.mp hr with hr | hr
    · exact hclosed.apart r hr j c hc
    · obtain ⟨d, hd, rfl⟩ := List.mem_map.mp hr
      by_cases hj : j = i
      · rw [hj] at hc
        rw [show ((db.commit i).txs i) = .fresh from if_pos rfl] at hc
        exact absurd hc List.not_mem_nil
      · have hc : c ∈ (db.txs j).rows := by
          have hkept : (db.setTx i .fresh).txs j = db.txs j := txs_setTx_ne hj
          rw [← hkept]
          exact hc
        exact h.openApart i j (Ne.symm hj) d hd c hc

theorem Recorded.step (h : Recorded sha shown db) (hstep : auditStep sha shown db e = some db') :
    Recorded sha shown db' := by
  cases auditStep_moves hstep with
  | read hidle =>
    rename_i i new
    refine h.setTx (Nat.le_refl _) ⟨h.txs i, ?_, ?_, ?_, h.openSeq i, fun c hc => .inl hc⟩
    · intro new' prev hread
      cases hread
      exact h.newest
    · intro hnone
      cases (Option.or_eq_none_iff.mp hnone).2
    · exact fun _ => .inr (Option.some_ne_none _)
  | insert hreading =>
    rename_i i settings new prev
    refine h.setTx (Nat.le_succ _) ⟨?_, ?_, ?_, ?_, ?_, ?_⟩
    · intro c hc
      rcases List.mem_append.mp hc with hc | hc
      · exact h.txs i c hc
      · rw [List.mem_singleton.mp hc]
        exact ⟨h.reading i new prev hreading, rfl⟩
    · intro _ _ hnone
      cases hnone
    · intro hnone
      have := (h.started i hnone).2
      rw [hreading] at this
      cases this
    · exact fun _ => .inl (List.append_ne_nil_of_right_ne_nil _ (List.cons_ne_nil _ _))
    · intro c hc
      rcases List.mem_append.mp hc with hc | hc
      · exact Nat.le_succ_of_le (h.openSeq i c hc)
      · rw [List.mem_singleton.mp hc]
        exact Nat.le_refl _
    · intro c hc
      rcases List.mem_append.mp hc with hc | hc
      · exact .inl hc
      · rw [List.mem_singleton.mp hc]
        exact .inr (Nat.lt_succ_self _)
  | commit => exact h.commit _
  | rollback => exact h.setTx (Nat.le_refl _) continues_fresh

theorem recorded_initial : Recorded sha shown (Database.initial : Database Instant Settings) where
  committed _ hr := absurd hr List.not_mem_nil
  txs _ _ hc := absurd hc List.not_mem_nil
  reading _ _ _ h := by cases h
  started _ _ := ⟨rfl, rfl⟩
  stored _ h := absurd rfl h
  committedSeq _ hr := absurd hr List.not_mem_nil
  openSeq _ _ hc := absurd hc List.not_mem_nil
  apart _ hr := absurd hr List.not_mem_nil
  openApart _ _ _ _ hc := absurd hc List.not_mem_nil

/-! ## Timely commits keep the chain -/

/-- Clean, when only transaction `i` changed and its change is right. -/
theorem Clean.setTx (h : Clean sha shown v db)
    (hseen : ∀ m, t.seen = some m → m ≤ db.committed.length)
    (hfirst : ∀ m c rest, t.seen = some m → t.rows = c :: rest →
      c.row.prevHash = hashBefore (db.committed.map (MirrorRow.link (shown v))) m)
    (hfirstRead : ∀ m new prev, t.seen = some m → t.rows = [] → t.capturing = some (new, prev) →
      prev = hashBefore (db.committed.map (MirrorRow.link (shown v))) m)
    (hcurrent : t.seen = some db.committed.length →
      ((db.committed ++ t.rows.map Captured.row).Pairwise fun a b => a.seq < b.seq) ∧
        Chained (chainHash sha) (db.committed.map (MirrorRow.link (shown v)) ++
          t.rows.map fun c => c.row.link (shown c.settings)) ∧
        ∀ new prev, t.capturing = some (new, prev) →
          prev = newestHash (db.committed ++ t.rows.map Captured.row)) :
    Clean sha shown v ({ db with lastSeq := n }.setTx i t) where
  ordered := h.ordered
  chained := h.chained
  seenLe j m := by
    by_cases hj : j = i
    · rw [hj, txs_setTx_self]
      exact hseen m
    · rw [txs_setTx_ne hj]
      exact h.seenLe j m
  first j m c rest := by
    by_cases hj : j = i
    · rw [hj, txs_setTx_self]
      exact hfirst m c rest
    · rw [txs_setTx_ne hj]
      exact h.first j m c rest
  firstRead j m new prev := by
    by_cases hj : j = i
    · rw [hj, txs_setTx_self]
      exact hfirstRead m new prev
    · rw [txs_setTx_ne hj]
      exact h.firstRead j m new prev
  current j := by
    unfold Database.visible Database.links
    by_cases hj : j = i
    · rw [hj, txs_setTx_self]
      exact hcurrent
    · rw [txs_setTx_ne hj]
      exact h.current j

theorem Clean.fresh (h : Clean sha shown v db) : Clean sha shown v (db.setTx i .fresh) :=
  h.setTx (fun _ hm => by cases hm) (fun _ _ _ hm => by cases hm) (fun _ _ _ hm => by cases hm)
    (fun hm => by cases hm)

/-- The newest of the rows that `i` sees is the end of its links. -/
theorem newest_visible (hordered : (db.visible i).Pairwise fun a b => a.seq < b.seq) :
    newestHash (db.visible i) = hashBefore (db.links shown v i) (db.links shown v i).length := by
  have hhashes : (db.links shown v i).map Prod.snd = (db.visible i).map MirrorRow.hash := by
    unfold Database.links Database.visible
    rw [List.map_append, List.map_append, List.map_map, List.map_map, List.map_map]
    rfl
  rw [newestHash_eq hordered, hashBefore_length, ← List.getLast?_map, ← List.getLast?_map, hhashes]

theorem Clean.read (h : Clean sha shown v db) (hrec : Recorded sha shown db)
    (hidle : (db.txs i).capturing = none) (new : AuditEntry Instant) :
    Clean sha shown v (db.setTx i (db.read i new)) := by
  have hempty : (db.txs i).seen = none → db.visible i = db.committed := fun hnone => by
    rw [Database.visible, (hrec.started i hnone).1, List.map_nil, List.append_nil]
  have hlinks : (db.txs i).seen = none →
      db.links shown v i = db.committed.map (MirrorRow.link (shown v)) := fun hnone => by
    rw [Database.links, (hrec.started i hnone).1, List.map_nil, List.append_nil]
  refine h.setTx (n := db.lastSeq) ?_ ?_ ?_ ?_
  · intro m hm
    rcases Option.or_eq_some_iff.mp hm with hseen | ⟨-, hlen⟩
    · exact h.seenLe i m hseen
    · exact Nat.le_of_eq (Option.some.inj hlen).symm
  · intro m c rest hm hrows
    rcases Option.or_eq_some_iff.mp hm with hseen | ⟨hnone, -⟩
    · exact h.first i m c rest hseen hrows
    · rw [show (db.read i new).rows = [] from (hrec.started i hnone).1] at hrows
      cases hrows
  · intro m new' prev hm hrows hreading
    cases hreading
    rcases Option.or_eq_some_iff.mp hm with hseen | ⟨hnone, hlen⟩
    · rcases hrec.stored i (by rw [hseen]; exact Option.some_ne_none _) with hne | hne
      · exact absurd hrows hne
      · exact absurd hidle hne
    · rw [← Option.some.inj hlen, newest_visible (v := v) (by rw [hempty hnone]; exact h.ordered),
        hlinks hnone, List.length_map]
  · intro hm
    rcases Option.or_eq_some_iff.mp hm with hseen | ⟨hnone, -⟩
    · obtain ⟨hordered, hchained, -⟩ := h.current i hseen
      exact ⟨hordered, hchained, fun _ _ hreading => by cases hreading; rfl⟩
    · rw [show (db.read i new).rows = [] from (hrec.started i hnone).1, List.map_nil, List.map_nil,
        List.append_nil, List.append_nil]
      refine ⟨h.ordered, h.chained, fun _ _ hreading => ?_⟩
      cases hreading
      rw [hempty hnone]

theorem Clean.insert (h : Clean sha shown v db) (hrec : Recorded sha shown db)
    {new : AuditEntry Instant} {prev : Option String}
    (hreading : (db.txs i).capturing = some (new, prev)) (settings : Settings) :
    Clean sha shown v ({ db with lastSeq := db.lastSeq + 1 }.setTx i { db.txs i with
      rows := (db.txs i).rows ++ [db.insert sha shown new prev settings]
      capturing := none }) := by
  refine h.setTx (h.seenLe i) ?_ (fun _ _ _ _ _ hnone => by cases hnone) ?_
  · intro m c rest hm hrows
    cases hold : (db.txs i).rows with
    | nil =>
      rw [hold] at hrows
      cases hrows
      exact h.firstRead i m new prev hm hold hreading
    | cons _ rest' =>
      rw [hold] at hrows
      cases hrows
      exact h.first i m _ rest' hm hold
  · intro hm
    obtain ⟨hordered, hchained, hprev⟩ := h.current i hm
    have hprev := hprev new prev hreading
    refine ⟨?_, ?_, fun _ _ hnone => by cases hnone⟩
    · rw [List.map_append, ← List.append_assoc, List.pairwise_append]
      refine ⟨hordered, List.pairwise_singleton _ _, fun a ha b hb => ?_⟩
      rw [List.mem_singleton.mp hb]
      refine Nat.lt_succ_of_le ?_
      rcases List.mem_append.mp ha with ha | ha
      · exact hrec.committedSeq a ha
      · obtain ⟨c, hc, rfl⟩ := List.mem_map.mp ha
        exact hrec.openSeq i c hc
    · rw [List.map_append, ← List.append_assoc]
      refine chained_concat.mpr ⟨hchained, ?_⟩
      rw [hprev, newest_visible hordered]
      rfl

theorem Clean.commit (h : Clean sha shown v db) (hrec : Recorded sha shown db)
    (hidle : (db.txs i).capturing = none) (htimely : Timely shown v db (.commit i)) :
    Clean sha shown v (db.commit i) := by
  cases hseen : (db.txs i).seen with
  | none =>
    have hempty : db.visible i = db.committed := by
      rw [Database.visible, (hrec.started i hseen).1, List.map_nil, List.append_nil]
    have hcommit : db.commit i = db.setTx i .fresh := by
      rw [Database.commit, hempty]
    rw [hcommit]
    exact h.fresh
  | some n =>
    obtain ⟨hn, htimes⟩ := htimely
    have hn := hn n hseen
    rw [hn] at hseen
    obtain ⟨hordered, hchained, -⟩ := h.current i hseen
    have hlinks : (db.visible i).map (MirrorRow.link (shown v)) = db.links shown v i := by
      unfold Database.visible Database.links
      rw [List.map_append, List.map_map]
      refine congrArg (db.committed.map (MirrorRow.link (shown v)) ++ ·) (List.map_congr_left ?_)
      intro c hc
      refine Prod.ext (Prod.ext rfl ?_) rfl
      have hshown : c.row.entryAt.map (shown v) = c.row.entryAt.map (shown c.settings) :=
        Option.map_congr fun t ht => (htimes c hc t ht).symm
      show entryText _ _ _ _ = entryText _ _ _ _
      unfold entryText
      rw [hshown]
    have hlonger : db.committed.length < (db.visible i).length := by
      rcases hrec.stored i (by rw [hseen]; exact Option.some_ne_none _) with hne | hne
      · rw [Database.visible, List.length_append, List.length_map]
        exact Nat.lt_add_of_pos_right (List.length_pos_iff.mpr hne)
      · exact absurd hidle hne
    have hbefore : ∀ m ≤ db.committed.length,
        hashBefore ((db.visible i).map (MirrorRow.link (shown v))) m =
          hashBefore (db.committed.map (MirrorRow.link (shown v))) m := by
      intro m hm
      rw [Database.visible, List.map_append]
      exact hashBefore_append (by rw [List.length_map]; exact hm)
    have hself : ∀ {j}, j = i → (db.commit i).txs j = .fresh := fun hj => if_pos hj
    have hother : ∀ {j}, j ≠ i → (db.commit i).txs j = db.txs j := fun hj => if_neg hj
    constructor
    case ordered => exact hordered
    case chained => rw [← hlinks] at hchained; exact hchained
    case seenLe =>
      intro j m hm
      by_cases hj : j = i
      · rw [hself hj] at hm
        cases hm
      · rw [hother hj] at hm
        exact (h.seenLe j m hm).trans (Nat.le_of_lt hlonger)
    case first =>
      intro j m c rest hm hrows
      by_cases hj : j = i
      · rw [hself hj] at hm
        cases hm
      · rw [hother hj] at hm hrows
        exact (h.first j m c rest hm hrows).trans (hbefore m (h.seenLe j m hm)).symm
    case firstRead =>
      intro j m new prev hm hrows hreading
      by_cases hj : j = i
      · rw [hself hj] at hm
        cases hm
      · rw [hother hj] at hm hrows hreading
        exact (h.firstRead j m new prev hm hrows hreading).trans (hbefore m (h.seenLe j m hm)).symm
    case current =>
      intro j hm
      by_cases hj : j = i
      · rw [hself hj] at hm
        cases hm
      · rw [hother hj] at hm
        exact absurd (h.seenLe j _ hm) (Nat.not_le.mpr hlonger)

theorem clean_initial : Clean sha shown v (Database.initial : Database Instant Settings) where
  ordered := .nil
  chained := chained_nil
  seenLe _ _ hm := by cases hm
  first _ _ _ _ hm := by cases hm
  firstRead _ _ _ _ hm := by cases hm
  current _ hm := by cases hm

theorem Clean.step (h : Clean sha shown v db) (hrec : Recorded sha shown db)
    (htimely : Timely shown v db e) (hstep : auditStep sha shown db e = some db') :
    Clean sha shown v db' := by
  cases auditStep_moves hstep with
  | read hidle => exact h.read hrec hidle _
  | insert hreading => exact h.insert hrec hreading _
  | commit hidle => exact h.commit hrec hidle htimely
  | rollback => exact h.fresh

theorem Clean.accepted (h : Clean sha shown v db) :
    (verify sha (shown v) db.committed).firstBreak = none := by
  rw [verify_none_iff, inSeqOrder_eq h.ordered]
  exact h.chained

/-! ## A commit that is not timely breaks it for good -/

theorem Broken.mono {rows rows' : List (MirrorRow Instant)} (h : Broken sha shown v rows)
    (hsub : ∀ r ∈ rows, r ∈ rows') : Broken sha shown v rows' := by
  rcases h with ⟨r, hr, hne⟩ | ⟨r, hr, r', hr', hfork⟩
  · exact .inl ⟨r, hsub r hr, hne⟩
  · exact .inr ⟨r, hsub r hr, r', hsub r' hr', hfork⟩

theorem Broken.step (h : Broken sha shown v db.committed)
    (hstep : auditStep sha shown db e = some db') : Broken sha shown v db'.committed := by
  cases auditStep_moves hstep with
  | commit => exact h.mono fun r hr => List.mem_append_left _ hr
  | read | insert | rollback => exact h

/-- The first row of an overtaken transaction has the predecessor of a committed row. -/
theorem broken_of_overtaken (hinj : Function.Injective sha.hex) (h : Clean sha shown v db)
    (hrec : Recorded sha shown db) (hidle : (db.txs i).capturing = none)
    (hseen : (db.txs i).seen = some n) (hn : n ≠ db.committed.length) :
    Broken sha shown v (db.visible i) := by
  have hlt : n < db.committed.length := Nat.lt_of_le_of_ne (h.seenLe i n hseen) hn
  cases hrows : (db.txs i).rows with
  | nil =>
    rcases hrec.stored i (by rw [hseen]; exact Option.some_ne_none _) with hne | hne
    · exact absurd hrows hne
    · exact absurd hidle hne
  | cons c rest =>
    have hc : c ∈ (db.txs i).rows := hrows ▸ List.mem_cons_self
    have hr : db.committed[n] ∈ db.committed := List.getElem_mem hlt
    obtain ⟨s, hdigest, hhash⟩ := hrec.committed _ hr
    have hlink := h.chained n _ _ (by rw [List.getElem?_map, List.getElem?_eq_getElem hlt]; rfl)
    obtain ⟨hprev, -⟩ := chainHash_injective hinj _ _ _ _ (h.chained.isDigest n) hdigest
      (hlink.symm.trans hhash)
    refine .inr ⟨_, List.mem_append_left _ hr, c.row,
      List.mem_append_right _ (List.mem_map_of_mem hc), hrec.apart _ hr i c hc, ?_⟩
    rw [← hprev, h.first i n c rest hseen hrows]

/-- A timestamp that reads otherwise gives another hash. -/
theorem broken_of_shown (hinj : Function.Injective sha.hex) (hrec : Recorded sha shown db)
    {c : Captured Instant Settings} (hc : c ∈ (db.txs i).rows) {t : Instant}
    (ht : c.row.entryAt = some t) (hne : shown c.settings t ≠ shown v t) :
    Broken sha shown v (db.visible i) := by
  obtain ⟨hdigest, hhash⟩ := hrec.txs i c hc
  refine .inl ⟨c.row, List.mem_append_right _ (List.mem_map_of_mem hc), fun heq => hne ?_⟩
  obtain ⟨-, hcontent⟩ := chainHash_injective hinj _ _ _ _ hdigest hdigest (hhash.symm.trans heq)
  have htext := congrArg (fun x => x.2.toList) hcontent
  simp only [MirrorRow.content, entryText, ht, Option.map_some, Option.getD_some,
    String.toList_append, List.append_cancel_right_eq, List.append_cancel_left_eq] at htext
  exact String.toList_inj.mp htext

theorem Clean.broken (hinj : Function.Injective sha.hex) (h : Clean sha shown v db)
    (hrec : Recorded sha shown db) (hstep : auditStep sha shown db e = some db')
    (hlate : ¬ Timely shown v db e) : Broken sha shown v db'.committed := by
  cases auditStep_moves hstep with
  | read | insert | rollback => exact absurd trivial hlate
  | commit hidle =>
    rename_i i
    show Broken sha shown v (db.visible i)
    by_contra hbroken
    refine hlate ⟨fun n hn => ?_, fun c hc t ht => ?_⟩
    · by_contra hne
      exact hbroken (broken_of_overtaken hinj h hrec hidle hn hne)
    · by_contra hne
      exact hbroken (broken_of_shown hinj hrec hc ht hne)

/-- `verify` reports a broken mirror. -/
theorem Broken.reported (hinj : Function.Injective sha.hex) (hrec : Recorded sha shown db)
    (h : Broken sha shown v db.committed) : (verify sha (shown v) db.committed).firstBreak ≠ none := by
  intro haccepted
  have hchain := verify_none_iff.mp haccepted
  have hlink : ∀ r ∈ db.committed, ∃ j, (inSeqOrder db.committed)[j]? = some r ∧
      hashBefore ((inSeqOrder db.committed).map (MirrorRow.link (shown v))) j = r.prevHash ∧
      r.hash = chainHash sha r.prevHash (r.content (shown v)) := by
    intro r hr
    obtain ⟨j, hj⟩ := List.mem_iff_getElem?.mp (mem_inSeqOrder.mpr hr)
    obtain ⟨s, hdigest, hhash⟩ := hrec.committed r hr
    have hget := hchain j _ _ (by rw [List.getElem?_map, hj]; rfl)
    obtain ⟨hprev, hcontent⟩ := chainHash_injective hinj _ _ _ _ (hchain.isDigest j) hdigest
      (hget.symm.trans hhash)
    exact ⟨j, hj, hprev, hprev ▸ hget⟩
  rcases h with ⟨r, hr, hne⟩ | ⟨r, hr, r', hr', hseq, hprev⟩
  · obtain ⟨-, -, -, hhash⟩ := hlink r hr
    exact hne hhash
  · obtain ⟨j, hj, hbefore, -⟩ := hlink r hr
    obtain ⟨k, hk, hbefore', -⟩ := hlink r' hr'
    have hjk := hchain.hashBefore_unique (chainHash_injective hinj)
      (by rw [List.length_map]; exact (List.getElem?_eq_some_iff.mp hj).1)
      (by rw [List.length_map]; exact (List.getElem?_eq_some_iff.mp hk).1)
      (hbefore.trans (hprev.trans hbefore'.symm))
    rw [hjk] at hj
    exact hseq (congrArg MirrorRow.seq (Option.some.inj (hj.symm.trans hk)))

/-- After a run: a clean chain if every commit was timely, and a broken one if not. -/
theorem run_clean_or_broken (hinj : Function.Injective sha.hex) :
    ∀ events db, runEvents (auditStep sha shown) .initial events = some db →
      Recorded sha shown db ∧
        ((AlongRun (auditStep sha shown) (Timely shown v) .initial events ∧ Clean sha shown v db) ∨
          (¬ AlongRun (auditStep sha shown) (Timely shown v) .initial events ∧
            Broken sha shown v db.committed)) := by
  refine runEvents_invariant ⟨recorded_initial, .inl ⟨alongRun_nil, clean_initial⟩⟩ ?_
  rintro events db e db' hrun ⟨hrec, hstate⟩ hstep
  refine ⟨hrec.step hstep, ?_⟩
  rcases hstate with ⟨htimely, hclean⟩ | ⟨hlate, hbroken⟩
  · by_cases hlast : Timely shown v db e
    · exact .inl ⟨(alongRun_concat hrun).mpr ⟨htimely, hlast⟩, hclean.step hrec hlast hstep⟩
    · exact .inr ⟨fun h => hlast (h.last hrun), hclean.broken hinj hrec hstep hlast⟩
  · exact .inr ⟨fun h => hlate h.init, hbroken.step hstep⟩

end Steps

section Verified

variable {Instant Settings : Type}

/-- The mirror verifies after a run exactly when each of its commits was timely. -/
theorem mirror_verifies_iff (sha : Sha256) (hinj : Function.Injective sha.hex)
    (shown : Settings → Instant → String) (v : Settings)
    (events : List (AuditEvent Instant Settings)) (db : Database Instant Settings)
    (hrun : runEvents (auditStep sha shown) .initial events = some db) :
    (verify sha (shown v) db.committed).firstBreak = none ↔
      AlongRun (auditStep sha shown) (Timely shown v) .initial events := by
  obtain ⟨hrec, ⟨htimely, hclean⟩ | ⟨hlate, hbroken⟩⟩ := run_clean_or_broken (v := v) hinj events db hrun
  · exact ⟨fun _ => htimely, fun _ => hclean.accepted⟩
  · exact ⟨fun h => absurd h (hbroken.reported hinj hrec), fun h => absurd h hlate⟩

end Verified

/-! ## Two sign-ins at once -/

def signIn (id : Uuid) : AuditEntry String := ⟨id, none, none, some "192.0.2.1"⟩

def ada : Uuid := ⟨"00000000-0000-4000-8000-00000000000a", by decide⟩

def ben : Uuid := ⟨"00000000-0000-4000-8000-00000000000b", by decide⟩

/-- The second transaction starts after the first has committed. -/
def oneByOne : List (AuditEvent String Unit) :=
  [.read 1 (signIn ada), .insert 1 (), .commit 1, .read 2 (signIn ben), .insert 2 (), .commit 2]

/-- Both transactions read the empty mirror. -/
def atOnce : List (AuditEvent String Unit) :=
  [.read 1 (signIn ada), .read 2 (signIn ben), .insert 1 (), .insert 2 (), .commit 1, .commit 2]

theorem mirror_verifies_iff_oneByOne :
    ∃ db, runEvents (auditStep spelling fun _ => id) .initial oneByOne = some db ∧
      ((verify spelling id db.committed).firstBreak = none ↔
        AlongRun (auditStep spelling fun _ => id) (Timely (fun _ => id) ()) .initial oneByOne) :=
  ⟨_, rfl, mirror_verifies_iff spelling spelling_injective (fun _ => id) () oneByOne _ rfl⟩

/-- Two sign-ins at once leave a mirror that does not verify. -/
theorem at_once_does_not_verify : ¬ ∀ (sha : Sha256) (shown : Unit → String → String)
    (events : List (AuditEvent String Unit)) (db : Database String Unit),
    Function.Injective sha.hex → runEvents (auditStep sha shown) .initial events = some db →
      (verify sha (shown ()) db.committed).firstBreak = none := by
  intro h
  have hrun : ∃ db, runEvents (auditStep spelling fun _ => id) .initial atOnce = some db ∧
      ∃ r ∈ db.committed, ∃ r' ∈ db.committed, r.seq ≠ r'.seq ∧ r.prevHash = r'.prevHash :=
    ⟨_, rfl, _, List.mem_cons_self, _, List.mem_cons_of_mem _ List.mem_cons_self, by decide, rfl⟩
  obtain ⟨db, hdb, hfork⟩ := hrun
  have hrec := (run_clean_or_broken (v := ()) spelling_injective atOnce db hdb).1
  exact Broken.reported (v := ()) spelling_injective hrec (.inr hfork)
    (h spelling (fun _ => id) atOnce db spelling_injective hdb)

end SupabaseLab.AuditIntegrity
