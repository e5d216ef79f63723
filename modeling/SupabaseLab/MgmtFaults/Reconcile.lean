/-
  MgmtFaults/Reconcile.lean --- the orphan reconciler, run after run.

  Source: `reconcile` of experiments/mgmt-api-faults/lib/reconcile.ts.

  A run classifies the listed projects of its scope and says when it first saw
  each one that no ledger line matches; the next run is given those times.  A
  time that is handed on is the start of the runs, without a gap, in which the
  project was unmatched.
-/
import SupabaseLab.Library.KeyMap

set_option autoImplicit false

namespace SupabaseLab.MgmtFaults

open Library

/-! ## One run -/

structure Listed where
  ref : String
  name : String
  createdAt : String
  status : Option String
  org : Option String
  deriving DecidableEq, Repr

structure LedgerEntry where
  name : String
  ref : Option String
  deriving DecidableEq, Repr

/-- ref -> epoch ms the reconciler first listed it without a ledger match. -/
abbrev FirstSeen : Type := KeyMap String Int

/-- The options that stay the same from run to run. -/
structure ReconcileOpts where
  namePrefix : String
  graceMs : Rat := 300000
  org : Option String := none

structure Reconciled where
  tracked : List Listed := []
  young : List Listed := []
  orphan : List Listed := []
  /-- Ledger entries with no listed project. -/
  absent : List LedgerEntry := []

/-- `p.name.startsWith(opts.prefix)`, and in the organisation when one is given. -/
def inScope (opts : ReconcileOpts) (p : Listed) : Bool :=
  opts.namePrefix.toList.isPrefixOf p.name.toList &&
    (opts.org.getD "" = "" || p.org = opts.org)

/-- The refs of the ledger lines that have one. -/
def ledgerRefs (ledger : List LedgerEntry) : List String :=
  (ledger.filterMap (·.ref)).filter (· ≠ "")

/-- A ledger line matches by ref, or by name. -/
def matched (ledger : List LedgerEntry) (p : Listed) : Bool :=
  p.ref ∈ ledgerRefs ledger || p.name ∈ ledger.map (·.name)

/-- The variables of the loop over the listing. -/
structure ReconcileAcc where
  out : Reconciled := {}
  firstSeen : FirstSeen := .empty
  seen : List String := []

/-- One turn of the loop. -/
def reconcileStep (opts : ReconcileOpts) (ledger : List LedgerEntry) (now : Int) (prior : FirstSeen)
    (acc : ReconcileAcc) (p : Listed) : ReconcileAcc :=
  if inScope opts p = false then acc
  else if matched ledger p then
    { acc with
      out := { acc.out with tracked := acc.out.tracked ++ [p] }
      seen := acc.seen ++ [p.ref, p.name] }
  else
    -- unmatched: the first sighting is carried forward
    let first := (prior.get? p.ref).getD now
    { acc with
      firstSeen := acc.firstSeen.set p.ref first
      out :=
        if ((now - first : Int) : Rat) < opts.graceMs then
          { acc.out with young := acc.out.young ++ [p] }
        else { acc.out with orphan := acc.out.orphan ++ [p] } }

/-- What one run is given, besides the times of the run before it. -/
structure Run where
  listed : List Listed
  ledger : List LedgerEntry
  now : Int

def reconcile (opts : ReconcileOpts) (run : Run) (prior : FirstSeen) : Reconciled × FirstSeen :=
  let acc := run.listed.foldl (reconcileStep opts run.ledger run.now prior) {}
  let absent := run.ledger.filter fun e =>
    !((e.ref.getD "" ≠ "" && e.ref.getD "" ∈ acc.seen) || e.name ∈ acc.seen)
  ({ acc.out with absent := absent }, acc.firstSeen)

/-- The times handed on after some runs, the first of which is given none. -/
def seenAfter (opts : ReconcileOpts) (runs : List Run) : FirstSeen :=
  runs.foldl (fun prior run => (reconcile opts run prior).2) .empty

/-! ## What one run does -/

section OneRun

variable {opts : ReconcileOpts} {run : Run} {prior : FirstSeen} {p : Listed}

/-- The project is listed in the scope, and no ledger line matches it. -/
def unmatched (opts : ReconcileOpts) (ledger : List LedgerEntry) (p : Listed) : Bool :=
  inScope opts p && !matched ledger p

/-- The ref is of a project that the run lists in the scope without a ledger match. -/
def Unmatched (opts : ReconcileOpts) (run : Run) (ref : String) : Prop :=
  ∃ p ∈ run.listed, p.ref = ref ∧ unmatched opts run.ledger p = true

end OneRun

/-! ## Runs that hand on the times -/

section Runs

variable {opts : ReconcileOpts} {runs : List Run} {run : Run} {ref : String} {j : Nat}

/-- From run `j` to the last run the project was listed and unmatched every time. -/
structure Streak (opts : ReconcileOpts) (runs : List Run) (ref : String) (j : Nat) : Prop where
  lt : j < runs.length
  unmatched : ∀ i r, j ≤ i → runs[i]? = some r → Unmatched opts r ref

theorem Streak.concat (h : Streak opts runs ref j) (hrun : Unmatched opts run ref) :
    Streak opts (runs ++ [run]) ref j := by
  refine ⟨?_, fun i r hi hr => ?_⟩
  · rw [List.length_append]
    exact Nat.lt_add_right 1 h.lt
  · rw [List.getElem?_append] at hr
    split at hr
    · exact h.unmatched i r hi hr
    · rw [List.mem_singleton.mp (List.mem_of_getElem? hr)]
      exact hrun

theorem Streak.last (h : Streak opts (runs ++ [run]) ref j) : Unmatched opts run ref := by
  refine h.unmatched runs.length run ?_ List.getElem?_concat_length
  have := h.lt
  rw [List.length_append, List.length_singleton] at this
  omega

/-- A streak that started before the last run was one already. -/
theorem Streak.init (h : Streak opts (runs ++ [run]) ref j) (hj : j < runs.length) :
    Streak opts runs ref j := by
  refine ⟨hj, fun i r hi hr => h.unmatched i r hi ?_⟩
  have hlen : i < runs.length := (List.getElem?_eq_some_iff.mp hr).choose
  rw [List.getElem?_append_left hlen]
  exact hr

end Runs

end SupabaseLab.MgmtFaults
