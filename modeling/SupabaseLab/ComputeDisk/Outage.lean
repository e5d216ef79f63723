/-
  ComputeDisk/Outage.lean --- outage accounting over the phases of a probed run.

  Source: experiments/compute-disk/lib/outage.ts.

  Samples of one path and the starts of the phases share a clock in milliseconds;
  a time is a rational number, and sums and quotients are exact where the code has
  doubles.  An outage is a run of failing samples and belongs to the phase it starts in.
  `attributeMs` has the statistics before they are rounded, `attributeS` as they are
  reported, in seconds.
-/
import SupabaseLab.Library.Runs
import SupabaseLab.Library.Spans

set_option autoImplicit false

namespace SupabaseLab.ComputeDisk

open Library

structure Sample where
  atMs : ℚ
  ok : Bool
  deriving DecidableEq

structure PhaseMark where
  name : String
  startMs : ℚ
  deriving DecidableEq

structure Outage where
  startMs : ℚ
  endMs : ℚ
  /-- The phase it starts in; `none` before the first. -/
  phase : Option Nat
  isOpen : Bool
  failures : Nat
  deriving DecidableEq

/-- Times in milliseconds or in seconds. -/
structure PhaseOutageStats where
  name : String
  samples : Nat
  ok : Nat
  failures : Nat
  maxOutage : ℚ
  maxOutageOpen : Bool
  totalOutage : ℚ
  outages : Nat
  openAtPhaseEnd : Bool
  carriedIn : ℚ
  firstFail : Option ℚ
  lastRecovery : Option ℚ
  deriving DecidableEq

/-- The last phase that has begun by `t`. -/
def phaseOf (t : ℚ) (phases : List PhaseMark) : Option Nat :=
  phases.zipIdx.foldl (fun idx (p, i) => if p.startMs ≤ t then some i else idx) none

/-! ## Outages -/

/-- One turn of the loop over the samples: the outages that are over, and the one
that is running. -/
def scanSample (phases : List PhaseMark) (acc : List Outage × Option Outage) (s : Sample) :
    List Outage × Option Outage :=
  if s.ok then
    match acc.2 with
    | some cur => (acc.1 ++ [{ cur with endMs := s.atMs, isOpen := false }], none)
    | none => acc
  else
    let cur := acc.2.getD ⟨s.atMs, s.atMs, phaseOf s.atMs phases, true, 0⟩
    (acc.1, some { cur with failures := cur.failures + 1 })

/-- What the loop leaves running ends with the stream. -/
def closeAtEnd (endMs : ℚ) (acc : List Outage × Option Outage) : List Outage :=
  match acc.2 with
  | some cur => acc.1 ++ [{ cur with endMs := max endMs cur.startMs }]
  | none => acc.1

def inTimeOrder (samples : List Sample) : List Sample :=
  samples.mergeSort fun a b => a.atMs ≤ b.atMs

def outagesOf (samples : List Sample) (phases : List PhaseMark) (endMs : ℚ) : List Outage :=
  closeAtEnd endMs ((inTimeOrder samples).foldl (scanSample phases) ([], none))

/-! ## Statistics of a phase -/

def Outage.length (o : Outage) : ℚ := o.endMs - o.startMs

def ownOutages (outages : List Outage) (i : Nat) : List Outage :=
  outages.filter fun o => o.phase = some i

/-- The first of the longest. -/
def longestOf (own : List Outage) : Option Outage :=
  own.foldl (fun longest o => match longest with
    | none => some o
    | some l => if l.length < o.length then some o else some l) none

def Outage.startedBefore (o : Outage) (i : Nat) : Bool :=
  match o.phase with
  | some k => k < i
  | none => false

/-- Where phase `i` ends. -/
def phaseEnd (phases : List PhaseMark) (endMs : ℚ) (i : Nat) : ℚ :=
  match phases[i + 1]? with
  | some next => next.startMs
  | none => endMs

/-- The loop that adds up what earlier outages take of a phase. -/
def carriedInto (outages : List Outage) (startMs endsAt : ℚ) (i : Nat) : ℚ :=
  outages.foldl (fun carried o =>
    if o.startedBefore i then
      let fromMs := max o.startMs startMs
      let toMs := min o.endMs endsAt
      if fromMs < toMs then carried + (toMs - fromMs) else carried
    else carried) 0

def statsOf (samples : List Sample) (phases : List PhaseMark) (endMs : ℚ) (p : PhaseMark)
    (i : Nat) : PhaseOutageStats :=
  let outages := outagesOf samples phases endMs
  let endsAt := phaseEnd phases endMs i
  let mine := samples.filter fun s => phaseOf s.atMs phases = some i
  let own := ownOutages outages i
  { name := p.name
    samples := mine.length
    ok := (mine.filter fun s => s.ok).length
    failures := (mine.filter fun s => !s.ok).length
    maxOutage := ((longestOf own).map Outage.length).getD 0
    maxOutageOpen := ((longestOf own).map Outage.isOpen).getD false
    totalOutage := own.foldl (fun a o => a + (o.endMs - o.startMs)) 0
    outages := own.length
    openAtPhaseEnd := outages.any fun o =>
      o.startMs < endsAt && (endsAt < o.endMs || (o.isOpen && endsAt ≤ o.endMs))
    carriedIn := carriedInto outages p.startMs endsAt i
    firstFail := own.head?.map fun o => o.startMs - p.startMs
    lastRecovery := own.getLast?.map fun o => o.endMs - p.startMs }

def attributeMs (samples : List Sample) (phases : List PhaseMark) (endMs : ℚ) :
    List PhaseOutageStats :=
  phases.zipIdx.map fun (p, i) => statsOf samples phases endMs p i

/-- `Math.round(ms) / 1000`. -/
def r3 (ms : ℚ) : ℚ := ⌊ms + 1 / 2⌋ / 1000

def PhaseOutageStats.rounded (s : PhaseOutageStats) : PhaseOutageStats :=
  { s with
    maxOutage := r3 s.maxOutage
    totalOutage := r3 s.totalOutage
    carriedIn := r3 s.carriedIn
    firstFail := s.firstFail.map r3
    lastRecovery := s.lastRecovery.map r3 }

/-- `attribute`. -/
def attributeS (samples : List Sample) (phases : List PhaseMark) (endMs : ℚ) :
    List PhaseOutageStats :=
  (attributeMs samples phases endMs).map PhaseOutageStats.rounded

/-! ## Phases -/

/-- The instant lies in phase `p`: from its start to the start of the next. -/
def InPhase (phases : List PhaseMark) (p : Nat) (t : ℚ) : Prop :=
  (∃ m ∈ phases[p]?, m.startMs ≤ t) ∧ ∀ next ∈ phases[p + 1]?, t < next.startMs

instance (phases : List PhaseMark) (p : Nat) (t : ℚ) : Decidable (InPhase phases p t) :=
  inferInstanceAs (Decidable (_ ∧ _))

/-- The starts of the phases do not go back. -/
def Ordered (phases : List PhaseMark) : Prop :=
  phases.Pairwise fun p q => p.startMs ≤ q.startMs

section Phases

variable {phases : List PhaseMark} {t : ℚ} {p : Nat} {m q : PhaseMark}

theorem phaseOf_concat :
    phaseOf t (phases ++ [m]) = if m.startMs ≤ t then some phases.length else phaseOf t phases := by
  unfold phaseOf
  rw [List.zipIdx_append, List.foldl_append, Nat.zero_add]
  rfl

theorem phaseOf_eq_some (hordered : Ordered phases) :
    phaseOf t phases = some p ↔ InPhase phases p t := by
  induction phases using List.reverseRecOn with
  | nil =>
    refine ⟨fun h => (by cases h), fun ⟨⟨m, hm, _⟩, _⟩ => ?_⟩
    cases hm
  | append_singleton phases m ih =>
    obtain ⟨hinit, -, hlast⟩ := List.pairwise_append.mp hordered
    have hbefore : ∀ n ∈ phases, n.startMs ≤ m.startMs := fun n hn =>
      hlast n hn m (List.mem_singleton_self m)
    rw [phaseOf_concat]
    by_cases hm : m.startMs ≤ t
    · rw [if_pos hm, Option.some_inj]
      constructor
      · rintro rfl
        refine ⟨⟨m, List.getElem?_concat_length, hm⟩, fun next hnext => ?_⟩
        rw [Option.mem_def, List.getElem?_eq_none (by simp)] at hnext
        cases hnext
      · rintro ⟨⟨n, hn, -⟩, hnext⟩
        rcases getElem?_concat_eq_some.mp hn with hn | ⟨rfl, -⟩
        · -- an earlier phase has ended when the last one began
          have hlt := (List.getElem?_eq_some_iff.mp hn).1
          obtain ⟨next, hnext'⟩ : ∃ next, (phases ++ [m])[p + 1]? = some next :=
            ⟨_, List.getElem?_eq_getElem (by rw [List.length_append, List.length_singleton]; omega)⟩
          have hmem : next.startMs ≤ m.startMs := by
            rcases getElem?_concat_eq_some.mp hnext' with hold | ⟨-, rfl⟩
            · exact hbefore next (List.mem_of_getElem? hold)
            · exact le_refl _
          exact absurd (hmem.trans hm) (not_le_of_gt (hnext next hnext'))
        · rfl
    · rw [if_neg hm, ih hinit]
      constructor
      · rintro ⟨⟨n, hn, hle⟩, hnext⟩
        refine ⟨⟨n, getElem?_concat_eq_some.mpr (.inl hn), hle⟩, fun next hmem => ?_⟩
        rcases getElem?_concat_eq_some.mp hmem with hold | ⟨-, rfl⟩
        · exact hnext next hold
        · exact lt_of_not_ge hm
      · rintro ⟨⟨n, hn, hle⟩, hnext⟩
        rcases getElem?_concat_eq_some.mp hn with hn | ⟨rfl, rfl⟩
        · exact ⟨⟨n, hn, hle⟩, fun next hmem =>
            hnext next (getElem?_concat_eq_some.mpr (.inl hmem))⟩
        · exact absurd hle hm

/-- Before the first phase there is none, and after its start there is one. -/
theorem phaseOf_isSome (hordered : Ordered (m :: phases)) :
    (phaseOf t (m :: phases)).isSome ↔ m.startMs ≤ t := by
  induction phases using List.reverseRecOn with
  | nil =>
    show (if m.startMs ≤ t then some 0 else none).isSome ↔ _
    split <;> simp_all
  | append_singleton phases q ih =>
    rw [← List.cons_append] at hordered ⊢
    obtain ⟨hinit, -, hlast⟩ := List.pairwise_append.mp hordered
    have hle : m.startMs ≤ q.startMs :=
      hlast m List.mem_cons_self q (List.mem_singleton_self q)
    rw [phaseOf_concat]
    by_cases hq : q.startMs ≤ t
    · rw [if_pos hq]
      exact ⟨fun _ => hle.trans hq, fun _ => rfl⟩
    · rw [if_neg hq]
      exact ih hinit

end Phases

/-! ## Outages are the runs of failures -/

def failing (s : Sample) : Bool := !s.ok

/-- When the sample at a position was taken. -/
def timeAt (l : List Sample) (i : Nat) : ℚ := (l[i]?.map Sample.atMs).getD 0

/-- The outage that a run of failures is: from its first failure to the success after
it, or to the end of the stream. -/
def outageOfRun (l : List Sample) (phases : List PhaseMark) (endMs : ℚ) (r : Nat × Nat) : Outage where
  startMs := timeAt l r.1
  endMs := match l[r.2]? with
    | some s => s.atMs
    | none => max endMs (timeAt l r.1)
  phase := phaseOf (timeAt l r.1) phases
  isOpen := l[r.2]?.isNone
  failures := r.2 - r.1

/-- The outage that is running after `n` samples, when it began at position `i`. -/
def runningOutage (l : List Sample) (phases : List PhaseMark) (n i : Nat) : Outage :=
  ⟨timeAt l i, timeAt l i, phaseOf (timeAt l i) phases, true, n - i⟩

section Scan

variable {l xs : List Sample} {phases : List PhaseMark} {endMs : ℚ} {s : Sample} {i n : Nat}
  {cur : Option Nat} {out : List Outage}

theorem timeAt_of_getElem? (h : l[i]? = some s) : timeAt l i = s.atMs := by
  rw [timeAt, h]
  rfl

theorem scan_failing (hs : s.ok = false) (hat : l[n]? = some s) (hcur : ∀ i, cur = some i → i < n) :
    scanSample phases (out, cur.map (runningOutage l phases n)) s =
      (out, (some (cur.getD n)).map (runningOutage l phases (n + 1))) := by
  rw [scanSample, if_neg (by rw [hs]; exact Bool.false_ne_true)]
  cases cur with
  | none =>
    simp only [Option.map_none, Option.getD_none, Option.map_some, runningOutage,
      timeAt_of_getElem? hat]
    rw [Nat.add_sub_cancel_left]
  | some i =>
    have hi := hcur i rfl
    simp only [Option.map_some, Option.getD_some, runningOutage]
    rw [Nat.succ_sub (Nat.le_of_lt hi)]

theorem scan_ok (hs : s.ok = true) (hat : l[n]? = some s) :
    scanSample phases (out, cur.map (runningOutage l phases n)) s =
      (out ++ ((cur.map fun i => (i, n)).toList.map (outageOfRun l phases endMs)),
        (none : Option Nat).map (runningOutage l phases (n + 1))) := by
  rw [scanSample, if_pos hs]
  cases cur with
  | none => simp
  | some i => simp [outageOfRun, runningOutage, hat]

theorem closeAtEnd_runs (hend : l.length ≤ n) (hcur : ∀ i, cur = some i → i < n) :
    closeAtEnd endMs (out, cur.map (runningOutage l phases n)) =
      out ++ (runsFrom failing n cur []).map (outageOfRun l phases endMs) := by
  cases cur with
  | none => simp [closeAtEnd, runsFrom]
  | some i => simp [closeAtEnd, runsFrom, outageOfRun, runningOutage, List.getElem?_eq_none hend]

/-- The loop, from the middle of the samples on. -/
theorem scan_eq (hdrop : l.drop n = xs) (hcur : ∀ i, cur = some i → i < n) :
    closeAtEnd endMs (xs.foldl (scanSample phases) (out, cur.map (runningOutage l phases n))) =
      out ++ (runsFrom failing n cur xs).map (outageOfRun l phases endMs) := by
  induction xs generalizing n cur out with
  | nil => exact closeAtEnd_runs (List.drop_eq_nil_iff.mp hdrop) hcur
  | cons s xs ih =>
    have hat : l[n]? = some s := by
      rw [← Nat.add_zero n, ← List.getElem?_drop, hdrop]
      rfl
    have hrest : l.drop (n + 1) = xs := by
      rw [← List.drop_drop, hdrop]
      rfl
    rw [List.foldl_cons]
    cases hs : s.ok with
    | true =>
      have hscan : scanSample phases (out, cur.map (runningOutage l phases n)) s =
          (out ++ ((cur.map fun i => (i, n)).toList.map (outageOfRun l phases endMs)),
            (none : Option Nat).map (runningOutage l phases (n + 1))) := scan_ok hs hat
      rw [hscan, ih hrest fun i hi => absurd hi (Option.some_ne_none i).symm,
        runsFrom_good (by rw [failing, hs]; rfl), List.map_append, List.append_assoc]
    | false =>
      rw [scan_failing hs hat hcur, runsFrom_bad (by rw [failing, hs]; rfl)]
      refine ih hrest fun i hi => ?_
      cases hi
      cases cur with
      | none => exact Nat.lt_succ_self n
      | some i => exact Nat.lt_succ_of_lt (hcur i rfl)

/-- The outages are the maximal runs of failures, in the order of time. -/
theorem outagesOf_eq (samples : List Sample) : outagesOf samples phases endMs =
    (runs failing (inTimeOrder samples)).map (outageOfRun (inTimeOrder samples) phases endMs) := by
  have hnone : ∀ i, (none : Option Nat) = some i → i < 0 := fun i hi =>
    absurd hi (Option.some_ne_none i).symm
  have hscan := @scan_eq (inTimeOrder samples) _ phases endMs 0 none [] rfl hnone
  exact hscan

end Scan

end SupabaseLab.ComputeDisk
