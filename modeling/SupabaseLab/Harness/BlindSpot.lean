/-
  Harness/BlindSpot.lean --- what a recovery rests on.

  Source: the settle of `sampleDuring` and `finalise`, harness/src/sampler.ts.

  A recovery is confirmed by a later sample than the one it starts at, and a window
  counts the pauses of the host up to that start alone.  A pause in between is
  therefore health that nobody observed, and nothing says so.
-/
import SupabaseLab.Harness.SamplingPause

set_option autoImplicit false

namespace SupabaseLab.Harness

open Library Sampling

/-! ## Confirmed recoveries -/

/-- Sample `x` is the one at which the path reports its recovery, at `r`. -/
def Confirms (settleMs : Int) (name : String) (l : List Sample) (r : Int) (x : Sample) : Prop :=
  ∃ before after, l = before ++ x :: after ∧
    (pathAfter settleMs name before).recoveredMs = none ∧
    (pathAfter settleMs name (before ++ [x])).recoveredMs = some r

/-- A pause that is no late wake-up of a timer. -/
def Pause.Long (intervalMs : Int) (p : Pause) : Prop := PAUSE_SLACK_MS + intervalMs < p.toMs - p.fromMs

/-- A recovery with no pause to its name was observed up to the sample that confirmed it. -/
def RecoveryObserved (settleMs intervalMs endMs : Int) (name : String) (pauses : List Pause)
    (l : List Sample) : Prop :=
  let w := finalise (pathAfter settleMs name l) pauses endMs
  ∀ r x, w.recoveredMs = some r → w.pausedMs = 0 → Confirms settleMs name l r x →
    ∀ p ∈ pauses, p.Long intervalMs → overlap p r x.1 = 0

/-- `y` opens a run of good samples after a failure, and `x` is the first sample of the trace
that comes `settleMs` or more after the opening of its run. -/
def Settles (settleMs : Int) (l : List Sample) (y x : Sample) : Prop :=
  ∃ before after i, l = before ++ x :: after ∧ (∀ i', ¬ Lasts settleMs before i') ∧
    Pending before i ∧ before[i]? = some y ∧ x.2.ok = true ∧ settleMs ≤ x.1 - y.1

section Recovery

variable {settleMs intervalMs endMs r : Int} {name : String} {pauses : List Pause} {l : List Sample}
  {x y : Sample}

theorem confirms_iff : Confirms settleMs name l r x ↔ ∃ y, Settles settleMs l y x ∧ y.1 = r := by
  have hstep : ∀ before : List Sample, (pathAfter settleMs name before).recoveredMs = none →
      ((pathAfter settleMs name (before ++ [x])).recoveredMs = some r ↔
        x.2.ok = true ∧ ∃ i y, Pending before i ∧ before[i]? = some y ∧ settleMs ≤ x.1 - y.1 ∧ y.1 = r) := by
    intro before hnone
    have hnorun : ¬ ∃ i, Lasts settleMs before i := by
      rw [(pathInv_after settleMs name before).lasts_iff, hnone]
      exact Bool.false_ne_true
    rw [(pathInv_after settleMs name (before ++ [x])).recovered, recoversAt_concat_of_none hnorun]
  have hopen : ∀ before : List Sample, (pathAfter settleMs name before).recoveredMs = none ↔
      ∀ i, ¬ Lasts settleMs before i := by
    intro before
    rw [← not_exists, (pathInv_after settleMs name before).lasts_iff, Option.not_isSome_iff_eq_none]
  constructor
  · rintro ⟨before, after, hl, hnone, hsome⟩
    obtain ⟨hok, i, y, hpending, hy, hlong, hr⟩ := (hstep before hnone).mp hsome
    exact ⟨y, ⟨before, after, i, hl, (hopen before).mp hnone, hpending, hy, hok, hlong⟩, hr⟩
  · rintro ⟨y, ⟨before, after, i, hl, hnorun, hpending, hy, hok, hlong⟩, hr⟩
    have hnone := (hopen before).mpr hnorun
    exact ⟨before, after, hl, hnone, (hstep before hnone).mpr ⟨hok, i, y, hpending, hy, hlong, hr⟩⟩

/-- What was confirmed stays. -/
theorem Confirms.recovered (h : Confirms settleMs name l r x) :
    (pathAfter settleMs name l).recoveredMs = some r := by
  obtain ⟨before, after, rfl, -, hsome⟩ := h
  have hlater : ∀ s : PathState, s.recoveredMs = some r →
      (after.foldl (fun s x => s.observe settleMs x.1 x.2) s).recoveredMs = some r := by
    induction after with
    | nil => exact fun s hs => hs
    | cons z after ih => exact fun s hs => ih _ (recovered_observe hs)
  rw [show before ++ x :: after = (before ++ [x]) ++ after by simp, pathAfter, List.foldl_append]
  exact hlater _ hsome

/-- No pause reported: none has a part before the recovery. -/
theorem pausedMs_eq_zero_iff {s : PathState} (hr : s.recoveredMs = some r) :
    (finalise s pauses endMs).pausedMs = 0 ↔ ∀ p ∈ pauses, overlap p 0 r = 0 := by
  have hpaused : (finalise s pauses endMs).pausedMs = (pauses.map fun p => overlap p 0 r).sum := by
    show (pauses.map fun p => overlap p 0 (s.recoveredMs.getD endMs)).sum = _
    rw [hr]
    rfl
  rw [hpaused]
  clear hpaused
  induction pauses with
  | nil => simp
  | cons p pauses ih =>
    have hrest : 0 ≤ (pauses.map fun p => overlap p 0 r).sum := by
      apply List.sum_nonneg
      intro n hn
      obtain ⟨q, -, rfl⟩ := List.mem_map.mp hn
      exact overlap_nonneg
    have hfirst : 0 ≤ overlap p 0 r := overlap_nonneg
    rw [List.map_cons, List.sum_cons, List.forall_mem_cons]
    constructor
    · intro hsum
      exact ⟨by omega, ih.mp (by omega)⟩
    · rintro ⟨hp, hall⟩
      rw [hp, ih.mpr hall, add_zero]

/-- **When a recovery rests on nothing unobserved**: exactly when a pause falls before the
opening of the run that settles, so that it is reported, or no long pause falls between the
opening and the sample that settles it. -/
theorem recoveryObserved_iff (settleMs intervalMs endMs : Int) (name : String) (pauses : List Pause)
    (l : List Sample) :
    RecoveryObserved settleMs intervalMs endMs name pauses l ↔
      ∀ y x, Settles settleMs l y x → (∃ p ∈ pauses, 0 < overlap p 0 y.1) ∨
        ∀ p ∈ pauses, p.Long intervalMs → overlap p y.1 x.1 = 0 := by
  constructor
  · intro h y x hsettles
    have hconfirms : Confirms settleMs name l y.1 x := confirms_iff.mpr ⟨y, hsettles, rfl⟩
    by_cases hpause : ∃ p ∈ pauses, 0 < overlap p 0 y.1
    · exact .inl hpause
    · refine .inr (h y.1 x hconfirms.recovered ?_ hconfirms)
      rw [pausedMs_eq_zero_iff hconfirms.recovered]
      intro p hp
      exact le_antisymm (not_lt.mp fun hlt => hpause ⟨p, hp, hlt⟩) overlap_nonneg
  · intro h r x hr hpaused hconfirms p hp hlong
    obtain ⟨y, hsettles, rfl⟩ := confirms_iff.mp hconfirms
    rcases h y x hsettles with ⟨q, hq, hlt⟩ | hnone
    · have hzero := (pausedMs_eq_zero_iff hr).mp hpaused q hq
      omega
    · exact hnone p hp hlong

end Recovery

/-- A path that is down at the start, one good sample, and the host asleep until the next. -/
def sleptThrough : List Sample :=
  [(0, ⟨false, some (units "timeout expired")⟩), (10, ⟨true, none⟩), (10020, ⟨true, none⟩)]

/-- The events of such a run: the watchdog wakes up late, and reports the pause. -/
def sleptThroughRun : List Sampling.Event :=
  [.watchStart, .watchCheck, .loopCheck 0, .loopProbe 0, .answer 0 ⟨false, some (units "timeout expired")⟩,
    .advance 10, .watchTick, .watchCheck, .loopWake 0, .loopCheck 0, .loopProbe 0, .answer 0 ⟨true, none⟩,
    .advance 10010, .watchTick, .loopWake 0, .loopCheck 0, .loopProbe 0, .answer 0 ⟨true, none⟩,
    .watchCheck, .opReturns, .stopSampling, .loopWake 0, .loopCheck 0, .finish]

/-- Two samples ten seconds apart count as twenty milliseconds of health, and no pause is
reported. -/
theorem recovery_not_observed :
    (∃ s w, Sampling.run ⟨10, 60000, 20⟩ 0 ["rest"] sleptThroughRun = some s ∧
      s.main = .returned 10020 [w] ∧ s.pauses = [⟨10, 10020⟩] ∧ w.recoveredMs = some 10 ∧
      w.pausedMs = 0) ∧
    ¬ RecoveryObserved 20 10 10020 "rest" [⟨10, 10020⟩] sleptThrough := by
  refine ⟨⟨_, _, rfl, rfl, rfl, rfl, rfl⟩, fun h => ?_⟩
  have hnone := h 10 (10020, ⟨true, none⟩) (by decide) (by decide)
    ⟨[(0, ⟨false, some (units "timeout expired")⟩), (10, ⟨true, none⟩)], [], rfl, by decide, by decide⟩
    ⟨10, 10020⟩ List.mem_cons_self (by unfold Pause.Long; decide)
  exact absurd hnone (by decide)

end SupabaseLab.Harness
