/-
  LifecycleOps/Outcomes.lean --- what an episode's report says.

  The outcome and the recovery time can be trusted.  `firstFailAtMs` names the
  start of the stretch of rounds at which some trigger path was failing, which
  is the start of a failure run only while one path fails throughout.
-/
import SupabaseLab.LifecycleOps.Restarts

set_option autoImplicit false

namespace SupabaseLab.LifecycleOps

open Library

/-- `firstFailAtMs` is the first sample of a trigger path's current failure run. -/
def NamesAFailureRun (policy : RunbookPolicy) (obs : List Observation) (ep : Episode) : Prop :=
  ∃ p ∈ policy.triggerPaths, ∃ since, (failures p obs).head?.map (·.1) = some since ∧
    ep.firstFailAtMs = some since

/-- Some trigger path's current failure run began when round `o` did. -/
def FailingSince (policy : RunbookPolicy) (o : Observation) (obs : List Observation) : Prop :=
  ∃ p ∈ policy.triggerPaths, (failures p obs).head?.map (·.1) = some o.atMs

section Report

variable {opts : SuperviseOpts} {hist : List Int}

theorem supervise_dated (opts : SuperviseOpts) (hist : List Int) (start : Int)
    (rounds : List Round) :
    DetectionDated opts.policy (samples (supervise opts hist start rounds).1.trace)
      (supervise opts hist start rounds).1.ep := by
  have hrun := run_spec (init_inv opts hist start) rounds
  rw [supervise]
  cases hres : (Loop.init opts hist start).run opts rounds with
  | mk s' e =>
      rw [hres] at hrun
      cases e with
      | none =>
          cases hrun with
          | watching _ _ hdated _ => exact hdated
          | verifying _ _ _ hdated => exact hdated
      | some e => exact hrun.dated

theorem supervise_ended {start : Int} {rounds : List Round} {e : Ending}
    (h : (supervise opts hist start rounds).2 = some e) :
    Ended opts hist (supervise opts hist start rounds).1 e := by
  have hrun := run_spec (init_inv opts hist start) rounds
  rw [supervise] at h ⊢
  cases hres : (Loop.init opts hist start).run opts rounds with
  | mk s' e' =>
      rw [hres] at hrun h
      cases h
      exact hrun

/-- What `firstFailAtMs` says of a dated detection, stretch by stretch. -/
theorem namesAFailureRun_iff {policy : RunbookPolicy} {before since : List Observation}
    {o : Observation} {ep : Episode} (hquiet : ¬ AnyFailing policy before)
    (hff : ep.firstFailAtMs = some o.atMs) :
    (NamesAFailureRun policy (before ++ o :: since) ep ↔
        FailingSince policy o (before ++ o :: since)) ∧
      (FailedThroughout policy before o since →
        NamesAFailureRun policy (before ++ o :: since) ep) ∧
      ((∀ o' ∈ since, o.atMs < o'.atMs) → NamesAFailureRun policy (before ++ o :: since) ep →
        FailedThroughout policy before o since) := by
  have hiff : NamesAFailureRun policy (before ++ o :: since) ep ↔
      FailingSince policy o (before ++ o :: since) := by
    constructor
    · rintro ⟨p, hp, at_, hrun, hat⟩
      rw [hff] at hat
      cases hat
      exact ⟨p, hp, hrun⟩
    · rintro ⟨p, hp, hrun⟩
      exact ⟨p, hp, o.atMs, hrun, hff⟩
  refine ⟨hiff, ?_, ?_⟩
  · rintro ⟨p, hp, hfail, hall⟩
    refine hiff.mpr ⟨p, hp, ?_⟩
    have hbefore : failures p before = [] := by
      by_contra hne
      exact hquiet ⟨p, hp, hne⟩
    rw [List.append_cons, failures_append_of_failing hall]
    cases hrun : failures p (before ++ [o]) with
    | nil => exact absurd hrun hfail
    | cons x rest =>
        have hx := failures_concat_of_nil (o := o) hbefore x (by rw [hrun]; exact List.mem_cons_self)
        rw [List.cons_append, List.head?_cons, Option.map_some, hx]
  · intro hlater hnames
    obtain ⟨p, hp, hrun⟩ := hiff.mp hnames
    obtain ⟨hfail, hall⟩ := failing_of_began hlater hrun
    exact ⟨p, hp, hfail, hall⟩

/-- **The outcome is sound.**  'recovered' is reported after an accepted restart
and an all-ok run of `settleMs` that starts at `recoveredAtMs`; the outcomes
reached without a POST are reached without one.  When a detection is dated,
`firstFailAtMs` is the time of round `o`, the first of the unbroken stretch of
rounds at which some trigger path was failing.  So it is the start of a failure
run exactly when the current run of some trigger path began then: when one
trigger path has failed throughout the stretch, and, along a clock that moves
from round to round, only then. -/
theorem supervise_outcome (opts : SuperviseOpts) (hist : List Int) (start : Int)
    (rounds : List Round) :
    ((supervise opts hist start rounds).2 = some (.finished .recovered) →
      ∃ before t h since at_,
        (supervise opts hist start rounds).1.trace = before ++ .post t (some h) :: since ∧
        Accepted h ∧ (supervise opts hist start rounds).1.ep.recoveredAtMs = some at_ ∧
        Settled opts.policy.settleMs (samples since) at_) ∧
    (∀ o ∈ [Outcome.noFault, .selfCleared, .escalated],
      (supervise opts hist start rounds).2 = some (.finished o) →
        posts (supervise opts hist start rounds).1.trace = []) ∧
    (∀ o, (supervise opts hist start rounds).2 = some (.finished o) →
      (supervise opts hist start rounds).1.ep.postAtMs = none →
        posts (supervise opts hist start rounds).1.trace = []) ∧
    ∀ d, (supervise opts hist start rounds).1.ep.detectedAtMs = some d →
      ∃ before o since last,
        FirstDetection opts.policy (before ++ o :: since)
          (samples (supervise opts hist start rounds).1.trace) ∧
        (before ++ o :: since).getLast? = some last ∧ last.atMs = d ∧
        ¬ AnyFailing opts.policy before ∧
        (∀ part, part <+: since → AnyFailing opts.policy (before ++ o :: part)) ∧
        (NamesAFailureRun opts.policy (before ++ o :: since)
            (supervise opts hist start rounds).1.ep ↔
          FailingSince opts.policy o (before ++ o :: since)) ∧
        (FailedThroughout opts.policy before o since →
          NamesAFailureRun opts.policy (before ++ o :: since)
            (supervise opts hist start rounds).1.ep) ∧
        ((∀ o' ∈ since, o.atMs < o'.atMs) →
          NamesAFailureRun opts.policy (before ++ o :: since)
              (supervise opts hist start rounds).1.ep →
            FailedThroughout opts.policy before o since) := by
  refine ⟨?_, ?_, ?_, ?_⟩
  · intro hrec
    obtain ⟨t, h, since, at_, ⟨before, _, htrace, _⟩, haccepted, hat, hsettled⟩ :=
      (supervise_ended hrec).recovered rfl
    exact ⟨before, t, h, since, at_, htrace, haccepted, hat, hsettled⟩
  · intro o ho hend
    refine (supervise_ended hend).quiet ?_
    simpa using ho
  · intro o hend hnone
    exact (supervise_ended hend).unposted (by simp) hnone
  · intro d hd
    obtain ⟨part, last, o, hfirst, hlast, hat, ⟨before, since, rfl, hquiet, hparts⟩, hff⟩ :=
      supervise_dated opts hist start rounds d hd
    exact ⟨before, o, since, last, hfirst, hlast, hat, hquiet, hparts,
      namesAFailureRun_iff hquiet hff⟩

end Report

/-- Two trigger paths: the first fails for two rounds, the second from the
second round on. -/
def handoverRound (atMs : Int) (first second : Bool) : Round :=
  { failingRound atMs 0 (some 200) with
    runProbe := fun i => some (if i = 0 then first else second) }

def handoverOpts : SuperviseOpts where
  probes := ["a", "b"]
  policy :=
    { DEFAULT_RUNBOOK_POLICY with
      triggerPaths := ["a", "b"]
      detectAfterMs := 20
      detectMinSamples := 1 }
  createdAtMs := none
  maxWatchMs := 600000
  hardStopMs := none

def handoverRounds : List Round :=
  [handoverRound 0 false true, handoverRound 10 false false, handoverRound 20 true false,
    handoverRound 30 true false]

/-- A healthy project is left alone. -/
theorem supervise_outcome_healthy :
    posts (supervise { handoverOpts with maxWatchMs := 0 } [] 0
      [handoverRound 0 true true]).1.trace = [] :=
  (supervise_outcome { handoverOpts with maxWatchMs := 0 } [] 0 [handoverRound 0 true true]).2.1
    .noFault (by decide) (by decide)

/-- Trouble passes from one trigger path to the other: the detection at 30 is of
the run that began at 10, and `firstFailAtMs` is 0, from a run that is over. -/
theorem firstFailAtMs_of_other_path :
    (supervise handoverOpts [] 0 handoverRounds).1.ep.detectedAtMs = some 30 ∧
      (supervise handoverOpts [] 0 handoverRounds).1.ep.firstFailAtMs = some 0 ∧
      ¬ NamesAFailureRun handoverOpts.policy
        (samples (supervise handoverOpts [] 0 handoverRounds).1.trace)
        (supervise handoverOpts [] 0 handoverRounds).1.ep := by
  have hff : (supervise handoverOpts [] 0 handoverRounds).1.ep.firstFailAtMs = some 0 := by decide
  refine ⟨by decide, hff, ?_⟩
  rintro ⟨p, hp, since, hrun, hsince⟩
  rw [hff] at hsince
  cases hsince
  rcases List.mem_cons.mp hp with rfl | hp
  · revert hrun
    decide
  · rw [List.mem_singleton.mp hp] at hrun
    revert hrun
    decide

end SupabaseLab.LifecycleOps
