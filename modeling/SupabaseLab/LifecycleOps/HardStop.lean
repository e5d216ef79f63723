/-
  LifecycleOps/HardStop.lean --- an episode ends.

  Every round tests the hard stop right after its sample, before it looks at what
  state the episode is in, and a round together with the sleep behind it takes at
  least `intervalMs`.  So no way through a round can hold an episode for longer
  than `hardStopMs`: not the gate, not the restart, not a flap that resets the
  settle time.
-/
import SupabaseLab.Library.Aggregate
import SupabaseLab.LifecycleOps.Restarts

set_option autoImplicit false

namespace SupabaseLab.LifecycleOps

open Library

/-! ## What a round leaves alone -/

/-- Every call that the round may make is answered. -/
structure Round.Answered (r : Round) : Prop where
  probes : ∀ i, (r.runProbe i).isSome = true
  controlStatus : r.controlStatus.isSome = true
  gate : r.gate.isSome = true
  restart : r.restart.isSome = true

/-- The same episode, with the same number of rounds. -/
def SameCount (s s' : Loop) : Prop :=
  s'.ep.startedAtMs = s.ep.startedAtMs ∧ s'.ep.rounds = s.ep.rounds

theorem SameCount.refl (s : Loop) : SameCount s s := ⟨rfl, rfl⟩

theorem SameCount.trans {s s' s'' : Loop} (h : SameCount s s') (h' : SameCount s' s'') :
    SameCount s s'' := ⟨h'.1.trans h.1, h'.2.trans h.2⟩

/-- A part of a round: it counts no round, and throws only when a call does. -/
def Steady (r : Round) (s : Loop) (step : Step) : Prop :=
  Meets step (SameCount s) fun x => SameCount s x.1 ∧ (x.2 = .threw → ¬ r.Answered)

section Parts

variable {opts : SuperviseOpts} {s s' : Loop} {obs : Observation} {r : Round} {step : Step}

theorem Steady.from (h : SameCount s s') (hstep : Steady r s' step) : Steady r s step :=
  hstep.mono (fun _ hok => h.trans hok) fun _ herr => ⟨h.trans herr.1, herr.2⟩

theorem Steady.bind {next : Loop → Step} (h : Steady r s step)
    (hnext : ∀ s', Steady r s' (next s')) : Steady r s (step >>= next) :=
  Meets.bind h fun s' hs' => (hnext s').from hs'

theorem Steady.ok (h : SameCount s s') : Steady r s (.ok s') := h

/-- An early exit that is no throw. -/
theorem Steady.finished (h : SameCount s s') (o : Outcome) :
    Steady r s (.error (s', .finished o)) := ⟨h, fun hthrew => by cases hthrew⟩

theorem Steady.threw (h : SameCount s s') (hanswer : ¬ r.Answered) :
    Steady r s (.error (s', .threw)) := ⟨h, fun _ => hanswer⟩

theorem pollStatus_steady : Steady r s (s.pollStatus opts obs r) := by
  rw [Loop.pollStatus]
  split
  · cases hanswer : r.controlStatus with
    | none => exact .threw (.refl s) fun h => by simpa [hanswer] using h.controlStatus
    | some value => exact .ok ⟨rfl, rfl⟩
  · exact .ok (.refl s)

theorem pollGate_steady : Steady r s (s.pollGate opts obs r) := by
  rw [Loop.pollGate]
  split
  · cases hanswer : r.gate with
    | none => exact .threw (.refl s) fun h => by simpa [hanswer] using h.gate
    | some value => exact .ok ⟨rfl, rfl⟩
  · exact .ok (.refl s)

theorem post_steady : Steady r s (s.post r) := by
  rw [Loop.post]
  cases hanswer : r.restart with
  | none => exact .threw ⟨rfl, rfl⟩ fun h => by simpa [hanswer] using h.restart
  | some http =>
    simp only
    split
    · exact .finished ⟨rfl, rfl⟩ _
    · exact .ok ⟨rfl, rfl⟩

theorem noteDecision_count (atMs : Int) (d : Decision) (ep : Episode) :
    (noteDecision atMs d ep).startedAtMs = ep.startedAtMs ∧
      (noteDecision atMs d ep).rounds = ep.rounds := by
  unfold noteDecision
  dsimp only
  split_ifs
  · exact ⟨rfl, rfl⟩
  · exact ⟨rfl, rfl⟩

theorem noteFirstFail_count (ff : Option Int) (ep : Episode) :
    (noteFirstFail ff ep).startedAtMs = ep.startedAtMs ∧
      (noteFirstFail ff ep).rounds = ep.rounds := by
  rw [noteFirstFail]
  split_ifs <;> exact ⟨rfl, rfl⟩

theorem act_steady (paths : List String) : Steady r s (s.act opts obs paths r) := by
  have hstatus : Steady r s ((s.dated obs).pollStatus opts obs r) :=
    .from ⟨rfl, rfl⟩ pollStatus_steady
  rw [Loop.act]
  refine hstatus.bind fun s₁ => ?_
  refine (pollGate_steady (s := s₁)).bind fun s₂ => ?_
  have hnoted : SameCount s₂
      { s₂ with ep := noteDecision obs.atMs (s₂.decision opts obs paths) s₂.ep } :=
    noteDecision_count _ _ _
  cases hd : (s₂.decision opts obs paths).action with
  | escalate =>
    simp only [hd]
    exact .finished hnoted _
  | restart =>
    simp only [hd]
    exact .from hnoted post_steady
  | hold | none =>
    simp only [hd]
    exact .ok hnoted

theorem watch_steady : Steady r s (s.watch opts obs r) := by
  have hwatched : SameCount s (s.watched opts obs) := noteFirstFail_count _ _
  rw [Loop.watch]
  simp only
  split
  · exact .from hwatched (act_steady _)
  · split
    · exact .finished hwatched _
    · split
      · exact .finished hwatched _
      · exact .ok hwatched

theorem pollAfterPost_steady : Steady r s (s.pollAfterPost opts obs r) := by
  rw [Loop.pollAfterPost]
  split
  · exact pollStatus_steady.bind fun s₁ => .ok ⟨rfl, rfl⟩
  · exact .ok (.refl s)

theorem verify_steady (postAtMs : Int) : Steady r s (s.verify opts postAtMs obs r) := by
  have hpoll : Steady r s
      (Loop.pollAfterPost opts { s with recovery := s.recovery.observe obs } obs r) :=
    .from ⟨rfl, rfl⟩ pollAfterPost_steady
  rw [Loop.verify]
  refine hpoll.bind fun s₁ => ?_
  split
  · exact .finished ⟨rfl, rfl⟩ _
  · split
    · exact .finished (.refl s₁) _
    · exact .ok (.refl s₁)

end Parts

/-! ## The hard stop -/

/-- `opts.hardStopMs ?? 7_200_000` -/
def SuperviseOpts.hardStop (opts : SuperviseOpts) : Int := opts.hardStopMs.getD 7200000

/-- What a round that goes on says of the clock. -/
structure WentOn (opts : SuperviseOpts) (r : Round) (s s' : Loop) : Prop where
  started : s'.ep.startedAtMs = s.ep.startedAtMs
  rounds : s'.ep.rounds = s.ep.rounds + 1
  early : r.obsAt - s.ep.startedAtMs < opts.hardStop

theorem observation_isSome {r : Round} (h : r.Answered) (opts : SuperviseOpts) :
    (r.observation opts).isSome = true := by
  have hsample (probe : String × Nat) : ((r.runProbe probe.2).map fun ok =>
      ({ name := probe.1, ok := ok } : PathOutcome)).isSome = true := by
    rw [Option.isSome_map]
    exact h.probes probe.2
  obtain ⟨outs, houts⟩ :=
    (exists_mapM_eq_some (l := opts.probes.zipIdx)).mpr fun probe _ => hsample probe
  exact Option.isSome_iff_exists.mpr ⟨_, Option.bind_eq_some_iff.mpr ⟨outs, houts, rfl⟩⟩

theorem observation_atMs {opts : SuperviseOpts} {r : Round} {obs : Observation}
    (h : r.observation opts = some obs) : obs.atMs = r.obsAt := by
  obtain ⟨outs, -, hobs⟩ := Option.bind_eq_some_iff.mp h
  cases hobs
  rfl

/-- A round goes on only before the hard stop, whatever state the episode is in. -/
theorem round_steady (opts : SuperviseOpts) (s : Loop) (r : Round) :
    Meets (s.round opts r) (WentOn opts r s) fun x =>
      x.1.ep.rounds ≤ s.ep.rounds + 1 ∧ (x.2 = .threw → ¬ r.Answered) := by
  rw [Loop.round]
  cases hobs : r.observation opts with
  | none =>
    refine ⟨Nat.le_succ _, fun _ hanswered => ?_⟩
    have hsome := observation_isSome hanswered opts
    rw [hobs] at hsome
    cases hsome
  | some obs =>
    have hat := observation_atMs hobs
    simp only
    split
    · exact ⟨Nat.le_refl _, fun hthrew => by cases hthrew⟩
    · next hearly =>
      have hbody (step : Step) (hstep : Steady r (s.sampled obs) step) :
          Meets step (SameCount (s.sampled obs)) fun x =>
            x.1.ep.rounds ≤ s.ep.rounds + 1 ∧ (x.2 = .threw → ¬ r.Answered) :=
        hstep.mono (fun _ h => h) fun x h => ⟨Nat.le_of_eq h.1.2, h.2⟩
      refine Meets.bind (hbody _ ?_) fun s' hs' => ?_
      · split
        · exact watch_steady
        · exact verify_steady _
      refine ⟨hs'.1, hs'.2, ?_⟩
      rw [← hat]
      exact Int.not_le.mp hearly

/-! ## Along a script -/

/-- The clock of an episode that is given these rounds: it does not go back while the probes
run, and every sleep advances it by at least what was asked. -/
structure KeepsTime (opts : SuperviseOpts) (start : Int) (script : Nat → Round) : Prop where
  started : start ≤ (script 0).roundStart
  probing : ∀ i, (script i).roundStart ≤ (script i).obsAt
  slept : ∀ i, (script i).endAt +
    max 0 (opts.policy.intervalMs - ((script i).endAt - (script i).roundStart)) ≤
      (script (i + 1)).roundStart

/-- `ceil(hardStopMs / intervalMs) + 1` -/
def SuperviseOpts.roundCap (opts : SuperviseOpts) : Nat :=
  ⌈(opts.hardStop : ℚ) / opts.policy.intervalMs⌉₊ + 1

section Script

variable {opts : SuperviseOpts} {start : Int} {script : Nat → Round}

/-- A round and the sleep behind it take an interval, even when the clock was turned back in
between. -/
theorem KeepsTime.next (h : KeepsTime opts start script) (i : Nat) :
    (script i).roundStart + opts.policy.intervalMs ≤ (script (i + 1)).roundStart := by
  have hslept := h.slept i
  omega

theorem Ending.finished_of_ne {e : Ending} (h : e ≠ .threw) : ∃ o, e = .finished o := by
  cases e with
  | finished o => exact ⟨o, rfl⟩
  | threw => exact absurd rfl h

/-- What is said of a run that ends: how many rounds it takes, and that it ends of itself when
every call is answered. -/
def EndsWithin (script : Nat → Round) (cap : Nat) (out : Loop × Option Ending) : Prop :=
  ∃ e, out.2 = some e ∧ out.1.ep.rounds ≤ cap ∧
    ((∀ i, (script i).Answered) → ∃ o, e = .finished o)

theorem EndsWithin.mono {cap cap' : Nat} {out : Loop × Option Ending}
    (h : EndsWithin script cap out) (hcap : cap ≤ cap') : EndsWithin script cap' out := by
  obtain ⟨e, he, hrounds, hfinished⟩ := h
  exact ⟨e, he, hrounds.trans hcap, hfinished⟩

/-- From any state of the episode, `n + 1` rounds are enough when the last of them begins at the
hard stop or later. -/
theorem run_ends (h : KeepsTime opts start script) (n i : Nat) (s : Loop)
    (hstart : s.ep.startedAtMs = start)
    (hlate : opts.hardStop ≤ (script i).roundStart - start + n * opts.policy.intervalMs) :
    EndsWithin script (s.ep.rounds + (n + 1))
      (s.run opts ((List.range' i (n + 1)).map script)) := by
  induction n generalizing i s with
  | zero =>
    have hround := round_steady opts s (script i)
    rw [List.range'_succ, List.map_cons, Loop.run]
    cases hr : s.round opts (script i) with
    | error x =>
      rw [hr] at hround
      exact ⟨x.2, rfl, hround.1, fun hall => Ending.finished_of_ne fun he => hround.2 he (hall i)⟩
    | ok s' =>
      rw [hr] at hround
      have hearly := hround.early
      have hprobing := h.probing i
      rw [hstart] at hearly
      omega
  | succ n ih =>
    have hround := round_steady opts s (script i)
    rw [List.range'_succ, List.map_cons, Loop.run]
    cases hr : s.round opts (script i) with
    | error x =>
      rw [hr] at hround
      refine ⟨x.2, rfl, hround.1.trans (by omega), fun hall => ?_⟩
      exact Ending.finished_of_ne fun he => hround.2 he (hall i)
    | ok s' =>
      rw [hr] at hround
      have hnext := h.next i
      have hlater : opts.hardStop ≤
          (script (i + 1)).roundStart - start + n * opts.policy.intervalMs := by
        push_cast at hlate
        linarith
      have hrest := ih (i + 1) s' (hround.started.trans hstart) hlater
      exact hrest.mono (by rw [hround.rounds]; omega)

/-- An episode ends after at most `ceil(hardStopMs / intervalMs) + 1` rounds, whatever the probes,
the control plane, the status page and the restart answer. -/
theorem supervise_ends (opts : SuperviseOpts) (hist : List Int) (start : Int)
    (script : Nat → Round) (hinterval : 0 < opts.policy.intervalMs)
    (h : KeepsTime opts start script) :
    ∃ e, (supervise opts hist start ((List.range opts.roundCap).map script)).2 = some e ∧
      (supervise opts hist start ((List.range opts.roundCap).map script)).1.ep.rounds ≤
        opts.roundCap ∧
      ((∀ i, (script i).Answered) → ∃ o, e = .finished o) := by
  have hpos : (0 : ℚ) < opts.policy.intervalMs := by exact_mod_cast hinterval
  have hcap : opts.hardStop ≤
      (⌈(opts.hardStop : ℚ) / opts.policy.intervalMs⌉₊ : Int) * opts.policy.intervalMs := by
    have hceil := (div_le_iff₀ hpos).mp (Nat.le_ceil ((opts.hardStop : ℚ) / opts.policy.intervalMs))
    exact_mod_cast hceil
  have hstarted := h.started
  have hrun := run_ends h ⌈(opts.hardStop : ℚ) / opts.policy.intervalMs⌉₊ 0
    (Loop.init opts hist start) rfl (by omega)
  have hzero : (Loop.init opts hist start).ep.rounds = 0 := rfl
  rw [← List.range_eq_range', hzero, Nat.zero_add] at hrun
  exact hrun

end Script

/-! ## An episode that is held to the end -/

/-- Reads fail and the status page blocks every restart. -/
def heldRound (i : Nat) : Round where
  roundStart := 2000 * i
  runProbe _ := some false
  obsAt := 2000 * i
  controlStatus := some "ACTIVE_HEALTHY"
  statusAt := 2000 * i
  gate := some (.view { proceed := false, blockers := ["open"], warnings := [] })
  gateAt := 2000 * i
  postAt := 2000 * i
  restart := some 200
  endAt := 2000 * i

def heldOpts : SuperviseOpts where
  probes := ["rest_read"]
  policy := quickPolicy
  createdAtMs := none
  maxWatchMs := 600000
  hardStopMs := some 5000

theorem keepsTime_held : KeepsTime heldOpts 0 heldRound where
  started := by decide
  probing _ := Int.le_refl _
  slept i := by
    simp only [heldRound, heldOpts, quickPolicy, DEFAULT_RUNBOOK_POLICY]
    push_cast
    omega

/-- With a hard stop of 5 s and an interval of 2 s, the fourth round is the last. -/
theorem supervise_ends_held : heldOpts.roundCap = 4 ∧
    ∃ e, (supervise heldOpts [] 0 ((List.range heldOpts.roundCap).map heldRound)).2 = some e ∧
      (supervise heldOpts [] 0 ((List.range heldOpts.roundCap).map heldRound)).1.ep.rounds ≤
        heldOpts.roundCap ∧
      ((∀ i, (heldRound i).Answered) → ∃ o, e = .finished o) :=
  ⟨by norm_num [SuperviseOpts.roundCap, SuperviseOpts.hardStop, heldOpts, quickPolicy,
      DEFAULT_RUNBOOK_POLICY],
    supervise_ends heldOpts [] 0 heldRound (by decide) keepsTime_held⟩

end SupabaseLab.LifecycleOps
