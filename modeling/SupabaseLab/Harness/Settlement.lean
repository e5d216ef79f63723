/-
  Harness/Settlement.lean --- every module gets one outcome, its own.

  The invariant ties the state to the events before it: a scheduled wake-up of
  the pending module stands for a drain that happened while that module was
  pending.  A module that is past cannot touch the race of a later one, because
  every racer carries the place of its module and the race compares it.
-/
import SupabaseLab.Harness.Settle

set_option autoImplicit false

namespace SupabaseLab.Harness

open Library

variable {plan : List TestModule} {skipped : List TestResult}

/-- Module `i` is the one that runs, and its race is not decided. -/
def Runner.Pending (s : Runner) (i : Nat) : Prop := s.race = some none ∧ s.started = i + 1

/-- One of the events is a drain that happened while module `i` was pending. -/
def DrainedWhilePending (plan : List TestModule) (skipped : List TestResult) (events : List Event)
    (i : Nat) : Prop :=
  ∃ before after m, events = before ++ .drain :: after ∧
    Runner.run plan skipped before = some m ∧ m.Pending i

/-- The run loop has reached the end of the plan. -/
def Runner.Over (plan : List TestModule) (s : Runner) : Prop :=
  s.race = none ∧ s.started = plan.length

/-- What reaches the race of module `i`. -/
inductive Event.Of (i : Nat) : Event → Prop where
  | fulfil (value : Returned) : Event.Of i (.fulfil i value)
  | reject (error : String) : Event.Of i (.reject i error)
  | timer : Event.Of i (.timer i)
  | wake : Event.Of i (.wake i)

theorem Event.Of.unique {e : Event} {i j : Nat} (hi : e.Of i) (hj : e.Of j) : i = j := by
  cases hi <;> cases hj <;> rfl

/-- The outcome that a racer brings. -/
def Event.brings (plan : List TestModule) : Event → Option Outcome
  | .fulfil _ value => some (.settled value)
  | .reject _ error => some (.threw error)
  | .timer i => plan[i]?.map fun m => .timeout (m.timeoutMs.getD 0)
  | .wake _ => some .drained
  | .start _ | .drain | .resume _ _ => none

/-- What an event does to the runner.  A racer only takes itself from what is still
to come, and a wake-up is the only one that brings a drain. -/
inductive Runner.Moves (plan : List TestModule) (s : Runner) : Event → Runner → Prop where
  | starts {m : TestModule} (threw : Option String) : s.race = none → plan[s.started]? = some m →
      Runner.Moves plan s (.start threw) (s.start m threw)
  | races {e : Event} {i : Nat} {outcome : Outcome} (unresolved timers scheduled : List Nat) :
      e.Of i → e.brings plan = some outcome → (∀ j ∈ scheduled, j ∈ s.scheduled) →
      (outcome = .drained → i ∈ s.scheduled) →
      Runner.Moves plan s e
        (Runner.decide
          { s with
            unresolved := unresolved
            timers := timers
            scheduled := scheduled } i outcome)
  | drains {i : Nat} : s.watch = some i →
      Runner.Moves plan s .drain { s with watch := none, scheduled := i :: s.scheduled }
  | idles : s.watch = none → Runner.Moves plan s .drain { s with idle := s.idle + 1 }
  | resumes {m : TestModule} {outcome : Outcome} (suspended : Nat) (durationMs : Nat → Nat) :
      s.race = some (some outcome) → plan[s.started - 1]? = some m →
      Runner.Moves plan s (.resume suspended durationMs) (s.resume m outcome suspended durationMs)

theorem Runner.step_moves {s s' : Runner} {e : Event} (hstep : s.step plan e = some s') :
    s.Moves plan e s' := by
  unfold Runner.step at hstep
  cases e with
  | start threw =>
    dsimp only at hstep
    split at hstep
    · rename_i m hrace hm
      cases hstep
      exact .starts threw hrace hm
    · cases hstep
  | fulfil i value =>
    dsimp only at hstep
    split at hstep
    · cases hstep
      exact .races _ s.timers s.scheduled (.fulfil value) rfl (fun _ hj => hj) Outcome.noConfusion
    · cases hstep
  | reject i error =>
    dsimp only at hstep
    split at hstep
    · cases hstep
      exact .races _ s.timers s.scheduled (.reject error) rfl (fun _ hj => hj) Outcome.noConfusion
    · cases hstep
  | timer i =>
    dsimp only at hstep
    split at hstep
    · rename_i m hm
      split at hstep
      · cases hstep
        have hbrings : (Event.timer i).brings plan = some (.timeout (m.timeoutMs.getD 0)) := by
          rw [Event.brings, hm]
          rfl
        exact .races s.unresolved _ s.scheduled .timer hbrings (fun _ hj => hj) Outcome.noConfusion
      · cases hstep
    · cases hstep
  | drain =>
    dsimp only at hstep
    split at hstep
    · rename_i i hwatch
      cases hstep
      exact .drains hwatch
    · rename_i hwatch
      cases hstep
      exact .idles hwatch
  | wake i =>
    dsimp only at hstep
    split at hstep
    · rename_i hi
      cases hstep
      exact .races s.unresolved s.timers _ .wake rfl (fun _ hj => List.mem_of_mem_erase hj) fun _ => hi
    · cases hstep
  | resume suspended durationMs =>
    dsimp only at hstep
    split at hstep
    · rename_i outcome m hrace hm
      cases hstep
      exact .resumes suspended durationMs hrace hm
    · cases hstep

/-! ## The invariant -/

structure SettleInv (plan : List TestModule) (skipped : List TestResult) (events : List Event)
    (s : Runner) : Prop where
  order : s.outcomes.map Prod.fst = List.range s.outcomes.length
  recorded : s.outcomes.length + (if s.race.isSome then 1 else 0) = s.started
  bound : s.started ≤ plan.length
  armed : ∀ i, s.watch = some i → s.race.isSome = true ∧ s.started = i + 1
  scheduled : ∀ i ∈ s.scheduled, i < s.started ∧
    (s.Pending i → DrainedWhilePending plan skipped events i)
  decided : s.race = some (some .drained) →
    DrainedWhilePending plan skipped events (s.started - 1)
  credited : ∀ i, (i, Outcome.drained) ∈ s.outcomes → DrainedWhilePending plan skipped events i

section Invariant

variable {events : List Event} {s s' : Runner} {e : Event} {i : Nat} {outcome : Outcome}

theorem DrainedWhilePending.later (h : DrainedWhilePending plan skipped events i) :
    DrainedWhilePending plan skipped (events ++ [e]) i := by
  obtain ⟨before, after, m, rfl, hrun, hpending⟩ := h
  exact ⟨before, after ++ [e], m, by simp, hrun, hpending⟩

/-- A longer history and fewer wake-ups keep the invariant. -/
theorem SettleInv.frame (h : SettleInv plan skipped events s) (hstarted : s'.started = s.started)
    (hrace : s'.race = s.race) (hwatch : s'.watch = s.watch)
    (hscheduled : ∀ i ∈ s'.scheduled, i ∈ s.scheduled) (houtcomes : s'.outcomes = s.outcomes) :
    SettleInv plan skipped (events ++ [e]) s' where
  order := by
    rw [houtcomes]
    exact h.order
  recorded := by
    rw [houtcomes, hrace, hstarted]
    exact h.recorded
  bound := by
    rw [hstarted]
    exact h.bound
  armed := by
    rw [hwatch, hrace, hstarted]
    exact h.armed
  scheduled := by
    intro i hi
    obtain ⟨hlt, hpending⟩ := h.scheduled i (hscheduled i hi)
    refine ⟨hstarted ▸ hlt, fun hp => (hpending ?_).later⟩
    exact ⟨hrace ▸ hp.1, hstarted ▸ hp.2⟩
  decided := by
    rw [hrace, hstarted]
    exact fun hd => (h.decided hd).later
  credited := by
    rw [houtcomes]
    exact fun i hi => (h.credited i hi).later

/-- The race is decided by the first racer of the pending module, and by nothing else. -/
theorem Runner.decide_cases (s : Runner) (i : Nat) (outcome : Outcome) :
    s.Pending i ∧ s.decide i outcome = { s with race := some (some outcome) } ∨
      ¬ s.Pending i ∧ s.decide i outcome = s := by
  unfold Runner.decide Runner.Pending
  cases hrace : s.race with
  | none => right; simp
  | some decided =>
    cases decided with
    | some o => right; simp
    | none =>
      by_cases hi : i + 1 = s.started
      · left
        refine ⟨⟨rfl, hi.symm⟩, if_pos ?_⟩
        exact ⟨hi, rfl, rfl⟩
      · right
        refine ⟨fun hp => hi hp.2.symm, if_neg fun hand => hi hand.1⟩

theorem SettleInv.decide (h : SettleInv plan skipped events s)
    (hdrained : outcome = .drained → s.Pending i → DrainedWhilePending plan skipped events i) :
    SettleInv plan skipped events (s.decide i outcome) := by
  rcases s.decide_cases i outcome with ⟨hpending, heq⟩ | ⟨-, heq⟩
  · rw [heq]
    obtain ⟨hrace, hstarted⟩ := hpending
    have hrecorded := h.recorded
    rw [hrace] at hrecorded
    refine ⟨h.order, hrecorded, h.bound, fun j hj => ⟨rfl, (h.armed j hj).2⟩,
      fun j hj => ⟨(h.scheduled j hj).1, fun hp => ?_⟩, fun hd => ?_, h.credited⟩
    · cases hp.1
    · have hi : s.started - 1 = i := by omega
      show DrainedWhilePending plan skipped events (s.started - 1)
      rw [hi]
      exact hdrained (Option.some.inj (Option.some.inj hd)) ⟨hrace, hstarted⟩
  · rw [heq]
    exact h

/-- The next module starts. -/
theorem SettleInv.start (h : SettleInv plan skipped events s) (hrace : s.race = none)
    {m : TestModule} (hm : plan[s.started]? = some m) (threw : Option String) :
    SettleInv plan skipped (events ++ [e]) (s.start m threw) := by
  have hlt : s.started < plan.length := (List.getElem?_eq_some_iff.mp hm).1
  have hrecorded := h.recorded
  rw [hrace] at hrecorded
  have hold : ∀ i ∈ s.scheduled, i < s.started + 1 ∧ i + 1 ≠ s.started + 1 := by
    intro i hi
    have := (h.scheduled i hi).1
    omega
  cases threw with
  | some error =>
    refine ⟨h.order, ?_, hlt, fun i hi => ?_, fun i hi => ⟨(hold i hi).1, fun hp => ?_⟩, fun hd => ?_,
      fun i hi => (h.credited i hi).later⟩
    · exact congrArg (· + 1) hrecorded
    · have := (h.armed i hi).1
      rw [hrace] at this
      cases this
    · cases hp.1
    · cases hd
  | none =>
    refine ⟨h.order, ?_, hlt, fun i hi => ?_, fun i hi => ⟨(hold i hi).1, fun hp => ?_⟩, fun hd => ?_,
      fun i hi => (h.credited i hi).later⟩
    · exact congrArg (· + 1) hrecorded
    · cases hi
      exact ⟨rfl, rfl⟩
    · exact absurd hp.2.symm (hold i hi).2
    · cases hd

/-- The runner records the outcome of the module that was running. -/
theorem SettleInv.resume (h : SettleInv plan skipped events s) (hrace : s.race = some (some outcome))
    (m : TestModule) (suspended : Nat) (durationMs : Nat → Nat) :
    SettleInv plan skipped (events ++ [e]) (s.resume m outcome suspended durationMs) := by
  have hrecorded := h.recorded
  rw [hrace] at hrecorded
  have hlast : s.started - 1 = s.outcomes.length := by
    rw [← hrecorded]
    rfl
  refine ⟨?_, ?_, h.bound, fun i hi => ?_, fun i hi => ⟨(h.scheduled i hi).1, fun hp => ?_⟩,
    fun hd => ?_, fun i hi => ?_⟩
  · show (s.outcomes ++ [(s.started - 1, outcome)]).map Prod.fst = List.range (s.outcomes ++ _).length
    rw [List.map_append, List.length_append, List.length_singleton, List.range_succ, h.order, hlast]
    rfl
  · show (s.outcomes ++ [(s.started - 1, outcome)]).length + 0 = s.started
    rw [List.length_append, ← hrecorded]
    rfl
  · cases hi
  · cases hp.1
  · cases hd
  · rcases List.mem_append.mp hi with hi | hi
    · exact (h.credited i hi).later
    · obtain ⟨rfl, rfl⟩ := Prod.mk.inj (List.mem_singleton.mp hi)
      exact (h.decided hrace).later

theorem SettleInv.step (hrun : Runner.run plan skipped events = some s)
    (h : SettleInv plan skipped events s) (hstep : s.step plan e = some s') :
    SettleInv plan skipped (events ++ [e]) s' := by
  cases Runner.step_moves hstep with
  | starts threw hrace hm => exact h.start hrace hm threw
  | @races _ i outcome unresolved timers scheduled _ _ hscheduled hdrained =>
    refine SettleInv.decide (h.frame rfl rfl rfl hscheduled rfl) fun hd hp => ?_
    exact ((h.scheduled i (hdrained hd)).2 hp).later
  | @drains i hwatch =>
    obtain ⟨hsome, hstarted⟩ := h.armed i hwatch
    have hbase : SettleInv plan skipped (events ++ [.drain]) { s with watch := none } :=
      ⟨h.order, h.recorded, h.bound, fun j hj => (nomatch hj),
        fun j hj => ⟨(h.scheduled j hj).1, fun hp => ((h.scheduled j hj).2 hp).later⟩,
        fun hd => (h.decided hd).later, fun j hj => (h.credited j hj).later⟩
    refine ⟨hbase.order, hbase.recorded, hbase.bound, hbase.armed, fun j hj => ?_, hbase.decided,
      hbase.credited⟩
    rcases List.mem_cons.mp hj with rfl | hj
    · refine ⟨?_, fun hp => ⟨events, [], s, rfl, hrun, hp⟩⟩
      show j < s.started
      omega
    · exact hbase.scheduled j hj
  | idles => exact h.frame rfl rfl rfl (fun _ hj => hj) rfl
  | @resumes m outcome suspended durationMs hrace _ => exact h.resume hrace m suspended durationMs

theorem settleInv_init : SettleInv plan skipped [] (Runner.init skipped) where
  order := rfl
  recorded := rfl
  bound := Nat.zero_le _
  armed := by
    intro i hi
    cases hi
  scheduled := fun i hi => absurd hi List.not_mem_nil
  decided := by
    intro hd
    cases hd
  credited := fun i hi => absurd hi List.not_mem_nil

theorem settleInv_run (hrun : Runner.run plan skipped events = some s) :
    SettleInv plan skipped events s :=
  runEvents_invariant settleInv_init (fun _ _ _ _ hm h hstep => h.step hm hstep) events s hrun

end Invariant

/-! ## What happens to what was recorded -/

section Recorded

variable {events more : List Event} {s s' : Runner} {e : Event} {i : Nat} {outcome : Outcome}

theorem Runner.decide_recorded (s : Runner) (i : Nat) (outcome : Outcome) :
    (s.decide i outcome).outcomes = s.outcomes ∧ (s.decide i outcome).results = s.results := by
  rcases s.decide_cases i outcome with ⟨-, heq⟩ | ⟨-, heq⟩
  · rw [heq]
    exact ⟨rfl, rfl⟩
  · rw [heq]
    exact ⟨rfl, rfl⟩

/-- A racer changes the race, and nothing that was recorded. -/
theorem Event.Of.step (he : e.Of i) (hstep : s.step plan e = some s') :
    ∃ (s₁ : Runner) (outcome : Outcome), e.brings plan = some outcome ∧
      s' = s₁.decide i outcome ∧ s₁.started = s.started ∧
      s₁.race = s.race ∧ s₁.outcomes = s.outcomes ∧ s₁.results = s.results := by
  cases Runner.step_moves hstep with
  | races unresolved timers scheduled hof hbrings =>
    rw [he.unique hof]
    exact ⟨_, _, hbrings, rfl, rfl, rfl, rfl, rfl⟩
  | starts | drains | idles | resumes => cases he

/-- Steps only add to what was recorded. -/
theorem step_recorded (hstep : s.step plan e = some s') :
    s.outcomes <+: s'.outcomes ∧ s.results <+: s'.results := by
  cases Runner.step_moves hstep with
  | starts threw =>
    cases threw with
    | some error => exact ⟨List.prefix_refl _, List.prefix_refl _⟩
    | none => exact ⟨List.prefix_refl _, List.prefix_refl _⟩
  | races unresolved timers scheduled =>
    obtain ⟨houtcomes, hresults⟩ := Runner.decide_recorded
      { s with
        unresolved := unresolved
        timers := timers
        scheduled := scheduled } _ _
    rw [houtcomes, hresults]
    exact ⟨List.prefix_refl _, List.prefix_refl _⟩
  | drains | idles => exact ⟨List.prefix_refl _, List.prefix_refl _⟩
  | resumes => exact ⟨List.prefix_append _ _, List.prefix_append _ _⟩

theorem run_recorded (hrun : runEvents (Runner.step plan) s more = some s') :
    s.outcomes <+: s'.outcomes ∧ s.results <+: s'.results := by
  induction more generalizing s with
  | nil =>
    cases hrun
    exact ⟨List.prefix_refl _, List.prefix_refl _⟩
  | cons e more ih =>
    obtain ⟨m, hm, hrest⟩ := Option.bind_eq_some_iff.mp hrun
    obtain ⟨houtcomes, hresults⟩ := step_recorded hm
    obtain ⟨houtcomes', hresults'⟩ := ih hrest
    exact ⟨houtcomes.trans houtcomes', hresults.trans hresults'⟩

/-- What a module does after its outcome was recorded leaves the runner as it was. -/
theorem late_step (h : SettleInv plan skipped events s) (hi : i ∈ s.outcomes.map Prod.fst)
    (he : e.Of i) (hstep : s.step plan e = some s') :
    s'.race = s.race ∧ s'.outcomes = s.outcomes ∧ s'.results = s.results := by
  obtain ⟨s₁, outcome, -, rfl, hstarted, hrace, houtcomes, hresults⟩ := he.step hstep
  have hlt : i < s.outcomes.length := by
    rw [h.order] at hi
    exact List.mem_range.mp hi
  rcases s₁.decide_cases i outcome with ⟨hpending, -⟩ | ⟨-, heq⟩
  · -- a pending module has no outcome yet
    have hrecorded := h.recorded
    rw [← hrace, hpending.1, ← hstarted, hpending.2] at hrecorded
    simp only [Option.isSome_some, if_true] at hrecorded
    omega
  · rw [heq]
    exact ⟨hrace, houtcomes, hresults⟩

/-- The pending module gets what reaches its race first. -/
theorem pending_step (he : e.Of i) (hpending : s.Pending i) (hstep : s.step plan e = some s') :
    ∃ outcome, e.brings plan = some outcome ∧ s'.race = some (some outcome) := by
  obtain ⟨s₁, outcome, hbrings, rfl, hstarted, hrace, -, -⟩ := he.step hstep
  rcases s₁.decide_cases i outcome with ⟨-, heq⟩ | ⟨hnot, -⟩
  · exact ⟨outcome, hbrings, by rw [heq]⟩
  · exact absurd ⟨hrace.trans hpending.1, hstarted.trans hpending.2⟩ hnot

/-- `part` is what the run loop makes of an outcome, the clocks standing as they may. -/
def RecordedAs (plan : List TestModule) (o : Nat × Outcome) (part : List TestResult) : Prop :=
  ∃ m suspended durationMs, plan[o.1]? = some m ∧ part = record m o.2 suspended durationMs

/-- After the skipped tests the results are those of the outcomes, in their order. -/
def Runner.Accounted (plan : List TestModule) (skipped : List TestResult) (s : Runner) : Prop :=
  ∃ parts, s.results = skipped ++ parts.flatten ∧ List.Forall₂ (RecordedAs plan) s.outcomes parts

theorem Runner.Accounted.frame (h : s.Accounted plan skipped) (houtcomes : s'.outcomes = s.outcomes)
    (hresults : s'.results = s.results) : s'.Accounted plan skipped := by
  unfold Runner.Accounted
  rw [houtcomes, hresults]
  exact h

theorem Runner.Accounted.resume (h : s.Accounted plan skipped) {m : TestModule}
    (hm : plan[s.started - 1]? = some m) (suspended : Nat) (durationMs : Nat → Nat) :
    (s.resume m outcome suspended durationMs).Accounted plan skipped := by
  obtain ⟨parts, hresults, hparts⟩ := h
  refine ⟨parts ++ [record m outcome suspended durationMs], ?_, ?_⟩
  · show s.results ++ record m outcome suspended durationMs = _
    rw [hresults, List.flatten_append, List.flatten_singleton, List.append_assoc]
  · have hlast : RecordedAs plan (s.started - 1, outcome) (record m outcome suspended durationMs) :=
      ⟨m, suspended, durationMs, hm, rfl⟩
    exact List.rel_append hparts (.cons hlast .nil)

theorem Runner.Accounted.step (h : s.Accounted plan skipped) (hstep : s.step plan e = some s') :
    s'.Accounted plan skipped := by
  cases Runner.step_moves hstep with
  | starts threw =>
    cases threw with
    | some error => exact h.frame rfl rfl
    | none => exact h.frame rfl rfl
  | races unresolved timers scheduled =>
    obtain ⟨houtcomes, hresults⟩ := Runner.decide_recorded
      { s with
        unresolved := unresolved
        timers := timers
        scheduled := scheduled } _ _
    exact h.frame houtcomes hresults
  | drains | idles => exact h.frame rfl rfl
  | resumes suspended durationMs _ hm => exact h.resume hm suspended durationMs

theorem accounted_run (hrun : Runner.run plan skipped events = some s) : s.Accounted plan skipped :=
  runEvents_invariant (I := fun _ s => s.Accounted plan skipped)
    ⟨[], (List.append_nil _).symm, .nil⟩ (fun _ _ _ _ _ h hstep => h.step hstep) events s hrun

end Recorded

/-! ## Settlement -/

/-- Over every interleaving of a run: outcomes come one a module in the order of
the plan, and at the end every module has one; a drain is credited only to a
module that was pending when it happened; between modules the watch is disarmed;
whatever a module does after its outcome changes nothing, and nothing recorded is
ever changed; what reaches a pending module first decides its outcome; the results
are the skipped tests and then what each outcome gives, in order. -/
theorem module_settlement (plan : List TestModule) (skipped : List TestResult)
    (events : List Event) (s : Runner) (hrun : Runner.run plan skipped events = some s) :
    (s.outcomes.map Prod.fst = List.range s.outcomes.length ∧
        (s.Over plan → s.outcomes.length = plan.length)) ∧
      (∀ i, (i, Outcome.drained) ∈ s.outcomes → DrainedWhilePending plan skipped events i) ∧
      (s.race = none → s.watch = none) ∧
      (∀ i ∈ s.outcomes.map Prod.fst, ∀ e, e.Of i → ∀ s', s.step plan e = some s' →
        s'.race = s.race ∧ s'.outcomes = s.outcomes ∧ s'.results = s.results) ∧
      (∀ more s', runEvents (Runner.step plan) s more = some s' →
        s.outcomes <+: s'.outcomes ∧ s.results <+: s'.results) ∧
      (∀ i, s.Pending i → ∀ e, e.Of i → ∀ s', s.step plan e = some s' →
        ∃ outcome, e.brings plan = some outcome ∧ s'.race = some (some outcome)) ∧
      s.Accounted plan skipped := by
  have h := settleInv_run hrun
  refine ⟨⟨h.order, fun hover => ?_⟩, h.credited, fun hrace => ?_, fun i hi e he s' hstep => ?_,
    fun more s' hmore => ?_, fun i hpending e he s' hstep => ?_, accounted_run hrun⟩
  · have hrecorded := h.recorded
    rw [hover.1, hover.2] at hrecorded
    exact hrecorded
  · cases hwatch : s.watch with
    | none => rfl
    | some i =>
      have hsome := (h.armed i hwatch).1
      rw [hrace] at hsome
      cases hsome
  · exact late_step h hi he hstep
  · exact run_recorded hmore
  · exact pending_step he hpending hstep

/-- The first module drains and settles after the second one did. -/
theorem module_settlement_two :
    let plan : List TestModule :=
      [{ id := "T1", title := "hangs", vantage := .runner },
        { id := "T2", title := "answers", vantage := .runner }]
    let events : List Event :=
      [.start none, .drain, .wake 0, .resume 0 fun _ => 5, .start none,
        .fulfil 1 (.one { id := "T2", title := "answers", status := .pass }),
        .fulfil 0 (.one { id := "T1", title := "hangs", status := .pass }), .resume 0 fun _ => 7]
    ∃ s, Runner.run plan [] events = some s ∧ s.Over plan ∧ s.outcomes.length = plan.length ∧
      DrainedWhilePending plan [] events 0 := by
  intro plan events
  obtain ⟨s, hrun, hover, hdrained⟩ : ∃ s, Runner.run plan [] events = some s ∧ s.Over plan ∧
      (0, Outcome.drained) ∈ s.outcomes := ⟨_, rfl, ⟨rfl, rfl⟩, List.mem_cons_self⟩
  have h := module_settlement plan [] events s hrun
  exact ⟨s, hrun, hover, h.1.2 hover, h.2.1 0 hdrained⟩

end SupabaseLab.Harness
