/-
  Harness/Settle.lean --- how a module ends, and the loop that runs the plan.

  Source: harness/src/settle.ts, the run loop of harness/src/run.ts and
  `withHostSuspension` of harness/src/host-pause.ts.  Three things race for the
  outcome of a module: its own promise, the drain of the event loop, and a timer.
  An event is one turn of the event loop with the promise reactions it causes;
  the runner goes on in an event of its own, so anything may fall between the
  end of a race and the runner's answer to it.
-/
import SupabaseLab.Harness.Artifact
import SupabaseLab.Library.Machine

set_option autoImplicit false

namespace SupabaseLab.Harness

open Library

/-! ## Outcomes and what is recorded of them -/

structure TestModule where
  id : String
  title : String
  vantage : Where
  requires : Option (List String) := none
  destructive : Option Bool := none
  experiment : Option String := none
  timeoutMs : Option Nat := none
  deriving DecidableEq, Repr

/-- `TestResult | TestResult[]`. -/
inductive Returned where
  | one (r : TestResult)
  | many (rs : List TestResult)

def Returned.toList : Returned → List TestResult
  | .one r => [r]
  | .many rs => rs

inductive Outcome where
  | settled (value : Returned)
  | threw (error : String)
  | drained
  | timeout (ms : Nat)

/-- `Math.round(ms / 1000)`. -/
def roundSeconds (ms : Nat) : Nat := (ms + 500) / 1000

def withHostSuspension (r : TestResult) (ms : Nat) : TestResult :=
  if ms = 0 then r
  else
    let s := roundSeconds ms
    let note := s!"host suspended {s} s during this test: timings that span it are not measurements"
    { r with
      detail := some (match r.detail with
        | some detail => if detail = "" then note else s!"{detail} ({note})"
        | none => note)
      measurements := some ((r.measurements.getD .empty).set "host_suspended_s" (.number s)) }

/-- The detail line of an outcome that is no value. -/
def failureDetail : Outcome → String
  | .settled _ => ""
  | .threw error => s!"test threw: {error}"
  | .drained => "module promise never settled: the event loop drained with nothing pending, so nothing could resolve it"
  | .timeout ms => s!"module did not settle within its timeoutMs ({ms} ms) and was abandoned"

/-- What the run loop pushes for an outcome.  The duration is read anew for each
result of a module. -/
def record (m : TestModule) (outcome : Outcome) (suspended : Nat) (durationMs : Nat → Nat) :
    List TestResult :=
  match outcome with
  | .settled value => value.toList.mapIdx fun i raw =>
      { withHostSuspension raw suspended with durationMs := some (durationMs i) }
  | outcome =>
      [{ withHostSuspension
          { id := m.id, title := m.title, status := .fail, detail := some (failureDetail outcome) }
          suspended with durationMs := some (durationMs 0) }]

/-- `outcome.kind !== "threw"`, of an outcome that is no value. -/
def Outcome.unsettled : Outcome → Bool
  | .settled _ => false
  | .threw _ => false
  | .drained => true
  | .timeout _ => true

/-! ## The runner and the event loop -/

/-- Modules are named by their place in the plan. -/
inductive Event where
  /-- The runner calls the next module, which may throw before it returns a promise. -/
  | start (threw : Option String)
  | fulfil (i : Nat) (value : Returned)
  | reject (i : Nat) (error : String)
  | timer (i : Nat)
  /-- `beforeExit`. -/
  | drain
  /-- A `setTimeout(w, 0)` of the drain watch fires. -/
  | wake (i : Nat)
  /-- The runner goes on after a race; the clocks say how long it took. -/
  | resume (suspended : Nat) (durationMs : Nat → Nat)

structure Runner where
  /-- Modules called so far. -/
  started : Nat
  /-- The race of the last one: none, undecided, or decided. -/
  race : Option (Option Outcome)
  /-- `wake` of the drain watch: whose promise it would resolve. -/
  watch : Option Nat
  /-- The `setTimeout(w, 0)` not fired yet. -/
  scheduled : List Nat
  /-- The module timers that are set. -/
  timers : List Nat
  /-- The modules whose promise has not settled. -/
  unresolved : List Nat
  /-- Drains with no module armed. -/
  idle : Nat
  outcomes : List (Nat × Outcome)
  results : List TestResult
  unsettled : List String

def Runner.init (skipped : List TestResult) : Runner where
  started := 0
  race := none
  watch := none
  scheduled := []
  timers := []
  unresolved := []
  idle := 0
  outcomes := []
  results := skipped
  unsettled := []

/-- The first racer decides. -/
def Runner.decide (s : Runner) (i : Nat) (outcome : Outcome) : Runner :=
  if i + 1 = s.started ∧ s.race.isSome ∧ s.race.join.isNone then { s with race := some (some outcome) }
  else s

/-- `settleModule`, up to the `await` of the race. -/
def Runner.start (s : Runner) (m : TestModule) (threw : Option String) : Runner :=
  match threw with
  | some error =>
      -- thrown before `arm`: nothing is armed
      { s with started := s.started + 1, race := some (some (.threw error)) }
  | none =>
      { s with
        started := s.started + 1
        race := some none
        watch := some s.started
        unresolved := s.started :: s.unresolved
        timers := if m.timeoutMs.getD 0 = 0 then s.timers else s.started :: s.timers }

/-- `finally`, and what the run loop makes of the outcome. -/
def Runner.resume (s : Runner) (m : TestModule) (outcome : Outcome) (suspended : Nat)
    (durationMs : Nat → Nat) : Runner :=
  { s with
    race := none
    watch := none
    timers := s.timers.filter fun i => i + 1 ≠ s.started
    outcomes := s.outcomes ++ [(s.started - 1, outcome)]
    results := s.results ++ record m outcome suspended durationMs
    unsettled := if outcome.unsettled then s.unsettled ++ [m.id] else s.unsettled }

def Runner.step (plan : List TestModule) (s : Runner) : Event → Option Runner
  | .start threw =>
      match s.race, plan[s.started]? with
      | none, some m => some (s.start m threw)
      | _, _ => none
  | .fulfil i value =>
      if i ∈ s.unresolved then
        some ({ s with unresolved := s.unresolved.erase i }.decide i (.settled value))
      else none
  | .reject i error =>
      if i ∈ s.unresolved then
        some ({ s with unresolved := s.unresolved.erase i }.decide i (.threw error))
      else none
  | .timer i =>
      match plan[i]? with
      | some m =>
          if i ∈ s.timers then
            some ({ s with timers := s.timers.erase i }.decide i (.timeout (m.timeoutMs.getD 0)))
          else none
      | none => none
  | .drain =>
      match s.watch with
      | some i => some { s with watch := none, scheduled := i :: s.scheduled }
      | none => some { s with idle := s.idle + 1 }
  | .wake i =>
      if i ∈ s.scheduled then
        some ({ s with scheduled := s.scheduled.erase i }.decide i .drained)
      else none
  | .resume suspended durationMs =>
      match s.race, plan[s.started - 1]? with
      | some (some outcome), some m => some (s.resume m outcome suspended durationMs)
      | _, _ => none

/-- A run of the plan. -/
def Runner.run (plan : List TestModule) (skipped : List TestResult) (events : List Event) :
    Option Runner :=
  runEvents (Runner.step plan) (Runner.init skipped) events

end SupabaseLab.Harness
