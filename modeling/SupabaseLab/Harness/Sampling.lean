/-
  Harness/Sampling.lean --- sampling during an operation.

  Source: `sampleDuring` of harness/src/sampler.ts.  The probe loops, the watchdog
  and the operation run side by side; an event is one stretch of one of them, from
  a read of the clock or an `await` to the next, or time going by.  Events may
  come in any order, so a probe can take any time and the clock can jump between
  any two of them.  `jumps` is no variable of the source: it notes the jumps that
  are longer than the watchdog's slack.
-/
import SupabaseLab.Harness.Sampler
import SupabaseLab.Library.Machine

set_option autoImplicit false

namespace SupabaseLab.Harness

open Library

def PAUSE_SLACK_MS : Int := 2000

structure SampleOptions where
  intervalMs : Int
  maxWaitMs : Int
  settleMs : Int
  deriving DecidableEq, Repr

namespace Sampling

/-! ## The activities -/

/-- Where a probe loop is. -/
inductive LoopPhase where
  /-- At the condition of its `while`. -/
  | checking
  /-- Past it, before the clock is read for `at`. -/
  | ready
  | probing (atMs : Int)
  | sleeping
  | done
  deriving DecidableEq, Repr

structure Loop where
  phase : LoopPhase
  path : PathState
  deriving DecidableEq, Repr

/-- Where the watchdog is; `lastWall` is what it read last. -/
inductive Watch where
  | unstarted
  | checking (lastWall : Int)
  | sleeping (lastWall : Int)
  | done
  deriving DecidableEq, Repr

/-- Where `sampleDuring` itself is. -/
inductive Main where
  | starting
  | operating
  /-- The operation returned; `await watchdog`. -/
  | awaitWatch
  /-- `stop` is set; `await Promise.all(loops)`. -/
  | awaitLoops
  /-- The operation threw; everything is awaited. -/
  | failing (error : String)
  | returned (endMs : Int) (windows : List PathWindow)
  | rethrown (error : String)
  deriving DecidableEq, Repr

structure State where
  /-- The wall clock. -/
  now : Int
  t0 : Int
  stop : Bool
  loops : List Loop
  watch : Watch
  main : Main
  pauses : List Pause
  jumps : List Pause
  deriving DecidableEq, Repr

def init (t0 : Int) (names : List String) : State where
  now := t0
  t0 := t0
  stop := false
  loops := names.map fun name => ⟨.checking, { name := name }⟩
  watch := .unstarted
  main := .starting
  pauses := []
  jumps := []

inductive Event where
  | advance (ms : Nat)
  | loopCheck (i : Nat)
  | loopProbe (i : Nat)
  | answer (i : Nat) (outcome : ProbeOutcome)
  | loopWake (i : Nat)
  | watchStart
  | watchCheck
  | watchTick
  | opReturns
  | opThrows (error : String)
  | stopSampling
  | finish
  | rethrow
  deriving DecidableEq, Repr

/-! ## Steps -/

/-- ms after sampling started. -/
def State.atMs (s : State) : Int := s.now - s.t0

/-- The condition of both `while`s. -/
def State.goesOn (s : State) (opts : SampleOptions) : Bool := !s.stop && decide (s.atMs < opts.maxWaitMs)

def State.paths (s : State) : List PathState := s.loops.map (·.path)

def State.setLoop (s : State) (i : Nat) (loop : Loop) : State :=
  { s with loops := s.loops.set i loop }

/-- Something went down and came back. -/
def State.downAndBack (s : State) : Bool :=
  s.paths.any (fun p => p.firstFailMs.isSome) && allSettled s.paths

/-- A step of probe loop `i`. -/
def loopStep (opts : SampleOptions) (s : State) (loop : Loop) : Event → Option Loop
  | .loopCheck _ =>
      if loop.phase = .checking then
        some { loop with phase := if s.goesOn opts then .ready else .done }
      else none
  | .loopProbe _ => if loop.phase = .ready then some { loop with phase := .probing s.atMs } else none
  | .answer _ outcome =>
      match loop.phase with
      | .probing atMs =>
          some { phase := .sleeping, path := loop.path.observe opts.settleMs atMs outcome }
      | _ => none
  | .loopWake _ => if loop.phase = .sleeping then some { loop with phase := .checking } else none
  | _ => none

def onLoop (opts : SampleOptions) (s : State) (i : Nat) (e : Event) : Option State :=
  (s.loops[i]?.bind fun loop => loopStep opts s loop e).map (s.setLoop i)

def allDone (s : State) : Bool := s.loops.all fun loop => loop.phase = .done

def State.windows (s : State) : List PathWindow :=
  s.paths.map fun p => finalise p s.pauses s.atMs

/-- The watchdog wakes up: a late wake-up is a pause of the host. -/
def State.tick (s : State) (opts : SampleOptions) (lastWall : Int) : State :=
  { s with
    watch := .checking s.now
    pauses := if PAUSE_SLACK_MS < s.now - lastWall - opts.intervalMs then
        s.pauses ++ [⟨lastWall - s.t0, s.now - s.t0⟩]
      else s.pauses }

def step (opts : SampleOptions) (s : State) : Event → Option State
  | .advance ms =>
      some { s with
        now := s.now + ms
        jumps := if PAUSE_SLACK_MS + opts.intervalMs < ms then
            s.jumps ++ [⟨s.atMs, s.atMs + ms⟩]
          else s.jumps }
  | .loopCheck i => onLoop opts s i (.loopCheck i)
  | .loopProbe i => onLoop opts s i (.loopProbe i)
  | .answer i outcome => onLoop opts s i (.answer i outcome)
  | .loopWake i => onLoop opts s i (.loopWake i)
  | .watchStart =>
      if s.main = .starting then some { s with watch := .checking s.now, main := .operating } else none
  | .watchCheck =>
      match s.watch with
      | .checking lastWall =>
          some { s with
            watch := if s.goesOn opts && !s.downAndBack then .sleeping lastWall else .done }
      | _ => none
  | .watchTick =>
      match s.watch with
      | .sleeping lastWall => some (s.tick opts lastWall)
      | _ => none
  | .opReturns => if s.main = .operating then some { s with main := .awaitWatch } else none
  | .opThrows error =>
      if s.main = .operating then some { s with main := .failing error, stop := true } else none
  | .stopSampling =>
      if s.main = .awaitWatch ∧ s.watch = .done then some { s with main := .awaitLoops, stop := true }
      else none
  | .finish =>
      if s.main = .awaitLoops ∧ allDone s = true then
        some { s with main := .returned s.atMs s.windows }
      else none
  | .rethrow =>
      match s.main with
      | .failing error =>
          if allDone s = true ∧ s.watch = .done then some { s with main := .rethrown error } else none
      | _ => none

/-- A run of `sampleDuring`. -/
def run (opts : SampleOptions) (t0 : Int) (names : List String) (events : List Event) : Option State :=
  runEvents (step opts) (init t0 names) events

/-! ## What a step of a loop can do -/

section Loops

variable {opts : SampleOptions} {s s' : State} {i : Nat} {e : Event}

/-- A step of a loop changes one loop and nothing else. -/
theorem onLoop_eq (h : onLoop opts s i e = some s') :
    ∃ loop loop', s.loops[i]? = some loop ∧ loopStep opts s loop e = some loop' ∧
      s' = s.setLoop i loop' := by
  obtain ⟨loop', hloop', rfl⟩ := Option.map_eq_some_iff.mp h
  obtain ⟨loop, hloop, hstep⟩ := Option.bind_eq_some_iff.mp hloop'
  exact ⟨loop, loop', hloop, hstep, rfl⟩

/-- What a step of a loop can do. -/
inductive LoopTo (opts : SampleOptions) (s : State) (loop : Loop) : Event → Loop → Prop where
  | checks (i : Nat) (hphase : loop.phase = .checking) : LoopTo opts s loop (.loopCheck i)
      { loop with phase := if s.goesOn opts then .ready else .done }
  | probes (i : Nat) (hphase : loop.phase = .ready) :
      LoopTo opts s loop (.loopProbe i) { loop with phase := .probing s.atMs }
  | answers (i : Nat) (outcome : ProbeOutcome) (atMs : Int) (hphase : loop.phase = .probing atMs) :
      LoopTo opts s loop (.answer i outcome)
        { phase := .sleeping, path := loop.path.observe opts.settleMs atMs outcome }
  | wakes (i : Nat) (hphase : loop.phase = .sleeping) :
      LoopTo opts s loop (.loopWake i) { loop with phase := .checking }

theorem loopTo_of_loopStep {loop loop' : Loop} (h : loopStep opts s loop e = some loop') :
    LoopTo opts s loop e loop' := by
  unfold loopStep at h
  cases e with
  | loopCheck i =>
    dsimp only at h
    split at h
    · rename_i hphase
      cases h
      exact .checks i hphase
    · cases h
  | loopProbe i =>
    dsimp only at h
    split at h
    · rename_i hphase
      cases h
      exact .probes i hphase
    · cases h
  | answer i outcome =>
    dsimp only at h
    split at h
    · rename_i atMs hphase
      cases h
      exact .answers i outcome atMs hphase
    · cases h
  | loopWake i =>
    dsimp only at h
    split at h
    · rename_i hphase
      cases h
      exact .wakes i hphase
    · cases h
  | _ => cases h

theorem loopStep_path {loop loop' : Loop} (h : loopStep opts s loop e = some loop') :
    loop'.path = loop.path ∨ ∃ atMs i outcome, e = .answer i outcome ∧
      loop.phase = .probing atMs ∧ loop'.path = loop.path.observe opts.settleMs atMs outcome := by
  cases loopTo_of_loopStep h with
  | checks | probes | wakes => exact .inl rfl
  | answers i outcome atMs hphase => exact .inr ⟨atMs, i, outcome, rfl, hphase, rfl⟩

theorem loopStep_of_done {loop loop' : Loop} (hdone : loop.phase = .done)
    (h : loopStep opts s loop e = some loop') : False := by
  cases loopTo_of_loopStep h with
  | checks i hphase => exact LoopPhase.noConfusion (hdone.symm.trans hphase)
  | probes i hphase => exact LoopPhase.noConfusion (hdone.symm.trans hphase)
  | answers i outcome atMs hphase => exact LoopPhase.noConfusion (hdone.symm.trans hphase)
  | wakes i hphase => exact LoopPhase.noConfusion (hdone.symm.trans hphase)

/-- A loop that is probing after a step began to just now. -/
theorem loopStep_probing {loop loop' : Loop} {n : Int} (h : loopStep opts s loop e = some loop')
    (hphase : loop'.phase = .probing n) : n = s.atMs := by
  cases loopTo_of_loopStep h with
  | checks i =>
    dsimp only at hphase
    split at hphase
    · cases hphase
    · cases hphase
  | probes i =>
    cases hphase
    rfl
  | answers i outcome atMs => cases hphase
  | wakes i => cases hphase

/-- What a step can do. -/
inductive StepTo (opts : SampleOptions) (s : State) : Event → State → Prop where
  | advance (ms : Nat) : StepTo opts s (.advance ms)
      { s with
        now := s.now + ms
        jumps := if PAUSE_SLACK_MS + opts.intervalMs < ms then
            s.jumps ++ [⟨s.atMs, s.atMs + ms⟩]
          else s.jumps }
  | loop (e : Event) (i : Nat) (loop loop' : Loop) (hget : s.loops[i]? = some loop)
      (hloop : loopStep opts s loop e = some loop')
      (hof : ∀ j outcome, e = .answer j outcome → j = i) : StepTo opts s e (s.setLoop i loop')
  | watchStart (hmain : s.main = .starting) :
      StepTo opts s .watchStart { s with watch := .checking s.now, main := .operating }
  | watchGoesOn (lastWall : Int) (hwatch : s.watch = .checking lastWall)
      (hgoes : s.goesOn opts = true) (hdown : s.downAndBack = false) :
      StepTo opts s .watchCheck { s with watch := .sleeping lastWall }
  | watchEnds (lastWall : Int) (hwatch : s.watch = .checking lastWall)
      (hends : s.goesOn opts = false ∨ s.downAndBack = true) :
      StepTo opts s .watchCheck { s with watch := .done }
  | watchTick (lastWall : Int) (hwatch : s.watch = .sleeping lastWall) :
      StepTo opts s .watchTick (s.tick opts lastWall)
  | opReturns (hmain : s.main = .operating) :
      StepTo opts s .opReturns { s with main := .awaitWatch }
  | opThrows (error : String) (hmain : s.main = .operating) :
      StepTo opts s (.opThrows error) { s with main := .failing error, stop := true }
  | stopSampling (hmain : s.main = .awaitWatch) (hwatch : s.watch = .done) :
      StepTo opts s .stopSampling { s with main := .awaitLoops, stop := true }
  | finish (hmain : s.main = .awaitLoops) (hloops : allDone s = true) :
      StepTo opts s .finish { s with main := .returned s.atMs s.windows }
  | rethrow (error : String) (hmain : s.main = .failing error) (hloops : allDone s = true)
      (hwatch : s.watch = .done) : StepTo opts s .rethrow { s with main := .rethrown error }

theorem stepTo_of_step (h : step opts s e = some s') : StepTo opts s e s' := by
  cases e with
  | advance ms =>
    cases h
    exact .advance ms
  | loopCheck i =>
    obtain ⟨loop, loop', hget, hloop, rfl⟩ := onLoop_eq h
    exact .loop _ i loop loop' hget hloop fun _ _ he => nomatch he
  | loopProbe i =>
    obtain ⟨loop, loop', hget, hloop, rfl⟩ := onLoop_eq h
    exact .loop _ i loop loop' hget hloop fun _ _ he => nomatch he
  | answer i outcome =>
    obtain ⟨loop, loop', hget, hloop, rfl⟩ := onLoop_eq h
    refine .loop _ i loop loop' hget hloop fun j outcome' he => ?_
    cases he
    rfl
  | loopWake i =>
    obtain ⟨loop, loop', hget, hloop, rfl⟩ := onLoop_eq h
    exact .loop _ i loop loop' hget hloop fun _ _ he => nomatch he
  | watchStart =>
    unfold step at h
    dsimp only at h
    split at h
    · rename_i hmain
      cases h
      exact .watchStart hmain
    · cases h
  | watchCheck =>
    unfold step at h
    dsimp only at h
    split at h
    · rename_i lastWall hwatch
      by_cases hgoes : (s.goesOn opts && !s.downAndBack) = true
      · rw [if_pos hgoes] at h
        cases h
        rw [Bool.and_eq_true, Bool.not_eq_true'] at hgoes
        exact .watchGoesOn lastWall hwatch hgoes.1 hgoes.2
      · rw [if_neg hgoes] at h
        cases h
        refine .watchEnds lastWall hwatch ?_
        rw [Bool.not_eq_true, Bool.and_eq_false_iff, Bool.not_eq_false'] at hgoes
        exact hgoes
    · cases h
  | watchTick =>
    unfold step at h
    dsimp only at h
    split at h
    · rename_i lastWall hwatch
      cases h
      exact .watchTick lastWall hwatch
    · cases h
  | opReturns =>
    unfold step at h
    dsimp only at h
    split at h
    · rename_i hmain
      cases h
      exact .opReturns hmain
    · cases h
  | opThrows error =>
    unfold step at h
    dsimp only at h
    split at h
    · rename_i hmain
      cases h
      exact .opThrows error hmain
    · cases h
  | stopSampling =>
    unfold step at h
    dsimp only at h
    split at h
    · rename_i hready
      cases h
      exact .stopSampling hready.1 hready.2
    · cases h
  | finish =>
    unfold step at h
    dsimp only at h
    split at h
    · rename_i hready
      cases h
      exact .finish hready.1 hready.2
    · cases h
  | rethrow =>
    unfold step at h
    dsimp only at h
    split at h
    · rename_i error hmain
      split at h
      · rename_i hready
        cases h
        exact .rethrow error hmain hready.1 hready.2
      · cases h
    · cases h

end Loops

end Sampling

end SupabaseLab.Harness
