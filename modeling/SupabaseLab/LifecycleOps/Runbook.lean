/-
  LifecycleOps/Runbook.lean --- the self-restart runbook.

  Source: experiments/lifecycle-ops/lib/runbook.ts (`Detector`,
  `RecoveryTracker`, `decide`, `supervise`) and `RESTART_MIN_AGE_MS` of gate.ts.

  A round of `supervise` is a function of the answers it is given (`Round`): the
  clock each time it is read, the probes, and what the control plane, the status
  page and the restart POST answer.  An answer that is `none` is a call that
  throws.  The calls made are recorded in order (`Event`).  The moments at which
  a status or gate answer arrives are part of a round too, although the code
  never reads the clock there: they say how old an answer is when it is used.

  Times are milliseconds as integers.  Failure texts, the response body and the
  log lines are kept by the source for the report and decide nothing; they are
  left out.
-/
import SupabaseLab.Library.Except
import SupabaseLab.Library.JsMap

set_option autoImplicit false

namespace SupabaseLab.LifecycleOps

open Library

/-! ## Policy -/

/-- `RESTART_MIN_AGE_MS` (gate.ts). -/
def RESTART_MIN_AGE_MS : Int := 600000

/-- `RunbookPolicy`. -/
structure RunbookPolicy where
  intervalMs : Int
  triggerPaths : List String
  detectAfterMs : Int
  detectMinSamples : Nat
  settleMs : Int
  verifyMaxMs : Int
  minIntervalMs : Int
  maxRestartsPerWindow : Nat
  windowMs : Int
  statusPollMs : Int
  gatePollMs : Int
  gateFailOpen : Bool
  deriving DecidableEq, Repr

def DEFAULT_RUNBOOK_POLICY : RunbookPolicy where
  intervalMs := 2000
  triggerPaths := ["rest_read"]
  detectAfterMs := 60000
  detectMinSamples := 10
  settleMs := 10000
  verifyMaxMs := 600000
  minIntervalMs := 900000
  maxRestartsPerWindow := 2
  windowMs := 3600000
  statusPollMs := 10000
  gatePollMs := 60000
  gateFailOpen := false

/-! ## Detection and recovery -/

structure PathOutcome where
  name : String
  ok : Bool
  deriving DecidableEq, Repr

structure Observation where
  atMs : Int
  outcomes : List PathOutcome
  deriving DecidableEq, Repr

/-- A run of consecutive failures: when it began, and its samples so far. -/
structure FailRun where
  atMs : Int
  samples : Nat
  deriving DecidableEq, Repr

/-- Tracks, per path, when the current run of consecutive failures began. -/
structure Detector where
  failSince : JsMap String FailRun
  deriving DecidableEq, Repr

def Detector.observeOne (d : Detector) (atMs : Int) (r : PathOutcome) : Detector :=
  if r.ok then { failSince := d.failSince.delete r.name }
  else
    let run : FailRun := match d.failSince.get? r.name with
      | some cur => { atMs := cur.atMs, samples := cur.samples + 1 }
      | none => { atMs := atMs, samples := 1 }
    { failSince := d.failSince.set r.name run }

def Detector.observe (d : Detector) (o : Observation) : Detector :=
  o.outcomes.foldl (fun d r => d.observeOne o.atMs r) d

/-- Earliest start of a still-running failure on a trigger path, or `none`. -/
def Detector.firstFailAt (d : Detector) (policy : RunbookPolicy) : Option Int :=
  policy.triggerPaths.foldl
    (fun first p =>
      match d.failSince.get? p with
      | none => first
      | some f =>
          match first with
          | none => some f.atMs
          | some t => if f.atMs < t then some f.atMs else some t)
    none

/-- A failure run that has lasted long enough and often enough. -/
def FailRun.Detected (policy : RunbookPolicy) (nowMs : Int) (f : FailRun) : Prop :=
  policy.detectAfterMs ≤ nowMs - f.atMs ∧ policy.detectMinSamples ≤ f.samples

instance (policy : RunbookPolicy) (nowMs : Int) (f : FailRun) :
    Decidable (f.Detected policy nowMs) := inferInstanceAs (Decidable (_ ∧ _))

/-- Trigger paths that have failed long enough and often enough. -/
def Detector.detected (d : Detector) (policy : RunbookPolicy) (nowMs : Int) : List String :=
  policy.triggerPaths.filter fun p =>
    match d.failSince.get? p with
    | none => false
    | some f => f.Detected policy nowMs

/-- Recovery is every probe ok on every sample for `settleMs`. -/
structure RecoveryTracker where
  okSince : Option Int
  deriving DecidableEq, Repr

def Observation.allOk (o : Observation) : Bool := o.outcomes.all (·.ok)

/-- The tracker after a sample. -/
def RecoveryTracker.observe (t : RecoveryTracker) (o : Observation) : RecoveryTracker :=
  if o.allOk then { okSince := some (t.okSince.getD o.atMs) } else { okSince := none }

/-- What `observe` returns: the first sample of a run that is long enough. -/
def RecoveryTracker.settled (t : RecoveryTracker) (settleMs : Int) (o : Observation) :
    Option Int :=
  match (t.observe o).okSince with
  | none => none
  | some since => if settleMs ≤ o.atMs - since then some since else none

/-! ## The decision -/

/-- `GateView`. -/
structure GateView where
  proceed : Bool
  blockers : List String
  warnings : List String
  deriving DecidableEq, Repr

/-- `GateView | { unreadable: string }`. -/
inductive GateAnswer where
  | view (v : GateView)
  | unreadable (why : String)
  deriving DecidableEq, Repr

inductive Action where
  | none
  | hold
  | restart
  | escalate
  deriving DecidableEq, Repr

structure DecideInput where
  nowMs : Int
  detectedPaths : List String
  controlStatus : String
  restartsAtMs : List Int
  createdAtMs : Option Int
  gate : GateAnswer
  deriving DecidableEq, Repr

structure Decision where
  action : Action
  reasons : List String
  deriving DecidableEq, Repr

/-- `Math.round` of a quotient: ties go up. -/
def roundDiv (n d : Int) : Int := (2 * n + d) / (2 * d)

/-- A quotient by 1000 as JavaScript prints it: no trailing zeros. -/
def thousandths (n : Int) : String :=
  let digits := (toString (1000 + n.natAbs % 1000)).toList.drop 1
  let frac := digits.rdropWhile (· = '0')
  let whole := (if n < 0 then "-" else "") ++ toString (n.natAbs / 1000)
  if frac = [] then whole else whole ++ "." ++ String.ofList frac

/-- The restarts that count against the window. -/
def inWindow (policy : RunbookPolicy) (nowMs : Int) (restartsAtMs : List Int) : List Int :=
  restartsAtMs.filter fun t => nowMs - t < policy.windowMs

/-- `Math.max(-Infinity, ...restartsAtMs)`. -/
def lastRestart : List Int → Option Int
  | [] => none
  | t :: ts => some (ts.foldl max t)

/-- Guard rails, in order.  The first rule that fires decides. -/
def decide (input : DecideInput) (policy : RunbookPolicy) : Decision :=
  let nowMs := input.nowMs
  if input.detectedPaths = [] then
    { action := .none, reasons := ["no trigger path past the detection threshold"] }
  else
    let why := "detected on " ++ String.intercalate "," input.detectedPaths
    let recent := inWindow policy nowMs input.restartsAtMs
    if policy.maxRestartsPerWindow ≤ recent.length then
      { action := .escalate
        reasons := [why, s!"{recent.length} restarts in the last {roundDiv policy.windowMs 60000}" ++
          s!" min (max {policy.maxRestartsPerWindow}): a restart is not fixing this"] }
    else if input.controlStatus ≠ "ACTIVE_HEALTHY" then
      { action := .hold
        reasons := [why, s!"control-plane status {input.controlStatus}: an operation may be in " ++
          "flight, or the platform already reports the project down"] }
    else
      match (lastRestart input.restartsAtMs).filter fun t => nowMs - t < policy.minIntervalMs with
      | some t =>
          { action := .hold
            reasons := [why, s!"cooldown: last restart {roundDiv (nowMs - t) 1000} s ago " ++
              s!"(min {thousandths policy.minIntervalMs} s)"] }
      | none =>
          match input.createdAtMs.filter fun t => nowMs - t < RESTART_MIN_AGE_MS with
          | some t =>
              { action := .hold
                reasons := [why, s!"project {roundDiv (nowMs - t) 1000} s old: the API has " ++
                  "refused restarts this soon after creation (LO05f)"] }
          | none =>
              match input.gate with
              | .unreadable w =>
                  if policy.gateFailOpen then
                    { action := .restart
                      reasons := [why, s!"status page unreadable ({w}); gateFailOpen"] }
                  else
                    { action := .hold, reasons := [why, s!"status page unreadable: {w}"] }
              | .view v =>
                  if v.proceed then
                    { action := .restart
                      reasons := why :: v.warnings.map fun w => s!"gate warning: {w}" }
                  else
                    { action := .hold, reasons := why :: v.blockers.map fun b => s!"gate: {b}" }

/-- Runs of digits become one `#`; `inRun` says that one is being read. -/
def maskDigits (inRun : Bool) : List Char → List Char
  | [] => []
  | c :: cs =>
      if c.isDigit then
        if inRun then maskDigits true cs else '#' :: maskDigits true cs
      else c :: maskDigits false cs

/-- `kind`: a reason with its numbers masked. -/
def kind (r : Option String) : String := String.ofList (maskDigits false (r.getD "").toList)

/-! ## One episode -/

inductive Outcome where
  | noFault
  | selfCleared
  | recovered
  | escalated
  | unrecovered
  | restartRefused
  | hardStop
  deriving DecidableEq, Repr

structure MadeDecision extends Decision where
  atMs : Int
  deriving DecidableEq, Repr

structure StatusTransition where
  atMs : Int
  status : String
  deriving DecidableEq, Repr

/-- `Episode`, the outcome apart (see `Ending`). -/
structure Episode where
  startedAtMs : Int
  rounds : Nat
  failedSamples : JsMap String Nat
  firstFailAtMs : Option Int
  detectedAtMs : Option Int
  decisions : List MadeDecision
  postAtMs : Option Int
  postHttp : Option Int
  statusTransitions : List StatusTransition
  statusHealthyAgainAtMs : Option Int
  recoveredAtMs : Option Int
  deriving DecidableEq, Repr

/-- The calls an episode makes. -/
inductive Event where
  | sample (o : Observation)
  | statusRead (atMs answeredAt : Int) (value : String)
  | gateRead (atMs answeredAt : Int) (value : GateAnswer)
  /-- The restart POST and the status it was answered with, if it was. -/
  | post (atMs : Int) (http : Option Int)
  | sleep (ms : Int)
  deriving DecidableEq, Repr

/-- What one round is given. -/
structure Round where
  /-- `io.now()` at the top of the loop. -/
  roundStart : Int
  runProbe : Nat → Option Bool
  /-- `io.now()` for the observation. -/
  obsAt : Int
  controlStatus : Option String
  statusAt : Int
  gate : Option GateAnswer
  gateAt : Int
  /-- `io.now()` before the POST. -/
  postAt : Int
  restart : Option Int
  /-- `io.now()` at the bottom of the loop. -/
  endAt : Int

/-- A value and the time it is filed under; `none` is `-Infinity`. -/
structure Reading (α : Type) where
  atMs : Option Int
  value : α
  deriving DecidableEq, Repr

/-- `now - atMs >= every`. -/
def Reading.Due {α : Type} (c : Reading α) (now every : Int) : Prop :=
  ∀ t ∈ c.atMs, every ≤ now - t

instance {α : Type} (c : Reading α) (now every : Int) : Decidable (c.Due now every) :=
  inferInstanceAs (Decidable (∀ t ∈ c.atMs, every ≤ now - t))

/-- The options of `supervise`, and its probes by name. -/
structure SuperviseOpts where
  probes : List String
  policy : RunbookPolicy
  createdAtMs : Option Int
  maxWatchMs : Int
  hardStopMs : Option Int
  deriving DecidableEq, Repr

/-- The variables of `supervise`, the shared history, and the calls made so far. -/
structure Loop where
  det : Detector
  recovery : RecoveryTracker
  cleared : RecoveryTracker
  status : Reading String
  gate : Reading GateAnswer
  left : Bool
  ep : Episode
  restartsAtMs : List Int
  trace : List Event
  deriving DecidableEq, Repr

/-- How an episode ends. -/
inductive Ending where
  | finished (o : Outcome)
  | threw
  deriving DecidableEq, Repr

/-- A step that goes on, or leaves the loop for good. -/
abbrev Step := Except (Loop × Ending) Loop

def Loop.init (opts : SuperviseOpts) (restartsAtMs : List Int) (start : Int) : Loop where
  det := { failSince := [] }
  recovery := { okSince := none }
  cleared := { okSince := none }
  status := { atMs := none, value := "" }
  gate := { atMs := none, value := .unreadable "not read" }
  left := false
  ep :=
    { startedAtMs := start
      rounds := 0
      failedSamples := opts.probes.foldl (fun m p => m.set p 0) []
      firstFailAtMs := none
      detectedAtMs := none
      decisions := []
      postAtMs := none
      postHttp := none
      statusTransitions := []
      statusHealthyAgainAtMs := none
      recoveredAtMs := none }
  restartsAtMs := restartsAtMs
  trace := []

def Loop.call (s : Loop) (e : Event) : Loop := { s with trace := s.trace ++ [e] }

/-- `Promise.all` over the probes: one that throws makes the round throw. -/
def Round.observation (opts : SuperviseOpts) (r : Round) : Option Observation := do
  let outs ← opts.probes.zipIdx.mapM fun (name, i) =>
    (r.runProbe i).map fun ok => ({ name := name, ok := ok } : PathOutcome)
  return { atMs := r.obsAt, outcomes := outs }

def countFailures (m : JsMap String Nat) (o : Observation) : JsMap String Nat :=
  o.outcomes.foldl
    (fun m r => if r.ok then m else m.set r.name ((m.get? r.name).getD 0 + 1)) m

/-- A sample is taken and counted. -/
def Loop.sampled (s : Loop) (obs : Observation) : Loop :=
  { s with
    det := s.det.observe obs
    ep := { s.ep with
      rounds := s.ep.rounds + 1
      failedSamples := countFailures s.ep.failedSamples obs }
    trace := s.trace ++ [.sample obs] }

/-- `firstFailAtMs` follows the detector until something is detected. -/
def noteFirstFail (ff : Option Int) (ep : Episode) : Episode :=
  let ep := if ff ≠ none ∧ ep.firstFailAtMs = none then { ep with firstFailAtMs := ff } else ep
  -- a blip that cleared
  if ff = none ∧ ep.detectedAtMs = none then { ep with firstFailAtMs := none } else ep

/-- What the watch does with every sample. -/
def Loop.watched (opts : SuperviseOpts) (s : Loop) (obs : Observation) : Loop :=
  { s with
    cleared := s.cleared.observe obs
    ep := noteFirstFail (s.det.firstFailAt opts.policy) s.ep }

/-- The first detection is dated. -/
def Loop.dated (s : Loop) (obs : Observation) : Loop :=
  { s with ep := { s.ep with detectedAtMs := some (s.ep.detectedAtMs.getD obs.atMs) } }

/-- The control-plane status, read again when the last reading is old. -/
def Loop.pollStatus (opts : SuperviseOpts) (s : Loop) (obs : Observation) (r : Round) : Step :=
  if s.status.Due obs.atMs opts.policy.statusPollMs then
    match r.controlStatus with
    | none => .error (s, .threw)
    | some value => .ok
        { s with
          status := { atMs := some obs.atMs, value := value }
          trace := s.trace ++ [.statusRead obs.atMs r.statusAt value] }
  else .ok s

/-- The status page, likewise. -/
def Loop.pollGate (opts : SuperviseOpts) (s : Loop) (obs : Observation) (r : Round) : Step :=
  if s.gate.Due obs.atMs opts.policy.gatePollMs then
    match r.gate with
    | none => .error (s, .threw)
    | some value => .ok
        { s with
          gate := { atMs := some obs.atMs, value := value }
          trace := s.trace ++ [.gateRead obs.atMs r.gateAt value] }
  else .ok s

def Loop.decision (opts : SuperviseOpts) (s : Loop) (obs : Observation) (paths : List String) :
    Decision :=
  decide
    { nowMs := obs.atMs
      detectedPaths := paths
      controlStatus := s.status.value
      restartsAtMs := s.restartsAtMs
      createdAtMs := opts.createdAtMs
      gate := s.gate.value }
    opts.policy

/-- A decision is noted when its action or the kind of its reason is new. -/
def noteDecision (atMs : Int) (d : Decision) (ep : Episode) : Episode :=
  let same := match ep.decisions.getLast? with
    | none => false
    | some prev => prev.action = d.action ∧ kind prev.reasons[1]? = kind d.reasons[1]?
  if same then ep
  else { ep with decisions := ep.decisions ++ [{ toDecision := d, atMs := atMs }] }

/-- An answer that accepts the restart. -/
def Accepted (http : Int) : Prop := 200 ≤ http ∧ http < 300

instance (http : Int) : Decidable (Accepted http) := inferInstanceAs (Decidable (_ ∧ _))

/-- The POST.  An accepted restart is appended to the history. -/
def Loop.post (s : Loop) (r : Round) : Step :=
  let s := s.call (.post r.postAt r.restart)
  match r.restart with
  | none => .error (s, .threw)
  | some http =>
      let s := { s with ep := { s.ep with postAtMs := some r.postAt, postHttp := some http } }
      if http < 200 ∨ 300 ≤ http then .error (s, .finished .restartRefused)
      else .ok
        { s with
          restartsAtMs := s.restartsAtMs ++ [r.postAt]
          status := { atMs := none, value := "" } }

/-- Decide and act on the detected paths. -/
def Loop.act (opts : SuperviseOpts) (s : Loop) (obs : Observation) (paths : List String)
    (r : Round) : Step := do
  let s ← (s.dated obs).pollStatus opts obs r
  let s ← s.pollGate opts obs r
  let d := s.decision opts obs paths
  let s := { s with ep := noteDecision obs.atMs d s.ep }
  match d.action with
  | .escalate => .error (s, .finished .escalated)
  | .restart => s.post r
  | .hold | .none => .ok s

/-- Watch, decide, act. -/
def Loop.watch (opts : SuperviseOpts) (s : Loop) (obs : Observation) (r : Round) : Step :=
  let clearedAt := s.cleared.settled opts.policy.settleMs obs
  let s := s.watched opts obs
  let paths := s.det.detected opts.policy obs.atMs
  if paths ≠ [] then s.act opts obs paths r
  else if s.ep.detectedAtMs ≠ none ∧ clearedAt ≠ none then
    .error ({ s with ep := { s.ep with recoveredAtMs := clearedAt } }, .finished .selfCleared)
  else if s.ep.detectedAtMs = none ∧ opts.maxWatchMs ≤ obs.atMs - s.ep.startedAtMs then
    .error (s, .finished .noFault)
  else .ok s

/-- The control-plane view after the POST is recorded, not trusted. -/
def noteStatus (atMs : Int) (value : String) (s : Loop) : Loop :=
  let left := s.left || value ≠ "ACTIVE_HEALTHY"
  let transitions :=
    if (s.ep.statusTransitions.getLast?.map (·.status)) = some value then s.ep.statusTransitions
    else s.ep.statusTransitions ++ [{ atMs := atMs, status := value }]
  let again :=
    if left ∧ value = "ACTIVE_HEALTHY" ∧ s.ep.statusHealthyAgainAtMs = none then some atMs
    else s.ep.statusHealthyAgainAtMs
  { s with
    left := left
    ep := { s.ep with statusTransitions := transitions, statusHealthyAgainAtMs := again } }

/-- The status after the POST, read again when the last reading is old. -/
def Loop.pollAfterPost (opts : SuperviseOpts) (s : Loop) (obs : Observation) (r : Round) : Step :=
  if s.status.Due obs.atMs opts.policy.statusPollMs then do
    let s ← s.pollStatus opts obs r
    return noteStatus obs.atMs s.status.value s
  else .ok s

/-- Verify on the data path. -/
def Loop.verify (opts : SuperviseOpts) (s : Loop) (postAtMs : Int) (obs : Observation) (r : Round) :
    Step := do
  let back := s.recovery.settled opts.policy.settleMs obs
  let s := { s with recovery := s.recovery.observe obs }
  let s ← s.pollAfterPost opts obs r
  if back ≠ none then
    .error ({ s with ep := { s.ep with recoveredAtMs := back } }, .finished .recovered)
  else if opts.policy.verifyMaxMs ≤ obs.atMs - postAtMs then .error (s, .finished .unrecovered)
  else .ok s

/-- One turn of the loop. -/
def Loop.round (opts : SuperviseOpts) (s : Loop) (r : Round) : Step :=
  match r.observation opts with
  | none => .error (s, .threw)
  | some obs => do
      let s := s.sampled obs
      if opts.hardStopMs.getD 7200000 ≤ obs.atMs - s.ep.startedAtMs then
        .error (s, .finished .hardStop)
      else
        let s ← (match s.ep.postAtMs with
          | none => s.watch opts obs r
          | some postAtMs => s.verify opts postAtMs obs r)
        return s.call (.sleep (max 0 (opts.policy.intervalMs - (r.endAt - r.roundStart))))

/-- The rounds in turn; `none` is an episode still running when they are used up. -/
def Loop.run (opts : SuperviseOpts) : Loop → List Round → Loop × Option Ending
  | s, [] => (s, none)
  | s, r :: rest =>
      match s.round opts r with
      | .error (s, e) => (s, some e)
      | .ok s => s.run opts rest

/-- One episode: watch until a detection is acted on or escalated, or until
`maxWatchMs` passes with no action. -/
def supervise (opts : SuperviseOpts) (restartsAtMs : List Int) (start : Int) (rounds : List Round) :
    Loop × Option Ending :=
  (Loop.init opts restartsAtMs start).run opts rounds

end SupabaseLab.LifecycleOps
