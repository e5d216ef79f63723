/-
  RestorePaths/MeasureRestore.lean --- a restore, measured from the request to the last poll.

  Source: `measureRestore`, `statusTimeline` and the loop of `watchCredentials` of
  experiments/restore-paths/lib/rp.ts, over `sampleDuring` of harness/src/sampler.ts.

  The sampler, the credential watch and the retried request run side by side.  As in the
  sampler's model an event is one stretch of one of them, and a sleep may end at any time.
  `calls` is no variable of the source: it notes every call of `issue`, and how it ended.
-/
import SupabaseLab.Harness.SamplingEnd
import SupabaseLab.RestorePaths.CredentialWatch

set_option autoImplicit false

namespace SupabaseLab.RestorePaths.Measure

open Library Harness Credential

/-! ## The credential watch as an activity -/

/-- Where the loop of `watchCredentials` is. -/
inductive WatchPhase where
  /-- At the condition of its `while`. -/
  | checking
  | newLogin
  | oldLogin (t : Turn)
  | sleeping (ms : ℤ)
  | done
  deriving DecidableEq

structure CredentialLoop where
  t0 : ℤ
  running : Bool := true
  phase : WatchPhase := .newLogin
  st : WatchState := {}
  /-- The turns that are over. -/
  turns : List Turn := []
  /-- Pooler logins started by the watch: by its loop and by its probe. -/
  logins : ℕ := 1
  deriving DecidableEq

inductive WatchEvent where
  | check
  /-- The login with the current password ends; the rest of the turn is in `t` too. -/
  | newEnds (t : Turn)
  | oldEnds
  | wake
  deriving DecidableEq

def CredentialLoop.step (w : CredentialLoop) : WatchEvent → Option CredentialLoop
  | .check =>
      if w.phase = .checking then
        some (if w.running then { w with phase := .newLogin, logins := w.logins + 1 }
          else { w with phase := .done })
      else none
  | .newEnds t =>
      if w.phase = .newLogin then
        let st := newTurn w.t0 w.st t
        some (if oldDue st.lastOldAt t.dueMs then
            { w with st := st, phase := .oldLogin t, logins := w.logins + 1 }
          else { w with st := st, phase := .sleeping (pauseOf st t), turns := w.turns ++ [t] })
      else none
  | .oldEnds =>
      match w.phase with
      | .oldLogin t =>
          let st := oldTurn w.t0 w.st t
          some { w with st := st, phase := .sleeping (pauseOf st t), turns := w.turns ++ [t] }
      | _ => none
  | .wake =>
      match w.phase with
      | .sleeping _ => some { w with phase := .checking }
      | _ => none

/-- What the watch's probe answers while the watch runs. -/
def CredentialLoop.outcome (w : CredentialLoop) : ProbeOutcome where
  ok := w.st.latest.isNone
  error := w.st.latest.map units

/-! ## The status of the project -/

/-- How one read of the project's status went. -/
inductive StatusRead where
  /-- The request failed, was throttled, or was not answered with 200. -/
  | unreadable
  | status (st : String)
  /-- The status is a value that `String` cannot convert. -/
  | throws (error : String)
  deriving DecidableEq

structure StatusTimeline where
  firstOffS : Option ℤ := none
  backHealthyS : Option ℤ := none
  seen : List String := []
  deriving DecidableEq

def StatusTimeline.observe (tl : StatusTimeline) (st : String) (atS : ℤ) : StatusTimeline :=
  let tl := { tl with seen := if tl.seen.getLast? = some st then tl.seen else tl.seen ++ [st] }
  if st ≠ "ACTIVE_HEALTHY" then { tl with firstOffS := tl.firstOffS.or (some atS) }
  else if tl.firstOffS.isSome then { tl with backHealthyS := some atS } else tl

/-! ## The restore -/

structure Options where
  retryMs : ℤ := 0
  maxMs : ℤ := 25 * 60000
  tailMs : ℤ := 60000
  deriving DecidableEq

def Options.sampling (o : Options) : SampleOptions where
  intervalMs := 1000
  maxWaitMs := o.retryMs + o.maxMs + o.tailMs + 120000
  settleMs := 5000

/-- What `issue` answers. -/
structure Answer where
  status : ℤ
  text : String
  deriving DecidableEq

def Answer.accepted (r : Answer) : Bool := decide (200 ≤ r.status) && decide (r.status < 300)

/-- A call of `issue`, and its end. -/
inductive Call where
  | called
  | answered (r : Answer) (atMs : ℤ)
  | threw (error : String)
  deriving DecidableEq

def Call.answer : Call → Option (Answer × ℤ)
  | .answered r atMs => some (r, atMs)
  | _ => none

/-- The answered calls, in order. -/
def answersOf (calls : List Call) : List (Answer × ℤ) := calls.filterMap Call.answer

/-- Where the operation is. -/
inductive Op where
  | unstarted
  | issuing
  /-- The attempt is noted; the condition of the `while`. -/
  | deciding (r : Answer)
  | retrying
  /-- The loop is over; before the clock is read for `tPost`. -/
  | leaving (r : Answer)
  | statusCheck
  | statusRead
  | statusSleep
  | tailSleep
  /-- `await watch.stop()`. -/
  | stopping
  | returned
  | threw (error : String)
  deriving DecidableEq

structure State where
  sampling : Sampling.State
  tStart : ℤ
  watch : CredentialLoop
  /-- The answer of the pooler's probe, where it is that of the running watch. -/
  poolerSample : Option ProbeOutcome := none
  op : Op := .unstarted
  calls : List Call := []
  attempts : List String := []
  http : ℤ := 0
  body : String := ""
  tPost : ℤ := 0
  postOffsetMs : ℤ := 0
  acceptedAfterS : Option ℤ := none
  /-- The variables of `statusTimeline`. -/
  timeline : StatusTimeline := {}
  tl : Option StatusTimeline := none
  refused : Bool := false
  cred : Option CredentialTimeline := none
  deriving DecidableEq

/-- The watch starts first, then the clock is read for `tStart`, then by the sampler. -/
def init (watchT0 tStart t0 : ℤ) (names : List String) : State where
  sampling := Sampling.init t0 (names ++ ["pooler"])
  tStart := tStart
  watch := { t0 := watchT0 }

inductive Event where
  | sampling (e : Sampling.Event)
  | issueAnswers (r : Answer)
  | issueThrows (error : String)
  | decide
  | retry
  | post
  | statusCheck
  | statusEnds (p : StatusRead)
  | statusWake
  | tailEnds
  | stopped
  | watch (e : WatchEvent)
  deriving DecidableEq

/-- `<s>s HTTP <status> <text>`. -/
def attemptLine (tStart : ℤ) (x : Answer × ℤ) : String :=
  toString (secondsSince tStart x.2) ++ "s HTTP " ++ toString x.1.status ++ " " ++ cut 120 x.1.text

/-- The pooler's probe is the last. -/
def State.pooler (s : State) : ℕ := s.sampling.loops.length - 1

/-- What the operation and the watch allow the sampler to do. -/
def State.allows (s : State) : Sampling.Event → Bool
  | .opReturns => s.op = .returned
  | .opThrows error => s.op = .threw error
  | .answer i outcome => !(decide (i = s.pooler) && s.poolerSample.any fun x => x ≠ outcome)
  | _ => true

/-- What a step of the sampler does to the rest. -/
def State.afterSampling (s : State) : Sampling.Event → State
  | .watchStart => { s with op := .issuing, calls := s.calls ++ [.called] }
  | .loopProbe i =>
      if i = s.pooler then
        if s.watch.running then { s with poolerSample := some s.watch.outcome }
        else
          -- the probe of a stopped watch logs in itself
          { s with poolerSample := none, watch := { s.watch with logins := s.watch.logins + 1 } }
      else s
  | _ => s

def State.now (s : State) : ℤ := s.sampling.now

/-- `running = false` of `stop()`. -/
def State.stopWatch (s : State) : State := { s with watch := { s.watch with running := false } }

/-- Past the `while`: what is read from the last answer. -/
def State.readAnswer (s : State) (r : Answer) : State :=
  { s with
    http := r.status
    body := cut 200 r.text
    tPost := s.now
    postOffsetMs := s.now - s.tStart }

def step (o : Options) (s : State) : Event → Option State
  | .sampling e =>
      if s.allows e then
        (Sampling.step o.sampling s.sampling e).map fun m => { s with sampling := m }.afterSampling e
      else none
  | .issueAnswers r =>
      if s.op = .issuing then
        some { s with
          op := .deciding r
          calls := s.calls ++ [.answered r s.now]
          attempts := s.attempts ++ [attemptLine s.tStart (r, s.now)] }
      else none
  | .issueThrows error =>
      if s.op = .issuing then
        some { s with op := .threw error, calls := s.calls ++ [.threw error] }
      else none
  | .decide =>
      match s.op with
      | .deciding r =>
          some { s with
            op := if r.accepted = false ∧ s.now - s.tStart < o.retryMs then .retrying else .leaving r }
      | _ => none
  | .retry =>
      if s.op = .retrying then some { s with op := .issuing, calls := s.calls ++ [.called] } else none
  | .post =>
      match s.op with
      | .leaving r =>
          some (if r.accepted then
              { s.readAnswer r with
                acceptedAfterS := some (secondsSince s.tStart s.now), op := .statusCheck }
            else { (s.readAnswer r).stopWatch with refused := true, op := .stopping })
      | _ => none
  | .statusCheck =>
      if s.op = .statusCheck then
        some (if s.now - s.tPost < o.maxMs then { s with op := .statusRead }
          else { s with tl := some s.timeline, op := .tailSleep })
      else none
  | .statusEnds p =>
      if s.op = .statusRead then
        match p with
        | .unreadable => some { s with op := .statusSleep }
        | .status st =>
            -- the poll is over when the project is healthy again
            let tl := s.timeline.observe st (secondsSince s.tPost s.now)
            some (if tl.backHealthyS.isSome then
                { s with timeline := tl, tl := some tl, op := .tailSleep }
              else { s with timeline := tl, op := .statusSleep })
        | .throws error => some { s with op := .threw error }
      else none
  | .statusWake => if s.op = .statusSleep then some { s with op := .statusCheck } else none
  | .tailEnds => if s.op = .tailSleep then some { s.stopWatch with op := .stopping } else none
  | .stopped =>
      if s.op = .stopping ∧ s.watch.phase = .done then
        some { s with
          cred := some s.watch.st.timeline
          op := if s.refused then .threw "restore request refused" else .returned }
      else none
  | .watch e => (s.watch.step e).map fun w => { s with watch := w }

/-- A run of `measureRestore`. -/
def run (o : Options) (watchT0 tStart t0 : ℤ) (names : List String) (events : List Event) :
    Option State :=
  runEvents (step o) (init watchT0 tStart t0 names) events

structure RestoreRun where
  windows : List PathWindow
  postOffsetMs : ℤ
  http : ℤ
  body : String
  attempts : List String
  acceptedAfterS : Option ℤ
  tl : Option StatusTimeline
  cred : Option CredentialTimeline
  deriving DecidableEq

def State.report (s : State) (windows : List PathWindow) : RestoreRun where
  windows := windows
  postOffsetMs := s.postOffsetMs
  http := s.http
  body := s.body
  attempts := s.attempts
  acceptedAfterS := s.acceptedAfterS
  tl := s.tl
  cred := s.cred

/-- How `measureRestore` settled. -/
def State.result (s : State) : Option (Except String RestoreRun) :=
  match s.sampling.main with
  | .returned _ windows => some (.ok (s.report windows))
  | .rethrown error => some (if s.refused then .ok (s.report []) else .error error)
  | _ => none

/-! ## What is promised -/

/-- No pooler login is started by the watch from here on. -/
def Quiet (o : Options) (s : State) : Prop :=
  ∀ events s', runEvents (step o) s events = some s' → s'.watch.logins = s.watch.logins

/-- `r` was answered last, and the report is about it. -/
structure Describes (s : State) (r : Answer) (atMs : ℤ) : Prop where
  last : (answersOf s.calls).getLast? = some (r, atMs)
  http : s.http = r.status
  body : s.body = cut 200 r.text
  /-- `tPost` was read after the answer. -/
  after : atMs ≤ s.tStart + s.postOffsetMs
  accepted : s.acceptedAfterS =
    if r.accepted then some (secondsSince s.tStart (s.tStart + s.postOffsetMs)) else none

/-- `issue` is not called again once it was answered with 2xx. -/
def NotAgain (calls : List Call) : Prop :=
  ∀ before r atMs after, calls = before ++ .answered r atMs :: after → r.accepted = true →
    .called ∉ after

structure WoundUp (o : Options) (s : State) : Prop where
  notAgain : NotAgain s.calls
  attempts : s.attempts = (answersOf s.calls).map (attemptLine s.tStart)
  described : ∀ report, s.result = some (.ok report) →
    ∃ r atMs windows, report = s.report windows ∧ Describes s r atMs
  unaccepted : ∀ report, s.result = some (.ok report) → report.acceptedAfterS = none →
    report.windows = []
  quiet : s.result.isSome = true → Quiet o s

/-- A step at which `issue`, or reading the status, throws. -/
def Event.throws : Event → Bool
  | .issueThrows _ => true
  | .statusEnds (.throws _) => true
  | _ => false

section Steps

variable {o : Options} {s s' : State} {e : Event} {w w' : CredentialLoop} {r : Answer}

/-! ## What a step can do -/

/-- What a step of the watch's loop can do. -/
inductive WatchTo (w : CredentialLoop) : WatchEvent → CredentialLoop → Prop where
  | goesOn (hphase : w.phase = .checking) (hrunning : w.running = true) :
      WatchTo w .check { w with phase := .newLogin, logins := w.logins + 1 }
  | ends (hphase : w.phase = .checking) (hrunning : w.running = false) :
      WatchTo w .check { w with phase := .done }
  | due (t : Turn) (hphase : w.phase = .newLogin)
      (hdue : oldDue (newTurn w.t0 w.st t).lastOldAt t.dueMs = true) :
      WatchTo w (.newEnds t)
        { w with st := newTurn w.t0 w.st t, phase := .oldLogin t, logins := w.logins + 1 }
  | newOnly (t : Turn) (hphase : w.phase = .newLogin)
      (hdue : oldDue (newTurn w.t0 w.st t).lastOldAt t.dueMs = false) :
      WatchTo w (.newEnds t)
        { w with st := newTurn w.t0 w.st t, phase := .sleeping (pauseOf (newTurn w.t0 w.st t) t),
                 turns := w.turns ++ [t] }
  | oldEnds (t : Turn) (hphase : w.phase = .oldLogin t) :
      WatchTo w .oldEnds
        { w with st := oldTurn w.t0 w.st t, phase := .sleeping (pauseOf (oldTurn w.t0 w.st t) t),
                 turns := w.turns ++ [t] }
  | wakes (ms : ℤ) (hphase : w.phase = .sleeping ms) : WatchTo w .wake { w with phase := .checking }

theorem watchTo_of_step {e : WatchEvent} (h : w.step e = some w') : WatchTo w e w' := by
  unfold CredentialLoop.step at h
  cases e with
  | check =>
    dsimp only at h
    split at h
    · rename_i hphase
      cases h
      by_cases hrunning : w.running = true
      · rw [if_pos hrunning]
        exact .goesOn hphase hrunning
      · rw [if_neg hrunning]
        exact .ends hphase (Bool.eq_false_of_not_eq_true hrunning)
    · cases h
  | newEnds t =>
    dsimp only at h
    split at h
    · rename_i hphase
      cases h
      by_cases hdue : oldDue (newTurn w.t0 w.st t).lastOldAt t.dueMs = true
      · rw [if_pos hdue]
        exact .due t hphase hdue
      · rw [if_neg hdue]
        exact .newOnly t hphase (Bool.eq_false_of_not_eq_true hdue)
    · cases h
  | oldEnds =>
    dsimp only at h
    split at h
    · rename_i t hphase
      cases h
      exact .oldEnds t hphase
    · cases h
  | wake =>
    dsimp only at h
    split at h
    · rename_i ms hphase
      cases h
      exact .wakes ms hphase
    · cases h

/-- What a step of `measureRestore` can do. -/
inductive StepTo (o : Options) (s : State) : Event → State → Prop where
  | sampling (e : Sampling.Event) (m : Sampling.State) (hallows : s.allows e = true)
      (hstep : Sampling.step o.sampling s.sampling e = some m) :
      StepTo o s (.sampling e) (State.afterSampling { s with sampling := m } e)
  | answers (r : Answer) (hop : s.op = .issuing) : StepTo o s (.issueAnswers r)
      { s with
        op := .deciding r
        calls := s.calls ++ [.answered r s.now]
        attempts := s.attempts ++ [attemptLine s.tStart (r, s.now)] }
  | issueThrows (error : String) (hop : s.op = .issuing) : StepTo o s (.issueThrows error)
      { s with op := .threw error, calls := s.calls ++ [.threw error] }
  | goesOn (r : Answer) (hop : s.op = .deciding r) (hr : r.accepted = false) :
      StepTo o s .decide { s with op := .retrying }
  | leaves (r : Answer) (hop : s.op = .deciding r) : StepTo o s .decide { s with op := .leaving r }
  | retry (hop : s.op = .retrying) :
      StepTo o s .retry { s with op := .issuing, calls := s.calls ++ [.called] }
  | accepted (r : Answer) (hop : s.op = .leaving r) (hr : r.accepted = true) : StepTo o s .post
      { s.readAnswer r with
        acceptedAfterS := some (secondsSince s.tStart s.now), op := .statusCheck }
  | refused (r : Answer) (hop : s.op = .leaving r) (hr : r.accepted = false) : StepTo o s .post
      { (s.readAnswer r).stopWatch with refused := true, op := .stopping }
  | reads (hop : s.op = .statusCheck) : StepTo o s .statusCheck { s with op := .statusRead }
  | timeOver (hop : s.op = .statusCheck) :
      StepTo o s .statusCheck { s with tl := some s.timeline, op := .tailSleep }
  | unreadable (hop : s.op = .statusRead) :
      StepTo o s (.statusEnds .unreadable) { s with op := .statusSleep }
  | healthy (st : String) (tl : StatusTimeline) (hop : s.op = .statusRead) :
      StepTo o s (.statusEnds (.status st)) { s with timeline := tl, tl := some tl, op := .tailSleep }
  | notYet (st : String) (tl : StatusTimeline) (hop : s.op = .statusRead) :
      StepTo o s (.statusEnds (.status st)) { s with timeline := tl, op := .statusSleep }
  | statusThrows (error : String) (hop : s.op = .statusRead) :
      StepTo o s (.statusEnds (.throws error)) { s with op := .threw error }
  | statusWake (hop : s.op = .statusSleep) : StepTo o s .statusWake { s with op := .statusCheck }
  | tailEnds (hop : s.op = .tailSleep) :
      StepTo o s .tailEnds { s.stopWatch with op := .stopping }
  | stopped (hop : s.op = .stopping) (hdone : s.watch.phase = .done) : StepTo o s .stopped
      { s with
        cred := some s.watch.st.timeline
        op := if s.refused then .threw "restore request refused" else .returned }
  | watch (e : WatchEvent) (w : CredentialLoop) (hstep : WatchTo s.watch e w) :
      StepTo o s (.watch e) { s with watch := w }

theorem stepTo_of_step (h : step o s e = some s') : StepTo o s e s' := by
  unfold step at h
  cases e with
  | sampling e =>
    dsimp only at h
    split at h
    · rename_i hallows
      obtain ⟨m, hm, rfl⟩ := Option.map_eq_some_iff.mp h
      exact .sampling e m hallows hm
    · cases h
  | issueAnswers r =>
    dsimp only at h
    split at h
    · rename_i hop
      cases h
      exact .answers r hop
    · cases h
  | issueThrows error =>
    dsimp only at h
    split at h
    · rename_i hop
      cases h
      exact .issueThrows error hop
    · cases h
  | decide =>
    dsimp only at h
    split at h
    · rename_i r hop
      cases h
      split
      · rename_i hagain
        exact .goesOn r hop hagain.1
      · exact .leaves r hop
    · cases h
  | retry =>
    dsimp only at h
    split at h
    · rename_i hop
      cases h
      exact .retry hop
    · cases h
  | post =>
    dsimp only at h
    split at h
    · rename_i r hop
      cases h
      by_cases hr : r.accepted = true
      · rw [if_pos hr]
        exact .accepted r hop hr
      · rw [if_neg hr]
        exact .refused r hop (Bool.eq_false_of_not_eq_true hr)
    · cases h
  | statusCheck =>
    dsimp only at h
    split at h
    · rename_i hop
      cases h
      split
      · exact .reads hop
      · exact .timeOver hop
    · cases h
  | statusEnds p =>
    dsimp only at h
    split at h
    · rename_i hop
      cases p with
      | unreadable =>
        cases h
        exact .unreadable hop
      | status st =>
        cases h
        split
        · exact .healthy st _ hop
        · exact .notYet st _ hop
      | throws error =>
        cases h
        exact .statusThrows error hop
    · cases h
  | statusWake =>
    dsimp only at h
    split at h
    · rename_i hop
      cases h
      exact .statusWake hop
    · cases h
  | tailEnds =>
    dsimp only at h
    split at h
    · rename_i hop
      cases h
      exact .tailEnds hop
    · cases h
  | stopped =>
    dsimp only at h
    split at h
    · rename_i hready
      cases h
      exact .stopped hready.1 hready.2
    · cases h
  | watch e =>
    obtain ⟨w, hw, rfl⟩ := Option.map_eq_some_iff.mp h
    exact .watch e w (watchTo_of_step hw)

/-! ## Calls -/

/-- No answer so far is 2xx. -/
def Fresh (calls : List Call) : Prop := ∀ x ∈ answersOf calls, x.1.accepted = false

section Calls

variable {calls : List Call} {x : Call} {atMs : ℤ}

theorem answersOf_concat : answersOf (calls ++ [x]) = answersOf calls ++ x.answer.toList := by
  rw [answersOf, List.filterMap_append]
  cases x <;> rfl

theorem notAgain_nil : NotAgain [] := by
  intro before r atMs after hsplit
  exact absurd hsplit (List.append_ne_nil_of_right_ne_nil _ (List.cons_ne_nil _ _)).symm

/-- The last call of a longer list belongs to what follows an answer, or is the answer. -/
theorem split_concat {before after : List Call} (h : calls ++ [x] = before ++ .answered r atMs :: after) :
    (after = [] ∧ x = .answered r atMs) ∨
      ∃ after', after = after' ++ [x] ∧ calls = before ++ .answered r atMs :: after' := by
  rcases List.eq_nil_or_concat after with rfl | ⟨after', y, rfl⟩
  · exact .inl ⟨rfl, (List.cons.inj (List.append_inj' h rfl).2).1⟩
  · rw [List.concat_eq_append, ← List.cons_append, ← List.append_assoc] at h
    obtain ⟨hcalls, hx⟩ := List.append_inj' h rfl
    cases hx
    exact .inr ⟨after', List.concat_eq_append, hcalls⟩

theorem NotAgain.concat (h : NotAgain calls) (hx : x ≠ .called) : NotAgain (calls ++ [x]) := by
  intro before r atMs after hsplit hr
  rcases split_concat hsplit with ⟨rfl, -⟩ | ⟨after', rfl, hcalls⟩
  · exact List.not_mem_nil
  · rw [List.mem_append, List.mem_singleton, not_or]
    exact ⟨h before r atMs after' hcalls hr, hx.symm⟩

/-- Another call, while no answer was 2xx. -/
theorem NotAgain.call (hfresh : Fresh calls) : NotAgain (calls ++ [.called]) := by
  intro before r atMs after hsplit hr
  rcases split_concat hsplit with ⟨-, hx⟩ | ⟨after', -, hcalls⟩
  · cases hx
  · have hmem : (r, atMs) ∈ answersOf calls := by
      refine List.mem_filterMap.mpr ⟨.answered r atMs, ?_, rfl⟩
      rw [hcalls]
      exact List.mem_append_right _ List.mem_cons_self
    rw [hfresh _ hmem] at hr
    cases hr

end Calls

/-! ## What holds at each place of the operation -/

/-- `r` is the last answer, and no earlier one was 2xx. -/
def LastAnswered (s : State) (r : Answer) : Prop :=
  ∃ earlier atMs, answersOf s.calls = earlier ++ [(r, atMs)] ∧ atMs ≤ s.now ∧
    ∀ x ∈ earlier, x.1.accepted = false

/-- The report is about a last answer that is 2xx, or is not. -/
def Posted (s : State) (accepted : Bool) : Prop :=
  ∃ r atMs, Describes s r atMs ∧ r.accepted = accepted

/-- The watch's loop has come to its end. -/
def CredentialLoop.Ended (w : CredentialLoop) : Prop := w.running = false ∧ w.phase = .done

/-- Nothing is decided yet. -/
def State.Pending (s : State) : Prop :=
  s.acceptedAfterS = none ∧ s.refused = false ∧ s.watch.running = true

def State.Stage (s : State) : Op → Prop
  | .unstarted => s.calls = [] ∧ s.Pending
  | .issuing | .retrying => Fresh s.calls ∧ s.Pending
  | .deciding r | .leaving r => LastAnswered s r ∧ s.Pending
  | .statusCheck | .statusRead | .statusSleep | .tailSleep =>
      Posted s true ∧ s.refused = false ∧ s.watch.running = true
  | .stopping => Posted s (!s.refused) ∧ s.watch.running = false
  | .returned => Posted s true ∧ s.refused = false ∧ s.watch.Ended
  | .threw _ =>
      (s.refused = true → Posted s false ∧ s.watch.Ended) ∧
        (s.refused = false → s.watch.running = true)

/-- What the report says of the answers is as it was. -/
structure Kept (s s' : State) : Prop where
  calls : s'.calls = s.calls
  tStart : s'.tStart = s.tStart
  http : s'.http = s.http
  body : s'.body = s.body
  postOffsetMs : s'.postOffsetMs = s.postOffsetMs
  acceptedAfterS : s'.acceptedAfterS = s.acceptedAfterS

/-- What the steps of the sampler and of the watch leave as it is. -/
structure Frame (s s' : State) : Prop extends Kept s s' where
  op : s'.op = s.op
  attempts : s'.attempts = s.attempts
  refused : s'.refused = s.refused
  running : s'.watch.running = s.watch.running
  done : s.watch.phase = .done → s'.watch.phase = .done
  now : s.now ≤ s'.now

theorem Describes.kept {atMs : ℤ} (h : Describes s r atMs) (hf : Kept s s') :
    Describes s' r atMs where
  last := hf.calls ▸ h.last
  http := hf.http.trans h.http
  body := hf.body.trans h.body
  after := by
    rw [hf.tStart, hf.postOffsetMs]
    exact h.after
  accepted := by
    rw [hf.tStart, hf.postOffsetMs, hf.acceptedAfterS]
    exact h.accepted

theorem LastAnswered.frame (h : LastAnswered s r) (hf : Frame s s') : LastAnswered s' r := by
  obtain ⟨earlier, atMs, hcalls, hnow, hearlier⟩ := h
  exact ⟨earlier, atMs, hf.calls ▸ hcalls, hnow.trans hf.now, hearlier⟩

theorem Posted.kept {accepted : Bool} (h : Posted s accepted) (hf : Kept s s') :
    Posted s' accepted := by
  obtain ⟨r, atMs, hr, haccepted⟩ := h
  exact ⟨r, atMs, hr.kept hf, haccepted⟩

theorem CredentialLoop.Ended.frame (h : s.watch.Ended) (hf : Frame s s') : s'.watch.Ended :=
  ⟨hf.running.trans h.1, hf.done h.2⟩

theorem State.Pending.frame (h : s.Pending) (hf : Frame s s') : s'.Pending :=
  ⟨hf.acceptedAfterS.trans h.1, hf.refused.trans h.2.1, hf.running.trans h.2.2⟩

theorem stage_frame {op : Op} (h : s.Stage op) (hf : Frame s s') : s'.Stage op := by
  cases op with
  | unstarted => exact ⟨hf.calls.trans h.1, h.2.frame hf⟩
  | issuing | retrying => exact ⟨hf.calls ▸ h.1, h.2.frame hf⟩
  | deciding r | leaving r => exact ⟨h.1.frame hf, h.2.frame hf⟩
  | statusCheck | statusRead | statusSleep | tailSleep =>
    exact ⟨h.1.kept hf.toKept, hf.refused.trans h.2.1, hf.running.trans h.2.2⟩
  | stopping =>
    refine ⟨?_, hf.running.trans h.2⟩
    rw [hf.refused]
    exact h.1.kept hf.toKept
  | returned => exact ⟨h.1.kept hf.toKept, hf.refused.trans h.2.1, h.2.2.frame hf⟩
  | threw error =>
    refine ⟨fun href => ?_, fun href => hf.running.trans (h.2 (hf.refused ▸ href))⟩
    obtain ⟨hposted, hended⟩ := h.1 (hf.refused ▸ href)
    exact ⟨hposted.kept hf.toKept, hended.frame hf⟩

/-! ## The sampler's part of a run -/

def Event.sampling? : Event → Option Sampling.Event
  | .sampling e => some e
  | _ => none

def samplingEvents (events : List Event) : List Sampling.Event := events.filterMap Event.sampling?

variable {events : List Event} {m : Sampling.State}

theorem mem_samplingEvents {x : Sampling.Event} (h : x ∈ samplingEvents events) :
    .sampling x ∈ events := by
  obtain ⟨y, hy, hx⟩ := List.mem_filterMap.mp h
  cases y with
  | sampling z =>
    cases hx
    exact hy
  | _ => cases hx

theorem samplingEvents_concat : samplingEvents (events ++ [e]) =
    samplingEvents events ++ e.sampling?.toList := by
  rw [samplingEvents, List.filterMap_append]
  cases e <;> rfl

@[simp] theorem sampling_afterSampling (e : Sampling.Event) :
    (s.afterSampling e).sampling = s.sampling := by
  unfold State.afterSampling
  split
  · rfl
  · split
    · split
      · rfl
      · rfl
    · rfl
  · rfl

/-- A step is one of the sampler's, or leaves the sampler as it is. -/
theorem sampling_step (h : StepTo o s e s') :
    (∃ x, e = .sampling x ∧ Sampling.step o.sampling s.sampling x = some s'.sampling) ∨
      (e.sampling? = none ∧ s'.sampling = s.sampling) := by
  cases h with
  | sampling x m hallows hstep => exact .inl ⟨x, rfl, by rw [sampling_afterSampling]; exact hstep⟩
  | _ => exact .inr ⟨rfl, rfl⟩

theorem sampling_run {watchT0 tStart t0 : ℤ} {names : List String}
    (hrun : run o watchT0 tStart t0 names events = some s) :
    Sampling.run o.sampling t0 (names ++ ["pooler"]) (samplingEvents events) = some s.sampling := by
  refine runEvents_invariant
    (I := fun events s => Sampling.run o.sampling t0 (names ++ ["pooler"]) (samplingEvents events) =
      some s.sampling) rfl ?_ events s hrun
  intro es m e m' _ hm hstep
  rw [samplingEvents_concat]
  rcases sampling_step (stepTo_of_step hstep) with ⟨x, rfl, hx⟩ | ⟨hnone, heq⟩
  · exact runEvents_concat.mpr ⟨m.sampling, hm, hx⟩
  · rw [hnone, heq]
    simpa using hm

/-! ## The invariant -/

/-- Between its first call and its end. -/
def Op.inside : Op → Bool
  | .unstarted => false
  | .returned => false
  | .threw _ => false
  | _ => true

structure Inv (events : List Event) (s : State) : Prop where
  attempts : s.attempts = (answersOf s.calls).map (attemptLine s.tStart)
  notAgain : NotAgain s.calls
  stage : s.Stage s.op
  starting : s.sampling.main = .starting → s.op = .unstarted
  opReturns : .sampling .opReturns ∈ events → s.op = .returned
  opThrows : ∀ error, .sampling (.opThrows error) ∈ events → s.op = .threw error
  threw : (∃ x ∈ events, x.throws = true) ↔ (∃ error, s.op = .threw error) ∧ s.refused = false
  alive : s.watch.running = true → s.watch.phase ≠ .done

theorem inv_init (watchT0 tStart t0 : ℤ) (names : List String) :
    Inv [] (init watchT0 tStart t0 names) where
  attempts := rfl
  notAgain := notAgain_nil
  stage := ⟨rfl, rfl, rfl, rfl⟩
  starting _ := rfl
  opReturns h := absurd h List.not_mem_nil
  opThrows _ h := absurd h List.not_mem_nil
  threw := by
    refine ⟨?_, ?_⟩
    · rintro ⟨x, hx, -⟩
      exact absurd hx List.not_mem_nil
    · rintro ⟨⟨error, h⟩, -⟩
      cases h
  alive _ h := by cases h

theorem exists_throws_concat : (∃ x ∈ events ++ [e], x.throws = true) ↔
    (∃ x ∈ events, x.throws = true) ∨ e.throws = true := by
  simp only [List.mem_append, List.mem_singleton, or_and_right, exists_or, exists_eq_left]

/-- A step of the sampler or of the watch. -/
theorem Inv.frame (h : Inv events s) (hf : Frame s s')
    (hstarting : s'.sampling.main = .starting → s.sampling.main = .starting)
    (hreturns : e = .sampling .opReturns → s.op = .returned)
    (hthrows : ∀ error, e = .sampling (.opThrows error) → s.op = .threw error)
    (hno : e.throws = false) (halive : s'.watch.running = true → s'.watch.phase ≠ .done) :
    Inv (events ++ [e]) s' where
  attempts := by
    rw [hf.attempts, hf.calls, hf.tStart]
    exact h.attempts
  notAgain := hf.calls ▸ h.notAgain
  stage := hf.op ▸ stage_frame h.stage hf
  starting hm := hf.op.trans (h.starting (hstarting hm))
  opReturns hmem := by
    rw [hf.op]
    rcases List.mem_append.mp hmem with hold | hnew
    · exact h.opReturns hold
    · exact hreturns (List.mem_singleton.mp hnew).symm
  opThrows error hmem := by
    rw [hf.op]
    rcases List.mem_append.mp hmem with hold | hnew
    · exact h.opThrows error hold
    · exact hthrows error (List.mem_singleton.mp hnew).symm
  threw := by
    rw [exists_throws_concat, hno, hf.op, hf.refused]
    simpa using h.threw
  alive := halive

/-- A step of the operation. -/
theorem Inv.opStep (h : Inv events s) (hinside : s.op.inside = true) (he : e.sampling? = none)
    (hsampling : s'.sampling = s.sampling)
    (hattempts : s'.attempts = (answersOf s'.calls).map (attemptLine s'.tStart))
    (hnotAgain : NotAgain s'.calls) (hstage : s'.Stage s'.op)
    (hthrew : e.throws = true ↔ (∃ error, s'.op = .threw error) ∧ s'.refused = false)
    (halive : s'.watch.running = true → s'.watch.phase ≠ .done) : Inv (events ++ [e]) s' := by
  have hnot : ∀ x, .sampling x ∈ events ++ [e] → .sampling x ∈ events := by
    intro x hx
    rcases List.mem_append.mp hx with hold | hnew
    · exact hold
    · cases List.mem_singleton.mp hnew
      cases he
  have hold : ¬ ∃ x ∈ events, x.throws = true := by
    rw [h.threw]
    rintro ⟨⟨error, hop⟩, -⟩
    rw [hop] at hinside
    cases hinside
  refine ⟨hattempts, hnotAgain, hstage, fun hm => ?_, fun hmem => ?_, fun error hmem => ?_, ?_, halive⟩
  · rw [h.starting (hsampling ▸ hm)] at hinside
    cases hinside
  · rw [h.opReturns (hnot _ hmem)] at hinside
    cases hinside
  · rw [h.opThrows error (hnot _ hmem)] at hinside
    cases hinside
  · rw [exists_throws_concat, ← hthrew]
    exact or_iff_right hold

/-- A step of the operation that calls nothing and throws nothing of its own. -/
theorem Inv.moves (h : Inv events s) (hinside : s.op.inside = true) (he : e.sampling? = none)
    (hno : e.throws = false) (hsampling : s'.sampling = s.sampling) (hcalls : s'.calls = s.calls)
    (hattempts : s'.attempts = s.attempts) (htStart : s'.tStart = s.tStart)
    (hstage : s'.Stage s'.op) (hthrew : ∀ error, s'.op = .threw error → s'.refused = true)
    (halive : s'.watch.running = true → s'.watch.phase ≠ .done) : Inv (events ++ [e]) s' := by
  refine h.opStep hinside he hsampling ?_ ?_ hstage ?_ halive
  · rw [hattempts, hcalls, htStart]
    exact h.attempts
  · rw [hcalls]
    exact h.notAgain
  · rw [hno]
    refine ⟨fun hfalse => Bool.noConfusion hfalse, ?_⟩
    rintro ⟨⟨error, hop⟩, hrefused⟩
    rw [hthrew error hop] at hrefused
    exact Bool.noConfusion hrefused

/-! ### Steps of the sampler -/

theorem now_le_of_step {x : Sampling.Event} {n : Sampling.State}
    (h : Sampling.step o.sampling m x = some n) : m.now ≤ n.now := by
  cases Sampling.stepTo_of_step h with
  | advance ms => exact Int.le_add_of_nonneg_right (Int.natCast_nonneg ms)
  | _ => exact Int.le_refl _

/-- Sampling starts once. -/
theorem starting_of_step {x : Sampling.Event} {n : Sampling.State}
    (h : Sampling.step o.sampling m x = some n) (hn : n.main = .starting) :
    m.main = .starting ∧ x ≠ .watchStart := by
  cases Sampling.stepTo_of_step h with
  | watchStart | opReturns | opThrows | stopSampling | finish | rethrow => cases hn
  | advance => exact ⟨hn, Sampling.Event.noConfusion⟩
  | watchGoesOn | watchEnds => exact ⟨hn, Sampling.Event.noConfusion⟩
  | watchTick => exact ⟨hn, Sampling.Event.noConfusion⟩
  | loop x i loop loop' hget hloop hof =>
    refine ⟨hn, ?_⟩
    rintro rfl
    cases hloop

theorem frame_afterSampling {x : Sampling.Event} (hnow : s.now ≤ m.now) (hx : x ≠ .watchStart) :
    Frame s (State.afterSampling { s with sampling := m } x) := by
  unfold State.afterSampling
  split
  · exact absurd rfl hx
  · split
    · split
      · exact ⟨⟨rfl, rfl, rfl, rfl, rfl, rfl⟩, rfl, rfl, rfl, rfl, id, hnow⟩
      · exact ⟨⟨rfl, rfl, rfl, rfl, rfl, rfl⟩, rfl, rfl, rfl, rfl, id, hnow⟩
    · exact ⟨⟨rfl, rfl, rfl, rfl, rfl, rfl⟩, rfl, rfl, rfl, rfl, id, hnow⟩
  · exact ⟨⟨rfl, rfl, rfl, rfl, rfl, rfl⟩, rfl, rfl, rfl, rfl, id, hnow⟩

theorem phase_afterSampling (x : Sampling.Event) :
    (s.afterSampling x).watch.phase = s.watch.phase := by
  unfold State.afterSampling
  split
  · rfl
  · split
    · split
      · rfl
      · rfl
    · rfl
  · rfl

theorem Inv.samplingStep {x : Sampling.Event} (h : Inv events s) (hallows : s.allows x = true)
    (hstep : Sampling.step o.sampling s.sampling x = some m) :
    Inv (events ++ [.sampling x]) (State.afterSampling { s with sampling := m } x) := by
  by_cases hx : x = .watchStart
  · subst hx
    have hmain : s.sampling.main = .starting := by
      cases Sampling.stepTo_of_step hstep with
      | watchStart hmain => exact hmain
      | loop _ i loop loop' hget hloop hof => cases hloop
    have hop := h.starting hmain
    have hstage := h.stage
    rw [hop] at hstage
    obtain ⟨hcalls, hpending⟩ := hstage
    have hold : ¬ ∃ y ∈ events, y.throws = true := by
      rw [h.threw, hop]
      rintro ⟨⟨error, herror⟩, -⟩
      cases herror
    have hnot : ∀ y, .sampling y ∈ events ++ [.sampling .watchStart] → y ≠ .watchStart →
        .sampling y ∈ events := by
      intro y hy hne
      rcases List.mem_append.mp hy with hmem | hmem
      · exact hmem
      · exact absurd (Event.sampling.inj (List.mem_singleton.mp hmem)) hne
    refine ⟨?_, ?_, ⟨?_, hpending⟩, fun hm => ?_, fun hmem => ?_, fun error hmem => ?_, ?_,
      h.alive⟩
    · show s.attempts = (answersOf (s.calls ++ [.called])).map (attemptLine s.tStart)
      rw [answersOf_concat]
      simpa [Call.answer] using h.attempts
    · show NotAgain (s.calls ++ [.called])
      rw [hcalls]
      exact NotAgain.call fun y hy => absurd hy List.not_mem_nil
    · show Fresh (s.calls ++ [.called])
      rw [hcalls]
      exact fun y hy => absurd hy List.not_mem_nil
    · rw [sampling_afterSampling] at hm
      exact absurd rfl (starting_of_step hstep hm).2
    · exact Op.noConfusion (hop.symm.trans (h.opReturns (hnot _ hmem Sampling.Event.noConfusion)))
    · exact Op.noConfusion
        (hop.symm.trans (h.opThrows error (hnot _ hmem Sampling.Event.noConfusion)))
    · rw [exists_throws_concat]
      refine ⟨fun hthrew => ?_, ?_⟩
      · rcases hthrew with hthrew | hthrew
        · exact absurd hthrew hold
        · cases hthrew
      · rintro ⟨⟨error, herror⟩, -⟩
        cases herror
  · have hf := frame_afterSampling (m := m) (now_le_of_step hstep) hx
    refine h.frame hf (fun hm => ?_) (fun he => ?_) (fun error he => ?_) rfl fun hrunning => ?_
    · rw [sampling_afterSampling] at hm
      exact (starting_of_step hstep hm).1
    · cases he
      exact of_decide_eq_true hallows
    · cases he
      exact of_decide_eq_true hallows
    · rw [phase_afterSampling]
      exact h.alive (hf.running ▸ hrunning)

/-! ### Steps of the watch -/

theorem running_of_watchTo {e : WatchEvent} (h : WatchTo w e w') : w'.running = w.running := by
  cases h with
  | _ => rfl

theorem not_watchTo_of_done {e : WatchEvent} (hdone : w.phase = .done) (h : WatchTo w e w') :
    False := by
  cases h with
  | goesOn hphase | ends hphase | due _ hphase | newOnly _ hphase | oldEnds _ hphase
    | wakes _ hphase => exact WatchPhase.noConfusion (hdone.symm.trans hphase)

/-- The loop ends only when it was told to. -/
theorem alive_of_watchTo {e : WatchEvent} (h : WatchTo w e w') (hrunning : w'.running = true) :
    w'.phase ≠ .done := by
  cases h with
  | ends hphase hstopped =>
    rw [show ({ w with phase := .done } : CredentialLoop).running = w.running from rfl, hstopped]
      at hrunning
    cases hrunning
  | goesOn | due | newOnly | oldEnds | wakes => exact WatchPhase.noConfusion

theorem Inv.watchStep {e : WatchEvent} (h : Inv events s) (hstep : WatchTo s.watch e w) :
    Inv (events ++ [.watch e]) { s with watch := w } := by
  have hf : Frame s { s with watch := w } :=
    ⟨⟨rfl, rfl, rfl, rfl, rfl, rfl⟩, rfl, rfl, rfl, running_of_watchTo hstep,
      fun hdone => (not_watchTo_of_done hdone hstep).elim, Int.le_refl _⟩
  exact h.frame hf id (fun he => nomatch he) (fun _ he => nomatch he) rfl (alive_of_watchTo hstep)

/-! ### Steps of the operation -/

/-- What is read from the last answer is about it. -/
theorem describes_readAnswer (h : LastAnswered s r) (hcalls : s'.calls = s.calls)
    (htStart : s'.tStart = s.tStart) (http : s'.http = r.status) (hbody : s'.body = cut 200 r.text)
    (hoffset : s'.postOffsetMs = s.now - s.tStart)
    (haccepted : s'.acceptedAfterS = if r.accepted then some (secondsSince s.tStart s.now) else none) :
    Posted s' r.accepted := by
  obtain ⟨earlier, atMs, hanswers, hnow, -⟩ := h
  have hback : s'.tStart + s'.postOffsetMs = s.now := by
    rw [htStart, hoffset]
    omega
  refine ⟨r, atMs, ⟨?_, http, hbody, ?_, ?_⟩, rfl⟩
  · rw [hcalls, hanswers]
    exact List.getLast?_concat
  · rwa [hback]
  · rw [hback, htStart]
    exact haccepted

theorem answersOf_called {calls : List Call} : answersOf (calls ++ [.called]) = answersOf calls := by
  rw [answersOf_concat]
  exact List.append_nil _

theorem answersOf_threw {calls : List Call} {error : String} :
    answersOf (calls ++ [.threw error]) = answersOf calls := by
  rw [answersOf_concat]
  exact List.append_nil _

theorem Inv.step (h : Inv events s) (hstep : StepTo o s e s') : Inv (events ++ [e]) s' := by
  have hstage := h.stage
  cases hstep with
  | sampling x m hallows hx => exact h.samplingStep hallows hx
  | watch x w hx => exact h.watchStep hx
  | answers r hop =>
    rw [hop] at hstage
    refine h.opStep (by rw [hop]; rfl) rfl rfl ?_ (h.notAgain.concat Call.noConfusion)
      ⟨⟨answersOf s.calls, s.now, answersOf_concat, le_rfl, hstage.1⟩, hstage.2⟩ ?_ h.alive
    · rw [answersOf_concat, List.map_append, h.attempts]
      rfl
    · refine ⟨fun hthrew => Bool.noConfusion hthrew, ?_⟩
      rintro ⟨⟨error, herror⟩, -⟩
      cases herror
  | issueThrows error hop =>
    rw [hop] at hstage
    obtain ⟨-, -, hrefused, hrunning⟩ := hstage
    refine h.opStep (by rw [hop]; rfl) rfl rfl ?_ (h.notAgain.concat Call.noConfusion)
      ⟨fun href => ?_, fun _ => hrunning⟩ ⟨fun _ => ⟨⟨error, rfl⟩, hrefused⟩, fun _ => rfl⟩ h.alive
    · rw [answersOf_threw]
      exact h.attempts
    · exact Bool.noConfusion (hrefused.symm.trans href)
  | goesOn r hop hr =>
    rw [hop] at hstage
    obtain ⟨⟨earlier, atMs, hanswers, -, hearlier⟩, hpending⟩ := hstage
    refine h.moves (by rw [hop]; rfl) rfl rfl rfl rfl rfl rfl ⟨?_, hpending⟩
      (fun _ hthrew => Op.noConfusion hthrew) h.alive
    intro x hx
    have hmem : x ∈ earlier ++ [(r, atMs)] := hanswers ▸ hx
    rcases List.mem_append.mp hmem with hx | hx
    · exact hearlier x hx
    · rw [List.mem_singleton.mp hx]
      exact hr
  | leaves r hop =>
    rw [hop] at hstage
    exact h.moves (by rw [hop]; rfl) rfl rfl rfl rfl rfl rfl hstage
      (fun _ hthrew => Op.noConfusion hthrew) h.alive
  | retry hop =>
    rw [hop] at hstage
    obtain ⟨hfresh, hpending⟩ := hstage
    refine h.opStep (by rw [hop]; rfl) rfl rfl ?_ (NotAgain.call hfresh) ⟨?_, hpending⟩ ?_ h.alive
    · rw [answersOf_called]
      exact h.attempts
    · unfold Fresh
      rw [answersOf_called]
      exact hfresh
    · refine ⟨fun hthrew => Bool.noConfusion hthrew, ?_⟩
      rintro ⟨⟨error, herror⟩, -⟩
      cases herror
  | accepted r hop hr =>
    rw [hop] at hstage
    obtain ⟨hlast, hnone, hrefused, hrunning⟩ := hstage
    refine h.moves (by rw [hop]; rfl) rfl rfl rfl rfl rfl rfl ⟨?_, hrefused, hrunning⟩
      (fun _ hthrew => Op.noConfusion hthrew) h.alive
    rw [← hr]
    exact describes_readAnswer hlast rfl rfl rfl rfl rfl (by rw [if_pos hr])
  | refused r hop hr =>
    rw [hop] at hstage
    obtain ⟨hlast, hnone, -, -⟩ := hstage
    refine h.moves (by rw [hop]; rfl) rfl rfl rfl rfl rfl rfl ⟨?_, rfl⟩
      (fun _ hthrew => Op.noConfusion hthrew) fun hrunning => Bool.noConfusion hrunning
    rw [Bool.not_true, ← hr]
    refine describes_readAnswer hlast rfl rfl rfl rfl rfl ?_
    rw [if_neg (Bool.eq_false_iff.mp hr)]
    exact hnone
  | reads hop | unreadable hop | statusWake hop =>
    rw [hop] at hstage
    exact h.moves (by rw [hop]; rfl) rfl rfl rfl rfl rfl rfl
      ⟨hstage.1.kept ⟨rfl, rfl, rfl, rfl, rfl, rfl⟩, hstage.2⟩ (fun _ hthrew => Op.noConfusion hthrew)
      h.alive
  | timeOver hop | healthy st tl hop | notYet st tl hop =>
    rw [hop] at hstage
    exact h.moves (by rw [hop]; rfl) rfl rfl rfl rfl rfl rfl
      ⟨hstage.1.kept ⟨rfl, rfl, rfl, rfl, rfl, rfl⟩, hstage.2⟩ (fun _ hthrew => Op.noConfusion hthrew)
      h.alive
  | statusThrows error hop =>
    rw [hop] at hstage
    obtain ⟨-, hrefused, hrunning⟩ := hstage
    exact h.opStep (by rw [hop]; rfl) rfl rfl h.attempts h.notAgain
      ⟨fun href => Bool.noConfusion (hrefused.symm.trans href), fun _ => hrunning⟩
      ⟨fun _ => ⟨⟨error, rfl⟩, hrefused⟩, fun _ => rfl⟩ h.alive
  | tailEnds hop =>
    rw [hop] at hstage
    obtain ⟨hposted, hrefused, -⟩ := hstage
    refine h.moves (by rw [hop]; rfl) rfl rfl rfl rfl rfl rfl ⟨?_, rfl⟩
      (fun _ hthrew => Op.noConfusion hthrew) fun hrunning => Bool.noConfusion hrunning
    show Posted _ (!s.refused)
    rw [hrefused]
    exact hposted.kept ⟨rfl, rfl, rfl, rfl, rfl, rfl⟩
  | stopped hop hdone =>
    rw [hop] at hstage
    obtain ⟨hposted, hrunning⟩ := hstage
    cases hrefused : s.refused with
    | true =>
      rw [hrefused] at hposted
      refine h.moves (by rw [hop]; rfl) rfl rfl rfl rfl rfl rfl
        ⟨fun _ => ⟨hposted.kept ⟨rfl, rfl, rfl, rfl, rfl, rfl⟩, hrunning, hdone⟩, fun href => ?_⟩
        (fun _ _ => rfl) h.alive
      exact Bool.noConfusion href
    | false =>
      rw [hrefused] at hposted
      exact h.moves (by rw [hop]; rfl) rfl rfl rfl rfl rfl rfl
        ⟨hposted.kept ⟨rfl, rfl, rfl, rfl, rfl, rfl⟩, rfl, hrunning, hdone⟩
        (fun _ hthrew => Op.noConfusion hthrew) h.alive

theorem inv_run {watchT0 tStart t0 : ℤ} {names : List String}
    (hrun : run o watchT0 tStart t0 names events = some s) : Inv events s :=
  runEvents_invariant (I := Inv) (inv_init watchT0 tStart t0 names)
    (fun _ _ _ _ _ h hstep => h.step (stepTo_of_step hstep)) events s hrun

/-! ## The timeline that is reported -/

/-- The variables of the loop are those of its turns so far. -/
def CredentialLoop.Followed (w : CredentialLoop) : Prop :=
  let st := w.turns.foldl (watchTurn w.t0) {}
  match w.phase with
  | .newLogin => w.st = st
  | .oldLogin t => w.st = newTurn w.t0 st t ∧ oldDue w.st.lastOldAt t.dueMs = true
  | _ => w.st = st ∧ w.turns ≠ []

theorem watchTurn_due {t0 : ℤ} {st : WatchState} {t : Turn}
    (hdue : oldDue (newTurn t0 st t).lastOldAt t.dueMs = true) :
    watchTurn t0 st t = oldTurn t0 (newTurn t0 st t) t := if_pos hdue

theorem watchTurn_newOnly {t0 : ℤ} {st : WatchState} {t : Turn}
    (hdue : oldDue (newTurn t0 st t).lastOldAt t.dueMs = false) :
    watchTurn t0 st t = newTurn t0 st t := if_neg (Bool.eq_false_iff.mp hdue)

/-- The turns together. -/
theorem watch_st (t0 : ℤ) (first : Turn) (turns : List Turn) :
    (Credential.watch t0 first turns).st = (first :: turns).foldl (watchTurn t0) {} :=
  (List.foldl_hom Watched.st fun _ _ => rfl).symm

theorem CredentialLoop.Followed.step {e : WatchEvent} (h : w.Followed) (hstep : WatchTo w e w') :
    w'.Followed := by
  unfold CredentialLoop.Followed at h
  cases hstep with
  | goesOn hphase =>
    rw [hphase] at h
    exact h.1
  | ends hphase =>
    rw [hphase] at h
    exact h
  | due t hphase hdue =>
    rw [hphase] at h
    dsimp only at h
    refine ⟨?_, hdue⟩
    show newTurn w.t0 w.st t = _
    rw [h]
  | newOnly t hphase hdue =>
    rw [hphase] at h
    dsimp only at h
    refine ⟨?_, List.append_ne_nil_of_right_ne_nil _ (List.cons_ne_nil _ _)⟩
    show newTurn w.t0 w.st t = (w.turns ++ [t]).foldl (watchTurn w.t0) {}
    rw [List.foldl_concat, ← h, watchTurn_newOnly hdue]
  | oldEnds t hphase =>
    rw [hphase] at h
    obtain ⟨hst, hdue⟩ := h
    refine ⟨?_, List.append_ne_nil_of_right_ne_nil _ (List.cons_ne_nil _ _)⟩
    show oldTurn w.t0 w.st t = (w.turns ++ [t]).foldl (watchTurn w.t0) {}
    rw [List.foldl_concat, watchTurn_due (hst ▸ hdue), ← hst]
  | wakes ms hphase =>
    rw [hphase] at h
    exact h

/-- A timeline that was taken is that of the loop that has ended. -/
def Taken (s : State) : Prop :=
  s.watch.Followed ∧ ∀ c, s.cred = some c → s.watch.phase = .done ∧ c = s.watch.st.timeline

theorem Taken.step (h : Taken s) (hstep : StepTo o s e s') : Taken s' := by
  cases hstep with
  | sampling x m hallows hx =>
    unfold State.afterSampling
    split
    · exact h
    · split
      · split
        · exact h
        · exact h
      · exact h
    · exact h
  | watch e w hx =>
    refine ⟨h.1.step hx, fun c hc => ?_⟩
    exact (not_watchTo_of_done (h.2 c hc).1 hx).elim
  | stopped hop hdone =>
    refine ⟨h.1, fun c hc => ?_⟩
    cases hc
    exact ⟨hdone, rfl⟩
  | _ => exact h

theorem followed_init {t0 : ℤ} : CredentialLoop.Followed { t0 := t0 } := by
  show ({} : WatchState) = [].foldl (watchTurn t0) {}
  rfl

/-- The timeline in a report is the one that the watch's own turns give. -/
theorem timeline_of_run {watchT0 tStart t0 : ℤ} {names : List String}
    (hrun : run o watchT0 tStart t0 names events = some s) {c : CredentialTimeline}
    (hc : s.cred = some c) :
    ∃ first turns, c = (Credential.watch s.watch.t0 first turns).st.timeline := by
  have htaken : Taken s := runEvents_invariant (I := fun _ m => Taken m)
    ⟨followed_init, fun c hc => by cases hc⟩ (fun _ _ _ _ _ h hstep => h.step (stepTo_of_step hstep)) events s hrun
  obtain ⟨hdone, rfl⟩ := htaken.2 c hc
  have hfollowed := htaken.1
  unfold CredentialLoop.Followed at hfollowed
  rw [hdone] at hfollowed
  obtain ⟨hst, hturns⟩ := hfollowed
  obtain ⟨first, turns, hsplit⟩ := List.exists_cons_of_ne_nil hturns
  refine ⟨first, turns, ?_⟩
  rw [hst, hsplit, watch_st]

/-! ## Whether the watch is quiet -/

/-- The watch has ended, and so have the sampler's loops. -/
structure Still (s : State) : Prop where
  watch : s.watch.Ended
  loops : Sampling.allDone s.sampling = true

theorem still_step (h : Still s) (hstep : StepTo o s e s') :
    Still s' ∧ s'.watch.logins = s.watch.logins := by
  cases hstep with
  | sampling x m hallows hx =>
    have hone : runEvents (Sampling.step o.sampling) s.sampling [x] = some m := by
      rw [runEvents_cons, hx]
      rfl
    have hloops : Sampling.allDone m = true := Sampling.allDone_run h.loops hone
    cases x with
    | loopProbe i =>
      obtain ⟨loop, loop', hget, hloop, -⟩ := Sampling.onLoop_eq hx
      exact (Sampling.loop_lt h.loops hget hloop).elim
    | _ => exact ⟨⟨h.watch, hloops⟩, rfl⟩
  | watch x w hx => exact (not_watchTo_of_done h.watch.2 hx).elim
  | refused | tailEnds => exact ⟨⟨⟨rfl, h.watch.2⟩, h.loops⟩, rfl⟩
  | _ => exact ⟨⟨h.watch, h.loops⟩, rfl⟩

theorem quiet_of_still (h : Still s) : Quiet o s := by
  intro es s' hrun
  exact (runEvents_invariant (I := fun _ m => Still m ∧ m.watch.logins = s.watch.logins) ⟨h, rfl⟩
    (fun _ _ _ _ _ hm hstep =>
      have hkept := still_step hm.1 (stepTo_of_step hstep)
      ⟨hkept.1, hkept.2.trans hm.2⟩) es s' hrun).2

/-- The watch steps by itself. -/
theorem runEvents_watch : ∀ {es : List WatchEvent} {s : State} {w : CredentialLoop},
    runEvents CredentialLoop.step s.watch es = some w →
    runEvents (step o) s (es.map .watch) = some { s with watch := w } := by
  intro es
  induction es with
  | nil =>
    intro s w h
    cases h
    rfl
  | cons x es ih =>
    intro s w h
    obtain ⟨w', hw', hrest⟩ := Option.bind_eq_some_iff.mp h
    rw [List.map_cons, runEvents_cons]
    have hstep : Measure.step o s (.watch x) = some { s with watch := w' } := by
      show (s.watch.step x).map _ = _
      rw [hw']
      rfl
    rw [hstep]
    exact ih (s := { s with watch := w' }) hrest

/-- A running watch that waits logs in again. -/
theorem login_of_sleeping {ms : ℤ} (hphase : w.phase = .sleeping ms) (hrunning : w.running = true) :
    runEvents CredentialLoop.step w [.wake, .check] =
      some { w with phase := .newLogin, logins := w.logins + 1 } := by
  simp [runEvents_cons, CredentialLoop.step, hphase, hrunning]

/-- A turn whose logins both succeed. -/
def plainTurn : Turn where
  new := ⟨true, "", true, false⟩
  newNotedMs := 0
  sinceMs := 0
  dueMs := 0
  old := ⟨true, "", true, false⟩
  oldEndMs := 0
  oldNotedMs := 0
  pauseMs := 0

/-- A running watch logs in again. -/
theorem exists_login (hrunning : w.running = true) (halive : w.phase ≠ .done) :
    ∃ es w', runEvents CredentialLoop.step w es = some w' ∧ w'.logins = w.logins + 1 := by
  -- the login that is under way ends, and the next one is started when its time comes
  cases hphase : w.phase with
  | checking =>
    refine ⟨[.check], { w with phase := .newLogin, logins := w.logins + 1 }, ?_, rfl⟩
    simp [runEvents_cons, CredentialLoop.step, hphase, hrunning]
  | newLogin =>
    by_cases hdue : oldDue (newTurn w.t0 w.st plainTurn).lastOldAt plainTurn.dueMs = true
    · refine ⟨[.newEnds plainTurn],
        { w with st := newTurn w.t0 w.st plainTurn, phase := .oldLogin plainTurn,
                 logins := w.logins + 1 }, ?_, rfl⟩
      rw [runEvents_cons, CredentialLoop.step, if_pos hphase]
      dsimp only
      rw [if_pos hdue]
      rfl
    · refine ⟨[.newEnds plainTurn, .wake, .check],
        { w with st := newTurn w.t0 w.st plainTurn, phase := .newLogin,
                 turns := w.turns ++ [plainTurn], logins := w.logins + 1 }, ?_, rfl⟩
      rw [runEvents_cons, CredentialLoop.step, if_pos hphase]
      dsimp only
      rw [if_neg hdue]
      exact login_of_sleeping (w := { w with
        st := newTurn w.t0 w.st plainTurn
        phase := .sleeping (pauseOf (newTurn w.t0 w.st plainTurn) plainTurn)
        turns := w.turns ++ [plainTurn] }) rfl hrunning
  | oldLogin t =>
    refine ⟨[.oldEnds, .wake, .check],
      { w with st := oldTurn w.t0 w.st t, phase := .newLogin, turns := w.turns ++ [t],
               logins := w.logins + 1 }, ?_, rfl⟩
    rw [runEvents_cons, CredentialLoop.step, hphase]
    exact login_of_sleeping (w := { w with
      st := oldTurn w.t0 w.st t
      phase := .sleeping (pauseOf (oldTurn w.t0 w.st t) t)
      turns := w.turns ++ [t] }) rfl hrunning
  | sleeping ms => exact ⟨_, _, login_of_sleeping hphase hrunning, rfl⟩
  | done => exact absurd hphase halive

theorem not_quiet (hrunning : s.watch.running = true) (halive : s.watch.phase ≠ .done) :
    ¬ Quiet o s := by
  intro hquiet
  obtain ⟨es, w, hrun, hlogins⟩ := exists_login hrunning halive
  have hsame := hquiet _ _ (runEvents_watch hrun)
  dsimp only at hsame
  omega

/-! ## The result -/

theorem ok_result {report : RestoreRun} (h : s.result = some (.ok report)) :
    (∃ endMs windows, s.sampling.main = .returned endMs windows ∧ report = s.report windows) ∨
      (∃ error, s.sampling.main = .rethrown error ∧ s.refused = true ∧ report = s.report []) := by
  unfold State.result at h
  split at h
  · rename_i endMs windows hmain
    cases h
    exact .inl ⟨endMs, windows, hmain, rfl⟩
  · rename_i error hmain
    split at h
    · rename_i hrefused
      cases h
      exact .inr ⟨error, hmain, hrefused, rfl⟩
    · cases h
  · cases h

/-- When the run has settled, the operation is over and the sampler's loops have ended. -/
theorem over_of_settled {watchT0 tStart t0 : ℤ} {names : List String}
    (hrun : run o watchT0 tStart t0 names events = some s) (h : s.result.isSome = true) :
    (s.op = .returned ∨ ∃ error, s.op = .threw error) ∧ Sampling.allDone s.sampling = true := by
  have hinv := inv_run hrun
  have hend := Sampling.endInv_run (sampling_run hrun)
  unfold State.result at h
  split at h
  · rename_i endMs windows hmain
    obtain ⟨hreturns, -, -, hloops, -⟩ := hend.returned endMs windows hmain
    exact ⟨.inl (hinv.opReturns (mem_samplingEvents hreturns)), hloops⟩
  · rename_i error hmain
    obtain ⟨hthrows, hloops⟩ := hend.rethrown error hmain
    exact ⟨.inr ⟨error, hinv.opThrows error (mem_samplingEvents hthrows)⟩, hloops⟩
  · cases h

/-- A settled run in which nothing threw has ended its watch. -/
theorem still_of_settled {watchT0 tStart t0 : ℤ} {names : List String}
    (hrun : run o watchT0 tStart t0 names events = some s) (h : s.result.isSome = true)
    (hno : ∀ x ∈ events, x.throws = false) : Still s := by
  have hinv := inv_run hrun
  obtain ⟨hop, hloops⟩ := over_of_settled hrun h
  refine ⟨?_, hloops⟩
  have hstage := hinv.stage
  rcases hop with hop | ⟨error, hop⟩
  · rw [hop] at hstage
    exact hstage.2.2
  · rw [hop] at hstage
    refine (hstage.1 ?_).2
    by_contra hrefused
    obtain ⟨x, hx, hthrows⟩ := hinv.threw.mpr ⟨⟨error, hop⟩, Bool.eq_false_of_not_eq_true hrefused⟩
    rw [hno x hx] at hthrows
    cases hthrows

/-- Every run keeps what is promised as long as it goes on.  Once it has settled, it keeps it
exactly when neither `issue` nor reading the status threw. -/
theorem measureRestore_windsUp_iff (o : Options) (watchT0 tStart t0 : ℤ) (names : List String)
    (events : List Event) (s : State) (hrun : run o watchT0 tStart t0 names events = some s) :
    WoundUp o s ↔ (s.result.isSome = true → ∀ x ∈ events, x.throws = false) := by
  have hinv := inv_run hrun
  constructor
  · intro h hsettled x hx
    by_contra hthrows
    obtain ⟨⟨error, hop⟩, hrefused⟩ :=
      hinv.threw.mp ⟨x, hx, Bool.eq_true_of_not_eq_false hthrows⟩
    have hstage := hinv.stage
    rw [hop] at hstage
    have hrunning := hstage.2 hrefused
    exact not_quiet hrunning (hinv.alive hrunning) (h.quiet hsettled)
  · intro h
    -- a report is about an answer, 2xx if the operation returned
    have hreport : ∀ report, s.result = some (.ok report) →
        ∃ r atMs windows, report = s.report windows ∧ Describes s r atMs ∧
          (r.accepted = false → windows = []) := by
      intro report hok
      have hsettled : s.result.isSome = true := by rw [hok]; rfl
      have hend := Sampling.endInv_run (sampling_run hrun)
      have hstage := hinv.stage
      rcases ok_result hok with ⟨endMs, windows, hmain, rfl⟩ | ⟨error, hmain, hrefused, rfl⟩
      · have hreturns := (hend.returned endMs windows hmain).1
        rw [hinv.opReturns (mem_samplingEvents hreturns)] at hstage
        obtain ⟨r, atMs, hdescribes, haccepted⟩ := hstage.1
        exact ⟨r, atMs, windows, rfl, hdescribes, fun hr => Bool.noConfusion (hr.symm.trans haccepted)⟩
      · have hthrows := (hend.rethrown error hmain).1
        rw [hinv.opThrows error (mem_samplingEvents hthrows)] at hstage
        obtain ⟨r, atMs, hdescribes, -⟩ := (hstage.1 hrefused).1
        exact ⟨r, atMs, [], rfl, hdescribes, fun _ => rfl⟩
    refine ⟨hinv.notAgain, hinv.attempts, fun report hok => ?_, fun report hok hnone => ?_,
      fun hsettled => quiet_of_still (still_of_settled hrun hsettled (h hsettled))⟩
    · obtain ⟨r, atMs, windows, heq, hdescribes, -⟩ := hreport report hok
      exact ⟨r, atMs, windows, heq, hdescribes⟩
    · obtain ⟨r, atMs, windows, rfl, hdescribes, hempty⟩ := hreport report hok
      refine hempty ?_
      by_contra hr
      have haccepted := hdescribes.accepted
      rw [if_pos (Bool.eq_true_of_not_eq_false hr)] at haccepted
      exact Option.some_ne_none _ (haccepted.symm.trans hnone)

end Steps

/-! ## Runs -/

def probeNames : List String := ["rest", "auth", "storage", "realtime_ws"]

/-- The five probes take their first samples, and the operation begins. -/
def begun : List Event :=
  ((List.range 5).flatMap fun i => [.sampling (.loopCheck i), .sampling (.loopProbe i)]) ++
    [.sampling .watchStart, .sampling .watchCheck]

/-- The operation throws; the samples are good, and sampling ends. -/
def thrown (error : String) : List Event :=
  .sampling (.opThrows error) ::
    ((List.range 5).flatMap fun i =>
      [.sampling (.answer i { ok := true }), .sampling (.loopWake i), .sampling (.loopCheck i)]) ++
    [.sampling .watchTick, .sampling .watchCheck, .sampling .rethrow]

/-- `issue` answers 400 and no retry is due; the watch is stopped. -/
def refusedOnce : List Event :=
  begun ++ [.issueAnswers ⟨400, "not ready"⟩, .decide, .post, .watch (.newEnds plainTurn),
    .watch .oldEnds, .watch .wake, .watch .check, .stopped] ++ thrown "restore request refused"

/-- `issue` throws. -/
def lostRequest : List Event := begun ++ [.issueThrows "fetch failed"] ++ thrown "fetch failed"

theorem measureRestore_windsUp_iff_refusedOnce :
    ∃ s, run {} 0 0 0 probeNames refusedOnce = some s ∧ s.result.isSome = true ∧
      (WoundUp {} s ↔ (s.result.isSome = true → ∀ x ∈ refusedOnce, x.throws = false)) := by
  have hsettles : (run {} 0 0 0 probeNames refusedOnce).map (fun s => s.result.isSome) = some true := by
    decide
  obtain ⟨s, hrun, hresult⟩ := Option.map_eq_some_iff.mp hsettles
  exact ⟨s, hrun, hresult, measureRestore_windsUp_iff {} 0 0 0 probeNames refusedOnce s hrun⟩

/-- The request is lost: the run settles with its error, and the watch goes on logging in. -/
theorem lostRequest_keeps_watching :
    ∃ s, run {} 0 0 0 probeNames lostRequest = some s ∧ s.result = some (.error "fetch failed") ∧
      ¬ Quiet {} s ∧ ¬ WoundUp {} s := by
  have hsettles : (run {} 0 0 0 probeNames lostRequest).map
      (fun s => (s.sampling.main, s.refused, s.watch.running, s.watch.phase)) =
        some (.rethrown "fetch failed", false, true, .newLogin) := by
    decide
  obtain ⟨s, hrun, hstate⟩ := Option.map_eq_some_iff.mp hsettles
  obtain ⟨hmain, hrefused, hrunning, hphase⟩ : s.sampling.main = .rethrown "fetch failed" ∧
      s.refused = false ∧ s.watch.running = true ∧ s.watch.phase = .newLogin := by
    simpa using hstate
  have hresult : s.result = some (.error "fetch failed") := by
    unfold State.result
    rw [hmain]
    dsimp only
    rw [hrefused]
    rfl
  have hnot : ¬ Quiet {} s := not_quiet hrunning (by rw [hphase]; exact WatchPhase.noConfusion)
  exact ⟨s, hrun, hresult, hnot, fun h => hnot (h.quiet (by rw [hresult]; rfl))⟩

end SupabaseLab.RestorePaths.Measure
