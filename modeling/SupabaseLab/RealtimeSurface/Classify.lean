/-
  RealtimeSurface/Classify.lean --- the two classifiers of a channel.

  Source: `onMsg` and the settle pass of experiments/realtime-surface/lib/burst.ts
  (`runBurst`) and lib/peruser.ts (`onMsg`, `joinAll`).

  A channel whose join was sent reads frames until the settle pass; its socket may
  close at any moment.  A frame is what `JSON.parse` made of a message, with the
  fields the handlers read.  The canary rows and the timings of the report are left
  out.
-/
import SupabaseLab.Library.JsMap
import SupabaseLab.Library.JsString
import SupabaseLab.Library.Octets

set_option autoImplicit false

namespace SupabaseLab.RealtimeSurface

open Library

/-! ## Frames -/

inductive Kind where
  | pc
  | bc
  deriving DecidableEq, Repr

inductive Event where
  | phxReply
  | system
  | phxClose
  | phxError
  | postgresChanges
  | broadcast
  | other
  deriving DecidableEq, Repr

/-- The fields of a payload that are read; `json` is its text. -/
structure Payload where
  status : Option String := none
  reason : Option String := none
  error : Option String := none
  extension : Option String := none
  message : Option String := none
  /-- `data.record.body`, or `payload.body` of a broadcast. -/
  body : Option String := none
  /-- `payload.k` of a broadcast. -/
  k : Option String := none
  json : String := ""
  deriving DecidableEq, Repr

structure Frame where
  topic : Option String
  event : Event
  ref : Option String
  payload : Payload
  deriving DecidableEq, Repr

/-! ## Outcomes -/

inductive Outcome where
  | ready
  | joinError (code : String)
  | pcError (msg : String)
  | sysError (msg : String)
  | closed (event : Event)
  | socket (why : String)
  | noReply
  | noSystem
  deriving DecidableEq, Repr

def Event.text : Event → String
  | .phxReply => "phx_reply"
  | .system => "system"
  | .phxClose => "phx_close"
  | .phxError => "phx_error"
  | .postgresChanges => "postgres_changes"
  | .broadcast => "broadcast"
  | .other => ""

/-- The outcome as it is written down. -/
def Outcome.text : Outcome → String
  | .ready => "ready"
  | .joinError code => s!"join_error:{code}"
  | .pcError msg => s!"pc_error:{msg}"
  | .sysError msg => s!"sys_error:{msg}"
  | .closed event => s!"closed:{event.text}"
  | .socket why => s!"socket:{why}"
  | .noReply => "no_reply"
  | .noSystem => "no_system"

/-- `reason.replace(/^"|"$/g, "")`. -/
def unquote (reason : String) : List Char :=
  let r := if reason.toList.head? = some '"' then reason.toList.tail else reason.toList
  if r.getLast? = some '"' then r.dropLast else r

/-- The text before the first colon, which is the protocol's error code. -/
def code (reason : String) : String :=
  let r := unquote reason
  let head := if r.contains ':' && r.head? ≠ some ':' then r.takeWhile (· ≠ ':') else r
  let text := cut 60 (jsTrim (String.ofList head))
  if text = "" then "empty" else text

/-- The code of a reply that is not ok. -/
def Payload.joinCode (p : Payload) : String := code ((p.reason.or p.error).getD "none")

def Payload.msg (p : Payload) : String := cut 80 (p.message.getD "")

/-! ## burst.ts -/

namespace Burst

/-- `Chan`; an instant that is not set is 0 in the source. -/
structure Chan where
  topic : String
  ref : String
  replyAt : Option Nat := none
  readyAt : Option Nat := none
  outcome : Option Outcome := none
  replyText : String := ""
  recvAt : Option Nat := none

/-- `onMsg`, for a socket with one channel. -/
def onMsg (kind : Kind) (runTag : String) (now : Nat) (ch : Chan) (m : Frame) : Chan :=
  if ¬ (m.ref = some ch.ref ∨ m.topic = some ch.topic) then ch
  else
    match m.event with
    | .phxReply =>
        if m.ref ≠ some ch.ref ∨ ch.replyAt.isSome then ch
        else
          let ch := { ch with replyAt := some now, replyText := cut 300 m.payload.json }
          if m.payload.status = some "ok" then
            if kind = .bc ∧ ch.outcome = none then
              { ch with outcome := some .ready, readyAt := some now }
            else ch
          else if ch.outcome = none then { ch with outcome := some (.joinError m.payload.joinCode) }
          else ch
    | .system =>
        let p := m.payload
        let ch := { ch with
          replyText := if ch.replyText = "" then cut 300 p.json else ch.replyText }
        if p.extension = some "postgres_changes" then
          if p.status = some "ok" then
            if ch.outcome = none then { ch with outcome := some .ready, readyAt := some now } else ch
          else if ch.outcome = none ∨ ch.outcome = some .ready then
            { ch with outcome := some (.pcError p.msg), replyText := cut 300 p.json }
          else ch
        else if p.status = some "error" ∧ (ch.outcome = none ∨ ch.outcome = some .ready) then
          { ch with outcome := some (.sysError p.msg), replyText := cut 300 p.json }
        else ch
    | .phxClose | .phxError =>
        if ch.outcome = none then { ch with outcome := some (.closed m.event) } else ch
    | .postgresChanges | .broadcast =>
        if m.payload.body = some runTag ∧ ch.recvAt = none then { ch with recvAt := some now } else ch
    | .other => ch

/-- The settle pass. -/
def settle (closedWhy : Option String) (ch : Chan) : Outcome :=
  match ch.outcome with
  | some outcome => outcome
  | none =>
      match closedWhy with
      | some why => .socket why
      | none => if ch.replyAt = none then .noReply else .noSystem

end Burst

/-! ## peruser.ts -/

namespace PerUser

structure Cli where
  kind : Kind
  topic : String
  ref : String
  replyAt : Option Nat := none
  readyAt : Option Nat := none
  settledAt : Option Nat := none
  outcome : Option Outcome := none
  replyText : String := ""
  late : List Outcome := []
  got : JsMap String Nat := []
  dup : Nat := 0

/-- `settle`. -/
def settle (c : Cli) (outcome : Outcome) (now : Nat) : Cli :=
  { c with
    outcome := some outcome
    settledAt := some now
    readyAt := if outcome = .ready then some now else c.readyAt }

/-- A row or a broadcast is counted by its key. -/
def count (c : Cli) (key : String) (now : Nat) : Cli :=
  if key = "" then c
  else if c.got.has key then { c with dup := c.dup + 1 }
  else { c with got := c.got.set key now }

def onMsg (now : Nat) (c : Cli) (m : Frame) : Cli :=
  if m.topic ≠ some c.topic then c
  else
    match m.event with
    | .phxReply =>
        if m.ref ≠ some c.ref ∨ c.replyAt.isSome then c
        else
          let c := { c with replyAt := some now, replyText := cut 300 m.payload.json }
          if m.payload.status = some "ok" then
            if c.kind = .bc ∧ c.outcome = none then settle c .ready now else c
          else if c.outcome = none then settle c (.joinError m.payload.joinCode) now
          else c
    | .system =>
        let p := m.payload
        if p.extension = some "postgres_changes" ∧ p.status = some "ok" then
          if c.outcome = none then settle c .ready now else c
        else if p.status = some "error" ∨ p.extension = some "postgres_changes" then
          let o := if p.extension = some "postgres_changes" then .pcError p.msg else .sysError p.msg
          if c.outcome = none then { settle c o now with replyText := cut 300 p.json }
          else if c.outcome = some .ready then { c with late := c.late ++ [o] }
          else c
        else c
    | .phxClose | .phxError =>
        if c.outcome = none then settle c (.closed m.event) now
        else if c.outcome = some .ready then { c with late := c.late ++ [.closed m.event] }
        else c
    | .postgresChanges => count c (m.payload.body.getD "") now
    | .broadcast => count c (m.payload.k.getD "") now
    | .other => c

/-- The last loop of `joinAll` over the clients. -/
def settlePass (closedWhy : Option String) (c : Cli) : Outcome :=
  match c.outcome with
  | some outcome => outcome
  | none =>
      match closedWhy with
      | some why => .socket why
      | none => if c.replyAt = none then .noReply else .noSystem

end PerUser

/-! ## A socket's life -/

inductive SocketEvent where
  | message (now : Nat) (m : Frame)
  /-- The socket closes, or fails after it was open. -/
  | closed (why : String)

def SocketEvent.frame? : SocketEvent → Option Frame
  | .message _ m => some m
  | .closed _ => none

/-- `closedWhy ||= why`. -/
def closedWhy (events : List SocketEvent) : Option String :=
  events.findSome? fun
    | .message _ _ => none
    | .closed why => if why = "" then none else some why

/-- What `runBurst` says of the channel. -/
def burstOutcome (kind : Kind) (runTag topic ref : String) (events : List SocketEvent) : Outcome :=
  Burst.settle (closedWhy events) <| events.foldl
    (fun ch e => match e with
      | .message now m => Burst.onMsg kind runTag now ch m
      | .closed _ => ch)
    { topic := topic, ref := ref }

/-- What `joinAll` says of it. -/
def perUserOutcome (kind : Kind) (topic ref : String) (events : List SocketEvent) : Outcome :=
  PerUser.settlePass (closedWhy events) <| events.foldl
    (fun c e => match e with
      | .message now m => PerUser.onMsg now c m
      | .closed _ => c)
    { kind := kind, topic := topic, ref := ref }

/-! ## What a frame says -/

/-- What a frame says to the channel.  `reply` is its answer to the join, with the
code where it is an error. -/
inductive Signal where
  | reply (error : Option String)
  | pcOk
  | pcError (msg : String)
  | sysError (msg : String)
  | ended (event : Event)
  | quiet
  deriving DecidableEq, Repr

def Signal.isReply : Signal → Bool
  | .reply _ => true
  | _ => false

/-- A system frame that reports an error. -/
def Signal.isSystemError : Signal → Bool
  | .pcError _ | .sysError _ => true
  | _ => false

def Frame.signal (topic ref : String) (m : Frame) : Signal :=
  if m.topic ≠ some topic then .quiet
  else
    match m.event with
    | .phxReply =>
        if m.ref ≠ some ref then .quiet
        else .reply (if m.payload.status = some "ok" then none else some m.payload.joinCode)
    | .system =>
        if m.payload.extension = some "postgres_changes" then
          if m.payload.status = some "ok" then .pcOk else .pcError m.payload.msg
        else if m.payload.status = some "error" then .sysError m.payload.msg
        else .quiet
    | .phxClose | .phxError => .ended m.event
    | _ => .quiet

/-- What the socket's events say to the channel, in their order. -/
def signals (topic ref : String) (events : List SocketEvent) : List Signal :=
  (events.filterMap SocketEvent.frame?).map (Frame.signal topic ref)

/-! ## One machine for both -/

/-- The part of a channel's state that decides its outcome. -/
structure Track where
  outcome : Option Outcome := none
  replied : Bool := false
  deriving DecidableEq

/-- What a signal makes of a channel that is not settled; only the first reply counts. -/
def settles (kind : Kind) (replied : Bool) : Signal → Option Outcome
  | .reply none => if replied then none else if kind = .bc then some .ready else none
  | .reply (some code) => if replied then none else some (.joinError code)
  | .pcOk => some .ready
  | .pcError msg => some (.pcError msg)
  | .sysError msg => some (.sysError msg)
  | .ended event => some (.closed event)
  | .quiet => none

/-- `overturns`: a system error takes back `ready`. -/
def Track.step (kind : Kind) (overturns : Bool) (t : Track) (s : Signal) : Track where
  outcome :=
    match t.outcome with
    | none => settles kind t.replied s
    | some .ready =>
        if overturns && s.isSystemError then settles kind t.replied s else some .ready
    | some outcome => some outcome
  replied := t.replied || s.isReply

def Track.settle (closedWhy : Option String) (t : Track) : Outcome :=
  match t.outcome with
  | some outcome => outcome
  | none =>
      match closedWhy with
      | some why => .socket why
      | none => if t.replied then .noSystem else .noReply

def track (kind : Kind) (overturns : Bool) (sigs : List Signal) : Track :=
  sigs.foldl (Track.step kind overturns) {}

section Machine

variable {kind : Kind} {runTag topic ref : String} {events : List SocketEvent} {now : Nat} {m : Frame}

/-- The server answers a join on the join's topic. -/
def Frame.Answers (topic ref : String) (m : Frame) : Prop := m.ref = some ref → m.topic = some topic

def Burst.Chan.track (ch : Burst.Chan) : Track := ⟨ch.outcome, ch.replyAt.isSome⟩

def PerUser.Cli.track (c : PerUser.Cli) : Track := ⟨c.outcome, c.replyAt.isSome⟩

@[simp] theorem step_quiet (t : Track) (overturns : Bool) : t.step kind overturns .quiet = t := by
  obtain ⟨outcome, replied⟩ := t
  cases outcome with
  | none => simp [Track.step, settles, Signal.isReply]
  | some outcome => cases outcome <;> simp [Track.step, Signal.isReply, Signal.isSystemError]

/-- `onMsg` of burst.ts, as a step of the machine. -/
theorem burst_onMsg {ch : Burst.Chan} (hanswers : m.Answers ch.topic ch.ref) :
    (Burst.onMsg kind runTag now ch m).track = ch.track.step kind true (m.signal ch.topic ch.ref) := by
  obtain ⟨mtopic, event, mref, payload⟩ := m
  obtain ⟨topic, ref, replyAt, readyAt, outcome, replyText, recvAt⟩ := ch
  by_cases htopic : mtopic = some topic
  swap
  · have href : mref ≠ some ref := fun h => htopic (hanswers h)
    simp [Burst.onMsg, Frame.signal, htopic, href]
  subst htopic
  cases event with
  | phxReply =>
    by_cases href : mref = some ref
    · cases replyAt <;> by_cases hok : payload.status = some "ok" <;> cases kind <;>
        rcases outcome with _ | outcome <;> try cases outcome
      all_goals simp [Burst.onMsg, Frame.signal, Burst.Chan.track, Track.step, settles,
        Signal.isReply, Signal.isSystemError, href, hok]
    · simp [Burst.onMsg, Frame.signal, href]
  | system =>
    by_cases hpc : payload.extension = some "postgres_changes"
    · by_cases hok : payload.status = some "ok" <;> rcases outcome with _ | outcome <;> try cases outcome
      all_goals simp [Burst.onMsg, Frame.signal, Burst.Chan.track, Track.step, settles,
        Signal.isReply, Signal.isSystemError, hpc, hok]
    · by_cases herror : payload.status = some "error" <;> rcases outcome with _ | outcome <;>
        try cases outcome
      all_goals simp [Burst.onMsg, Frame.signal, Burst.Chan.track, Track.step, settles,
        Signal.isReply, Signal.isSystemError, hpc, herror]
  | phxClose =>
    rcases outcome with _ | outcome <;> try cases outcome
    all_goals simp [Burst.onMsg, Frame.signal, Burst.Chan.track, Track.step, settles,
      Signal.isReply, Signal.isSystemError]
  | phxError =>
    rcases outcome with _ | outcome <;> try cases outcome
    all_goals simp [Burst.onMsg, Frame.signal, Burst.Chan.track, Track.step, settles,
      Signal.isReply, Signal.isSystemError]
  | postgresChanges =>
    by_cases hbody : payload.body = some runTag ∧ recvAt = none
    · simp [Burst.onMsg, Frame.signal, Burst.Chan.track, hbody]
    · simp [Burst.onMsg, Frame.signal, Burst.Chan.track, hbody]
  | broadcast =>
    by_cases hbody : payload.body = some runTag ∧ recvAt = none
    · simp [Burst.onMsg, Frame.signal, Burst.Chan.track, hbody]
    · simp [Burst.onMsg, Frame.signal, Burst.Chan.track, hbody]
  | other => simp [Burst.onMsg, Frame.signal]

/-- No frame changes what the channel is called. -/
theorem burst_onMsg_frame {ch : Burst.Chan} :
    (Burst.onMsg kind runTag now ch m).topic = ch.topic ∧
      (Burst.onMsg kind runTag now ch m).ref = ch.ref := by
  obtain ⟨mtopic, event, mref, payload⟩ := m
  cases event <;> simp only [Burst.onMsg] <;> split_ifs <;> exact ⟨rfl, rfl⟩

@[simp] theorem count_track {c : PerUser.Cli} {key : String} :
    (PerUser.count c key now).track = c.track := by
  unfold PerUser.count
  split_ifs <;> rfl

/-- `onMsg` of peruser.ts, as a step of the machine that does not take back `ready`. -/
theorem perUser_onMsg {c : PerUser.Cli} :
    (PerUser.onMsg now c m).track = c.track.step c.kind false (m.signal c.topic c.ref) := by
  obtain ⟨mtopic, event, mref, payload⟩ := m
  obtain ⟨kind, topic, ref, replyAt, readyAt, settledAt, outcome, replyText, late, got, dup⟩ := c
  by_cases htopic : mtopic = some topic
  swap
  · simp [PerUser.onMsg, Frame.signal, htopic]
  subst htopic
  cases event with
  | phxReply =>
    by_cases href : mref = some ref
    · cases replyAt <;> by_cases hok : payload.status = some "ok" <;> cases kind <;>
        rcases outcome with _ | outcome <;> try cases outcome
      all_goals simp [PerUser.onMsg, PerUser.settle, Frame.signal, PerUser.Cli.track, Track.step, settles,
        Signal.isReply, href, hok]
    · simp [PerUser.onMsg, Frame.signal, href]
  | system =>
    by_cases hpc : payload.extension = some "postgres_changes"
    · by_cases hok : payload.status = some "ok" <;> rcases outcome with _ | outcome <;> try cases outcome
      all_goals simp [PerUser.onMsg, PerUser.settle, Frame.signal, PerUser.Cli.track, Track.step, settles,
        Signal.isReply, hpc, hok]
    · by_cases herror : payload.status = some "error" <;> rcases outcome with _ | outcome <;>
        try cases outcome
      all_goals simp [PerUser.onMsg, PerUser.settle, Frame.signal, PerUser.Cli.track, Track.step, settles,
        Signal.isReply, hpc, herror]
  | phxClose =>
    rcases outcome with _ | outcome <;> try cases outcome
    all_goals simp [PerUser.onMsg, PerUser.settle, Frame.signal, PerUser.Cli.track, Track.step, settles,
      Signal.isReply]
  | phxError =>
    rcases outcome with _ | outcome <;> try cases outcome
    all_goals simp [PerUser.onMsg, PerUser.settle, Frame.signal, PerUser.Cli.track, Track.step, settles,
      Signal.isReply]
  | postgresChanges => simp [PerUser.onMsg, Frame.signal]
  | broadcast => simp [PerUser.onMsg, Frame.signal]
  | other => simp [PerUser.onMsg, Frame.signal]

theorem perUser_onMsg_frame {c : PerUser.Cli} : (PerUser.onMsg now c m).kind = c.kind ∧
    (PerUser.onMsg now c m).topic = c.topic ∧ (PerUser.onMsg now c m).ref = c.ref := by
  obtain ⟨mtopic, event, mref, payload⟩ := m
  cases event <;> simp only [PerUser.onMsg, PerUser.count] <;> split_ifs <;> exact ⟨rfl, rfl, rfl⟩

/-- What `runBurst` says is what the machine says that takes back `ready`. -/
theorem burstOutcome_eq (hanswers : ∀ e ∈ events, ∀ m, e.frame? = some m → m.Answers topic ref) :
    burstOutcome kind runTag topic ref events =
      (track kind true (signals topic ref events)).settle (closedWhy events) := by
  have hsettle : ∀ (ch : Burst.Chan) why, Burst.settle why ch = ch.track.settle why := by
    rintro ⟨_, _, replyAt, _, outcome, _, _⟩ why
    cases outcome <;> cases why <;> cases replyAt <;> rfl
  have hfold : ∀ (events : List SocketEvent) (ch : Burst.Chan),
      (∀ e ∈ events, ∀ m, e.frame? = some m → m.Answers ch.topic ch.ref) →
      (events.foldl (fun ch e => match e with
          | .message now m => Burst.onMsg kind runTag now ch m
          | .closed _ => ch) ch).track =
        (signals ch.topic ch.ref events).foldl (Track.step kind true) ch.track := by
    intro events
    induction events with
    | nil => exact fun ch _ => rfl
    | cons e events ih =>
      intro ch hall
      obtain ⟨hfirst, hrest⟩ := List.forall_mem_cons.mp hall
      cases e with
      | message now m =>
        have hframe := @burst_onMsg_frame kind runTag now m ch
        rw [List.foldl_cons, ih _ (by rw [hframe.1, hframe.2]; exact hrest), hframe.1, hframe.2,
          burst_onMsg (hfirst m rfl)]
        rfl
      | closed why => exact ih ch hrest
  unfold burstOutcome
  rw [hsettle, hfold events _ hanswers]
  rfl

theorem perUserOutcome_eq : perUserOutcome kind topic ref events =
      (track kind false (signals topic ref events)).settle (closedWhy events) := by
  have hsettle : ∀ (c : PerUser.Cli) why, PerUser.settlePass why c = c.track.settle why := by
    rintro ⟨_, _, _, replyAt, _, _, outcome, _, _, _, _⟩ why
    cases outcome <;> cases why <;> cases replyAt <;> rfl
  have hfold : ∀ (events : List SocketEvent) (c : PerUser.Cli),
      (events.foldl (fun c e => match e with
          | .message now m => PerUser.onMsg now c m
          | .closed _ => c) c).track =
        (signals c.topic c.ref events).foldl (Track.step c.kind false) c.track := by
    intro events
    induction events with
    | nil => exact fun c => rfl
    | cons e events ih =>
      intro c
      cases e with
      | message now m =>
        obtain ⟨hkind, htopic, href⟩ := @perUser_onMsg_frame now m c
        rw [List.foldl_cons, ih, hkind, htopic, href, perUser_onMsg]
        rfl
      | closed why => exact ih c
  unfold perUserOutcome
  rw [hsettle, hfold]
  rfl

end Machine

/-! ## The frame that settles a channel -/

/-- A frame settles a channel that is not settled: a system frame or an end always, a
reply when it is the first one and is an error, or the channel waits for nothing else. -/
def Decisive (kind : Kind) (before : List Signal) : Signal → Prop
  | .reply error => (∀ s ∈ before, s.isReply = false) ∧ (error ≠ none ∨ kind = .bc)
  | .quiet => False
  | _ => True

/-- `s` is the first frame that settles the channel. -/
structure FirstDecisive (kind : Kind) (sigs before : List Signal) (s : Signal)
    (after : List Signal) : Prop where
  split : sigs = before ++ s :: after
  decisive : Decisive kind before s
  earlier : ∀ a x b, before = a ++ x :: b → ¬ Decisive kind a x

/-- A system error as an outcome. -/
def Signal.errorOutcome : Signal → Option Outcome
  | .pcError msg => some (.pcError msg)
  | .sysError msg => some (.sysError msg)
  | _ => none

/-- What becomes of an outcome in the frames after it. -/
def outlasts (overturns : Bool) (outcome : Outcome) (after : List Signal) : Outcome :=
  if overturns = true ∧ outcome = .ready then (after.findSome? Signal.errorOutcome).getD .ready
  else outcome

/-- What a channel that nothing settled becomes. -/
def unsettled (replied : Bool) : Option String → Outcome
  | some why => .socket why
  | none => if replied then .noSystem else .noReply

section Decisive

variable {kind : Kind} {overturns : Bool} {sigs before after : List Signal} {s : Signal}
  {outcome : Outcome}

theorem settles_isSome :
    (settles kind (before.any Signal.isReply) s).isSome = true ↔ Decisive kind before s := by
  have hany : before.any Signal.isReply = false ↔ ∀ s ∈ before, s.isReply = false := by simp
  unfold Decisive settles
  rw [← hany]
  cases s with
  | reply error => cases error <;> cases before.any Signal.isReply <;> cases kind <;> simp
  | _ => simp

@[simp] theorem isSystemError_iff : s.isSystemError = s.errorOutcome.isSome := by
  cases s <;> rfl

theorem settles_of_errorOutcome {replied : Bool} {o : Outcome} (h : s.errorOutcome = some o) :
    settles kind replied s = some o := by
  cases s <;> simp_all [Signal.errorOutcome, settles]

theorem errorOutcome_ne_ready {o : Outcome} (h : s.errorOutcome = some o) : o ≠ .ready := by
  cases s <;> simp only [Signal.errorOutcome, Option.some.injEq, reduceCtorEq] at h <;> simp [← h]

theorem step_outcome_of_ne {t : Track} {o : Outcome} (h : t.outcome = some o) (hne : o ≠ .ready) :
    (t.step kind overturns s).outcome = some o := by
  cases o <;> simp_all [Track.step]

/-- One more frame after the one that settled the channel. -/
theorem step_outlasts {t : Track} (h : t.outcome = some (outlasts overturns outcome after)) :
    (t.step kind overturns s).outcome = some (outlasts overturns outcome (after ++ [s])) := by
  by_cases hready : overturns = true ∧ outcome = .ready
  · obtain ⟨rfl, rfl⟩ := hready
    simp only [outlasts, and_self, if_true] at h ⊢
    rw [List.findSome?_append]
    cases hfind : after.findSome? Signal.errorOutcome with
    | none =>
      rw [hfind] at h
      cases herror : s.errorOutcome with
      | none => simp [Track.step, h, herror]
      | some o => simp [Track.step, h, herror, settles_of_errorOutcome herror]
    | some o =>
      rw [hfind] at h
      obtain ⟨x, _, hx⟩ := List.exists_of_findSome?_eq_some hfind
      simpa using step_outcome_of_ne h (errorOutcome_ne_ready hx)
  · simp only [outlasts, hready, if_false] at h ⊢
    by_cases hne : outcome = .ready
    · obtain rfl : overturns = false := by simpa [hne] using hready
      subst hne
      simp [Track.step, h]
    · exact step_outcome_of_ne h hne

/-- Where a run of the machine stands. -/
theorem track_cases (kind : Kind) (overturns : Bool) (sigs : List Signal) :
    (track kind overturns sigs).replied = sigs.any Signal.isReply ∧
      (((track kind overturns sigs).outcome = none ∧
          ∀ a s b, sigs = a ++ s :: b → ¬ Decisive kind a s) ∨
        ∃ a s b outcome, FirstDecisive kind sigs a s b ∧
          settles kind (a.any Signal.isReply) s = some outcome ∧
          (track kind overturns sigs).outcome = some (outlasts overturns outcome b)) := by
  induction sigs using List.reverseRecOn with
  | nil =>
    refine ⟨rfl, .inl ⟨rfl, fun a s b h => ?_⟩⟩
    exact absurd h.symm (List.append_ne_nil_of_right_ne_nil _ (List.cons_ne_nil _ _))
  | append_singleton sigs x ih =>
    have htrack : track kind overturns (sigs ++ [x]) =
        (track kind overturns sigs).step kind overturns x := List.foldl_concat _ _ _ _
    obtain ⟨hreplied, hcases⟩ := ih
    rw [htrack]
    refine ⟨?_, ?_⟩
    · rw [List.any_append, ← hreplied]
      simp [Track.step]
    rcases hcases with ⟨hnone, hopen⟩ | ⟨a, s, b, outcome, hfirst, hsettles, hsome⟩
    · have hstep : ((track kind overturns sigs).step kind overturns x).outcome =
          settles kind (sigs.any Signal.isReply) x := by
        simp only [Track.step, hnone, hreplied]
      rw [hstep]
      cases hsettled : settles kind (sigs.any Signal.isReply) x with
      | some outcome =>
        refine .inr ⟨sigs, x, [], outcome, ⟨rfl, ?_, hopen⟩, hsettled, ?_⟩
        · exact settles_isSome.mp (by rw [hsettled]; rfl)
        · unfold outlasts
          split
          · rename_i hready
            rw [hready.2]
            rfl
          · rfl
      | none =>
        refine .inl ⟨rfl, fun a s b hsplit => ?_⟩
        rcases List.eq_nil_or_concat b with rfl | ⟨b, y, rfl⟩
        · obtain ⟨rfl, hxs⟩ := List.append_inj' hsplit rfl
          obtain rfl : x = s := by simpa using hxs
          intro hdecisive
          have hsome := settles_isSome.mpr hdecisive
          rw [hsettled] at hsome
          simp at hsome
        · have hsplit' : sigs ++ [x] = (a ++ s :: b) ++ [y] := by simpa using hsplit
          exact hopen a s b (List.append_inj' hsplit' rfl).1
    · refine .inr ⟨a, s, b ++ [x], outcome, ⟨?_, hfirst.decisive, hfirst.earlier⟩, hsettles, ?_⟩
      · rw [hfirst.split, List.append_assoc, List.cons_append]
      · exact step_outlasts hsome

theorem track_settle (kind : Kind) (overturns : Bool) (sigs : List Signal) (why : Option String) :
    ((∀ a s b, sigs = a ++ s :: b → ¬ Decisive kind a s) ∧
        (track kind overturns sigs).settle why = unsettled (sigs.any Signal.isReply) why) ∨
      ∃ a s b outcome, FirstDecisive kind sigs a s b ∧
        settles kind (a.any Signal.isReply) s = some outcome ∧
        (track kind overturns sigs).settle why = outlasts overturns outcome b := by
  obtain ⟨hreplied, ⟨hnone, hopen⟩ | ⟨a, s, b, outcome, hfirst, hsettles, hsome⟩⟩ :=
    track_cases kind overturns sigs
  · refine .inl ⟨hopen, ?_⟩
    rw [← hreplied]
    simp only [Track.settle, hnone, unsettled]
  · refine .inr ⟨a, s, b, outcome, hfirst, hsettles, ?_⟩
    simp only [Track.settle, hsome]

end Decisive

/-! ## The documented classification -/

/-- Both halves of `ready`: for pc the reply and the system frame, for bc the reply. -/
def Ready : Kind → List Signal → Prop
  | .pc, sigs => .reply none ∈ sigs ∧ .pcOk ∈ sigs
  | .bc, sigs => .reply none ∈ sigs

/-- What the table of burst.ts says of an outcome. -/
structure Documented (kind : Kind) (sigs : List Signal) (outcome : Outcome) : Prop where
  ready : outcome = .ready → Ready kind sigs
  joinError : ∀ code, outcome = .joinError code ↔
    sigs.find? Signal.isReply = some (.reply (some code))
  closed : ∀ event, outcome = .closed event →
    ∃ a b, sigs = a ++ .ended event :: b ∧ ¬ Ready kind a
  socket : ∀ why, outcome = .socket why → ¬ Ready kind sigs

/-- `ready` comes first and a system error follows. -/
def LateError (kind : Kind) (sigs : List Signal) : Prop :=
  ∃ a s b, FirstDecisive kind sigs a s b ∧ (s = .pcOk ∨ s = .reply none) ∧
    ∃ e ∈ b, e.isSystemError = true

/-- A system frame says ok first, and no reply says ok. -/
def Unanswered (kind : Kind) (sigs : List Signal) : Prop :=
  ∃ a b, FirstDecisive kind sigs a .pcOk b ∧ .reply none ∉ sigs

/-- The reply is an error and comes after the frame that settled the channel. -/
def LateRefusal (kind : Kind) (sigs : List Signal) : Prop :=
  ∃ a s b code, FirstDecisive kind sigs a s b ∧ s.isReply = false ∧
    sigs.find? Signal.isReply = some (.reply (some code))

section Agreement

variable {kind : Kind} {sigs a b a' b' : List Signal} {s s' : Signal} {why : Option String}
  {outcome : Outcome} {code : String}

theorem FirstDecisive.unique (h : FirstDecisive kind sigs a s b)
    (h' : FirstDecisive kind sigs a' s' b') : a = a' ∧ s = s' ∧ b = b' := by
  have hsplit : a ++ s :: b = a' ++ s' :: b' := h.split.symm.trans h'.split
  rcases List.append_eq_append_iff.mp hsplit with ⟨c, hc, hrest⟩ | ⟨c, hc, hrest⟩
  · cases c with
    | nil =>
      obtain ⟨rfl, rfl⟩ := List.cons.inj hrest
      exact ⟨by simpa using hc.symm, rfl, rfl⟩
    | cons x c =>
      obtain ⟨rfl, -⟩ := List.cons.inj hrest
      exact absurd h.decisive (h'.earlier a s c hc)
  · cases c with
    | nil =>
      obtain ⟨rfl, rfl⟩ := List.cons.inj hrest
      exact ⟨by simpa using hc, rfl, rfl⟩
    | cons x c =>
      obtain ⟨rfl, -⟩ := List.cons.inj hrest
      exact absurd h'.decisive (h.earlier a' s' c hc)

theorem find_reply_iff {error : Option String} :
    sigs.find? Signal.isReply = some (.reply error) ↔
      ∃ a b, sigs = a ++ .reply error :: b ∧ ∀ s ∈ a, s.isReply = false := by
  rw [List.find?_eq_some_iff_append]
  simp [Signal.isReply]

/-- A channel that is ready was settled by one of the frames. -/
theorem Ready.decisive (h : Ready kind sigs) : ∃ a s b, sigs = a ++ s :: b ∧ Decisive kind a s := by
  cases kind with
  | pc =>
    obtain ⟨a, b, hsplit⟩ := List.append_of_mem h.2
    exact ⟨a, .pcOk, b, hsplit, trivial⟩
  | bc =>
    have hreply : (sigs.find? Signal.isReply).isSome = true := by
      rw [List.find?_isSome]
      exact ⟨_, h, rfl⟩
    obtain ⟨s, hs⟩ := Option.isSome_iff_exists.mp hreply
    obtain ⟨error, rfl⟩ : ∃ error, s = .reply error := by
      have := List.find?_some hs
      cases s <;> simp [Signal.isReply] at this ⊢
    obtain ⟨a, b, hsplit, hbefore⟩ := find_reply_iff.mp hs
    exact ⟨a, .reply error, b, hsplit, hbefore, .inr rfl⟩

theorem FirstDecisive.not_ready_before (h : FirstDecisive kind sigs a s b) : ¬ Ready kind a := by
  intro hready
  obtain ⟨a', s', b', hsplit, hdecisive⟩ := hready.decisive
  exact h.earlier a' s' b' hsplit hdecisive

/-- The first reply settles the channel when it is an error and nothing settled it before. -/
theorem FirstDecisive.first_reply (h : FirstDecisive kind sigs a s b)
    (herror : sigs.find? Signal.isReply = some (.reply (some code))) (hreply : s.isReply = true) :
    s = .reply (some code) := by
  obtain ⟨a', b', hsplit, hbefore⟩ := find_reply_iff.mp herror
  cases s with
  | reply error =>
    have : sigs.find? Signal.isReply = some (.reply error) :=
      find_reply_iff.mpr ⟨a, b, h.split, h.decisive.1⟩
    rw [herror] at this
    exact (Option.some.inj this).symm
  | _ => simp [Signal.isReply] at hreply

/-- The signals whose outcome is `ready`. -/
theorem settles_eq_ready {replied : Bool} (h : settles kind replied s = some .ready) :
    s = .pcOk ∨ s = .reply none := by
  cases s with
  | reply error => cases error <;> cases replied <;> simp [settles] at h ⊢
  | _ => simp [settles] at h ⊢

theorem settles_eq_joinError {replied : Bool} :
    settles kind replied s = some (.joinError code) ↔ replied = false ∧ s = .reply (some code) := by
  cases s with
  | reply error => cases error <;> cases replied <;> cases kind <;> simp [settles]
  | _ => simp [settles]

theorem outlasts_eq_iff : outlasts true outcome b = outcome ↔
    ¬ (outcome = .ready ∧ ∃ e ∈ b, e.isSystemError = true) := by
  by_cases hready : outcome = .ready
  · subst hready
    simp only [outlasts, and_self, if_true, true_and, not_exists, not_and]
    cases hfind : b.findSome? Signal.errorOutcome with
    | none =>
      rw [List.findSome?_eq_none_iff] at hfind
      simp +contextual [hfind]
    | some o =>
      obtain ⟨x, hx, hxo⟩ := List.exists_of_findSome?_eq_some hfind
      simp only [Option.getD_some]
      refine iff_of_false (errorOutcome_ne_ready hxo) fun h => h x hx ?_
      simp [hxo]
  · simp [outlasts, hready]

/-- The two classifiers disagree exactly on a system error after `ready`. -/
theorem settle_eq_iff : (track kind true sigs).settle why = (track kind false sigs).settle why ↔
    ¬ LateError kind sigs := by
  rcases track_settle kind true sigs why with ⟨hopen, htrue⟩ | ⟨a, s, b, outcome, hfirst, hsettles, htrue⟩
  · rcases track_settle kind false sigs why with ⟨-, hfalse⟩ | ⟨a, s, b, _, hfirst, _⟩
    · rw [htrue, hfalse]
      refine iff_of_true rfl ?_
      rintro ⟨a, s, b, hfirst, -⟩
      exact hopen a s b hfirst.split hfirst.decisive
    · exact absurd hfirst.decisive (hopen a s b hfirst.split)
  · rcases track_settle kind false sigs why with ⟨hopen, -⟩ | ⟨a', s', b', outcome', hfirst', hsettles', hfalse⟩
    · exact absurd hfirst.decisive (hopen a s b hfirst.split)
    obtain ⟨rfl, rfl, rfl⟩ := hfirst.unique hfirst'
    obtain rfl : outcome = outcome' := Option.some.inj (hsettles.symm.trans hsettles')
    have hkept : outlasts false outcome b = outcome := by simp [outlasts]
    rw [htrue, hfalse, hkept, outlasts_eq_iff, not_iff_not]
    constructor
    · rintro ⟨rfl, herror⟩
      exact ⟨a, s, b, hfirst, settles_eq_ready hsettles, herror⟩
    · rintro ⟨a', s', b', hfirst', hready, herror⟩
      obtain ⟨rfl, rfl, rfl⟩ := hfirst.unique hfirst'
      refine ⟨?_, herror⟩
      rcases hready with rfl | rfl
      · exact (Option.some.inj hsettles).symm
      · have hdecisive := hfirst.decisive
        have hbc : kind = .bc := by simpa [Decisive] using hdecisive.2
        have hany : a.any Signal.isReply = false := by simpa using hdecisive.1
        rw [hany, hbc] at hsettles
        exact (Option.some.inj hsettles).symm

theorem settles_eq_closed {replied : Bool} {event : Event}
    (h : settles kind replied s = some (.closed event)) : s = .ended event := by
  cases s with
  | reply error => cases error <;> cases replied <;> cases kind <;> simp [settles] at h
  | _ => simp [settles] at h ⊢ <;> exact h

theorem settles_ne_socket {replied : Bool} {text : String} :
    settles kind replied s ≠ some (.socket text) := by
  cases s with
  | reply error => cases error <;> cases replied <;> cases kind <;> simp [settles]
  | _ => simp [settles]

/-- A channel that nothing settled is classified as documented. -/
theorem documented_unsettled (hopen : ∀ a s b, sigs = a ++ s :: b → ¬ Decisive kind a s) :
    Documented kind sigs (unsettled (sigs.any Signal.isReply) why) where
  ready h := by
    cases why <;> simp only [unsettled] at h
    · split at h <;> simp at h
    · simp at h
  joinError code := by
    refine iff_of_false ?_ ?_
    · cases why <;> simp only [unsettled] <;> [split; skip] <;> simp
    · intro herror
      obtain ⟨a, b, hsplit, hbefore⟩ := find_reply_iff.mp herror
      exact hopen a _ b hsplit ⟨hbefore, .inl (Option.some_ne_none code)⟩
  closed event h := by
    cases why <;> simp only [unsettled] at h
    · split at h <;> simp at h
    · simp at h
  socket _ _ hready := by
    obtain ⟨a, s, b, hsplit, hdecisive⟩ := hready.decisive
    exact hopen a s b hsplit hdecisive

/-- The classifier that keeps `ready` writes what the table says, but for two kinds of run. -/
theorem documented_iff : Documented kind sigs ((track kind false sigs).settle why) ↔
    ¬ Unanswered kind sigs ∧ ¬ LateRefusal kind sigs := by
  rcases track_settle kind false sigs why with ⟨hopen, hsettle⟩ | ⟨a, s, b, outcome, hfirst, hsettles, hsettle⟩
  · rw [hsettle]
    refine iff_of_true (documented_unsettled hopen) ⟨?_, ?_⟩
    · rintro ⟨a, b, hfirst, -⟩
      exact hopen a _ b hfirst.split hfirst.decisive
    · rintro ⟨a, s, b, code, hfirst, -⟩
      exact hopen a s b hfirst.split hfirst.decisive
  have hkept : outlasts false outcome b = outcome := by simp [outlasts]
  rw [hsettle, hkept]
  constructor
  · intro hdocumented
    refine ⟨?_, ?_⟩
    · rintro ⟨a', b', hfirst', hreply⟩
      obtain ⟨rfl, rfl, rfl⟩ := hfirst.unique hfirst'
      have hready := hdocumented.ready (Option.some.inj hsettles).symm
      cases kind with
      | pc => exact hreply hready.1
      | bc => exact hreply hready
    · rintro ⟨a', s', b', code, hfirst', hreply, herror⟩
      obtain ⟨rfl, rfl, rfl⟩ := hfirst.unique hfirst'
      rw [(hdocumented.joinError code).mpr herror] at hsettles
      obtain ⟨-, rfl⟩ := settles_eq_joinError.mp hsettles
      simp [Signal.isReply] at hreply
  · rintro ⟨hanswered, hrefusal⟩
    have hmem : s ∈ sigs := by simp [hfirst.split]
    refine ⟨?_, fun code => ⟨?_, ?_⟩, ?_, ?_⟩
    · rintro rfl
      have hreply : .reply none ∈ sigs := by
        rcases settles_eq_ready hsettles with rfl | rfl
        · by_contra hreply
          exact hanswered ⟨a, b, hfirst, hreply⟩
        · exact hmem
      cases kind with
      | bc => exact hreply
      | pc =>
        rcases settles_eq_ready hsettles with rfl | rfl
        · exact ⟨hreply, hmem⟩
        · simpa [Decisive] using hfirst.decisive.2
    · rintro rfl
      obtain ⟨-, rfl⟩ := settles_eq_joinError.mp hsettles
      exact find_reply_iff.mpr ⟨a, b, hfirst.split, hfirst.decisive.1⟩
    · intro herror
      by_cases hreply : s.isReply = true
      · obtain rfl := hfirst.first_reply herror hreply
        have hany : a.any Signal.isReply = false := by simpa using hfirst.decisive.1
        exact Option.some.inj (hsettles.symm.trans (settles_eq_joinError.mpr ⟨hany, rfl⟩))
      · exact absurd ⟨a, s, b, code, hfirst, by simpa using hreply, herror⟩ hrefusal
    · rintro event rfl
      obtain rfl := settles_eq_closed hsettles
      exact ⟨a, b, hfirst.split, hfirst.not_ready_before⟩
    · rintro text rfl
      exact absurd hsettles settles_ne_socket

end Agreement

/-- The two classifiers say the same of a channel, and what the table says. -/
def Agree (kind : Kind) (runTag topic ref : String) (events : List SocketEvent) : Prop :=
  burstOutcome kind runTag topic ref events = perUserOutcome kind topic ref events ∧
    Documented kind (signals topic ref events) (burstOutcome kind runTag topic ref events) ∧
    Documented kind (signals topic ref events) (perUserOutcome kind topic ref events)

theorem classifiers_agree_iff (kind : Kind) (runTag topic ref : String) (events : List SocketEvent)
    (hanswers : ∀ e ∈ events, ∀ m, e.frame? = some m → m.Answers topic ref) :
    Agree kind runTag topic ref events ↔
      ¬ LateError kind (signals topic ref events) ∧
        ¬ Unanswered kind (signals topic ref events) ∧
        ¬ LateRefusal kind (signals topic ref events) := by
  unfold Agree
  rw [burstOutcome_eq hanswers, perUserOutcome_eq, settle_eq_iff]
  constructor
  · rintro ⟨hlate, -, hdocumented⟩
    exact ⟨hlate, documented_iff.mp hdocumented⟩
  · rintro ⟨hlate, hdocumented⟩
    have heq : (track kind true (signals topic ref events)).settle (closedWhy events) =
        (track kind false (signals topic ref events)).settle (closedWhy events) :=
      settle_eq_iff.mpr hlate
    refine ⟨hlate, ?_, documented_iff.mpr hdocumented⟩
    rw [heq]
    exact documented_iff.mpr hdocumented

/-- The frames of a pc join that the server accepts. -/
def accepted : List SocketEvent := [
  .message 1 ⟨some "realtime:a", .phxReply, some "1", { status := some "ok" }⟩,
  .message 2 ⟨some "realtime:a", .system, none,
    { status := some "ok", extension := some "postgres_changes" }⟩]

theorem classifiers_agree_iff_accepted : Agree .pc "tag" "realtime:a" "1" accepted := by
  have hsigs : signals "realtime:a" "1" accepted = [.reply none, .pcOk] := by decide
  have hanswers : ∀ e ∈ accepted, ∀ m, e.frame? = some m → m.Answers "realtime:a" "1" := by
    simp [accepted, SocketEvent.frame?, Frame.Answers]
  refine (classifiers_agree_iff .pc "tag" "realtime:a" "1" accepted hanswers).mpr ⟨?_, ?_, ?_⟩
  · rintro ⟨a, s, b, hfirst, -, e, he, herror⟩
    have hmem : e ∈ signals "realtime:a" "1" accepted := by simp [hfirst.split, he]
    rw [hsigs] at hmem
    rcases List.mem_pair.mp hmem with rfl | rfl <;> simp [Signal.errorOutcome] at herror
  · rintro ⟨a, b, -, hreply⟩
    exact hreply (by simp [hsigs])
  · rintro ⟨a, s, b, code, -, -, herror⟩
    simp [hsigs, Signal.isReply] at herror

/-- The database gives up on the subscription after it was confirmed. -/
def brokenLater : List SocketEvent :=
  accepted ++ [.message 3 ⟨some "realtime:a", .system, none,
    { status := some "error", extension := some "postgres_changes", message := some "timeout" }⟩]

theorem classifiers_disagree :
    perUserOutcome .pc "realtime:a" "1" brokenLater = .ready ∧
      burstOutcome .pc "tag" "realtime:a" "1" brokenLater = .pcError "timeout" ∧
      ¬ Agree .pc "tag" "realtime:a" "1" brokenLater := by
  have hperUser : perUserOutcome .pc "realtime:a" "1" brokenLater = .ready := by decide
  have hburst : burstOutcome .pc "tag" "realtime:a" "1" brokenLater = .pcError "timeout" := by decide
  refine ⟨hperUser, hburst, fun hagree => ?_⟩
  have := hagree.1
  simp [hperUser, hburst] at this

end SupabaseLab.RealtimeSurface
