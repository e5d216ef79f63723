/-
  Harness/RealtimeProbe.lean --- the probe that joins a Realtime channel.

  Source: `classifyRealtimeFrame` and `realtimeJoinProbe` of harness/src/real-probes.ts.

  The socket's events come in any order that an open socket allows.  The first of them
  that decides gives the outcome, and a failure names the milestone that was missing.
-/
import SupabaseLab.Harness.Sampler
import SupabaseLab.Library.Json
import SupabaseLab.Library.Machine

set_option autoImplicit false

namespace SupabaseLab.Harness.RealtimeProbe

open Library

/-! ## Frames -/

inductive RtStep where
  | joined
  | subscribed
  | delivered
  | fail (error : JsText)
  | ignore
  deriving DecidableEq

/-- `value ?? {}`. -/
def orEmpty : Option Json → Json
  | none | some .null => .obj []
  | some v => v

/-- `a ?? b`. -/
def coalesce (a b : Option Json) : Option Json :=
  match a with
  | none | some .null => b
  | some v => some v

/-- `value?.key`. -/
def optionalGet? (value : Option Json) (key : String) : Option (Option Json) :=
  match value with
  | none | some .null => some none
  | some v => v.get? key

/-- `String(value)`. -/
def stringOf? : Option Json → Option String
  | none => some "undefined"
  | some v => v.toText?

/-- `value === text`. -/
def isText (value : Option Json) (text : String) : Bool :=
  match value with
  | some (.str s) => s = text
  | _ => false

/-- What a frame on our topic means for the probe; `none` where reading it throws. -/
def classifyRealtimeFrame (f : Json) (topic nonce : String) : Option RtStep := do
  if !isText (← f.get? "topic") topic then return .ignore
  let p := orEmpty (← f.get? "payload")
  let event ← f.get? "event"
  if isText event "phx_reply" then
    if !isText (← f.get? "ref") "1" then return .ignore
    let status ← p.get? "status"
    if isText status "ok" then return .joined
    let reason ← optionalGet? (← p.get? "response") "reason"
    let text ← stringOf? (coalesce reason (coalesce status (some (.str "error"))))
    return .fail (units "join: " ++ (units text).take 80)
  else if isText event "system" then
    if !isText (← p.get? "extension") "postgres_changes" then return .ignore
    let status ← p.get? "status"
    if isText status "ok" then return .subscribed
    let text ← stringOf? (coalesce (← p.get? "message") status)
    return .fail (units "pg_changes: " ++ (units text).take 80)
  else if isText event "broadcast" then
    let inner := orEmpty (← p.get? "payload")
    return if isText (← inner.get? "nonce") nonce then .delivered else .ignore
  else if isText event "phx_error" then return .fail (units "channel: phx_error")
  else if isText event "phx_close" then return .fail (units "channel: phx_close")
  else return .ignore

/-! ## The socket -/

inductive Stage where
  | handshake
  | join
  | pgChanges
  | broadcast
  deriving DecidableEq

def Stage.text : Stage → String
  | .handshake => "handshake"
  | .join => "join"
  | .pgChanges => "pg_changes"
  | .broadcast => "broadcast"

/-- What the probe sends: the join, and the broadcast with the nonce. -/
inductive Sent where
  | phxJoin
  | ping
  deriving DecidableEq

/-- The variables of `run`, and what went out. -/
structure Probe where
  isOpen : Bool := false
  joined : Bool := false
  subscribed : Bool := false
  sent : Bool := false
  stage : Stage := .handshake
  /-- `finished`, with what was resolved -/
  outcome : Option ProbeOutcome := none
  outbox : List Sent := []

inductive SocketEvent where
  | opened
  /-- `none` is a text that is not JSON -/
  | message (data : Option Json)
  | error
  | closed (code : Nat)
  | timeout

/-- Only the first call resolves; the socket is closed then. -/
def Probe.done (s : Probe) (o : ProbeOutcome) : Probe := { s with outcome := s.outcome.or (some o) }

/-- A socket that is closing sends nothing. -/
def Probe.send (s : Probe) (m : Sent) : Probe :=
  { s with outbox := if s.outcome.isSome then s.outbox else s.outbox ++ [m] }

/-- The end of the message handler: the stage, and the broadcast once both parts are there. -/
def Probe.advance (s : Probe) : Probe :=
  let s := { s with
    stage := if s.joined then if s.subscribed then .broadcast else .pgChanges else s.stage }
  if s.joined && s.subscribed && !s.sent then { s with sent := true }.send .ping else s

/-- The message handler; a frame that cannot be read changes nothing. -/
def Probe.receive (s : Probe) : Option RtStep → Probe
  | none => s
  | some (.fail error) => s.done { ok := false, error := some error }
  | some .delivered => s.done { ok := true }
  | some .joined => { s with joined := true }.advance
  | some .subscribed => { s with subscribed := true }.advance
  | some .ignore => s.advance

def down (text : JsText) : ProbeOutcome := { ok := false, error := some text }

/-- The listeners and the timer.  A message is dispatched on an open socket, and a socket
that was closed does not open. -/
def Probe.step (topic nonce : String) (s : Probe) : SocketEvent → Option Probe
  | .opened =>
      if s.isOpen || s.outcome.isSome then none
      else some (({ s with isOpen := true, stage := .join }).send .phxJoin)
  | .message data =>
      if s.isOpen then some (s.receive (data.bind fun f => classifyRealtimeFrame f topic nonce))
      else none
  | .error => some (s.done (down (units ("ws error at " ++ s.stage.text))))
  | .closed code => some (s.done (down (units ("closed " ++ toString code ++ " at " ++ s.stage.text))))
  | .timeout => some (s.done (down (units ("timeout at " ++ s.stage.text))))

/-! ## What the events say -/

section Spec

variable (topic nonce : String)

/-- What a message says to the probe. -/
def stepOf : SocketEvent → Option RtStep
  | .message data => data.bind fun f => classifyRealtimeFrame f topic nonce
  | _ => none

def isOpened : SocketEvent → Bool
  | .opened => true
  | _ => false

def heard (step : RtStep) (es : List SocketEvent) : Bool :=
  es.any fun e => decide (stepOf topic nonce e = some step)

/-- The first milestone that is missing. -/
def stageOf (isOpen joined subscribed : Bool) : Stage :=
  if !isOpen then .handshake
  else if !joined then .join
  else if !subscribed then .pgChanges
  else .broadcast

/-- The first milestone that the events lack. -/
def missing (es : List SocketEvent) : Stage :=
  stageOf (es.any isOpened) (heard topic nonce .joined es) (heard topic nonce .subscribed es)

/-- What a step decides. -/
def decided : Option RtStep → Option ProbeOutcome
  | some (.fail error) => some (down error)
  | some .delivered => some { ok := true }
  | _ => none

/-- What an event decides in a stage. -/
def verdictAt (stage : Stage) (e : SocketEvent) : Option ProbeOutcome :=
  match e with
  | .opened => none
  | .message _ => decided (stepOf topic nonce e)
  | .error => some (down (units ("ws error at " ++ stage.text)))
  | .closed code => some (down (units ("closed " ++ toString code ++ " at " ++ stage.text)))
  | .timeout => some (down (units ("timeout at " ++ stage.text)))

/-- What an event decides, after those before it. -/
def verdict (before : List SocketEvent) (e : SocketEvent) : Option ProbeOutcome :=
  verdictAt topic nonce (missing topic nonce before) e

/-- No event decides. -/
def Undecided (es : List SocketEvent) : Prop :=
  ∀ before e after, es = before ++ e :: after → verdict topic nonce before e = none

/-- The event is the first that decides, and this is what it decides. -/
structure Decides (es before : List SocketEvent) (e : SocketEvent) (o : ProbeOutcome) : Prop where
  split : ∃ after, es = before ++ e :: after
  first : Undecided topic nonce before
  verdict : verdict topic nonce before e = some o

end Spec

/-! ## Steps -/

section Steps

variable {topic nonce : String} {s s' : Probe} {e : SocketEvent} {es : List SocketEvent}
  {o : ProbeOutcome}

/-- What an event does to the milestones and to the outcome. -/
structure Moves (s s' : Probe) (opens : Bool) (said : Option RtStep) (o : Option ProbeOutcome) :
    Prop where
  isOpen : s'.isOpen = (s.isOpen || opens)
  joined : s'.joined = (s.joined || decide (said = some .joined))
  subscribed : s'.subscribed = (s.subscribed || decide (said = some .subscribed))
  outcome : s'.outcome = s.outcome.or o

theorem advance_moves (s : Probe) : Moves s s.advance false none none := by
  unfold Probe.advance Probe.send
  dsimp only
  split
  · exact ⟨by simp, by simp, by simp, by simp⟩
  · exact ⟨by simp, by simp, by simp, by simp⟩

theorem receive_moves (s : Probe) (said : Option RtStep) :
    Moves s (s.receive said) false said (decided said) := by
  cases said with
  | none => exact ⟨by simp [Probe.receive], by simp [Probe.receive], by simp [Probe.receive],
      by simp [Probe.receive, decided]⟩
  | some step =>
    cases step with
    | joined =>
      have h := advance_moves { s with joined := true }
      exact ⟨h.isOpen, by simp [Probe.receive, h.joined],
        by simp [Probe.receive, h.subscribed], h.outcome⟩
    | subscribed =>
      have h := advance_moves { s with subscribed := true }
      exact ⟨h.isOpen, by simp [Probe.receive, h.joined],
        by simp [Probe.receive, h.subscribed], h.outcome⟩
    | ignore =>
      have h := advance_moves s
      exact ⟨h.isOpen, by simp [Probe.receive, h.joined],
        by simp [Probe.receive, h.subscribed], h.outcome⟩
    | _ => exact ⟨by simp [Probe.receive, Probe.done], by simp [Probe.receive, Probe.done],
        by simp [Probe.receive, Probe.done], by simp [Probe.receive, Probe.done, decided, down]⟩

theorem step_moves (hstep : s.step topic nonce e = some s') :
    Moves s s' (isOpened e) (stepOf topic nonce e) (verdictAt topic nonce s.stage e) := by
  cases e with
  | opened =>
    rw [Probe.step] at hstep
    split at hstep
    · cases hstep
    · cases hstep
      exact ⟨by simp [Probe.send, isOpened], by simp [Probe.send, stepOf], by simp [Probe.send, stepOf],
        by simp [Probe.send, verdictAt]⟩
  | message data =>
    rw [Probe.step] at hstep
    split at hstep
    · cases hstep
      exact receive_moves s _
    · cases hstep
  | _ =>
    cases hstep
    exact ⟨by simp [Probe.done, isOpened], by simp [Probe.done, stepOf], by simp [Probe.done, stepOf], rfl⟩

/-! ## The variables along a run -/

/-- The stage and the broadcast follow the milestones. -/
structure Follows (s : Probe) : Prop where
  quiet : s.isOpen = false → s.joined = false ∧ s.subscribed = false
  stage : s.stage = stageOf s.isOpen s.joined s.subscribed
  sent : s.sent = (s.joined && s.subscribed)
  outbox : s.outcome = none → s.outbox =
    (if s.isOpen then [.phxJoin] else []) ++ if s.joined && s.subscribed then [.ping] else []

theorem follows_advance {s₀ : Probe} (hopen : s₀.isOpen = true)
    (hstage : s₀.joined = false → s₀.stage = .join)
    (hsent : s₀.sent = true → s₀.joined = true ∧ s₀.subscribed = true)
    (hbox : s₀.outcome = none → s₀.outbox = .phxJoin :: if s₀.sent then [.ping] else []) :
    Follows s₀.advance := by
  obtain ⟨isOpen, joined, subscribed, sent, stage, outcome, outbox⟩ := s₀
  cases hopen
  cases joined with
  | false =>
    cases sent with
    | true => exact absurd (hsent rfl).1 Bool.false_ne_true
    | false => exact ⟨fun h => Bool.noConfusion h, hstage rfl, rfl, hbox⟩
  | true =>
    cases subscribed with
    | false =>
      cases sent with
      | true => exact absurd (hsent rfl).2 Bool.false_ne_true
      | false => exact ⟨fun h => Bool.noConfusion h, rfl, rfl, hbox⟩
    | true =>
      cases sent with
      | true => exact ⟨fun h => Bool.noConfusion h, rfl, rfl, hbox⟩
      | false =>
        refine ⟨fun h => Bool.noConfusion h, rfl, rfl, fun hnone => ?_⟩
        change outcome = none at hnone
        subst hnone
        exact congrArg (· ++ [Sent.ping]) (hbox rfl)

theorem Follows.done (h : Follows s) (o : ProbeOutcome) : Follows (s.done o) := by
  refine ⟨h.quiet, h.stage, h.sent, fun hnone => ?_⟩
  have hsome : (s.outcome.or (some o)).isSome = true := by simp
  rw [show s.outcome.or (some o) = none from hnone] at hsome
  cases hsome

theorem follows_step (hstep : s.step topic nonce e = some s') (h : Follows s) : Follows s' := by
  cases e with
  | opened =>
    rw [Probe.step] at hstep
    split at hstep
    · cases hstep
    · next hclosed =>
      cases hstep
      obtain ⟨hopen, hgoing⟩ := not_or.mp (mt Bool.or_eq_true_iff.mpr hclosed)
      obtain ⟨hjoined, hsubscribed⟩ := h.quiet (Bool.eq_false_of_not_eq_true hopen)
      have hnone : s.outcome = none := Option.not_isSome_iff_eq_none.mp hgoing
      refine ⟨fun h => Bool.noConfusion h, ?_, h.sent, fun _ => ?_⟩
      · show Stage.join = stageOf true s.joined s.subscribed
        rw [hjoined]
        rfl
      · have hbox := h.outbox hnone
        rw [Bool.eq_false_of_not_eq_true hopen, hjoined] at hbox
        show (if s.outcome.isSome then s.outbox else s.outbox ++ [Sent.phxJoin]) =
          [Sent.phxJoin] ++ if s.joined && s.subscribed then [Sent.ping] else []
        rw [hbox, hnone, hjoined]
        rfl
  | message data =>
    rw [Probe.step] at hstep
    split at hstep
    · next hopen =>
      cases hstep
      have hstage : s.joined = false → s.stage = .join := fun hjoined => by
        rw [h.stage, hopen, hjoined]
        rfl
      have hsent : s.sent = true → s.joined = true ∧ s.subscribed = true := fun hsent =>
        Bool.and_eq_true_iff.mp (h.sent ▸ hsent)
      have hbox : s.outcome = none → s.outbox = .phxJoin :: if s.sent then [.ping] else [] :=
        fun hnone => by
          rw [h.outbox hnone, hopen, h.sent]
          rfl
      cases data.bind fun f => classifyRealtimeFrame f topic nonce with
      | none => exact h
      | some step =>
        cases step with
        | joined => exact follows_advance hopen (fun h => Bool.noConfusion h) (fun hs => ⟨rfl, (hsent hs).2⟩) hbox
        | subscribed => exact follows_advance hopen hstage (fun hs => ⟨(hsent hs).1, rfl⟩) hbox
        | ignore => exact follows_advance hopen hstage hsent hbox
        | delivered => exact h.done _
        | fail error => exact h.done _
    · cases hstep
  | error =>
    cases hstep
    exact h.done _
  | closed code =>
    cases hstep
    exact h.done _
  | timeout =>
    cases hstep
    exact h.done _

/-! ## Runs -/

/-- What the variables say of the events so far. -/
structure Inv (topic nonce : String) (es : List SocketEvent) (s : Probe) : Prop extends
    Follows s where
  isOpen : s.isOpen = es.any isOpened
  joined : s.joined = heard topic nonce .joined es
  subscribed : s.subscribed = heard topic nonce .subscribed es
  going : s.outcome = none ↔ Undecided topic nonce es
  decided : ∀ o, s.outcome = some o ↔ ∃ before e, Decides topic nonce es before e o

theorem heard_concat (step : RtStep) (es : List SocketEvent) (e : SocketEvent) :
    heard topic nonce step (es ++ [e]) =
      (heard topic nonce step es || decide (stepOf topic nonce e = some step)) := by
  simp [heard, List.any_append]

theorem undecided_concat : Undecided topic nonce (es ++ [e]) ↔
    Undecided topic nonce es ∧ verdict topic nonce es e = none := by
  constructor
  · intro h
    refine ⟨fun before e' after hsplit => h before e' (after ++ [e]) ?_, h es e [] rfl⟩
    rw [hsplit, List.append_assoc, List.cons_append]
  · rintro ⟨h, hlast⟩ before e' after hsplit
    rcases List.eq_nil_or_concat after with rfl | ⟨after, y, rfl⟩
    · obtain ⟨rfl, he⟩ := List.append_inj' hsplit rfl
      cases he
      exact hlast
    · rw [List.concat_eq_append, ← List.cons_append, ← List.append_assoc] at hsplit
      exact h before e' after (List.append_inj' hsplit rfl).1

theorem decides_concat {before : List SocketEvent} {e' : SocketEvent} :
    Decides topic nonce (es ++ [e]) before e' o ↔ Decides topic nonce es before e' o ∨
      before = es ∧ e' = e ∧ Undecided topic nonce es ∧ verdict topic nonce es e = some o := by
  constructor
  · rintro ⟨⟨after, hsplit⟩, hfirst, hverdict⟩
    rcases List.eq_nil_or_concat after with rfl | ⟨after, y, rfl⟩
    · obtain ⟨rfl, he⟩ := List.append_inj' hsplit rfl
      cases he
      exact .inr ⟨rfl, rfl, hfirst, hverdict⟩
    · rw [List.concat_eq_append, ← List.cons_append, ← List.append_assoc] at hsplit
      exact .inl ⟨⟨after, (List.append_inj' hsplit rfl).1⟩, hfirst, hverdict⟩
  · rintro (⟨⟨after, hsplit⟩, hfirst, hverdict⟩ | ⟨rfl, rfl, hfirst, hverdict⟩)
    · refine ⟨⟨after ++ [e], ?_⟩, hfirst, hverdict⟩
      rw [hsplit, List.append_assoc, List.cons_append]
    · exact ⟨⟨[], rfl⟩, hfirst, hverdict⟩

theorem inv_step (h : Inv topic nonce es s) (hstep : s.step topic nonce e = some s') :
    Inv topic nonce (es ++ [e]) s' := by
  have hmoves := step_moves hstep
  have hverdict : verdictAt topic nonce s.stage e = verdict topic nonce es e := by
    rw [verdict, missing, ← h.isOpen, ← h.joined, ← h.subscribed, ← h.stage]
  rw [hverdict] at hmoves
  refine ⟨follows_step hstep h.toFollows, ?_, ?_, ?_, ?_, fun o => ?_⟩
  · rw [hmoves.isOpen, h.isOpen]
    simp
  · rw [hmoves.joined, h.joined, heard_concat]
  · rw [hmoves.subscribed, h.subscribed, heard_concat]
  · rw [hmoves.outcome, Option.or_eq_none_iff, h.going, undecided_concat]
  · rw [hmoves.outcome, Option.or_eq_some_iff, h.decided, h.going]
    simp only [decides_concat]
    constructor
    · rintro (⟨before, e', hdecides⟩ | ⟨hgoing, hlast⟩)
      · exact ⟨before, e', .inl hdecides⟩
      · exact ⟨es, e, .inr ⟨rfl, rfl, hgoing, hlast⟩⟩
    · rintro ⟨before, e', hdecides | ⟨-, -, hgoing, hlast⟩⟩
      · exact .inl ⟨before, e', hdecides⟩
      · exact .inr ⟨hgoing, hlast⟩

theorem inv_init : Inv topic nonce [] {} := by
  have hnothing : Undecided topic nonce [] := fun before e after hsplit =>
    absurd hsplit.symm (List.append_ne_nil_of_right_ne_nil _ (List.cons_ne_nil _ _))
  refine ⟨⟨fun _ => ⟨rfl, rfl⟩, rfl, rfl, fun _ => rfl⟩, rfl, rfl, rfl,
    iff_of_true rfl hnothing, fun o => ?_⟩
  refine iff_of_false (fun h => by cases h) ?_
  rintro ⟨before, e, ⟨after, hsplit⟩, -, -⟩
  exact absurd hsplit.symm (List.append_ne_nil_of_right_ne_nil _ (List.cons_ne_nil _ _))

theorem inv_run (hrun : runEvents (Probe.step topic nonce) {} es = some s) : Inv topic nonce es s :=
  runEvents_invariant inv_init (fun _ _ _ _ _ h hstep => inv_step h hstep) es s hrun

/-- Only the echo of the nonce makes an outcome good. -/
theorem delivered_of_verdict {stage : Stage}
    (h : verdictAt topic nonce stage e = some { ok := true }) :
    stepOf topic nonce e = some .delivered := by
  cases e with
  | message data =>
    simp only [verdictAt] at h
    cases hsaid : stepOf topic nonce (.message data) with
    | none =>
      rw [hsaid] at h
      cases h
    | some step =>
      rw [hsaid] at h
      cases step with
      | delivered => rfl
      | _ => cases h
  | _ => cases h

theorem advance_outbox (h : s.outcome.isSome = true) : s.advance.outbox = s.outbox := by
  unfold Probe.advance Probe.send
  dsimp only
  rw [if_pos h]
  split
  · rfl
  · rfl

/-- The event that decides sends nothing, and neither do those after it. -/
theorem outbox_step (hstep : s.step topic nonce e = some s')
    (h : s.outcome.isSome = true ∨ (verdictAt topic nonce s.stage e).isSome = true) :
    s'.outbox = s.outbox := by
  cases e with
  | opened =>
    rw [Probe.step] at hstep
    split at hstep
    · cases hstep
    · next hclosed =>
      have hgoing := (not_or.mp (mt Bool.or_eq_true_iff.mpr hclosed)).2
      exact absurd (h.resolve_right (by simp [verdictAt])) hgoing
  | message data =>
    rw [Probe.step] at hstep
    split at hstep
    · cases hstep
      simp only [verdictAt, stepOf] at h
      cases hsaid : data.bind fun f => classifyRealtimeFrame f topic nonce with
      | none => rfl
      | some step =>
        rw [hsaid] at h
        cases step with
        | delivered => rfl
        | fail error => rfl
        | joined => exact advance_outbox (h.resolve_right (by simp [RealtimeProbe.decided]))
        | subscribed => exact advance_outbox (h.resolve_right (by simp [RealtimeProbe.decided]))
        | ignore => exact advance_outbox (h.resolve_right (by simp [RealtimeProbe.decided]))
    · cases hstep
  | _ =>
    cases hstep
    rfl

theorem outbox_run {after : List SocketEvent}
    (hrun : runEvents (Probe.step topic nonce) s after = some s') (h : s.outcome.isSome = true) :
    s'.outbox = s.outbox := by
  induction after generalizing s with
  | nil =>
    cases hrun
    rfl
  | cons e after ih =>
    obtain ⟨m, hstep, hrest⟩ := Option.bind_eq_some_iff.mp hrun
    have hkept : m.outcome.isSome = true := by
      rw [(step_moves hstep).outcome, Option.isSome_or, h]
      rfl
    rw [ih hrest hkept, outbox_step hstep (.inl h)]

end Steps

/-! ## What the outcome says -/

/-- The server knows the nonce from the probe's broadcast only. -/
def EchoesSent (topic nonce : String) (s : Probe) (e : SocketEvent) : Prop :=
  stepOf topic nonce e = some .delivered → Sent.ping ∈ s.outbox

/-- What an outcome of `ok` stands for. -/
structure Served (topic nonce : String) (es : List SocketEvent) (s : Probe) : Prop where
  /-- the join and the broadcast went out once each, and nothing else -/
  sent : s.outbox = [.phxJoin, .ping]
  /-- when the broadcast came back, the join was acknowledged and the subscription confirmed -/
  echoed : ∃ before e after, es = before ++ e :: after ∧ stepOf topic nonce e = some .delivered ∧
    Undecided topic nonce before ∧ before.any isOpened = true ∧
      heard topic nonce .joined before = true ∧ heard topic nonce .subscribed before = true

/-- The outcome of every run is what its first deciding event says in the light of the
milestones before it; with a server that echoes what was sent, `ok` means that the path
served. -/
theorem realtime_join_verdict {topic nonce : String} {es : List SocketEvent} {s : Probe}
    (hrun : runEvents (Probe.step topic nonce) {} es = some s) :
    (∀ o, s.outcome = some o ↔ ∃ before e, Decides topic nonce es before e o) ∧
      (AlongRun (Probe.step topic nonce) (EchoesSent topic nonce) {} es →
        s.outcome = some { ok := true } → Served topic nonce es s) := by
  have h := inv_run hrun
  refine ⟨h.decided, fun hechoes hok => ?_⟩
  obtain ⟨before, e, ⟨after, rfl⟩, hfirst, hverdict⟩ := (h.decided _).mp hok
  rw [runEvents_append] at hrun
  obtain ⟨m, hbefore, hrest⟩ := Option.bind_eq_some_iff.mp hrun
  obtain ⟨m', hstep, hafter⟩ := Option.bind_eq_some_iff.mp hrest
  have hm := inv_run hbefore
  have hgoing : m.outcome = none := hm.going.mpr hfirst
  have hstage : verdictAt topic nonce m.stage e = some { ok := true } := by
    rw [hm.stage, hm.isOpen, hm.joined, hm.subscribed]
    exact hverdict
  have hdelivered : stepOf topic nonce e = some .delivered := delivered_of_verdict hstage
  have hbox := hm.outbox hgoing
  have hping := hechoes before e after m rfl hbefore hdelivered
  have hsome : m'.outcome.isSome = true := by
    rw [(step_moves hstep).outcome, hgoing, hstage]
    rfl
  have hkept : s.outbox = m.outbox := by
    rw [outbox_run hafter hsome, outbox_step hstep (.inr (by rw [hstage]; rfl))]
  have hboth : (m.joined && m.subscribed) = true := by
    by_contra hnot
    rw [hbox, if_neg hnot, List.append_nil] at hping
    cases hopen : m.isOpen with
    | true => simp [hopen] at hping
    | false => simp [hopen] at hping
  obtain ⟨hjoined, hsubscribed⟩ := Bool.and_eq_true_iff.mp hboth
  have hopen : m.isOpen = true := by
    by_contra hclosed
    have hquiet := hm.quiet (Bool.eq_false_of_not_eq_true hclosed)
    rw [hquiet.1] at hjoined
    cases hjoined
  refine ⟨?_, before, e, after, rfl, hdelivered, hfirst, ?_, ?_, ?_⟩
  · rw [hkept, hbox, hopen, if_pos hboth]
    rfl
  · rw [← hm.isOpen, hopen]
  · rw [← hm.joined, hjoined]
  · rw [← hm.subscribed, hsubscribed]

/-- The probe is subscribed before its join is acknowledged, hears another's broadcast, then its
own, and then the socket closes. -/
def servedRun : List SocketEvent :=
  let frame (event : String) (ref : Json) (payload : List (String × Json)) : SocketEvent :=
    .message (some (.obj [("topic", .str "t"), ("event", .str event), ("ref", ref),
      ("payload", .obj payload)]))
  let broadcast (nonce : String) :=
    frame "broadcast" .null [("payload", .obj [("nonce", .str nonce)])]
  [.opened,
    frame "system" .null [("extension", .str "postgres_changes"), ("status", .str "ok")],
    .message none, frame "phx_reply" (.str "1") [("status", .str "ok")], broadcast "old",
    broadcast "n", .closed 1000]

theorem realtime_join_verdict_servedRun : ∃ s,
    runEvents (Probe.step "t" "n") {} servedRun = some s ∧ Served "t" "n" servedRun s := by
  obtain ⟨s, hs⟩ := Option.isSome_iff_exists.mp
    (show (runEvents (Probe.step "t" "n") {} servedRun).isSome = true by decide)
  have hok : ((runEvents (Probe.step "t" "n") {} servedRun).bind fun s => s.outcome) =
      some { ok := true } := by decide
  rw [hs, Option.bind_some] at hok
  have hechoes : AlongRun (Probe.step "t" "n") (EchoesSent "t" "n") {} servedRun := by
    refine alongRun_of_never (show never (Probe.step "t" "n") (fun s e =>
      decide (stepOf "t" "n" e = some .delivered) && !decide (Sent.ping ∈ s.outbox)) {} servedRun =
        true by decide) ?_
    intro m e hgood hdelivered
    by_contra hunsent
    simp [hdelivered, hunsent] at hgood
  exact ⟨s, hs, (realtime_join_verdict hs).2 hechoes hok⟩

end SupabaseLab.Harness.RealtimeProbe
