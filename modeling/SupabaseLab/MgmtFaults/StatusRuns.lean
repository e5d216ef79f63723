/-
  MgmtFaults/StatusRuns.lean --- what the fault proxy tells, and what it did.

  A scenario reads two things off the proxy: the answer that the client got, and the
  log.  Both are right about the upstream: it was contacted once or not at all, and
  the action in the row says which, whatever else was in the proxy at the time.
-/
import SupabaseLab.MgmtFaults.RuleWindows

set_option autoImplicit false

namespace SupabaseLab.MgmtFaults.StatusProxy

open Library

/-! ## A request and its row -/

/-- What was sent to the upstream for a request. -/
def Server.sentFor (s : Server) (i : Nat) : List Forwarded :=
  (s.sent.filter fun x => x.1 = i).map Prod.snd

def modeOf (rule : Option RuleSpec) : Option FaultMode := rule.map fun r => r.mode

/-- The row is that of a request that arrived at `t0` and got this rule. -/
structure LogRow.Of (row : LogRow) (req : Request) (t0 : Int) (rule : Option RuleSpec) :
    Prop where
  arrived : row.t = t0
  method : row.method = req.method
  path : row.path = req.path
  bodyBytes : row.bodyBytes = req.sentBody.length
  ruleId : row.rule = rule.map fun r => r.id

/-- What the row says while the upstream is waited for. -/
def sentAction : Option FaultMode → LogAction
  | some .delayBefore => .delayBefore
  | _ => .forward

/-- What the row says of a request that is relayed. -/
def relayedAction : Option FaultMode → LogAction
  | some .delayAfter => .delayAfter
  | mode => sentAction mode

/-- The upstream answered the request. -/
structure Answered (es : List Event) (i : Nat) (up : Upstream) (body : Bytes) : Prop where
  fetched : ∃ now, Event.resumes now i (.fetched (.ok up)) ∈ es
  received : ∃ now, Event.resumes now i (.received (some body)) ∈ es

/-- Why the client got the reply, as the row tells it, and what was sent for it. -/
inductive Account (es : List Event) (i : Nat) (req : Request) (rule : Option RuleSpec)
    (row : LogRow) : Reply → List Forwarded → Prop
  /-- the operation did not happen -/
  | errorBefore (r : RuleSpec) (hrule : rule = some r) (hmode : r.mode = .errorBefore)
      (haction : row.action = .errorBefore) (hup : row.upstreamStatus = none) :
      Account es i req rule row (faultResponse r) []
  | unreachable (now : Int) (e : JsText) (hbefore : modeOf rule ≠ some .errorBefore)
      (hfetch : Event.resumes now i (.fetched (.error e)) ∈ es)
      (haction : row.action = .upstreamUnreachable) (hup : row.upstreamStatus = none) :
      Account es i req rule row (unreachable e) [req.forwarded]
  /-- the operation happened, and the caller was told that it failed -/
  | errorAfter (r : RuleSpec) (up : Upstream) (body : Bytes) (hrule : rule = some r)
      (hmode : r.mode = .errorAfter) (hanswer : Answered es i up body)
      (haction : row.action = .errorAfter) (hup : row.upstreamStatus = some up.status)
      (href : row.upstreamRef = upstreamRef body) :
      Account es i req rule row (faultResponse r) [req.forwarded]
  | relayed (up : Upstream) (body : Bytes) (hbefore : modeOf rule ≠ some .errorBefore)
      (hafter : modeOf rule ≠ some .errorAfter) (hanswer : Answered es i up body)
      (haction : row.action = relayedAction (modeOf rule))
      (hup : row.upstreamStatus = some up.status) (href : row.upstreamRef = upstreamRef body) :
      Account es i req rule row (relay up body) [req.forwarded]

/-- The row of a request that the upstream has not answered. -/
structure LogRow.Waits (row : LogRow) (req : Request) (t0 : Int) (rule : Option RuleSpec) : Prop
    extends row.Of req t0 rule where
  clientStatus : row.clientStatus = none
  upstreamStatus : row.upstreamStatus = none
  action : row.action = sentAction (modeOf rule)

/-- The row of a request that the upstream has answered, and the client not been told. -/
structure LogRow.Heard (row : LogRow) (req : Request) (t0 : Int) (rule : Option RuleSpec)
    (up : Upstream) (body : Bytes) : Prop extends row.Of req t0 rule where
  clientStatus : row.clientStatus = none
  upstreamStatus : row.upstreamStatus = some up.status
  ref : row.upstreamRef = StatusProxy.upstreamRef body
  action : row.action = relayedAction (modeOf rule)

/-- What is known of a request where its handler stands, where `sent` was sent for it. -/
def Task.Course (es : List Event) (i : Nat) (t : Task) (sent : List Forwarded) : Prop :=
  match t.phase with
  | .reading | .hashing _ => t.row = none ∧ t.rule = none ∧ sent = []
  | .sleepingBefore => sent = [] ∧ modeOf t.rule = some .delayBefore ∧
      ∃ row, t.row = some row ∧ row.Waits t.req t.t0 t.rule
  | .fetching => sent = [t.req.forwarded] ∧ modeOf t.rule ≠ some .errorBefore ∧
      ∃ row, t.row = some row ∧ row.Waits t.req t.t0 t.rule
  | .receiving up => sent = [t.req.forwarded] ∧ modeOf t.rule ≠ some .errorBefore ∧
      (∃ row, t.row = some row ∧ row.Waits t.req t.t0 t.rule) ∧
      ∃ now, Event.resumes now i (.fetched (.ok up)) ∈ es
  | .sleepingAfter up body => sent = [t.req.forwarded] ∧ modeOf t.rule = some .delayAfter ∧
      (∃ row, t.row = some row ∧ row.Heard t.req t.t0 t.rule up body) ∧ Answered es i up body
  | .replied r => ∃ row, t.row = some row ∧ row.Of t.req t.t0 t.rule ∧
      row.clientStatus = some r.status ∧ Account es i t.req t.rule row r sent
  | .threw => (sent = [] ∨ sent = [t.req.forwarded] ∧ modeOf t.rule ≠ some .errorBefore) ∧
      ∀ row, t.row = some row → row.Of t.req t.t0 t.rule ∧ row.clientStatus = none

/-- What holds of the requests after the events. -/
structure RunInv (es : List Event) (s : Server) : Prop where
  course : ∀ (i : Nat) (t : Task), s.tasks[i]? = some t → t.Course es i (s.sentFor i)
  sent : ∀ x ∈ s.sent, x.1 < s.tasks.length

section Course

variable {isMatch : String → String → Option Bool} {accepts : Nat → Bool} {es es' : List Event}
  {s : Server} {i : Nat} {t t' : Task} {row : LogRow} {now : Int} {up : Upstream} {body : Bytes}
  {sent : List Forwarded} {r : Reply}

theorem Answered.mono (h : Answered es i up body) (hsub : es ⊆ es') : Answered es' i up body where
  fetched := h.fetched.imp fun _ hmem => hsub hmem
  received := h.received.imp fun _ hmem => hsub hmem

theorem Account.mono {req : Request} {rule : Option RuleSpec}
    (h : Account es i req rule row r sent) (hsub : es ⊆ es') : Account es' i req rule row r sent := by
  cases h with
  | errorBefore r hrule hmode haction hup => exact .errorBefore r hrule hmode haction hup
  | unreachable now e hbefore hfetch haction hup =>
    exact .unreachable now e hbefore (hsub hfetch) haction hup
  | errorAfter r up body hrule hmode hanswer haction hup href =>
    exact .errorAfter r up body hrule hmode (hanswer.mono hsub) haction hup href
  | relayed up body hbefore hafter hanswer haction hup href =>
    exact .relayed up body hbefore hafter (hanswer.mono hsub) haction hup href

theorem Task.Course.mono (h : t.Course es i sent) (hsub : es ⊆ es') : t.Course es' i sent := by
  rw [Task.Course] at h ⊢
  cases hphase : t.phase with
  | reading => rwa [hphase] at h
  | hashing seq => rwa [hphase] at h
  | sleepingBefore => rwa [hphase] at h
  | fetching => rwa [hphase] at h
  | receiving up =>
    rw [hphase] at h
    obtain ⟨hsent, hmode, hrow, now, hmem⟩ := h
    exact ⟨hsent, hmode, hrow, now, hsub hmem⟩
  | sleepingAfter up body =>
    rw [hphase] at h
    obtain ⟨hsent, hmode, hrow, hanswer⟩ := h
    exact ⟨hsent, hmode, hrow, hanswer.mono hsub⟩
  | replied r =>
    rw [hphase] at h
    obtain ⟨row, hrow, hof, hclient, haccount⟩ := h
    exact ⟨row, hrow, hof, hclient, haccount.mono hsub⟩
  | threw => rwa [hphase] at h

/-- The handler answers, or throws on the way. -/
theorem course_done (hrow : t.row = some row) (hof : row.Of t.req t.t0 t.rule)
    (hclient : row.clientStatus = none)
    (haccount : Account es i t.req t.rule
      { row with clientStatus := some r.status, ms := now - t.t0 } r sent)
    (hsent : sent = [] ∨ sent = [t.req.forwarded] ∧ modeOf t.rule ≠ some .errorBefore) :
    (t.done accepts now r).Course es i sent := by
  rw [Task.done]
  split
  · exact ⟨_, congrArg (Option.map _) hrow,
      ⟨hof.arrived, hof.method, hof.path, hof.bodyBytes, hof.ruleId⟩, rfl, haccount⟩
  · refine ⟨hsent, fun row' hrow' => ?_⟩
    cases hrow.symm.trans hrow'
    exact ⟨hof, hclient⟩

theorem sends_done : (t.done accepts now r).sends = [] := by
  rw [Task.done]
  split
  · rfl
  · rfl

/-- The handler goes on from `pick`. -/
theorem course_start (hrule : t.rule = none) (seq : Nat) (sha : String) (picked : Option Picked) :
    (t.start accepts now (t.newRow seq sha) picked).Course es i
      (t.start accepts now (t.newRow seq sha) picked).sends := by
  have hof : ∀ rule : Option RuleSpec, LogRow.Of
      { t.newRow seq sha with rule := rule.map fun r => r.id } t.req t.t0 rule :=
    fun rule => ⟨rfl, rfl, rfl, rfl, rfl⟩
  cases picked with
  | none =>
    refine ⟨rfl, ?_, t.newRow seq sha, rfl, ?_⟩
    · rw [show (t.start accepts now (t.newRow seq sha) none).rule = t.rule from rfl, hrule]
      exact nofun
    · show (t.newRow seq sha).Waits t.req t.t0 t.rule
      rw [hrule]
      exact ⟨hof none, rfl, rfl, rfl⟩
  | some picked =>
    cases picked with
    | threw =>
      refine ⟨.inl rfl, fun row hrow => ?_⟩
      cases hrow
      show (t.newRow seq sha).Of t.req t.t0 t.rule ∧ _
      rw [hrule]
      exact ⟨hof none, rfl⟩
    | rule r =>
      have hsent (mode : FaultMode) (hmode : r.mode = mode) (hne : mode ≠ .errorBefore)
          (haction : sentAction (some mode) = .forward) :
          Task.Course es i { t with
            row := some { t.newRow seq sha with rule := some r.id }
            rule := some r
            phase := .fetching } [t.req.forwarded] := by
        have hmodeOf : modeOf (some r) = some mode := congrArg some hmode
        refine ⟨rfl, fun h => hne (Option.some.inj (hmodeOf.symm.trans h)), _, rfl,
          hof (some r), rfl, rfl, ?_⟩
        rw [hmodeOf, haction]
        rfl
      rw [Task.start]
      cases hmode : r.mode with
      | errorBefore =>
        rw [sends_done]
        exact course_done rfl ⟨rfl, rfl, rfl, rfl, rfl⟩ rfl (.errorBefore r rfl hmode rfl rfl)
          (.inl rfl)
      | delayBefore =>
        have hmodeOf : modeOf (some r) = some .delayBefore := congrArg some hmode
        refine ⟨rfl, hmodeOf, _, rfl, ⟨rfl, rfl, rfl, rfl, rfl⟩, rfl, rfl, ?_⟩
        show LogAction.delayBefore = sentAction (modeOf (some r))
        rw [hmodeOf]
        rfl
      | errorAfter => exact hsent _ hmode nofun rfl
      | delayAfter => exact hsent _ hmode nofun rfl
      | passthrough => exact hsent _ hmode nofun rfl

/-- The upstream has answered. -/
theorem course_answer (hphase : t.phase = .receiving up) (h : t.Course es i sent) (hsub : es ⊆ es')
    (hreceived : Event.resumes now i (.received (some body)) ∈ es') :
    (t.answer accepts now up body).Course es' i sent ∧ (t.answer accepts now up body).sends = [] := by
  rw [Task.Course, hphase] at h
  obtain ⟨hsent, hbefore, ⟨row, hrow, hwaits⟩, when, hfetched⟩ := h
  have hanswer : Answered es' i up body := ⟨⟨when, hsub hfetched⟩, now, hreceived⟩
  have hnoted (action : LogAction) : LogRow.Of
      { row with
        upstreamStatus := some up.status, upstreamRef := upstreamRef body, action := action }
      t.req t.t0 t.rule :=
    ⟨hwaits.arrived, hwaits.method, hwaits.path, hwaits.bodyBytes, hwaits.ruleId⟩
  have hrow' (f : LogRow → LogRow) : t.row.map f = some (f row) := congrArg (Option.map f) hrow
  have hrelay (hafter : modeOf t.rule ≠ some .errorAfter)
      (haction : relayedAction (modeOf t.rule) = sentAction (modeOf t.rule))
      (hdone : t.answer accepts now up body = Task.done accepts (t.note fun row =>
        { row with upstreamStatus := some up.status, upstreamRef := upstreamRef body }) now
          (relay up body)) :
      (t.answer accepts now up body).Course es' i sent ∧
        (t.answer accepts now up body).sends = [] := by
    rw [hdone]
    refine ⟨course_done (hrow' _) (hnoted row.action) hwaits.clientStatus ?_
      (.inr ⟨hsent, hbefore⟩), sends_done⟩
    rw [hsent]
    exact .relayed up body hbefore hafter hanswer (hwaits.action.trans haction.symm) rfl rfl
  cases hrule : t.rule with
  | none =>
    refine hrelay ?_ ?_ ?_
    · rw [hrule]
      exact nofun
    · rw [hrule]
      rfl
    · simp only [Task.answer, Task.note, hrule]
  | some r =>
    have hmodeOf : modeOf t.rule = some r.mode := congrArg modeOf hrule
    cases hmode : r.mode with
    | errorBefore => exact absurd (hmodeOf.trans (congrArg some hmode)) hbefore
    | errorAfter =>
      have hdone : t.answer accepts now up body = Task.done accepts (t.note fun row =>
          { row with
            upstreamStatus := some up.status, upstreamRef := upstreamRef body
            action := .errorAfter }) now (faultResponse r) := by
        simp only [Task.answer, Task.note, hrule, hmode, Option.map_map]
        rfl
      rw [hdone]
      refine ⟨course_done (hrow' _) (hnoted .errorAfter) hwaits.clientStatus ?_
        (.inr ⟨hsent, hbefore⟩), sends_done⟩
      rw [hsent]
      exact .errorAfter r up body hrule hmode hanswer rfl rfl rfl
    | delayAfter =>
      have hwait : t.answer accepts now up body =
          { t.note fun row =>
              { row with
                upstreamStatus := some up.status, upstreamRef := upstreamRef body
                action := .delayAfter } with
            phase := .sleepingAfter up body } := by
        simp only [Task.answer, Task.note, hrule, hmode, Option.map_map]
        rfl
      rw [hwait]
      refine ⟨⟨hsent, hmodeOf.trans (congrArg some hmode), ⟨_, hrow' _, hnoted .delayAfter,
        hwaits.clientStatus, rfl, rfl, ?_⟩, hanswer⟩, rfl⟩
      show LogAction.delayAfter = relayedAction (modeOf t.rule)
      rw [hmodeOf, hmode]
      rfl
    | delayBefore =>
      rw [hmode] at hmodeOf
      refine hrelay ?_ ?_ ?_
      · rw [hmodeOf]
        exact nofun
      · rw [hmodeOf]
        rfl
      · simp only [Task.answer, Task.note, hrule, hmode]
    | passthrough =>
      rw [hmode] at hmodeOf
      refine hrelay ?_ ?_ ?_
      · rw [hmodeOf]
        exact nofun
      · rw [hmodeOf]
        rfl
      · simp only [Task.answer, Task.note, hrule, hmode]

/-! ## Runs -/

theorem sentFor_put (j : Nat) :
    (s.put i t).sentFor j = s.sentFor j ++ if i = j then t.sends else [] := by
  simp only [Server.sentFor, Server.put, List.filter_append, List.map_append, List.filter_map]
  congr 1
  split
  · next hij => simp [Function.comp_def, hij]
  · next hij => simp [Function.comp_def, hij]

/-- A handler ran. -/
theorem RunInv.put (h : RunInv es s) (hsub : es ⊆ es') (ht : s.tasks[i]? = some t)
    (hcourse : t'.Course es' i (s.sentFor i ++ t'.sends)) : RunInv es' (s.put i t') := by
  obtain ⟨hi, -⟩ := List.getElem?_eq_some_iff.mp ht
  constructor
  · intro j u hu
    rw [sentFor_put]
    by_cases hij : i = j
    · subst hij
      rw [Server.put, List.getElem?_set_self hi] at hu
      cases hu
      rwa [if_pos rfl]
    · rw [Server.put, List.getElem?_set_ne hij] at hu
      rw [if_neg hij, List.append_nil]
      exact (h.course j u hu).mono hsub
  · intro x hx
    rw [Server.put, List.length_set]
    rcases List.mem_append.mp hx with hold | hnew
    · exact h.sent x hold
    · obtain ⟨sent, -, rfl⟩ := List.mem_map.mp hnew
      exact hi

theorem RunInv.handle (h : RunInv es s) (hsub : es ⊆ es') (ht : s.tasks[i]? = some t)
    (hrule : t.rule = none) (hsent : s.sentFor i = []) (seq : Nat) (sha : String) :
    RunInv es' (s.handle isMatch accepts i t now seq sha) := by
  refine RunInv.put ⟨h.course, h.sent⟩ hsub ht ?_
  show Task.Course es' i _ (s.sentFor i ++ _)
  rw [hsent]
  exact course_start hrule seq sha _

theorem RunInv.number (h : RunInv es s) (hsub : es ⊆ es') (ht : s.tasks[i]? = some t)
    (hrow : t.row = none) (hrule : t.rule = none) (hsent : s.sentFor i = []) :
    RunInv es' (s.number isMatch accepts i t now) := by
  have hnumbered : RunInv es { s with seq := s.seq + 1 } := ⟨h.course, h.sent⟩
  rw [Server.number]
  split
  · exact hnumbered.handle hsub ht hrule hsent _ _
  · refine hnumbered.put hsub ht ⟨hrow, hrule, ?_⟩
    show s.sentFor i ++ [] = []
    rw [hsent]
    rfl

variable (now) in
theorem RunInv.arrive (h : RunInv es s) (hsub : es ⊆ es') (req : Request) :
    RunInv es' { s with tasks := s.tasks ++ [{ req := req, t0 := now }] } ∧
      s.sentFor s.tasks.length = [] := by
  have hnone : s.sentFor s.tasks.length = [] := by
    rw [Server.sentFor, List.map_eq_nil_iff, List.filter_eq_nil_iff]
    intro x hx hlen
    have hlt := h.sent x hx
    simp only [decide_eq_true_eq] at hlen
    omega
  refine ⟨⟨?_, fun x hx => ?_⟩, hnone⟩
  · intro j u hu
    rw [List.getElem?_append] at hu
    split at hu
    · exact (h.course j u hu).mono hsub
    · next hj =>
      rw [List.getElem?_singleton] at hu
      split at hu
      · cases hu
        have hlen : j = s.tasks.length := by omega
        rw [hlen]
        exact ⟨rfl, rfl, hnone⟩
      · cases hu
  · have hlt := h.sent x hx
    rw [List.length_append]
    omega

theorem RunInv.resume (h : RunInv es s) (hsub : es ⊆ es') (ht : s.tasks[i]? = some t)
    {wake : Wake} (hmem : Event.resumes now i wake ∈ es') {s' : Server}
    (hstep : s.resume isMatch accepts i t now t.phase wake = some s') : RunInv es' s' := by
  have hcourse := h.course i t ht
  cases hphase : t.phase with
  | reading =>
    rw [Task.Course, hphase] at hcourse
    obtain ⟨hrow, hrule, hsent⟩ := hcourse
    rw [hphase] at hstep
    cases wake with
    | bodyRead ok =>
      cases ok with
      | true =>
        cases hstep
        exact h.number hsub ht hrow hrule hsent
      | false =>
        cases hstep
        refine h.put hsub ht ⟨.inl ?_, fun row hrow' => ?_⟩
        · rw [hsent]
          rfl
        · cases hrow.symm.trans hrow'
    | _ => cases hstep
  | hashing seq =>
    rw [Task.Course, hphase] at hcourse
    obtain ⟨hrow, hrule, hsent⟩ := hcourse
    rw [hphase] at hstep
    cases wake with
    | hashed digest =>
      cases hstep
      exact h.handle hsub ht hrule hsent seq digest
    | _ => cases hstep
  | sleepingBefore =>
    rw [Task.Course, hphase] at hcourse
    obtain ⟨hsent, hmode, row, hrow, hwaits⟩ := hcourse
    rw [hphase] at hstep
    cases wake with
    | slept =>
      cases hstep
      refine h.put hsub ht ⟨?_, ?_, row, hrow, hwaits⟩
      · rw [hsent]
        rfl
      · rw [hmode]
        exact nofun
    | _ => cases hstep
  | fetching =>
    rw [Task.Course, hphase] at hcourse
    obtain ⟨hsent, hmode, row, hrow, hwaits⟩ := hcourse
    rw [hphase] at hstep
    cases wake with
    | fetched answer =>
      cases answer with
      | error e =>
        cases hstep
        refine h.put hsub ht ?_
        rw [sends_done, List.append_nil]
        refine course_done (congrArg (Option.map _) hrow)
          ⟨hwaits.arrived, hwaits.method, hwaits.path, hwaits.bodyBytes, hwaits.ruleId⟩
          hwaits.clientStatus ?_ (.inr ⟨hsent, hmode⟩)
        rw [hsent]
        exact .unreachable now e hmode hmem rfl hwaits.upstreamStatus
      | ok up =>
        cases hstep
        refine h.put hsub ht ⟨?_, hmode, ⟨row, hrow, hwaits⟩, now, hmem⟩
        rw [hsent]
        rfl
    | _ => cases hstep
  | receiving up =>
    rw [hphase] at hstep
    cases wake with
    | received body =>
      cases body with
      | none =>
        rw [Task.Course, hphase] at hcourse
        obtain ⟨hsent, hmode, ⟨row, hrow, hwaits⟩, -⟩ := hcourse
        cases hstep
        refine h.put hsub ht ⟨.inr ⟨?_, hmode⟩, fun row' hrow' => ?_⟩
        · rw [hsent]
          rfl
        · cases hrow.symm.trans hrow'
          exact ⟨hwaits.toOf, hwaits.clientStatus⟩
      | some body =>
        cases hstep
        obtain ⟨hanswer, hsends⟩ := course_answer hphase hcourse hsub hmem
        refine h.put hsub ht ?_
        rw [hsends, List.append_nil]
        exact hanswer
    | _ => cases hstep
  | sleepingAfter up body =>
    rw [Task.Course, hphase] at hcourse
    obtain ⟨hsent, hmode, ⟨row, hrow, hheard⟩, hanswer⟩ := hcourse
    rw [hphase] at hstep
    cases wake with
    | slept =>
      cases hstep
      have hbefore : modeOf t.rule ≠ some .errorBefore := by
        rw [hmode]
        exact nofun
      have hafter : modeOf t.rule ≠ some .errorAfter := by
        rw [hmode]
        exact nofun
      refine h.put hsub ht ?_
      rw [sends_done, List.append_nil]
      refine course_done hrow hheard.toOf hheard.clientStatus ?_ (.inr ⟨hsent, hbefore⟩)
      rw [hsent]
      exact .relayed up body hbefore hafter (hanswer.mono hsub) hheard.action
        hheard.upstreamStatus hheard.ref
    | _ => cases hstep
  | replied r =>
    rw [hphase] at hstep
    cases hstep
  | threw =>
    rw [hphase] at hstep
    cases hstep

/-- What an admin request does to the proxy. -/
theorem admin_cases (es : List Event) (s : Server) (method pathname : String) (rules : Option (List RuleSpec)) :
    (s.admin method pathname rules).1 = s ∧ rulesSet (es ++ [.admin method pathname rules]) =
        rulesSet es ∨
      ∃ set log seq, (s.admin method pathname rules).1 =
          { s with
            rules := set.map fun r => { toRuleSpec := r }
            log := log, seq := seq, calls := [], picked := [] } ∧
        rulesSet (es ++ [.admin method pathname rules]) = set ∧
        (log = s.log ∧ seq = s.seq ∨ pathname = "/__admin/reset" ∧ log = [] ∧ seq = 0) := by
  have hset : rulesSet (es ++ [.admin method pathname rules]) =
      if pathname = "/__admin/rules" ∧ method = "PUT" then rules.getD (rulesSet es)
      else if pathname = "/__admin/reset" then [] else rulesSet es := by
    rw [rulesSet, List.foldl_concat]
  by_cases hput : pathname = "/__admin/rules" ∧ method = "PUT"
  · obtain ⟨rfl, rfl⟩ := hput
    cases rules with
    | none => exact .inl ⟨rfl, hset⟩
    | some set => exact .inr ⟨set, s.log, s.seq, rfl, hset, .inl ⟨rfl, rfl⟩⟩
  · rw [if_neg hput] at hset
    by_cases hreset : pathname = "/__admin/reset"
    · rw [if_pos hreset] at hset
      subst hreset
      exact .inr ⟨[], [], 0, rfl, hset, .inr ⟨rfl, rfl, rfl⟩⟩
    · rw [if_neg hreset] at hset
      refine .inl ⟨?_, hset⟩
      simp only [Server.admin, hput, hreset, if_false]
      split
      · rfl
      · split
        · rfl
        · split
          · rfl
          · rfl

theorem runInv_step {e : Event} {s' : Server} (h : RunInv es s)
    (hstep : s.step isMatch accepts e = some s') : RunInv (es ++ [e]) s' := by
  have hsub : es ⊆ es ++ [e] := List.subset_append_left es [e]
  have hlast : e ∈ es ++ [e] := List.mem_append_right es (List.mem_singleton_self e)
  cases e with
  | arrives now req =>
    rw [Server.step] at hstep
    split at hstep
    · cases hstep
    · cases hstep
      obtain ⟨harrived, hnone⟩ := h.arrive now (List.Subset.refl es) req
      split
      · exact harrived.number hsub List.getElem?_concat_length rfl rfl hnone
      · exact (h.arrive now hsub req).1
  | resumes now i wake =>
    obtain ⟨t, ht, hresume⟩ := Option.bind_eq_some_iff.mp hstep
    exact h.resume hsub ht hlast hresume
  | admin method pathname rules =>
    cases hstep
    rcases admin_cases es s method pathname rules with ⟨hsame, -⟩ | ⟨set, log, seq, hset, -⟩
    · rw [hsame]
      exact ⟨fun i t ht => (h.course i t ht).mono hsub, h.sent⟩
    · rw [hset]
      exact ⟨fun i t ht => (h.course i t ht).mono hsub, h.sent⟩

theorem runInv_init : RunInv [] {} where
  course := fun i t ht => by cases ht
  sent := fun x hx => by cases hx

theorem runInv_run (hrun : runEvents (Server.step isMatch accepts) {} es = some s) : RunInv es s :=
  runEvents_invariant runInv_init (fun _ _ _ _ _ h hstep => runInv_step h hstep) es s hrun

end Course

/-! ## Told and done -/

section Truth

variable {isMatch : String → String → Option Bool} {accepts : Nat → Bool} {es : List Event}
  {s : Server} {i : Nat} {t : Task} {sent : List Forwarded}

theorem Account.once {req : Request} {rule : Option RuleSpec} {row : LogRow} {r : Reply}
    (h : Account es i req rule row r sent) :
    sent = [] ∨ sent = [req.forwarded] ∧ modeOf rule ≠ some .errorBefore := by
  cases h with
  | errorBefore r hrule hmode haction hup => exact .inl rfl
  | unreachable now e hbefore hfetch haction hup => exact .inr ⟨rfl, hbefore⟩
  | errorAfter r up body hrule hmode hanswer haction hup href =>
    refine .inr ⟨rfl, ?_⟩
    rw [hrule, modeOf, Option.map_some, hmode]
    exact nofun
  | relayed up body hbefore hafter hanswer haction hup href => exact .inr ⟨rfl, hbefore⟩

theorem Task.Course.replied {r : Reply} (h : t.Course es i sent) (hphase : t.phase = .replied r) :
    ∃ row, t.row = some row ∧ row.Of t.req t.t0 t.rule ∧ row.clientStatus = some r.status ∧
      Account es i t.req t.rule row r sent := by
  rwa [Task.Course, hphase] at h

theorem Task.Course.once (h : t.Course es i sent) :
    sent = [] ∨ sent = [t.req.forwarded] ∧ modeOf t.rule ≠ some .errorBefore := by
  rw [Task.Course] at h
  cases hp : t.phase with
  | reading =>
    rw [hp] at h
    exact .inl h.2.2
  | hashing seq =>
    rw [hp] at h
    exact .inl h.2.2
  | sleepingBefore =>
    rw [hp] at h
    exact .inl h.1
  | fetching =>
    rw [hp] at h
    exact .inr ⟨h.1, h.2.1⟩
  | receiving up =>
    rw [hp] at h
    exact .inr ⟨h.1, h.2.1⟩
  | sleepingAfter up body =>
    rw [hp] at h
    refine .inr ⟨h.1, ?_⟩
    rw [h.2.1]
    exact nofun
  | replied r =>
    rw [hp] at h
    obtain ⟨row, -, -, -, haccount⟩ := h
    exact haccount.once
  | threw =>
    rw [hp] at h
    exact h.1

/-- A create that the upstream carries out while the client is told that it failed. -/
def discardedAnswer : List Event :=
  [.admin "PUT" "/__admin/rules" (some [{ id := "late", path := "projects", mode := .errorAfter }]),
    .arrives 0 { method := "POST", pathname := "/v1/projects", search := "", headers := [], body := [123] },
    .resumes 1 0 (.bodyRead true), .resumes 2 0 (.hashed "021fb596db81"),
    .resumes 30 0 (.fetched (.ok { status := 201, headers := [] })), .resumes 31 0 (.received (some []))]

end Truth

end SupabaseLab.MgmtFaults.StatusProxy
