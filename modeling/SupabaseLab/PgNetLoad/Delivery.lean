/-
  PgNetLoad/Delivery.lean --- what the queue and the retries guarantee.

  A message leaves its queue only when a call that was made for it has been answered
  well.  A retry adds one call, to a message whose latest call was answered badly.
-/
import SupabaseLab.PgNetLoad.Calls
import SupabaseLab.Library.Machine
import SupabaseLab.Library.StableSort

set_option autoImplicit false

namespace SupabaseLab.PgNetLoad

open Library

/-- The run, the message and the call of an in-flight row. -/
def Inflight.key (i : Inflight) : String × Nat × Nat := (i.run, i.qMsgId, i.callId)

/-- The call was made for the message. -/
def MadeFor (mech : String → Mechanism) (db : Db) (a : Sent) (c : Call) : Prop :=
  c ∈ db.calls ∧ mech c.run = .pgmq a.queue ∧ c.msg = some a.msg ∧
    (c.run, a.msgId, c.id) ∈ db.inflight.map Inflight.key

/-- A call that was made for the message has a 2xx response that did not time out. -/
def Delivered (mech : String → Mechanism) (db : Db) (a : Sent) : Prop :=
  ∃ c, MadeFor mech db a c ∧ ∃ r ∈ db.arrived, c.reqId = some r.id ∧ r.ok = true

/-- The messages that are in the queues. -/
def Db.queued (db : Db) : List Sent := db.messages.map Message.toSent

structure Inv (mech : String → Mechanism) (db : Db) : Prop where
  sentOnce : ∀ a ∈ db.sent, ∀ b ∈ db.sent, a.queue = b.queue → a.msgId = b.msgId → a = b
  sentLt : ∀ a ∈ db.sent, a.msgId < db.nextMsg a.queue
  queuedSent : ∀ a ∈ db.queued, a ∈ db.sent
  kept : ∀ a ∈ db.sent, a ∈ db.queued ∨ Delivered mech db a
  made : ∀ run k id, (run, k, id) ∈ db.inflight.map Inflight.key →
    ∃ a ∈ db.sent, a.msgId = k ∧ ∃ c, c.run = run ∧ c.id = id ∧ MadeFor mech db a c
  callIds : db.calls.Pairwise fun a b => a.id < b.id
  callLt : ∀ c ∈ db.calls, c.id < db.nextCall
  arrivedOf : ∀ r ∈ db.responses, r ∈ db.arrived
  answerOnce : (db.responses.map Response.id).Nodup
  answerLt : ∀ r ∈ db.responses, r.id < db.nextReq
  requestLt : ∀ x ∈ db.requests, x.id < db.nextReq
  outstanding : ∀ r ∈ db.responses, r.id ∉ db.requests.map Request.id
  bounded : ∀ run msg, (∀ q, mech run ≠ .pgmq q) → callCount db run msg ≤ 10

section

variable {mech : String → Mechanism} {db db' : Db} {a : Sent} {run q url : String} {k id : Nat}
  {e : NetEvent} {tag target : String} {tmo msg : Option Int}

/-! ## Posting -/

/-- Nothing that was delivered is forgotten. -/
theorem Delivered.mono (h : Delivered mech db a) (hcalls : ∀ c ∈ db.calls, c ∈ db'.calls)
    (hkeys : ∀ x ∈ db.inflight.map Inflight.key, x ∈ db'.inflight.map Inflight.key)
    (harrived : ∀ r ∈ db.arrived, r ∈ db'.arrived) : Delivered mech db' a := by
  obtain ⟨c, ⟨hc, hmech, hmsg, hkey⟩, r, hr, hreq, hok⟩ := h
  exact ⟨c, ⟨hcalls c hc, hmech, hmsg, hkeys _ hkey⟩, r, harrived r hr, hreq, hok⟩

theorem callCount_nlPost (run' : String) (msg' : Option Int) :
    callCount (nlPost db run tag target url tmo msg) run' msg' =
      callCount db run' msg' + if msg'.isSome ∧ run = run' ∧ msg = msg' then 1 else 0 := by
  cases msg' with
  | none => rfl
  | some m =>
    show ((db.calls ++ [db.newCall run tag target tmo msg]).filter _).length =
      (db.calls.filter _).length + _
    rw [List.filter_append, List.length_append, List.filter_singleton]
    refine congrArg (_ + ·) ?_
    by_cases hsame : run = run' ∧ msg = some m
    · have htrue : (decide (run = run') && decide (msg = some m)) = true := by
        rw [decide_eq_true hsame.1, decide_eq_true hsame.2]
        rfl
      show List.length (bif decide (run = run') && decide (msg = some m) then _ else _) = _
      rw [htrue, if_pos ⟨rfl, hsame⟩]
      rfl
    · have hfalse : (decide (run = run') && decide (msg = some m)) = false := by
        rw [Bool.and_eq_false_iff, decide_eq_false_iff_not, decide_eq_false_iff_not]
        exact not_and_or.mp hsame
      show List.length (bif decide (run = run') && decide (msg = some m) then _ else _) = _
      rw [hfalse, if_neg fun h => hsame h.2]
      rfl

theorem Inv.nlPost (h : Inv mech db)
    (hroom : (∀ q, mech run ≠ .pgmq q) → callCount db run msg < 10) :
    Inv mech (nlPost db run tag target url tmo msg) := by
  have hcalls : ∀ c ∈ db.calls, c ∈ (PgNetLoad.nlPost db run tag target url tmo msg).calls :=
    fun c hc => List.mem_append_left _ hc
  constructor
  case sentOnce => exact h.sentOnce
  case sentLt => exact h.sentLt
  case queuedSent => exact h.queuedSent
  case kept =>
    intro a ha
    exact (h.kept a ha).imp_right fun hd => hd.mono hcalls (fun _ hx => hx) fun _ hr => hr
  case made =>
    intro run' k id hkey
    obtain ⟨a, ha, hk, c, hrun, hid, hc, hmade⟩ := h.made run' k id hkey
    exact ⟨a, ha, hk, c, hrun, hid, hcalls c hc, hmade⟩
  case callIds =>
    refine List.pairwise_append.mpr ⟨h.callIds, List.pairwise_singleton _ _, fun c hc d hd => ?_⟩
    rw [List.mem_singleton.mp hd]
    exact h.callLt c hc
  case callLt =>
    intro c hc
    rcases List.mem_append.mp hc with hc | hc
    · exact Nat.lt_succ_of_lt (h.callLt c hc)
    · rw [List.mem_singleton.mp hc]
      exact Nat.lt_succ_self _
  case arrivedOf => exact h.arrivedOf
  case answerOnce => exact h.answerOnce
  case answerLt => exact fun r hr => Nat.lt_succ_of_lt (h.answerLt r hr)
  case requestLt =>
    intro x hx
    rcases List.mem_append.mp hx with hx | hx
    · exact Nat.lt_succ_of_lt (h.requestLt x hx)
    · rw [List.mem_singleton.mp hx]
      exact Nat.lt_succ_self _
  case outstanding =>
    intro r hr hmem
    obtain ⟨x, hx, heq⟩ := List.mem_map.mp hmem
    rcases List.mem_append.mp hx with hx | hx
    · exact h.outstanding r hr (heq ▸ List.mem_map_of_mem hx)
    · rw [List.mem_singleton.mp hx] at heq
      exact absurd heq.symm (Nat.ne_of_lt (h.answerLt r hr))
  case bounded =>
    intro run' msg' hmech
    rw [callCount_nlPost]
    split
    · rename_i hsame
      obtain ⟨-, rfl, rfl⟩ := hsame
      exact hroom hmech
    · exact h.bounded run' msg' hmech

/-! ## The consumer -/

/-- What the consumer's loops leave as it was. -/
structure SameCalls (db db' : Db) : Prop where
  calls : db'.calls = db.calls
  responses : db'.responses = db.responses
  arrived : db'.arrived = db.arrived
  keys : db'.inflight.map Inflight.key = db.inflight.map Inflight.key
  sent : db'.sent = db.sent
  rest : db'.nextMsg = db.nextMsg ∧ db'.nextCall = db.nextCall ∧ db'.nextReq = db.nextReq ∧
    db'.requests = db.requests

theorem SameCalls.delivered (h : SameCalls db db') : Delivered mech db' a ↔ Delivered mech db a := by
  unfold Delivered MadeFor
  rw [h.calls, h.keys, h.arrived]

/-- A change of the queues alone keeps the invariant when it takes no message that was
not delivered. -/
theorem Inv.ofSameCalls (h : Inv mech db) (hsame : SameCalls db db')
    (hqueued : ∀ a ∈ db'.queued, a ∈ db.queued)
    (hgone : ∀ a ∈ db.queued, a ∈ db'.queued ∨ Delivered mech db a) : Inv mech db' := by
  obtain ⟨hnextMsg, hnextCall, hnextReq, hrequests⟩ := hsame.rest
  constructor
  case sentOnce => rw [hsame.sent]; exact h.sentOnce
  case sentLt => rw [hsame.sent, hnextMsg]; exact h.sentLt
  case queuedSent => rw [hsame.sent]; exact fun a ha => h.queuedSent a (hqueued a ha)
  case kept =>
    rw [hsame.sent]
    intro a ha
    rw [hsame.delivered]
    rcases h.kept a ha with hin | hd
    · exact hgone a hin
    · exact .inr hd
  case made =>
    unfold MadeFor
    rw [hsame.keys, hsame.sent, hsame.calls]
    exact h.made
  case callIds => rw [hsame.calls]; exact h.callIds
  case callLt => rw [hsame.calls, hnextCall]; exact h.callLt
  case arrivedOf => rw [hsame.responses, hsame.arrived]; exact h.arrivedOf
  case answerOnce => rw [hsame.responses]; exact h.answerOnce
  case answerLt => rw [hsame.responses, hnextReq]; exact h.answerLt
  case requestLt => rw [hrequests, hnextReq]; exact h.requestLt
  case outstanding => rw [hsame.responses, hrequests]; exact h.outstanding
  case bounded =>
    have hcount : ∀ run msg, callCount db' run msg = callCount db run msg := by
      intro run msg
      unfold callCount
      rw [hsame.calls]
    intro run msg
    rw [hcount]
    exact h.bounded run msg

theorem keys_setState (rows : List Inflight) (id : Nat) (state : InflightState) :
    (setState rows id state).map Inflight.key = rows.map Inflight.key := by
  unfold setState
  rw [List.map_map]
  refine List.map_congr_left fun i _ => ?_
  rw [Function.comp_apply]
  split <;> rfl

theorem settle_sameCalls (r : Answered) : SameCalls db (settle q db r) := by
  unfold settle
  split
  · exact ⟨rfl, rfl, rfl, keys_setState _ _ _, rfl, rfl, rfl, rfl, rfl⟩
  · exact ⟨rfl, rfl, rfl, keys_setState _ _ _, rfl, rfl, rfl, rfl, rfl⟩

/-- The loop removes the messages of the rows that were answered well, and no others. -/
theorem mem_queued_settle {r : Answered} : a ∈ (settle q db r).queued ↔
    a ∈ db.queued ∧ ¬ (r.response.ok = true ∧ a.queue = q ∧ a.msgId = r.qMsgId) := by
  unfold settle
  split
  · rename_i hok
    show a ∈ (db.messages.filter _).map Message.toSent ↔ _
    rw [List.mem_map]
    constructor
    · rintro ⟨m, hm, rfl⟩
      obtain ⟨hm, hkeep⟩ := List.mem_filter.mp hm
      refine ⟨List.mem_map_of_mem hm, fun ⟨_, hq, hid⟩ => ?_⟩
      rw [decide_eq_true hq, decide_eq_true hid] at hkeep
      cases hkeep
    · rintro ⟨hin, hkeep⟩
      obtain ⟨m, hm, rfl⟩ := List.mem_map.mp hin
      refine ⟨m, List.mem_filter.mpr ⟨hm, ?_⟩, rfl⟩
      rw [Bool.not_eq_true', Bool.and_eq_false_iff, decide_eq_false_iff_not, decide_eq_false_iff_not]
      exact not_and_or.mp fun h => hkeep ⟨hok, h⟩
  · rename_i hfailed
    exact ⟨fun h => ⟨h, fun hok => hfailed hok.1⟩, fun h => h.1⟩

theorem settleAll (rows : List Answered) : SameCalls db (rows.foldl (settle q) db) ∧
    ∀ a, a ∈ (rows.foldl (settle q) db).queued ↔ a ∈ db.queued ∧
      ∀ r ∈ rows, ¬ (r.response.ok = true ∧ a.queue = q ∧ a.msgId = r.qMsgId) := by
  induction rows generalizing db with
  | nil =>
    exact ⟨⟨rfl, rfl, rfl, rfl, rfl, rfl, rfl, rfl, rfl⟩,
      fun a => ⟨fun h => ⟨h, fun r hr => absurd hr List.not_mem_nil⟩, fun h => h.1⟩⟩
  | cons r rows ih =>
    obtain ⟨hsame, hqueued⟩ := @ih (settle q db r)
    have hstep : SameCalls db (settle q db r) := settle_sameCalls r
    refine ⟨⟨hsame.calls.trans hstep.calls, hsame.responses.trans hstep.responses,
      hsame.arrived.trans hstep.arrived, hsame.keys.trans hstep.keys, hsame.sent.trans hstep.sent,
      hsame.rest.1.trans hstep.rest.1, hsame.rest.2.1.trans hstep.rest.2.1,
      hsame.rest.2.2.1.trans hstep.rest.2.2.1, hsame.rest.2.2.2.trans hstep.rest.2.2.2⟩, fun a => ?_⟩
    rw [List.foldl_cons, hqueued, mem_queued_settle, List.forall_mem_cons, and_assoc]

/-- A row that the consumer finds answered well belongs to a delivered message. -/
theorem Inv.delivered_of_answered (h : Inv mech db) (hmech : mech run = .pgmq q) {r : Answered}
    (hr : r ∈ answered db run) (hok : r.response.ok = true) (ha : a ∈ db.sent) (hq : a.queue = q)
    (hid : a.msgId = r.qMsgId) : Delivered mech db a := by
  obtain ⟨i, hi, hr⟩ := List.mem_flatMap.mp hr
  obtain ⟨c, hc, hr⟩ := List.mem_flatMap.mp hr
  obtain ⟨resp, hresp, rfl⟩ := List.mem_map.mp hr
  obtain ⟨hi, hcond⟩ := List.mem_filter.mp hi
  obtain ⟨hresp, hreq⟩ := List.mem_filter.mp hresp
  obtain ⟨hc, hcid⟩ := List.mem_filter.mp hc
  have hrun := of_decide_eq_true (Bool.and_eq_true_iff.mp hcond).1
  obtain ⟨b, hb, hbid, d, hdrun, hdid, hmade⟩ := h.made i.run i.qMsgId i.callId
    (List.mem_map_of_mem hi)
  have hdc : d = c := List.inj_on_of_nodup_map
    (List.pairwise_map.mpr (h.callIds.imp Nat.ne_of_lt)) hmade.1 hc
    (hdid.trans (of_decide_eq_true hcid).symm)
  have hqueue : b.queue = q := Mechanism.pgmq.inj (hmade.2.1.symm.trans (by rw [hdrun, hrun, hmech]))
  obtain rfl : b = a := h.sentOnce b hb a ha (hqueue.trans hq.symm) (hbid.trans hid.symm)
  exact ⟨d, hmade, resp, h.arrivedOf resp hresp,
    hdc ▸ of_decide_eq_true hreq, hok⟩

/-- A read takes messages of the queue and leaves them there. -/
theorem pgmqRead_spec {vt : Int} {qty : Nat} {taken : List Nat} {rows : List Message}
    (h : pgmqRead db q vt qty taken = some (rows, db')) :
    (∀ m ∈ rows, m.toSent ∈ db.queued ∧ m.queue = q) ∧ SameCalls db db' ∧ db'.queued = db.queued := by
  simp only [pgmqRead] at h
  split at h
  · cases h
  · cases h
    refine ⟨fun m hm => ?_, ⟨rfl, rfl, rfl, rfl, rfl, rfl, rfl, rfl, rfl⟩, ?_⟩
    · obtain ⟨m₀, hm₀, rfl⟩ := List.mem_map.mp hm
      obtain ⟨hm₀, htakes⟩ := List.mem_filter.mp hm₀
      exact ⟨List.mem_map.mpr ⟨m₀, hm₀, rfl⟩,
        of_decide_eq_true (Bool.and_eq_true_iff.mp (Bool.and_eq_true_iff.mp htakes).1).1⟩
    · unfold Db.queued
      rw [List.map_map]
      refine List.map_congr_left fun m _ => ?_
      rw [Function.comp_apply]
      split <;> rfl

/-- The consumer posts for a message that it has read. -/
theorem Inv.deliver (h : Inv mech db) (hmech : mech run = .pgmq q) {m : Message}
    (hm : m.toSent ∈ db.sent) (hq : m.queue = q) : Inv mech (deliver run url db m) := by
  have hpost : Inv mech (PgNetLoad.nlPost db run "pgmq" "flaky" url (some 5000) (some m.msg)) :=
    h.nlPost fun hno => absurd hmech (hno q)
  have hkeys : ∀ x ∈ db.inflight.map Inflight.key,
      x ∈ (PgNetLoad.deliver run url db m).inflight.map Inflight.key := by
    intro x hx
    show x ∈ (db.inflight ++ [_]).map Inflight.key
    rw [List.map_append]
    exact List.mem_append_left _ hx
  refine { hpost with kept := ?_, made := ?_ }
  · intro a ha
    exact (hpost.kept a ha).imp_right fun hd => hd.mono (fun _ hc => hc) hkeys fun _ hr => hr
  · intro run' k id hkey
    have hkey : (run', k, id) ∈ (db.inflight ++ [_]).map Inflight.key := hkey
    rw [List.map_append, List.mem_append] at hkey
    rcases hkey with hold | hnew
    · obtain ⟨a, ha, hk, c, hrun, hid, hc, hcmech, hmsg, hckey⟩ := hpost.made run' k id hold
      exact ⟨a, ha, hk, c, hrun, hid, hc, hcmech, hmsg, hkeys _ hckey⟩
    · rw [List.map_singleton, List.mem_singleton] at hnew
      obtain ⟨rfl, rest⟩ := Prod.mk.inj hnew
      obtain ⟨rfl, rfl⟩ := Prod.mk.inj rest
      refine ⟨m.toSent, hm, rfl, db.newCall run' "pgmq" "flaky" (some 5000) (some m.msg), rfl, rfl,
        List.mem_append_right _ List.mem_cons_self, ?_, rfl, ?_⟩
      · rw [hq]
        exact hmech
      · show _ ∈ (db.inflight ++ [_]).map Inflight.key
        rw [List.map_append]
        exact List.mem_append_right _ List.mem_cons_self

theorem Inv.deliverAll (hmech : mech run = .pgmq q) (rows : List Message) (h : Inv mech db)
    (hrows : ∀ m ∈ rows, m.toSent ∈ db.sent ∧ m.queue = q) :
    Inv mech (rows.foldl (PgNetLoad.deliver run url) db) ∧
      (rows.foldl (PgNetLoad.deliver run url) db).queued = db.queued := by
  induction rows generalizing db with
  | nil => exact ⟨h, rfl⟩
  | cons m rows ih =>
    obtain ⟨hm, hq⟩ := hrows m List.mem_cons_self
    exact ih (h.deliver hmech hm hq) fun x hx => hrows x (List.mem_cons_of_mem _ hx)

/-- A tick of the consumer keeps the invariant and takes only delivered messages. -/
theorem Inv.pgmqTick (h : Inv mech db) (hmech : mech run = .pgmq q) {taken : List Nat}
    (htick : nlPgmqTick db run q url taken = some db') :
    Inv mech db' ∧ ∀ a ∈ db.queued, a ∈ db'.queued ∨ Delivered mech db a := by
  obtain ⟨hsame, hqueued⟩ : SameCalls db ((answered db run).foldl (settle q) db) ∧
      ∀ a, a ∈ ((answered db run).foldl (settle q) db).queued ↔ a ∈ db.queued ∧
        ∀ r ∈ answered db run, ¬ (r.response.ok = true ∧ a.queue = q ∧ a.msgId = r.qMsgId) :=
    settleAll _
  have hgone : ∀ a ∈ db.queued, a ∈ ((answered db run).foldl (settle q) db).queued ∨
      Delivered mech db a := by
    intro a ha
    by_cases hkeep : ∀ r ∈ answered db run,
        ¬ (r.response.ok = true ∧ a.queue = q ∧ a.msgId = r.qMsgId)
    · exact .inl ((hqueued a).mpr ⟨ha, hkeep⟩)
    · obtain ⟨r, hr⟩ := not_forall.mp hkeep
      obtain ⟨hr, hok⟩ := Classical.not_imp.mp hr
      obtain ⟨hok, hq, hid⟩ := not_not.mp hok
      exact .inr (h.delivered_of_answered hmech hr hok (h.queuedSent a ha) hq hid)
  have hacked : Inv mech ((answered db run).foldl (settle q) db) :=
    h.ofSameCalls hsame (fun a ha => ((hqueued a).mp ha).1) hgone
  obtain ⟨⟨rows, read⟩, hread, rfl⟩ := Option.map_eq_some_iff.mp htick
  obtain ⟨hrows, hread, hqueue⟩ := pgmqRead_spec hread
  have hinv : Inv mech read := hacked.ofSameCalls hread (fun a ha => hqueue ▸ ha) fun a ha =>
    .inl (hqueue.symm ▸ ha)
  have hsent : ∀ m ∈ rows, m.toSent ∈ read.sent ∧ m.queue = q := by
    intro m hm
    obtain ⟨hin, hq⟩ := hrows m hm
    rw [hread.sent, hsame.sent]
    exact ⟨h.queuedSent _ ((hqueued _).mp hin).1, hq⟩
  obtain ⟨hall, hsamequeue⟩ := hinv.deliverAll hmech rows hsent
  refine ⟨hall, fun a ha => (hgone a ha).imp_left fun hin => ?_⟩
  show a ∈ Db.queued (rows.foldl (PgNetLoad.deliver run url) read)
  rw [hsamequeue, hqueue]
  exact hin

/-! ## Retries -/

/-- The newest call of the run for its message. -/
def IsLatest (db : Db) (run : String) (l : Call) : Prop :=
  l ∈ db.calls ∧ l.run = run ∧ ∀ c ∈ db.calls, c.run = run → c.msg = l.msg → c.id ≤ l.id

/-- What a tick of the retries may add. -/
structure Retried (db : Db) (run : String) (new : List Call) : Prop where
  ofRun : ∀ c ∈ new, c.run = run
  once : (new.map Call.msg).Nodup
  failedBefore : ∀ c ∈ new, ∃ l, IsLatest db run l ∧ l.msg = c.msg ∧
    ∃ r ∈ db.responses, l.reqId = some r.id ∧ r.failed = true

theorem newest_spec {calls : List Call} {c : Call}
    (h : (calls.insertionSort fun a b => b.id ≤ a.id).head? = some c) :
    c ∈ calls ∧ ∀ d ∈ calls, d.id ≤ c.id := by
  have : Std.Total fun a b : Call => b.id ≤ a.id := ⟨fun a b => Nat.le_total b.id a.id⟩
  have : IsTrans Call fun a b => b.id ≤ a.id := ⟨fun _ _ _ hab hbc => Nat.le_trans hbc hab⟩
  cases hsort : calls.insertionSort fun a b : Call => b.id ≤ a.id with
  | nil =>
    rw [hsort] at h
    cases h
  | cons x rest =>
    rw [hsort] at h
    cases h
    exact ⟨(List.mem_insertionSort _).mp (hsort ▸ List.mem_cons_self),
      fun d hd => rel_of_insertionSort_eq_cons (r := fun a b : Call => b.id ≤ a.id) hsort hd⟩

theorem latest_spec {l : Call} (h : l ∈ latest db.calls run) : IsLatest db run l := by
  obtain ⟨msg, -, hnewest⟩ := List.mem_filterMap.mp h
  obtain ⟨hmem, hmax⟩ := newest_spec hnewest
  obtain ⟨hmine, hmsg⟩ := List.mem_filter.mp hmem
  obtain ⟨hcall, hrun⟩ := List.mem_filter.mp hmine
  refine ⟨hcall, of_decide_eq_true hrun, fun c hc hcrun hcmsg => hmax c ?_⟩
  rw [of_decide_eq_true hmsg] at hcmsg
  exact List.mem_filter.mpr ⟨List.mem_filter.mpr ⟨hc, decide_eq_true hcrun⟩, decide_eq_true hcmsg⟩

theorem latest_nodup (calls : List Call) (run : String) : ((latest calls run).map Call.msg).Nodup := by
  unfold latest
  rw [List.map_filterMap]
  refine List.Nodup.filterMap (fun msg msg' b hb hb' => ?_) (List.nodup_dedup _)
  have hmsg : ∀ m, b ∈ ((((calls.filter fun c => c.run = run).filter fun c => c.msg = m).insertionSort
      fun a b => b.id ≤ a.id).head?.map Call.msg) → b = m := by
    intro m hm
    obtain ⟨c, hc, rfl⟩ := Option.map_eq_some_iff.mp hm
    exact of_decide_eq_true (List.mem_filter.mp (newest_spec hc).1).2
  exact (hmsg msg hb).symm.trans (hmsg msg' hb')

/-- A request has one response at most. -/
theorem bad_nodup (h : Inv mech db) : (bad db run).Nodup := by
  unfold bad
  rw [List.nodup_flatMap]
  constructor
  · intro l _
    refine ((List.Nodup.of_map _ h.answerOnce).filter _).map_on fun x hx y hy _ => ?_
    obtain ⟨hx, hxid⟩ := List.mem_filter.mp hx
    obtain ⟨hy, hyid⟩ := List.mem_filter.mp hy
    have hxid := of_decide_eq_true (Bool.and_eq_true_iff.mp hxid).1
    have hyid := of_decide_eq_true (Bool.and_eq_true_iff.mp hyid).1
    exact List.inj_on_of_nodup_map h.answerOnce hx hy (Option.some.inj (hxid.symm.trans hyid))
  · refine (List.pairwise_map.mp (latest_nodup db.calls run)).imp fun {x y} hne => ?_
    intro m hx hy
    obtain ⟨-, -, rfl⟩ := List.mem_map.mp hx
    obtain ⟨-, -, heq⟩ := List.mem_map.mp hy
    exact hne heq.symm

theorem mem_bad (hmsg : msg ∈ bad db run) : ∃ l, IsLatest db run l ∧ l.msg = msg ∧
    ∃ r ∈ db.responses, l.reqId = some r.id ∧ r.failed = true := by
  obtain ⟨l, hl, hmem⟩ := List.mem_flatMap.mp hmsg
  obtain ⟨r, hr, rfl⟩ := List.mem_map.mp hmem
  obtain ⟨hr, hcond⟩ := List.mem_filter.mp hr
  obtain ⟨hreq, hfailed⟩ := Bool.and_eq_true_iff.mp hcond
  exact ⟨l, latest_spec hl, rfl, r, hr, of_decide_eq_true hreq, hfailed⟩

theorem Inv.postAll (msgs : List (Option Int)) (hnodup : msgs.Nodup) (h : Inv mech db)
    (hroom : ∀ msg ∈ msgs, callCount db run msg < 10) :
    Inv mech (msgs.foldl (fun db msg => PgNetLoad.nlPost db run tag target url tmo msg) db) ∧
      (msgs.foldl (fun db msg => PgNetLoad.nlPost db run tag target url tmo msg) db).queued = db.queued ∧
      ∃ new, (msgs.foldl (fun db msg => PgNetLoad.nlPost db run tag target url tmo msg) db).calls =
        db.calls ++ new ∧ new.map Call.msg = msgs ∧ ∀ c ∈ new, c.run = run := by
  induction msgs generalizing db with
  | nil => exact ⟨h, rfl, [], (List.append_nil _).symm, rfl, fun c hc => absurd hc List.not_mem_nil⟩
  | cons msg msgs ih =>
    obtain ⟨hmsg, hnodup⟩ := List.nodup_cons.mp hnodup
    have hpost : Inv mech (PgNetLoad.nlPost db run tag target url tmo msg) :=
      h.nlPost fun _ => hroom msg List.mem_cons_self
    obtain ⟨hinv, hqueued, new, hcalls, hmsgs, hrun⟩ := ih hnodup hpost fun msg' hmsg' => by
      have hother : ¬ (msg'.isSome ∧ run = run ∧ msg = msg') := fun hsame =>
        hmsg (hsame.2.2 ▸ hmsg')
      rw [callCount_nlPost, if_neg hother]
      exact hroom msg' (List.mem_cons_of_mem _ hmsg')
    refine ⟨hinv, hqueued, db.newCall run tag target tmo msg :: new, ?_, ?_, ?_⟩
    · rw [List.foldl_cons, hcalls]
      exact List.append_assoc _ _ _
    · rw [List.map_cons, hmsgs]
      rfl
    · intro c hc
      rcases List.mem_cons.mp hc with rfl | hc
      · rfl
      · exact hrun c hc

theorem Inv.retryTick (h : Inv mech db) (run url : String) : Inv mech (nlRetryTick db run url) ∧
    (nlRetryTick db run url).queued = db.queued ∧
    ∃ new, (nlRetryTick db run url).calls = db.calls ++ new ∧ Retried db run new := by
  have hnodup : (toRetry db run).Nodup := (bad_nodup h).filter _
  have hroom : ∀ msg ∈ toRetry db run, callCount db run msg < 10 := fun msg hmsg =>
    of_decide_eq_true (List.mem_filter.mp hmsg).2
  obtain ⟨hinv, hqueued, new, hcalls, hmsgs, hrun⟩ := h.postAll (toRetry db run) hnodup hroom
  refine ⟨hinv, hqueued, new, hcalls, hrun, hmsgs ▸ hnodup, fun c hc => ?_⟩
  have hmsg : c.msg ∈ toRetry db run := hmsgs ▸ List.mem_map_of_mem hc
  exact mem_bad (List.mem_filter.mp hmsg).1

/-! ## Every run -/

theorem inv_initial : Inv mech .initial where
  sentOnce _ ha := absurd ha List.not_mem_nil
  sentLt _ ha := absurd ha List.not_mem_nil
  queuedSent _ ha := absurd ha List.not_mem_nil
  kept _ ha := absurd ha List.not_mem_nil
  made _ _ _ hkey := absurd hkey List.not_mem_nil
  callIds := .nil
  callLt _ hc := absurd hc List.not_mem_nil
  arrivedOf _ hr := absurd hr List.not_mem_nil
  answerOnce := .nil
  answerLt _ hr := absurd hr List.not_mem_nil
  requestLt _ hx := absurd hx List.not_mem_nil
  outstanding _ hr := absurd hr List.not_mem_nil
  bounded run msg _ := by cases msg <;> exact Nat.zero_le 10

theorem Inv.send (h : Inv mech db) (q : String) (msg : Int) :
    Inv mech { db with
      messages := db.messages ++ [⟨⟨q, db.nextMsg q, msg⟩, db.clockMs, 0⟩]
      nextMsg := fun q' => if q' = q then db.nextMsg q + 1 else db.nextMsg q'
      sent := db.sent ++ [⟨q, db.nextMsg q, msg⟩] } := by
  have hnew : ∀ a ∈ db.sent, a.queue = q → a.msgId ≠ db.nextMsg q := fun a ha hq =>
    hq ▸ Nat.ne_of_lt (h.sentLt a ha)
  refine { h with sentOnce := ?_, sentLt := ?_, queuedSent := ?_, kept := ?_, made := ?_ }
  · intro a ha b hb hq hid
    rcases List.mem_append.mp ha with ha | ha <;> rcases List.mem_append.mp hb with hb | hb
    · exact h.sentOnce a ha b hb hq hid
    · rw [List.mem_singleton.mp hb] at hq hid
      exact absurd hid (hnew a ha hq)
    · rw [List.mem_singleton.mp ha] at hq hid
      exact absurd hid.symm (hnew b hb hq.symm)
    · rw [List.mem_singleton.mp ha, List.mem_singleton.mp hb]
  · intro a ha
    show a.msgId < if a.queue = q then db.nextMsg q + 1 else db.nextMsg a.queue
    rcases List.mem_append.mp ha with ha | ha
    · split
      · rename_i hq
        exact Nat.lt_succ_of_lt (hq ▸ h.sentLt a ha)
      · exact h.sentLt a ha
    · rw [List.mem_singleton.mp ha, if_pos rfl]
      exact Nat.lt_succ_self _
  · intro a ha
    have ha : a ∈ (db.messages ++ [_]).map Message.toSent := ha
    rw [List.map_append, List.mem_append] at ha
    exact List.mem_append.mpr (ha.imp (h.queuedSent a) id)
  · intro a ha
    show a ∈ (db.messages ++ [_]).map Message.toSent ∨ _
    rw [List.map_append, List.mem_append]
    rcases List.mem_append.mp ha with ha | ha
    · exact (h.kept a ha).imp_left .inl
    · exact .inl (.inr ha)
  · intro run k id hkey
    obtain ⟨a, ha, hmade⟩ := h.made run k id hkey
    exact ⟨a, List.mem_append_left _ ha, hmade⟩

theorem Inv.respond (h : Inv mech db) {r : Response} (hr : r.id ∈ db.requests.map Request.id) :
    Inv mech { db with
      requests := db.requests.filter fun x => x.id ≠ r.id
      responses := db.responses ++ [r]
      arrived := db.arrived ++ [r] } := by
  refine { h with kept := ?_, arrivedOf := ?_, answerOnce := ?_, answerLt := ?_, requestLt := ?_, outstanding := ?_ }
  · intro a ha
    exact (h.kept a ha).imp_right fun hd =>
      hd.mono (fun _ hc => hc) (fun _ hx => hx) fun _ hr => List.mem_append_left _ hr
  · intro x hx
    exact List.mem_append.mpr ((List.mem_append.mp hx).imp_left (h.arrivedOf x))
  · rw [List.map_append, List.nodup_append']
    refine ⟨h.answerOnce, List.nodup_singleton _, ?_⟩
    rw [List.map_singleton, List.disjoint_singleton]
    intro hmem
    obtain ⟨x, hx, heq⟩ := List.mem_map.mp hmem
    exact h.outstanding x hx (heq ▸ hr)
  · intro x hx
    rcases List.mem_append.mp hx with hx | hx
    · exact h.answerLt x hx
    · obtain ⟨y, hy, heq⟩ := List.mem_map.mp hr
      rw [List.mem_singleton.mp hx, ← heq]
      exact h.requestLt y hy
  · exact fun x hx => h.requestLt x (List.mem_filter.mp hx).1
  · intro x hx hmem
    obtain ⟨y, hy, heq⟩ := List.mem_map.mp hmem
    obtain ⟨hy, hne⟩ := List.mem_filter.mp hy
    rcases List.mem_append.mp hx with hx | hx
    · exact h.outstanding x hx (heq ▸ List.mem_map_of_mem hy)
    · exact of_decide_eq_true hne (heq.trans (congrArg Response.id (List.mem_singleton.mp hx)))

theorem Inv.lose (h : Inv mech db) (reqId : Nat) :
    Inv mech { db with requests := db.requests.filter fun x => x.id ≠ reqId } :=
  { h with
    requestLt := fun x hx => h.requestLt x (List.mem_filter.mp hx).1
    outstanding := fun r hr hmem => by
      obtain ⟨y, hy, heq⟩ := List.mem_map.mp hmem
      exact h.outstanding r hr (heq ▸ List.mem_map_of_mem (List.mem_filter.mp hy).1) }

theorem Inv.expire (h : Inv mech db) (reqId : Nat) :
    Inv mech { db with responses := db.responses.filter fun x => x.id ≠ reqId } :=
  { h with
    arrivedOf := fun r hr => h.arrivedOf r (List.mem_filter.mp hr).1
    answerOnce := h.answerOnce.sublist (List.filter_sublist.map _)
    answerLt := fun r hr => h.answerLt r (List.mem_filter.mp hr).1
    outstanding := fun r hr => h.outstanding r (List.mem_filter.mp hr).1 }

/-- Every event keeps the invariant, and takes only delivered messages from the queues. -/
theorem Inv.step (h : Inv mech db) (hstep : netStep mech db e = some db') :
    Inv mech db' ∧ ∀ a ∈ db.queued, a ∈ db'.queued ∨ Delivered mech db a := by
  cases e with
  | post run tag target url tmo msg =>
    simp only [netStep] at hstep
    split at hstep
    · rename_i hmay
      cases hstep
      have hzero := of_decide_eq_true (Bool.and_eq_true_iff.mp hmay).2
      exact ⟨h.nlPost fun _ => by rw [hzero]; decide, fun a ha => .inl ha⟩
    · cases hstep
  | retryTick run url =>
    simp only [netStep] at hstep
    split at hstep
    · cases hstep
      obtain ⟨hinv, hqueued, -⟩ := h.retryTick run url
      exact ⟨hinv, fun a ha => .inl (hqueued.symm ▸ ha)⟩
    · cases hstep
  | send q msg =>
    cases hstep
    refine ⟨h.send q msg, fun a ha => .inl ?_⟩
    show a ∈ (db.messages ++ [_]).map Message.toSent
    rw [List.map_append]
    exact List.mem_append_left _ ha
  | pgmqTick run url taken =>
    simp only [netStep] at hstep
    split at hstep
    · rename_i q hmech
      exact h.pgmqTick hmech hstep
    · cases hstep
  | respond r =>
    simp only [netStep] at hstep
    split at hstep
    · rename_i hr
      cases hstep
      exact ⟨h.respond hr, fun a ha => .inl ha⟩
    · cases hstep
  | lose reqId =>
    cases hstep
    exact ⟨h.lose reqId, fun a ha => .inl ha⟩
  | expire reqId =>
    cases hstep
    exact ⟨h.expire reqId, fun a ha => .inl ha⟩
  | elapse ms =>
    cases hstep
    exact ⟨{ h with }, fun a ha => .inl ha⟩

theorem inv_run : ∀ events db, runEvents (netStep mech) .initial events = some db → Inv mech db :=
  runEvents_invariant inv_initial fun _ _ _ _ _ h hstep => (h.step hstep).1

end

/-- What holds of a run of the mechanisms. -/
structure AtLeastOnce (mech : String → Mechanism) (events : List NetEvent) (db : Db) : Prop where
  /-- A message is in its queue until a call that was made for it is answered well. -/
  kept : ∀ a ∈ db.sent, a ∈ db.queued ∨ Delivered mech db a
  /-- No event takes another message from a queue. -/
  removed : ∀ before e after m m', events = before ++ e :: after →
    runEvents (netStep mech) .initial before = some m → netStep mech m e = some m' →
      ∀ a ∈ m.queued, a ∉ m'.queued → Delivered mech m a
  /-- A message that no queue holds is called ten times at most. -/
  bounded : ∀ run msg, (∀ q, mech run ≠ .pgmq q) → callCount db run (some msg) ≤ 10
  /-- A tick of the retries calls a message once at most, after a failed latest call. -/
  retried : ∀ before run url after m m', events = before ++ .retryTick run url :: after →
    runEvents (netStep mech) .initial before = some m →
      netStep mech m (.retryTick run url) = some m' →
        ∃ new, m'.calls = m.calls ++ new ∧ Retried m run new

theorem delivery_at_least_once (mech : String → Mechanism) (events : List NetEvent) (db : Db)
    (hrun : runEvents (netStep mech) .initial events = some db) : AtLeastOnce mech events db where
  kept := (inv_run events db hrun).kept
  removed before e after m m' _ hbefore hstep a ha hgone :=
    (((inv_run before m hbefore).step hstep).2 a ha).resolve_left hgone
  bounded run msg := (inv_run events db hrun).bounded run (some msg)
  retried before run url after m m' _ hbefore hstep := by
    simp only [netStep] at hstep
    split at hstep
    · cases hstep
      exact ((inv_run before m hbefore).retryTick run url).2.2
    · cases hstep

def twoRuns (run : String) : Mechanism := if run = "retry" then .retry else .pgmq "q"

/-- The queue's call times out and is made again; the other message is retried once. -/
def flakyEvents : List NetEvent :=
  [.send "q" 7, .pgmqTick "queue" "flaky" [1], .post "retry" "retry" "flaky" "flaky" (some 5000) (some 7),
    .respond ⟨1, none, some true⟩, .respond ⟨2, some 503, some false⟩, .elapse 30000,
    .pgmqTick "queue" "flaky" [1], .retryTick "retry" "flaky", .respond ⟨3, some 200, some false⟩,
    .pgmqTick "queue" "flaky" []]

theorem delivery_at_least_once_flaky : ∃ db, runEvents (netStep twoRuns) .initial flakyEvents = some db ∧
    AtLeastOnce twoRuns flakyEvents db :=
  ⟨_, rfl, delivery_at_least_once twoRuns flakyEvents _ rfl⟩

end SupabaseLab.PgNetLoad
