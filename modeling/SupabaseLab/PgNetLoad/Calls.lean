/-
  PgNetLoad/Calls.lean --- three ways to send messages out of the database.

  Source: `nl_post` of experiments/pgnet-under-load/lib/nl.ts, `nl_retry_tick` and
  `nl_pgmq_tick` of tests/nl04-delivery.ts.

  pg_net gives each request a number and answers it at most once, perhaps never.
  `pgmq.read` takes some of the visible messages, at most as many as it is asked for.
  A run has one mechanism.  `sent` and `arrived` are kept for the statements only.
-/
import Mathlib

set_option autoImplicit false

namespace SupabaseLab.PgNetLoad

/-! ## Tables -/

/-- A row of `nl_calls`. -/
structure Call where
  id : Nat
  run : String
  tag : String
  target : String
  msg : Option Int
  reqId : Option Nat
  enqMs : Int
  tmo : Option Int
  deriving DecidableEq, Repr

/-- The JSON body of a call. -/
structure PostBody where
  run : String
  id : Nat
  msg : Option Int
  enqMs : Int
  target : String
  deriving DecidableEq, Repr

/-- A row of `net.http_request_queue`. -/
structure Request where
  id : Nat
  url : String
  body : PostBody
  timeoutMs : Option Int
  deriving DecidableEq, Repr

/-- A row of `net._http_response`. -/
structure Response where
  id : Nat
  statusCode : Option Int
  timedOut : Option Bool
  deriving DecidableEq, Repr

inductive InflightState where
  | inflight | acked | failed
  deriving DecidableEq, Repr

/-- A row of `nl_inflight`. -/
structure Inflight where
  run : String
  qMsgId : Nat
  callId : Nat
  state : InflightState
  readCt : Nat
  deriving DecidableEq, Repr

/-- A message as it was sent. -/
structure Sent where
  queue : String
  msgId : Nat
  msg : Int
  deriving DecidableEq, Repr

/-- A row of a pgmq queue. -/
structure Message extends Sent where
  vtMs : Int
  readCt : Nat
  deriving DecidableEq, Repr

structure Db where
  clockMs : Int
  calls : List Call
  nextCall : Nat
  requests : List Request
  nextReq : Nat
  responses : List Response
  inflight : List Inflight
  messages : List Message
  nextMsg : String → Nat
  sent : List Sent
  arrived : List Response

def Db.initial : Db := ⟨0, [], 1, [], 1, [], [], [], fun _ => 1, [], []⟩

/-! ## Posting -/

/-- The call that `nl_post` records; its id is what the function returns. -/
def Db.newCall (db : Db) (run tag target : String) (tmo msg : Option Int) : Call :=
  { id := db.nextCall
    run := run
    tag := tag
    target := target
    msg := msg
    reqId := some db.nextReq
    enqMs := db.clockMs
    tmo := tmo }

def nlPost (db : Db) (run tag target url : String) (tmo msg : Option Int) : Db :=
  { db with
    calls := db.calls ++ [db.newCall run tag target tmo msg]
    nextCall := db.nextCall + 1
    requests := db.requests ++
      [{ id := db.nextReq
         url := url
         body := ⟨run, db.nextCall, msg, db.clockMs, target⟩
         timeoutMs := tmo }]
    nextReq := db.nextReq + 1 }

/-! ## Retries -/

/-- `distinct on (c.msg) … order by c.msg, c.id desc`. -/
def latest (calls : List Call) (run : String) : List Call :=
  let mine := calls.filter fun c => c.run = run
  (mine.map Call.msg).dedup.filterMap fun msg =>
    ((mine.filter fun c => c.msg = msg).insertionSort fun a b => b.id ≤ a.id).head?

/-- `r.timed_out or r.status_code is null or r.status_code < 200 or r.status_code >= 300`. -/
def Response.failed (r : Response) : Bool :=
  r.timedOut = some true || match r.statusCode with
    | none => true
    | some s => s < 200 || s ≥ 300

/-- The messages whose latest call has a failed response. -/
def bad (db : Db) (run : String) : List (Option Int) :=
  (latest db.calls run).flatMap fun l =>
    (db.responses.filter fun r => l.reqId = some r.id && r.failed).map fun _ => l.msg

/-- `select count(*) … where c2.run = p_run and c2.msg = b.msg`; a null equals nothing. -/
def callCount (db : Db) (run : String) : Option Int → Nat
  | none => 0
  | some msg => (db.calls.filter fun c => c.run = run && c.msg = some msg).length

def toRetry (db : Db) (run : String) : List (Option Int) :=
  (bad db run).filter fun msg => callCount db run msg < 10

def nlRetryTick (db : Db) (run url : String) : Db :=
  (toRetry db run).foldl (fun db msg => nlPost db run "retry" "flaky" url (some 5000) msg) db

/-! ## The queue -/

/-- `status_code between 200 and 299 and not coalesce(timed_out, false)`. -/
def Response.ok (r : Response) : Bool :=
  match r.statusCode with
  | none => false
  | some s => 200 ≤ s && s ≤ 299 && !r.timedOut.getD false

/-- A row of the consumer's first query. -/
structure Answered where
  qMsgId : Nat
  callId : Nat
  response : Response

/-- The in-flight rows of the run that are joined to a response. -/
def answered (db : Db) (run : String) : List Answered :=
  (db.inflight.filter fun i => i.run = run && i.state = .inflight).flatMap fun i =>
    (db.calls.filter fun c => c.id = i.callId).flatMap fun c =>
      (db.responses.filter fun r => c.reqId = some r.id).map fun r => ⟨i.qMsgId, i.callId, r⟩

def setState (rows : List Inflight) (callId : Nat) (state : InflightState) : List Inflight :=
  rows.map fun i => if i.callId = callId then { i with state := state } else i

/-- One turn of the consumer's first loop. -/
def settle (q : String) (db : Db) (r : Answered) : Db :=
  if r.response.ok then
    { db with
      messages := db.messages.filter fun m => !(m.queue = q && m.msgId = r.qMsgId)
      inflight := setState db.inflight r.callId .acked }
  else { db with inflight := setState db.inflight r.callId .failed }

/-- `pgmq.read` finds the message visible and takes it. -/
def Db.takes (db : Db) (q : String) (taken : List Nat) (m : Message) : Bool :=
  m.queue = q && m.vtMs ≤ db.clockMs && m.msgId ∈ taken

def Db.touched (db : Db) (vt : Int) (m : Message) : Message :=
  { m with vtMs := db.clockMs + vt * 1000, readCt := m.readCt + 1 }

/-- `pgmq.read(q, vt, qty)`, when it takes the messages of `taken` that are visible. -/
def pgmqRead (db : Db) (q : String) (vt : Int) (qty : Nat) (taken : List Nat) :
    Option (List Message × Db) :=
  let rows := (db.messages.filter (db.takes q taken)).map (db.touched vt)
  if qty < rows.length then none
  else some (rows, { db with
    messages := db.messages.map fun m => if db.takes q taken m then db.touched vt m else m })

/-- One turn of the consumer's second loop. -/
def deliver (run url : String) (db : Db) (m : Message) : Db :=
  { nlPost db run "pgmq" "flaky" url (some 5000) (some m.msg) with
    inflight := db.inflight ++ [⟨run, m.msgId, db.nextCall, .inflight, m.readCt⟩] }

def nlPgmqTick (db : Db) (run q url : String) (taken : List Nat) : Option Db :=
  let acked := (answered db run).foldl (settle q) db
  (pgmqRead acked q 30 200 taken).map fun (rows, db) => rows.foldl (deliver run url) db

/-! ## Events -/

inductive Mechanism where
  | raw
  | retry
  | pgmq (q : String)
  deriving DecidableEq, Repr

inductive NetEvent where
  | post (run tag target url : String) (tmo msg : Option Int)
  | retryTick (run url : String)
  | send (q : String) (msg : Int)
  | pgmqTick (run url : String) (taken : List Nat)
  | respond (r : Response)
  | lose (reqId : Nat)
  | expire (reqId : Nat)
  | elapse (ms : Nat)

/-- A message is posted once to start with. -/
def Db.mayPost (db : Db) (mech : String → Mechanism) (run : String) (msg : Option Int) : Bool :=
  (match mech run with
    | .pgmq _ => false
    | _ => true) && callCount db run msg = 0

def netStep (mech : String → Mechanism) (db : Db) : NetEvent → Option Db
  | .post run tag target url tmo msg =>
    if db.mayPost mech run msg then some (nlPost db run tag target url tmo msg) else none
  | .retryTick run url =>
    match mech run with
    | .retry => some (nlRetryTick db run url)
    | _ => none
  | .send q msg =>
    some { db with
      messages := db.messages ++ [⟨⟨q, db.nextMsg q, msg⟩, db.clockMs, 0⟩]
      nextMsg := fun q' => if q' = q then db.nextMsg q + 1 else db.nextMsg q'
      sent := db.sent ++ [⟨q, db.nextMsg q, msg⟩] }
  | .pgmqTick run url taken =>
    match mech run with
    | .pgmq q => nlPgmqTick db run q url taken
    | _ => none
  | .respond r =>
    if r.id ∈ db.requests.map Request.id then
      some { db with
        requests := db.requests.filter fun x => x.id ≠ r.id
        responses := db.responses ++ [r]
        arrived := db.arrived ++ [r] }
    else none
  | .lose reqId => some { db with requests := db.requests.filter fun x => x.id ≠ reqId }
  | .expire reqId => some { db with responses := db.responses.filter fun x => x.id ≠ reqId }
  | .elapse ms => some { db with clockMs := db.clockMs + ms }

end SupabaseLab.PgNetLoad
