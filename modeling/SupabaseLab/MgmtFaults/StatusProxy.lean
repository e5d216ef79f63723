/-
  MgmtFaults/StatusProxy.lean --- the fault proxy that answers HTTP.

  Source: experiments/mgmt-api-faults/proxy/server.ts.

  Any number of requests are in the proxy at a time, and each waits at its own
  places: for its body, for the digest, for a delay, for the upstream.  Between two
  of them a request runs undisturbed, so an event is the end of one wait, and a run
  is any order of them.  A log row is an object that the handler goes on writing to
  after it stands in the log, and after the log has been emptied; it is kept with
  its request, and the log names requests.

  How a regular expression matches, and which statuses `Response` can be built
  with, are parameters.  The lengths of the delays are not enforced.
-/
import SupabaseLab.Library.Cascade
import SupabaseLab.Library.JsonStringify
import SupabaseLab.Library.KeyMap
import SupabaseLab.Library.Machine
import SupabaseLab.Library.Utf8
import SupabaseLab.MgmtFaults.ConnProxy

set_option autoImplicit false

namespace SupabaseLab.MgmtFaults.StatusProxy

open Library

/-! ## Rules -/

inductive FaultMode where
  | errorBefore
  | errorAfter
  | delayBefore
  | delayAfter
  | passthrough
  deriving DecidableEq, Repr

/-- A rule, as it is set. -/
structure RuleSpec where
  id : String
  method : Option String := none
  /-- Regex source matched against the path including the query string. -/
  path : String
  mode : FaultMode
  status : Option Nat := none
  delayMs : Option Nat := none
  headers : KeyMap String String := .empty
  body : Option JsText := none
  skip : Option Nat := none
  times : Option Nat := none

/-- A rule with its runtime counters. -/
structure Rule extends RuleSpec where
  seen : Nat := 0
  fired : Nat := 0

/-- What a rule looks at. -/
structure Call where
  method : String
  path : String
  deriving DecidableEq, Repr

/-- How `pick` ends early. -/
inductive Picked where
  /-- `new RegExp` throws -/
  | threw
  | rule (r : RuleSpec)

/-- `r.method && r.method.toUpperCase() !== method`. -/
def RuleSpec.otherMethod (r : RuleSpec) (method : String) : Bool :=
  match r.method with
  | none => false
  | some m => m ≠ "" && upper m ≠ method

section Rules

variable (isMatch : String → String → Option Bool)

/-- One turn of the loop of `pick`; `isMatch` is `none` where the text is no
regular expression. -/
def Rule.consult (r : Rule) (call : Call) : Rule × Option Picked :=
  if r.otherMethod call.method then (r, none)
  else
    match isMatch r.path call.path with
    | none => (r, some .threw)
    | some false => (r, none)
    | some true =>
      let r := { r with seen := r.seen + 1 }
      if r.seen ≤ r.skip.getD 0 then (r, none)
      else if r.times.getD 0 ≠ 0 && r.times.getD 0 ≤ r.fired then (r, none)
      else ({ r with fired := r.fired + 1 }, some (.rule r.toRuleSpec))

def pick (rules : List Rule) (call : Call) : List Rule × Option Picked :=
  offer (Rule.consult isMatch) rules call

end Rules

/-! ## Requests and answers -/

structure Request where
  method : String
  pathname : String
  search : String
  headers : List (String × String)
  body : Bytes
  deriving DecidableEq, Repr

/-- `url.pathname + url.search`. -/
def Request.path (r : Request) : String := r.pathname ++ r.search

/-- The body is not read. -/
def Request.bodyless (r : Request) : Bool := r.method = "GET" || r.method = "HEAD"

/-- What `body` is bound to. -/
def Request.sentBody (r : Request) : Bytes := if r.bodyless then [] else r.body

def stripReq : List String :=
  ["host", "content-length", "accept-encoding", "connection", "transfer-encoding"]

def stripRes : List String := ["content-encoding", "content-length", "transfer-encoding", "connection"]

/-- `headers.set` of each of them that is not stripped. -/
def keptHeaders (stripped : List String) (headers : List (String × String)) :
    KeyMap String String :=
  (headers.filter fun h => h.1.toLower ∉ stripped).foldl (fun kept h => kept.set h.1 h.2) .empty

/-- The call of `fetch`. -/
structure Forwarded where
  method : String
  path : String
  headers : KeyMap String String
  body : Option Bytes

def Request.forwarded (r : Request) : Forwarded where
  method := r.method
  path := r.path
  headers := keptHeaders stripReq r.headers
  body := if r.sentBody = [] then none else some r.sentBody

/-- The answer of the upstream, before its body is read. -/
structure Upstream where
  status : Nat
  headers : List (String × String)
  deriving DecidableEq, Repr

inductive ReplyBody where
  | text (s : JsText)
  | bytes (b : Bytes)
  deriving DecidableEq, Repr

/-- A `Response` to the client. -/
structure Reply where
  status : Nat
  headers : KeyMap String String := .empty
  body : ReplyBody

def faultResponse (r : RuleSpec) : Reply :=
  let status := r.status.getD 500
  { status := status
    headers := r.headers.entries.foldl (fun headers h => headers.set h.1 h.2)
      (KeyMap.empty.set "content-type" "application/json")
    body := .text (r.body.getD (JsonText.stringify (.obj [(units "message",
      .str (units ("injected " ++ toString status ++ " (" ++ r.id ++ ")")))]))) }

/-- The answer to a request whose `fetch` throws; `e` is `String(e)`. -/
def unreachable (e : JsText) : Reply := { status := 502, body := .text e }

def relay (up : Upstream) (body : Bytes) : Reply where
  status := up.status
  headers := keptHeaders stripRes up.headers
  body := .bytes body

/-- `new TextDecoder().decode`: a byte order mark at the front is dropped. -/
def decodeText (b : Bytes) : JsText :=
  readUtf8 (if [0xEF, 0xBB, 0xBF] <+: b then b.drop 3 else b)

/-- `j.ref ?? (typeof j.id === "string" ? j.id : undefined)`; nothing where the body
is no JSON or reading it throws. -/
def upstreamRef (body : Bytes) : Option JsonText := do
  let j ← JsonText.parse (decodeText body)
  match ← j.get? (units "ref") with
  | some .null | none =>
    match ← j.get? (units "id") with
    | some (.str id) => return .str id
    | _ => none
  | some ref => return ref

/-! ## The proxy -/

inductive LogAction where
  | forward
  | errorBefore
  | delayBefore
  | upstreamUnreachable
  | errorAfter
  | delayAfter
  deriving DecidableEq, Repr

structure LogRow where
  seq : Nat
  t : Int
  method : String
  path : String
  bodyBytes : Nat
  bodySha : String
  rule : Option String := none
  action : LogAction := .forward
  clientStatus : Option Nat := none
  upstreamStatus : Option Nat := none
  upstreamRef : Option JsonText := none
  ms : Int := 0

/-- Where the handler of a request is. -/
inductive Phase where
  /-- `await req.arrayBuffer()` -/
  | reading
  /-- `await sha(body)`; the row has its number already -/
  | hashing (seq : Nat)
  | sleepingBefore
  /-- `await fetch(..)` -/
  | fetching
  /-- `await up.arrayBuffer()` -/
  | receiving (up : Upstream)
  | sleepingAfter (up : Upstream) (body : Bytes)
  | replied (r : Reply)
  /-- the handler rejects -/
  | threw

/-- A request in the proxy. -/
structure Task where
  req : Request
  t0 : Int
  row : Option LogRow := none
  rule : Option RuleSpec := none
  phase : Phase := .reading

structure Server where
  rules : List Rule := []
  /-- the requests whose rows are in the log -/
  log : List Nat := []
  seq : Nat := 0
  /-- the requests, in the order of their arrival -/
  tasks : List Task := []
  /-- the requests that `pick` was called for since the rules were set, and what it
  returned -/
  calls : List Call := []
  picked : List (Option Picked) := []
  /-- the calls of `fetch` -/
  sent : List (Nat × Forwarded) := []

/-- What a handler waits for. -/
inductive Wake where
  /-- `req.arrayBuffer()` settles; it rejects when the client goes away -/
  | bodyRead (ok : Bool)
  | hashed (digest : String)
  | slept
  /-- `fetch` settles; the text is that of the error it throws -/
  | fetched (answer : Except JsText Upstream)
  /-- `up.arrayBuffer()` settles -/
  | received (body : Option Bytes)

inductive Event where
  | arrives (now : Int) (req : Request)
  | resumes (now : Int) (i : Nat) (wake : Wake)
  /-- a request under `/__admin/`; `rules` is what its body is read as -/
  | admin (method pathname : String) (rules : Option (List RuleSpec))

/-- What an admin request is answered. -/
inductive AdminReply where
  | health
  | count (rules : Nat)
  | rules (rules : List Rule)
  | log (rows : List LogRow)
  | ok
  | unknown

def Task.note (t : Task) (f : LogRow → LogRow) : Task := { t with row := t.row.map f }

/-- The rows of the log, as they are now. -/
def Server.rows (s : Server) : List LogRow := s.log.filterMap fun i => s.tasks[i]?.bind Task.row

/-- The call of `fetch` that a handler has made when it comes to wait for it. -/
def Task.sends (t : Task) : List Forwarded :=
  match t.phase with
  | .fetching => [t.req.forwarded]
  | _ => []

/-- A handler ran up to where it waits again. -/
def Server.put (s : Server) (i : Nat) (t : Task) : Server :=
  { s with tasks := s.tasks.set i t, sent := s.sent ++ t.sends.map fun sent => (i, sent) }

section Handler

variable (isMatch : String → String → Option Bool) (accepts : Nat → Bool)

/-- `return done(..)`, which throws where no `Response` has that status. -/
def Task.done (t : Task) (now : Int) (r : Reply) : Task :=
  if accepts r.status then
    { t.note fun row => { row with clientStatus := some r.status, ms := now - t.t0 } with
      phase := .replied r }
  else { t with phase := .threw }

/-- The handler, once `pick` has answered. -/
def Task.start (t : Task) (now : Int) (row : LogRow) : Option Picked → Task
  | some .threw => { t with row := some row, phase := .threw }
  | none => { t with row := some row, phase := .fetching }
  | some (.rule r) =>
      let t := { t with row := some { row with rule := some r.id }, rule := some r }
      match r.mode with
      | .errorBefore =>
        (t.note fun row => { row with action := .errorBefore }).done accepts now (faultResponse r)
      | .delayBefore =>
        { t.note fun row => { row with action := .delayBefore } with phase := .sleepingBefore }
      | _ => { t with phase := .fetching }

def Task.newRow (t : Task) (seq : Nat) (sha : String) : LogRow where
  seq := seq
  t := t.t0
  method := t.req.method
  path := t.req.path
  bodyBytes := t.req.sentBody.length
  bodySha := sha

def Request.call (r : Request) : Call where
  method := r.method
  path := r.path

/-- The handler, from the new row on. -/
def Server.handle (s : Server) (i : Nat) (t : Task) (now : Int) (seq : Nat) (sha : String) :
    Server :=
  let (rules, picked) := pick isMatch s.rules t.req.call
  Server.put
    { s with
      log := s.log ++ [i]
      rules := rules
      calls := s.calls ++ [t.req.call]
      picked := s.picked ++ [picked] }
    i (t.start accepts now (t.newRow seq sha) picked)

/-- The row gets its number, and where there is a body its digest is waited for. -/
def Server.number (s : Server) (i : Nat) (t : Task) (now : Int) : Server :=
  let s := { s with seq := s.seq + 1 }
  if t.req.sentBody = [] then s.handle isMatch accepts i t now s.seq ""
  else s.put i { t with phase := .hashing s.seq }

/-- The handler, once the body of the upstream's answer is there. -/
def Task.answer (t : Task) (now : Int) (up : Upstream) (body : Bytes) : Task :=
  let t := t.note fun row =>
    { row with upstreamStatus := some up.status, upstreamRef := upstreamRef body }
  match t.rule with
  | none => t.done accepts now (relay up body)
  | some r =>
    match r.mode with
    | .errorAfter =>
      (t.note fun row => { row with action := .errorAfter }).done accepts now (faultResponse r)
    | .delayAfter =>
      { t.note fun row => { row with action := .delayAfter } with phase := .sleepingAfter up body }
    | _ => t.done accepts now (relay up body)

/-- `admin`; no answer where reading the body throws. -/
def Server.admin (s : Server) (method pathname : String) (rules : Option (List RuleSpec)) :
    Server × Option AdminReply :=
  if pathname = "/__admin/health" then (s, some .health)
  else if pathname = "/__admin/rules" ∧ method = "PUT" then
    match rules with
    | none => (s, none)
    | some rules =>
      ({ s with rules := rules.map fun r => { toRuleSpec := r }, calls := [], picked := [] },
        some (.count rules.length))
  else if pathname = "/__admin/rules" then (s, some (.rules s.rules))
  else if pathname = "/__admin/log" then (s, some (.log s.rows))
  else if pathname = "/__admin/reset" then
    ({ s with rules := [], log := [], seq := 0, calls := [], picked := [] }, some .ok)
  else (s, some .unknown)

/-- The handler of a request goes on. -/
def Server.resume (s : Server) (i : Nat) (t : Task) (now : Int) : Phase → Wake → Option Server
  | .reading, .bodyRead true => some (s.number isMatch accepts i t now)
  | .reading, .bodyRead false => some (s.put i { t with phase := .threw })
  | .hashing seq, .hashed digest => some (s.handle isMatch accepts i t now seq digest)
  | .sleepingBefore, .slept => some (s.put i { t with phase := .fetching })
  | .fetching, .fetched (.error e) =>
      some (s.put i ((t.note fun row => { row with action := .upstreamUnreachable }).done accepts now
        (unreachable e)))
  | .fetching, .fetched (.ok up) => some (s.put i { t with phase := .receiving up })
  | .receiving _, .received none => some (s.put i { t with phase := .threw })
  | .receiving up, .received (some body) => some (s.put i (t.answer accepts now up body))
  | .sleepingAfter up body, .slept => some (s.put i (t.done accepts now (relay up body)))
  | _, _ => none

def Server.step (s : Server) : Event → Option Server
  | .arrives now req =>
      if "/__admin/".toList <+: req.pathname.toList then none
      else
        let t : Task := { req := req, t0 := now }
        let arrived := { s with tasks := s.tasks ++ [t] }
        some (if req.bodyless then arrived.number isMatch accepts s.tasks.length t now else arrived)
  | .resumes now i wake => (s.tasks[i]?).bind fun t => s.resume isMatch accepts i t now t.phase wake
  | .admin method pathname rules => some (s.admin method pathname rules).1

end Handler

end SupabaseLab.MgmtFaults.StatusProxy
