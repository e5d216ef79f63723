/-
  MgmtFaults/ConnProxy.lean --- a connection of the fault proxy.

  Source: `pickRule`, `parseRequest` and `startConnProxy` of
  experiments/mgmt-api-faults/lib/connfault.ts.

  The proxy reads requests from the front of what a connection has received,
  handles one at a time, and queues the bytes of each answer until the socket
  takes them.  The events of a connection are the pieces of data that come in,
  the answers of the upstream, and the socket being ready to take bytes again.
-/
import SupabaseLab.Library.Framing
import SupabaseLab.Library.JsString
import SupabaseLab.Library.Machine
import SupabaseLab.Library.Octets

set_option autoImplicit false

namespace SupabaseLab.MgmtFaults

open Library

/-! ## Texts -/

/-- `toString("latin1")`: a character for each byte. -/
def latin1Text (bytes : Bytes) : List Char := bytes.map fun b => Char.ofNat b.toNat

/-- `Buffer.from(text, "latin1")`: the low byte of each code unit. -/
def latin1 (text : String) : Bytes := (codeUnits text).map UInt8.ofNat

/-- `toUpperCase()` of a character of latin1. -/
def upperChar (c : Char) : List Char :=
  if c.toNat = 0xDF then ['S', 'S']
  else if c.toNat = 0xB5 then [Char.ofNat 0x39C]
  else if c.toNat = 0xFF then [Char.ofNat 0x178]
  else if 0x61 ≤ c.toNat ∧ c.toNat ≤ 0x7A ∨ 0xE0 ≤ c.toNat ∧ c.toNat ≠ 0xF7 ∧ c.toNat < 0xFF then
    [Char.ofNat (c.toNat - 32)]
  else [c]

def upper (s : String) : String := String.ofList (s.toList.flatMap upperChar)

/-- `split("\r\n")`. -/
def splitLines : List Char → List (List Char)
  | [] => [[]]
  | '\r' :: '\n' :: rest => [] :: splitLines rest
  | c :: rest =>
      match splitLines rest with
      | [] => [[c]]
      | line :: lines => (c :: line) :: lines

/-! ## Requests -/

/-- `STRIP_REQ`: headers that are not sent on. -/
def stripReq : List String :=
  ["host", "content-length", "accept-encoding", "connection", "transfer-encoding", "keep-alive",
    "proxy-connection"]

/-- `STRIP_RES`: headers that are not relayed. -/
def stripRes : List String :=
  ["content-encoding", "content-length", "transfer-encoding", "connection", "keep-alive"]

structure ParsedRequest where
  method : String
  path : String
  headers : List (String × String)
  body : Bytes
  /-- Bytes consumed from the buffer. -/
  used : Nat
  deriving DecidableEq, Repr

/-- What `parseRequest` finds at the front of a buffer. -/
inductive Parsed where
  /-- more bytes are needed -/
  | more
  /-- a request that the proxy does not handle -/
  | refused (error : String)
  | request (p : ParsedRequest)
  /-- a content length in which digits stand among other characters, or an
  infinite one -/
  | unmodelled
  deriving DecidableEq, Repr

/-- `Number(v) || 0`, of digits (exact below `2 ^ 53`, and no buffer is longer)
and of texts that are no number. -/
def contentLength (v : String) : Option Nat :=
  if v.toList.all Char.isDigit then
    some (v.toList.foldl (fun n c => 10 * n + (c.toNat - 48)) 0)
  else if v.toList.any Char.isDigit || v ∈ ["Infinity", "+Infinity", "-Infinity"] then none
  else some 0

/-- The variables of the loop over the header lines. -/
structure HeadAcc where
  headers : List (String × String) := []
  len : Option Nat := some 0

/-- One turn of the loop; `none` refuses a chunked body. -/
def readHeader (acc : HeadAcc) (line : List Char) : Option HeadAcc :=
  if ':' ∉ line then some acc
  else
    let k := jsTrim (String.ofList (line.takeWhile (· ≠ ':')))
    let v := jsTrim (String.ofList ((line.dropWhile (· ≠ ':')).drop 1))
    if k.toLower = "transfer-encoding" && "chunked".toList <:+: v.toLower.toList then none
    else some
      { headers := acc.headers ++ [(k, v)]
        len := if k.toLower = "content-length" then contentLength v else acc.len }

/-- `"\r\n\r\n"`. -/
def endOfHead : Bytes := [13, 10, 13, 10]

/-- One HTTP/1.1 request from the front of `buf`. -/
def parseRequest (buf : Bytes) : Parsed :=
  match indexOf endOfHead buf with
  | none => .more
  | some stop =>
    let head := splitLines (latin1Text (buf.take stop))
    let words := (head.headD []).splitOn ' '
    match (head.drop 1).foldlM readHeader {} with
    | none => .refused "chunked request body"
    | some acc =>
      match acc.len with
      | none => .unmodelled
      | some len =>
        let start := stop + 4
        if buf.length < start + len then .more
        else .request
          { method := upper (String.ofList (words.headD []))
            path := String.ofList (words.getD 1 [])
            headers := acc.headers
            body := (buf.drop start).take len
            used := start + len }

/-- A header name that `Headers` accepts. -/
def isToken (k : String) : Bool :=
  !k.isEmpty && k.toList.all fun c =>
    c.isAlphanum || c ∈ ['!', '#', '$', '%', '&', '*', '+', '-', '.', '^', '_', '|', '~'] ||
      c.toNat = 39 || c.toNat = 96

/-- A header value that `Headers` accepts. -/
def isHeaderValue (v : String) : Bool := v.toList.all fun c => c.toNat ∉ [0, 10, 13]

/-- The headers that are sent on. -/
def ParsedRequest.forwardedHeaders (p : ParsedRequest) : List (String × String) :=
  p.headers.filter fun h => h.1.toLower ∉ stripReq

/-- `headers.append` throws for none of them. -/
def ParsedRequest.accepted (p : ParsedRequest) : Bool :=
  p.forwardedHeaders.all fun h => isToken h.1 && isHeaderValue h.2

/-! ## Rules -/

inductive Mode where
  | resetBefore
  | closeBefore
  | resetAfter
  | pass
  deriving DecidableEq, Repr

structure ConnRule where
  id : String
  method : Option String := none
  /-- Regex source matched against path + query. -/
  path : String
  mode : Mode
  /-- Fault only the first `times` matching requests (0 or absent = all). -/
  times : Option Nat := none
  fired : Nat := 0
  deriving DecidableEq, Repr

/-- `r.times && r.fired >= r.times`. -/
def ConnRule.spent (r : ConnRule) : Bool :=
  match r.times with
  | none => false
  | some times => times ≠ 0 && times ≤ r.fired

/-- The rule is for this request and still has budget.  `isMatch` tests a text
against the source of a regular expression. -/
def ConnRule.applies (isMatch : String → String → Bool) (method path : String) (r : ConnRule) :
    Bool :=
  (match r.method with
    | none => true
    | some m => m = "" || upper m = method) &&
  isMatch r.path path && !r.spent

/-- The first rule that matches and still has budget, counting the firing. -/
def pickRule (isMatch : String → String → Bool) (rules : List ConnRule) (method path : String) :
    List ConnRule × Option Nat :=
  match rules.findIdx? (ConnRule.applies isMatch method path) with
  | none => (rules, none)
  | some i => (rules.modify i fun r => { r with fired := r.fired + 1 }, some i)

/-! ## Answers -/

/-- The answer of the upstream, as `fetch` gives it. -/
structure Answer where
  status : Nat
  statusText : String
  headers : List (String × String)
  body : Bytes
  deriving DecidableEq, Repr

/-- The chunks that are queued for an answer; `none` when the upstream was not
reached. -/
def replyChunks : Option Answer → List Bytes
  | none => chunks 502 "Bad Gateway" [] (utf8 "upstream unreachable")
  | some up =>
      chunks up.status (if up.statusText = "" then "OK" else up.statusText)
        (up.headers.filter fun h => h.1.toLower ∉ stripRes) up.body
where
  chunks (status : Nat) (statusText : String) (headers : List (String × String)) (body : Bytes) :
      List Bytes :=
    [latin1 ("HTTP/1.1 " ++ toString status ++ " " ++ statusText ++ "\r\n" ++
        String.join (headers.map fun h => h.1 ++ ": " ++ h.2 ++ "\r\n") ++
        "content-length: " ++ toString body.length ++ "\r\nconnection: keep-alive\r\n\r\n"),
      body]

/-- The bytes of an answer. -/
def replyBytes (up : Option Answer) : Bytes := (replyChunks up).flatten

/-- `flush`, where `taken` are the results of its calls of `s.write`: the bytes
that the socket took and the chunks that stay queued. -/
def flush : List Int → List Bytes → Option (Bytes × List Bytes)
  | [], [] => some ([], [])
  | n :: taken, chunk :: out =>
      if n < 0 then
        if taken = [] then some ([], chunk :: out) else none
      else if n.toNat < chunk.length then
        if taken = [] then some (chunk.take n.toNat, chunk.drop n.toNat :: out) else none
      else
        (flush taken out).map fun r => (chunk ++ r.1, r.2)
  | _, _ => none

/-! ## The connection -/

/-- A request that `handle` was called with, and the mode of its rule. -/
structure Handled where
  request : ParsedRequest
  mode : Option Mode
  deriving DecidableEq, Repr

/-- The connection is closed before the upstream is contacted. -/
def Handled.killsBefore (h : Handled) : Bool :=
  h.mode = some .resetBefore || h.mode = some .closeBefore

/-- The rule closes the connection. -/
def Handled.kills (h : Handled) : Bool := h.killsBefore || h.mode = some .resetAfter

/-- Where `pump` is. -/
inductive Phase where
  /-- not running (`busy` is false) -/
  | idle
  /-- `handle` waits for the answer of the upstream -/
  | awaiting (h : Handled)
  /-- `handle` has returned -/
  | returning
  deriving DecidableEq, Repr

/-- The call of `fetch` for a request. -/
structure Forwarded where
  path : String
  method : String
  headers : List (String × String)
  body : Option Bytes
  deriving DecidableEq, Repr

def Forwarded.of (p : ParsedRequest) : Forwarded where
  path := p.path
  method := p.method
  headers := p.forwardedHeaders
  body := if p.body = [] then none else some p.body

/-- A connection, the rules of its proxy, and what has happened on it. -/
structure Conn where
  rules : List ConnRule := []
  buf : Bytes := []
  phase : Phase := .idle
  out : List Bytes := []
  dead : Bool := false
  /-- the rules that fired since they were set, on any connection -/
  picked : List Nat := []
  handled : List Handled := []
  /-- the calls of `fetch` -/
  forwarded : List Forwarded := []
  /-- the requests whose answers were queued -/
  answered : List (Handled × Option Answer) := []
  /-- the bytes that the socket took -/
  written : Bytes := []

inductive Event where
  | data (chunk : Bytes)
  /-- the `fetch` of the request in hand ends; `none` when it throws -/
  | completes (up : Option Answer) (taken : List Int)
  /-- `pump` goes on after `handle` -/
  | resumes
  /-- the socket takes bytes again -/
  | drain (taken : List Int)
  /-- the socket is closed from the other side -/
  | close
  /-- a request on another connection -/
  | elsewhere (method path : String)
  | setRules (rules : List ConnRule)
  deriving DecidableEq, Repr

section

variable (isMatch : String → String → Bool)

/-- `pickRule` with the rules of the proxy. -/
def Conn.pick (s : Conn) (method path : String) : Conn × Option Nat :=
  let (rules, i) := pickRule isMatch s.rules method path
  ({ s with rules := rules, picked := s.picked ++ i.toList }, i)

/-- `handle`, up to where it waits or returns. -/
def Conn.handle (s : Conn) (p : ParsedRequest) : Conn :=
  let (s, i) := s.pick isMatch p.method p.path
  let h : Handled :=
    { request := p
      mode := i.bind fun i => s.rules[i]?.map ConnRule.mode }
  let s := { s with handled := s.handled ++ [h] }
  if h.killsBefore then { s with dead := true, phase := .returning }
  -- `headers.append` throws, which ends `pump`
  else if p.accepted = false then { s with phase := .idle }
  else { s with phase := .awaiting h, forwarded := s.forwarded ++ [Forwarded.of p] }

/-- One turn of the loop of `pump`. -/
def Conn.turn (s : Conn) : Option Conn :=
  if s.dead then some { s with phase := .idle }
  else
    match parseRequest s.buf with
    | .more => some { s with phase := .idle }
    | .refused _ => some { s with phase := .idle, dead := true }
    | .request p => some (Conn.handle isMatch { s with buf := s.buf.drop p.used } p)
    | .unmodelled => none

def Conn.flush (s : Conn) (taken : List Int) : Option Conn :=
  (MgmtFaults.flush taken s.out).map fun r =>
    { s with written := s.written ++ r.1, out := r.2 }

/-- `handle`, after the upstream has answered. -/
def Conn.complete (s : Conn) (h : Handled) (up : Option Answer) (taken : List Int) : Option Conn :=
  if h.mode = some .resetAfter then some { s with dead := true, phase := .returning }
  else if s.dead then some { s with phase := .returning }
  else Conn.flush
    { s with
      phase := .returning
      out := s.out ++ replyChunks up
      answered := s.answered ++ [(h, up)] } taken

def Conn.step (s : Conn) : Event → Option Conn
  | .data chunk =>
      if s.dead then some s
      else
        let s := { s with buf := s.buf ++ chunk }
        if s.phase = .idle then s.turn isMatch else some s
  | .completes up taken =>
      match s.phase with
      | .awaiting h => s.complete h up taken
      | _ => none
  | .resumes => if s.phase = .returning then s.turn isMatch else none
  | .drain taken => s.flush taken
  | .close => some { s with dead := true }
  | .elsewhere method path => some (s.pick isMatch method path).1
  | .setRules rules =>
      some { s with rules := rules.map fun r => { r with fired := 0 }, picked := [] }

end

/-- The data of a run, put together. -/
def dataOf (es : List Event) : Bytes :=
  es.flatMap fun
    | .data chunk => chunk
    | _ => []

end SupabaseLab.MgmtFaults
