/-
  SqliteEdge/Hrana.lean --- transactions over a Hrana stream, with retries.

  Source: `HranaStream` and `runTx` of experiments/sqlite-edge-compare/lib/td04-07-hrana.ts.

  The server's answers are a sequence, one for each request.  An answer is lost, or it has a
  status and a text, and the text may be no JSON or JSON of any shape.  `Runtime` is what the
  runtime makes of values that the protocol does not send: it throws with some text, or it
  converts.  Statements have their arguments as `toHrana` gives them, and the clock is left out.
-/
import SupabaseLab.Library.JsonText

set_option autoImplicit false

namespace SupabaseLab.SqliteEdge.Hrana

open Library

/-! ## Values of any shape -/

structure Runtime (ν : Type) where
  /-- The message of `JSON.parse` for a text. -/
  syntaxError : JsText → JsText
  /-- The message when reading the parsed text throws. -/
  typeError : JsText → JsText
  /-- `String(v)`, of a value that is no string; `none` when it throws. -/
  text : JsonText → Option JsText
  /-- `Number(v)`; `none` when it throws. -/
  number : Option JsonText → Option ν
  /-- Whether a number counts as false. -/
  isZero : JsText → Bool

section Values

variable {ν : Type} (rt : Runtime ν)

def truthy : JsonText → Bool
  | .null => false
  | .bool b => b
  | .num digits => !rt.isZero digits
  | .str s => s ≠ []
  | .arr _ => true
  | .obj _ => true

/-- `v ?? default`. -/
def nullish (v : Option JsonText) (default : JsonText) : JsonText :=
  match v with
  | none | some .null => default
  | some v => v

/-- `v?.key`. -/
def chain (v : Option JsonText) (key : String) : Option JsonText :=
  match v with
  | none | some .null => none
  | some v => (v.get? (units key)).join

/-- `String(v)`. -/
def textOfValue : JsonText → Option JsText
  | .str s => some s
  | v => rt.text v

end Values

/-! ## Results -/

/-- A cell of a row. -/
inductive Cell (ν : Type) where
  | number (n : ν)
  /-- A value as it came; `none` is `undefined`. -/
  | value (v : Option JsonText)

structure HranaResult (ν : Type) where
  cols : List JsonText
  rows : List (List (Cell ν))
  affected : JsonText

/-- What is thrown: a `HranaError`, or another error by its message. -/
inductive Failure where
  | hrana (message : JsText) (code : Option JsonText)
  | other (message : JsText)

/-- What comes back for a request. -/
inductive ServerAnswer where
  | lost (message : JsText)
  | answered (status : ℕ) (text : JsText)
  deriving DecidableEq

section Reading

variable {ν : Type} (rt : Runtime ν)

/-- `none` when it throws. -/
def fromHrana (v : JsonText) : Option (Cell ν) := do
  let value := (← v.get? (units "value"))
  match ← v.get? (units "type") with
  | some (.str t) =>
      if t = units "null" then some (.value (some .null))
      else if t = units "integer" then (rt.number value).map .number
      else if t = units "float" ∨ t = units "text" then some (.value value)
      else if t = units "blob" then some (.value (some (.str (units "<blob>"))))
      else some (.value none)
  | _ => some (.value none)

/-- What `map` goes over; `none` when there is no `map`. -/
def items? : JsonText → Option (List JsonText)
  | .arr items => some items
  | _ => none

/-- The result of an answer that is no error; `none` when reading it throws. -/
def readResult (res : JsonText) : Option (HranaResult ν) := do
  let result := nullish (chain (chain (some res) "response") "result") (.obj [])
  let cols ← (← items? (nullish (chain (some result) "cols") (.arr []))).mapM fun c =>
    (c.get? (units "name")).map fun name => nullish name (.str [])
  let rows ← (← items? (nullish (chain (some result) "rows") (.arr []))).mapM fun row => do
    (← items? row).mapM (fromHrana rt)
  return ⟨cols, rows, nullish (chain (some result) "affected_row_count") (.num (units "0"))⟩

/-- `const [res] = results`; the outer `none` when it throws.  Of a string only that it has a
first character is used. -/
def firstOf : JsonText → Option (Option JsonText)
  | .arr items => some items.head?
  | .str [] => some none
  | .str (u :: _) => some (some (.str [u]))
  | _ => none

/-- What `exec` makes of the results of an answer with this text. -/
def execResult (text : JsText) (results : JsonText) : Except Failure (HranaResult ν) :=
  match firstOf results with
  | none => .error (.other (rt.typeError text))
  | some res =>
      match res.filter (truthy rt) with
      | none => .error (.hrana (units "empty pipeline response") (some (.str (units "EMPTY"))))
      | some res =>
          match chain (some res) "type" with
          | some (.str t) =>
              if t = units "error" then
                let error := chain (some res) "error"
                match textOfValue rt (nullish (chain error "message") (.str (units "unknown error"))) with
                | some message => .error (.hrana message (chain error "code"))
                | none => .error (.other (rt.typeError text))
              else ((readResult rt res).map .ok).getD (.error (.other (rt.typeError text)))
          | _ => ((readResult rt res).map .ok).getD (.error (.other (rt.typeError text)))

end Reading

/-! ## Streams -/

structure Stream where
  /-- `null` until the server has given one. -/
  baton : JsonText := .null
  base : JsText
  closed : Bool := false

/-- Without the slashes at its end. -/
def stripSlashes (url : JsText) : JsText := url.rdropWhile fun u => u = '/'.toNat

/-- `new HranaStream(url, …)`. -/
def openStream (url : JsText) : Stream where
  base := stripSlashes
    (if units "libsql://" <+: url then units "https://" ++ url.drop (units "libsql://").length else url)

def httpMessage (status : ℕ) (text : JsText) : JsText :=
  units "HTTP " ++ units (toString status) ++ units " " ++ text.take 300

section Pipeline

variable {ν : Type} (rt : Runtime ν)

/-- The new base, if there is one; the outer `none` when it throws. -/
def newBase (j : JsonText) : Option (Option JsText) :=
  match (chain (some j) "base_url").filter (truthy rt) with
  | none => some none
  | some (.str url) => some (some (stripSlashes url))
  | some _ => none

/-- What `pipeline` makes of an answer, and the stream after it. -/
def Stream.pipeline (s : Stream) : ServerAnswer → Except Failure (JsText × JsonText) × Stream
  | .lost message => (.error (.other message), s)
  | .answered status text =>
      if status < 200 ∨ 300 ≤ status then
        (.error (.hrana (httpMessage status text) (some (.str (units "HTTP_" ++ units (toString status))))),
          { s with closed := true })
      else
        match JsonText.parse text with
        | none => (.error (.other (rt.syntaxError text)), s)
        | some j =>
            match j.get? (units "baton") with
            | none => (.error (.other (rt.typeError text)), s)
            | some baton =>
                let s := { s with baton := nullish baton .null }
                match newBase rt j with
                | none => (.error (.other (rt.typeError text)), s)
                | some base =>
                    let s := { s with base := base.getD s.base }
                    let s := if truthy rt s.baton then s else { s with closed := true }
                    (.ok (text, nullish (chain (some j) "results") (.arr [])), s)

end Pipeline

/-- One of the requests of a pipeline. -/
inductive Request where
  | execute (sql : JsText) (args : List JsonText)
  | close

def COMMIT : Request := .execute (units "COMMIT") []

def ROLLBACK : Request := .execute (units "ROLLBACK") []

/-- A request that was sent: where to, with which baton, and what came back. -/
structure Sent where
  url : JsText
  baton : JsonText
  answer : ServerAnswer

/-- A call on a stream.  Nothing is sent for a statement on a stream that is closed. -/
structure Call where
  request : Request
  sent : Option Sent

/-- A stream, what was called on it, and how many requests were sent on all streams. -/
structure Conn where
  stream : Stream
  calls : List Call := []
  count : ℕ

section Calls

variable {ν : Type} (rt : Runtime ν) (answers : ℕ → ServerAnswer)

/-- The call is noted with what was sent for it. -/
def Conn.send (c : Conn) (request : Request) : Conn where
  stream := (c.stream.pipeline rt (answers c.count)).2
  calls := c.calls ++ [⟨request, some ⟨c.stream.base ++ units "/v2/pipeline", c.stream.baton,
    answers c.count⟩⟩]
  count := c.count + 1

def Conn.exec (c : Conn) (sql : JsText) (args : List JsonText) :
    Except Failure (HranaResult ν) × Conn :=
  if c.stream.closed then
    (.error (.hrana (units "stream closed") (some (.str (units "STREAM_CLOSED")))),
      { c with calls := c.calls ++ [⟨.execute sql args, none⟩] })
  else
    ((c.stream.pipeline rt (answers c.count)).1.bind fun r => execResult rt r.1 r.2,
      c.send rt answers (.execute sql args))

def Conn.close (c : Conn) : Conn :=
  if c.stream.closed then c
  else Conn.send rt answers { c with stream := { c.stream with closed := true } } .close

end Calls

/-! ## Transactions -/

/-- A body: statements one after the other, each chosen by the results of those before.  When a
statement throws the body throws, the same or something else (`rethrow`); it may also throw by
itself. -/
inductive Body (ν : Type) where
  | done
  | throws (f : Failure)
  | exec (sql : JsText) (args : List JsonText) (next : HranaResult ν → Body ν)
      (rethrow : Failure → Failure)

section Transactions

variable {ν : Type} (rt : Runtime ν) (answers : ℕ → ServerAnswer)

def Body.run : Body ν → Conn → Except Failure Unit × Conn
  | .done, c => (.ok (), c)
  | .throws f, c => (.error f, c)
  | .exec sql args next rethrow, c =>
      match c.exec rt answers sql args with
      | (.ok result, c) => (next result).run c
      | (.error f, c) => (.error (rethrow f), c)

/-- `begin`, the body and COMMIT. -/
def Conn.transact (c : Conn) (beginSql : JsText) (body : Body ν) : Except Failure Unit × Conn :=
  match c.exec rt answers beginSql [] with
  | (.error f, c) => (.error f, c)
  | (.ok _, c) =>
      match body.run rt answers c with
      | (.error f, c) => (.error f, c)
      | (.ok _, c) =>
          match c.exec rt answers (units "COMMIT") [] with
          | (.error f, c) => (.error f, c)
          | (.ok _, c) => (.ok (), c)

/-- The text of what was thrown; `none` when making it throws. -/
def Failure.text : Failure → Option JsText
  | .hrana message code =>
      match code.filter (truthy rt) with
      | none => some message
      | some code => (textOfValue rt code).map fun code => units "[" ++ code ++ units "] " ++ message
  | .other message => some message

/-- After a failure: ROLLBACK, unless the stream is closed, and close. -/
def Conn.wind (c : Conn) : Conn :=
  Conn.close rt answers
    (if c.stream.closed then c else (c.exec rt answers (units "ROLLBACK") []).2)

structure TxOutcome where
  ok : Bool
  attempts : ℕ
  conflicts : ℕ
  errors : List JsText
  deriving DecidableEq

/-- Between two attempts.  `texts` has the errors in full, and `streams` what was called on each
stream that was opened. -/
structure Progress where
  conflicts : ℕ := 0
  errors : List JsText := []
  texts : List JsText := []
  streams : List (List Call) := []
  count : ℕ := 0

/-- The rounds of the loop from an attempt on; `none` when `runTx` throws. -/
def runAttempts (url beginSql : JsText) (body : ℕ → Body ν) (retryable : JsText → Bool)
    (maxAttempts : ℕ) : ℕ → ℕ → Progress → Option TxOutcome × Progress
  | 0, _, p => (some ⟨false, maxAttempts, p.conflicts, p.errors⟩, p)
  | left + 1, attempt, p =>
      match Conn.transact rt answers { stream := openStream url, count := p.count } beginSql
          (body attempt) with
      | (.ok _, c) =>
          let c := c.close rt answers
          (some ⟨true, attempt, p.conflicts, p.errors⟩,
            { p with streams := p.streams ++ [c.calls], count := c.count })
      | (.error f, c) =>
          match f.text rt with
          | none => (none, { p with streams := p.streams ++ [c.calls], count := c.count })
          | some text =>
              let c := c.wind rt answers
              let p := { p with
                errors := p.errors ++ [text.take 500]
                texts := p.texts ++ [text]
                streams := p.streams ++ [c.calls]
                count := c.count }
              if retryable text then
                runAttempts url beginSql body retryable maxAttempts left (attempt + 1)
                  { p with conflicts := p.conflicts + 1 }
              else (some ⟨false, attempt, p.conflicts, p.errors⟩, p)

def runTx (url beginSql : JsText) (body : ℕ → Body ν) (retryable : JsText → Bool)
    (maxAttempts : ℕ) : Option TxOutcome × Progress :=
  runAttempts rt answers url beginSql body retryable maxAttempts maxAttempts 1 {}

end Transactions

/-! ## What is promised -/

section Promise

variable {ν : Type} (rt : Runtime ν)

/-- The baton of a well-formed answer. -/
def ServerAnswer.baton? : ServerAnswer → Option JsonText
  | .lost _ => none
  | .answered status text =>
      if status < 200 ∨ 300 ≤ status then none
      else (JsonText.parse text).bind fun j => (j.get? (units "baton")).map (nullish · .null)

/-- The baton of the last well-formed answer on a stream. -/
def lastBaton (calls : List Call) : JsonText :=
  calls.foldl (fun b x => (x.sent.bind fun r => r.answer.baton?).getD b) .null

def BatonsFollow (calls : List Call) : Prop :=
  ∀ before x after r, calls = before ++ x :: after → x.sent = some r → r.baton = lastBaton before

/-- What `exec` makes of an answer. -/
def outcome (a : ServerAnswer) : Except Failure (HranaResult ν) :=
  (Stream.pipeline rt { base := [] } a).1.bind fun r => execResult rt r.1 r.2

/-- A statement that failed: it was not sent, or not answered with success. -/
def Call.failed (x : Call) : Bool :=
  match x.request, x.sent with
  | .close, _ => false
  | .execute _ _, none => true
  | .execute _ _, some r => !(outcome rt r.answer).isOk

/-- After a statement that failed, ROLLBACK and close alone. -/
def OnlyRollback (calls : List Call) : Prop :=
  ∀ before x after, calls = before ++ x :: after → x.failed rt = true →
    ∀ y ∈ after, y.request = ROLLBACK ∨ y.request = .close

/-- The calls of a body that came to its end. -/
inductive Completes : Body ν → List Call → Prop where
  | done : Completes .done []
  | exec {sql : JsText} {args : List JsonText} {next : HranaResult ν → Body ν}
      {rethrow : Failure → Failure} {x : Call} {r : Sent} {result : HranaResult ν}
      {calls : List Call} (hrequest : x.request = .execute sql args)
      (hsent : x.sent = some r) (hresult : outcome rt r.answer = .ok result)
      (hrest : Completes (next result) calls) : Completes (.exec sql args next rethrow) (x :: calls)

/-- A body that leaves the transaction to `runTx`. -/
def Body.Plain : Body ν → Prop
  | .done => True
  | .throws _ => True
  | .exec sql args next _ => Request.execute sql args ≠ COMMIT ∧ ∀ result, (next result).Plain

/-- The counters, by how the loop ended. -/
structure Counted (retryable : JsText → Bool) (maxAttempts : ℕ) (o : TxOutcome) (texts : List JsText) :
    Prop where
  errors : o.errors = texts.map (List.take 500)
  ok : o.ok = true → o.attempts = o.conflicts + 1 ∧ o.attempts = o.errors.length + 1
  /-- The last error was not one to retry, or no attempt was left. -/
  notOk : o.ok = false →
    (∃ front last, texts = front ++ [last] ∧ retryable last = false ∧
      o.attempts = o.conflicts + 1 ∧ o.attempts = o.errors.length) ∨
    ((∀ t ∈ texts, retryable t = true) ∧ o.attempts = o.conflicts ∧ o.attempts = o.errors.length ∧
      o.attempts = maxAttempts)
  retried : ∀ t ∈ texts.dropLast, retryable t = true

/-- A stream whose COMMIT was answered with success, after the begin and the whole body were. -/
def CommitsBody (beginSql : JsText) (body : Body ν) (calls : List Call) : Prop :=
  ∃ b inner c closing, calls = b :: (inner ++ c :: closing) ∧
    b.request = .execute beginSql [] ∧ b.failed rt = false ∧ Completes rt body inner ∧
    c.request = COMMIT ∧ c.failed rt = false ∧ ∀ y ∈ closing, y.request = .close

structure Safe (answers : ℕ → ServerAnswer) (url beginSql : JsText) (body : ℕ → Body ν)
    (retryable : JsText → Bool) (maxAttempts : ℕ) (result : Option TxOutcome) (p : Progress) :
    Prop where
  /-- There is an outcome, unless the text of what an attempt threw cannot be made. -/
  throws : result = none → ∃ earlier attempt n f c, p.streams = earlier ++ [c.calls] ∧
    Conn.transact rt answers { stream := openStream url, count := n } beginSql (body attempt) =
      (.error f, c) ∧ f.text rt = none
  ownStream : ∀ o, result = some o → o.attempts = p.streams.length
  batons : ∀ calls ∈ p.streams, BatonsFollow calls
  afterFailure : ∀ calls ∈ p.streams, OnlyRollback rt calls
  counted : ∀ o, result = some o → Counted retryable maxAttempts o p.texts
  /-- If a COMMIT commits exactly when it is answered with success, then a body that leaves the
  transaction to `runTx` is committed once or never. -/
  committed : Request.execute beginSql [] ≠ COMMIT → (∀ n, (body n).Plain) →
    ∀ commits : Call → Bool,
      (∀ x, commits x = true ↔ x.request = COMMIT ∧ x.failed rt = false) →
      (∀ o, result = some o → o.ok = true →
        ((p.streams.flatten).filter commits).length = 1 ∧
          ∃ earlier last, p.streams = earlier ++ [last] ∧ CommitsBody rt beginSql (body o.attempts) last) ∧
      ((∀ o, result = some o → o.ok = false) → (p.streams.flatten).filter commits = [])

end Promise

section Lemmas

variable {ν : Type} {rt : Runtime ν} {answers : ℕ → ServerAnswer} {c c' : Conn} {s : Stream}
  {a : ServerAnswer} {x : Call} {calls good bad ends : List Call} {sql beginSql : JsText}
  {args : List JsonText} {f : Failure} {result : HranaResult ν} {body : Body ν}

/-! ## One request -/

/-- What an answer comes to does not depend on the stream. -/
theorem pipeline_fst (s : Stream) (a : ServerAnswer) :
    (s.pipeline rt a).1 = (Stream.pipeline rt { base := [] } a).1 := by
  cases a with
  | lost message => rfl
  | answered status text =>
    unfold Stream.pipeline
    dsimp only
    split_ifs with hstatus
    · rfl
    · cases JsonText.parse text with
      | none => rfl
      | some j =>
        dsimp only
        cases j.get? (units "baton") with
        | none => rfl
        | some baton =>
          dsimp only
          cases newBase rt j with
          | none => rfl
          | some base => rfl

/-- The baton is that of the last well-formed answer. -/
theorem pipeline_baton (s : Stream) (a : ServerAnswer) :
    (s.pipeline rt a).2.baton = a.baton?.getD s.baton := by
  cases a with
  | lost message => rfl
  | answered status text =>
    unfold Stream.pipeline ServerAnswer.baton?
    dsimp only
    split_ifs with hstatus
    · rfl
    · cases JsonText.parse text with
      | none => rfl
      | some j =>
        dsimp only [Option.bind_some]
        cases j.get? (units "baton") with
        | none => rfl
        | some baton =>
          dsimp only [Option.map_some]
          cases newBase rt j with
          | none => rfl
          | some base =>
            dsimp only
            split_ifs <;> rfl

theorem lastBaton_concat : lastBaton (calls ++ [x]) =
    (x.sent.bind fun r => r.answer.baton?).getD (lastBaton calls) := by
  rw [lastBaton, List.foldl_concat]
  rfl

theorem BatonsFollow.concat (h : BatonsFollow calls)
    (hx : ∀ r, x.sent = some r → r.baton = lastBaton calls) : BatonsFollow (calls ++ [x]) := by
  intro before y after r hsplit hy
  rcases List.eq_nil_or_concat after with rfl | ⟨after', z, rfl⟩
  · obtain ⟨rfl, hlast⟩ := List.append_inj' hsplit rfl
    cases hlast
    exact hx r hy
  · rw [List.concat_eq_append, ← List.cons_append, ← List.append_assoc] at hsplit
    exact h before y after' r (List.append_inj' hsplit rfl).1 hy

/-- The stream has the baton of its last well-formed answer, and so had its requests. -/
structure Conn.Books (c : Conn) : Prop where
  baton : c.stream.baton = lastBaton c.calls
  follow : BatonsFollow c.calls

theorem books_open (url : JsText) (n : ℕ) : Conn.Books { stream := openStream url, count := n } where
  baton := rfl
  follow before x after r h := by
    exact absurd h.symm (List.append_ne_nil_of_right_ne_nil _ (List.cons_ne_nil _ _))

theorem Conn.Books.send (h : c.Books) (request : Request) : (c.send rt answers request).Books where
  baton := by
    show (c.stream.pipeline rt (answers c.count)).2.baton = lastBaton (c.calls ++ [_])
    rw [pipeline_baton, lastBaton_concat, h.baton]
    rfl
  follow := h.follow.concat fun r hr => by
    cases hr
    exact h.baton

theorem Conn.Books.exec (rt : Runtime ν) (answers : ℕ → ServerAnswer) (h : c.Books) (sql : JsText) (args : List JsonText) :
    (c.exec rt answers sql args).2.Books := by
  unfold Conn.exec
  split
  · refine ⟨?_, h.follow.concat fun r hr => by cases hr⟩
    show c.stream.baton = lastBaton (c.calls ++ [_])
    rw [lastBaton_concat]
    exact h.baton
  · exact h.send _

theorem Conn.Books.close (h : c.Books) : (c.close rt answers).Books := by
  unfold Conn.close
  split
  · exact h
  · exact Conn.Books.send (c := { c with stream := { c.stream with closed := true } })
      ⟨h.baton, h.follow⟩ .close

theorem Conn.Books.wind (h : c.Books) : (c.wind rt answers).Books := by
  unfold Conn.wind
  split
  · exact h.close
  · exact (h.exec _ _ _ _).close

/-! ## One statement -/

theorem failed_of_outcome {r : Sent} (hrequest : x.request = .execute sql args)
    (hsent : x.sent = some r) (hresult : outcome rt r.answer = .ok result) : x.failed rt = false := by
  unfold Call.failed
  rw [hrequest, hsent]
  show (!(outcome rt r.answer).isOk) = false
  rw [hresult]
  rfl

/-- A statement that succeeds is a call that was answered with its result. -/
theorem exec_ok (h : c.exec rt answers sql args = (.ok result, c')) :
    ∃ x r, c'.calls = c.calls ++ [x] ∧ x.request = .execute sql args ∧ x.sent = some r ∧
      outcome rt r.answer = .ok result := by
  unfold Conn.exec at h
  split at h
  · cases h
  · obtain ⟨hresult, rfl⟩ := Prod.mk.inj h
    refine ⟨_, _, rfl, rfl, rfl, ?_⟩
    rw [outcome, ← pipeline_fst c.stream]
    exact hresult

/-- A statement that throws is a call that failed. -/
theorem exec_error (h : c.exec rt answers sql args = (.error f, c')) :
    ∃ x, c'.calls = c.calls ++ [x] ∧ x.request = .execute sql args ∧ x.failed rt = true := by
  unfold Conn.exec at h
  split at h
  · obtain ⟨-, rfl⟩ := Prod.mk.inj h
    exact ⟨_, rfl, rfl, rfl⟩
  · obtain ⟨hresult, rfl⟩ := Prod.mk.inj h
    refine ⟨_, rfl, rfl, ?_⟩
    show (!(outcome rt (answers c.count)).isOk) = true
    rw [outcome, ← pipeline_fst c.stream, hresult]
    rfl

/-- ROLLBACK is called once, whether it fails or not. -/
theorem exec_calls (rt : Runtime ν) (answers : ℕ → ServerAnswer) (c : Conn) (sql : JsText) (args : List JsonText) :
    ∃ x, (c.exec rt answers sql args).2.calls = c.calls ++ [x] ∧ x.request = .execute sql args := by
  unfold Conn.exec
  split
  · exact ⟨_, rfl, rfl⟩
  · exact ⟨_, rfl, rfl⟩

theorem close_calls (rt : Runtime ν) (answers : ℕ → ServerAnswer) (c : Conn) :
    ∃ ends, (c.close rt answers).calls = c.calls ++ ends ∧ ∀ y ∈ ends, y.request = .close := by
  unfold Conn.close
  split
  · exact ⟨[], (List.append_nil _).symm, fun y hy => absurd hy List.not_mem_nil⟩
  · refine ⟨[_], rfl, fun y hy => ?_⟩
    rw [List.mem_singleton.mp hy]

/-- After a failure come ROLLBACK and close. -/
theorem wind_calls (rt : Runtime ν) (answers : ℕ → ServerAnswer) (c : Conn) :
    ∃ ends, (c.wind rt answers).calls = c.calls ++ ends ∧
    ∀ y ∈ ends, y.request = ROLLBACK ∨ y.request = .close := by
  unfold Conn.wind
  split
  · obtain ⟨ends, hcalls, hends⟩ := close_calls rt answers c
    exact ⟨ends, hcalls, fun y hy => .inr (hends y hy)⟩
  · obtain ⟨x, hx, hrequest⟩ := exec_calls rt answers c (units "ROLLBACK") []
    obtain ⟨ends, hcalls, hends⟩ :=
      close_calls rt answers (c.exec rt answers (units "ROLLBACK") []).2
    refine ⟨x :: ends, ?_, ?_⟩
    · rw [hcalls, hx, List.append_assoc]
      rfl
    · intro y hy
      rcases List.mem_cons.mp hy with rfl | hy
      · exact .inl hrequest
      · exact .inr (hends y hy)

/-! ## One attempt -/

/-- The calls of an attempt that failed: all but the last are answered with success, and no
COMMIT is. -/
structure FailsAfter (rt : Runtime ν) (plain : Prop) (good bad : List Call) : Prop where
  succeed : ∀ x ∈ good, x.failed rt = false
  short : bad.length ≤ 1
  noCommit : plain → ∀ x ∈ good ++ bad, x.request = COMMIT → x.failed rt = true

theorem Completes.succeed (h : Completes rt body calls) : ∀ x ∈ calls, x.failed rt = false := by
  induction h with
  | done => exact fun x hx => absurd hx List.not_mem_nil
  | exec hrequest hsent hresult _ ih =>
    intro y hy
    rcases List.mem_cons.mp hy with rfl | hy
    · exact failed_of_outcome hrequest hsent hresult
    · exact ih y hy

theorem Completes.plain (h : Completes rt body calls) (hplain : body.Plain) :
    ∀ x ∈ calls, x.request ≠ COMMIT := by
  induction h with
  | done => exact fun x hx => absurd hx List.not_mem_nil
  | exec hrequest _ _ _ ih =>
    intro y hy
    rcases List.mem_cons.mp hy with rfl | hy
    · rw [hrequest]
      exact hplain.1
    · exact ih (hplain.2 _) y hy

theorem run_ok (h : body.run rt answers c = (.ok (), c')) :
    ∃ calls, c'.calls = c.calls ++ calls ∧ Completes rt body calls := by
  induction body generalizing c with
  | done =>
    cases h
    exact ⟨[], (List.append_nil _).symm, .done⟩
  | throws g => cases h
  | exec sql args next rethrow ih =>
    unfold Body.run at h
    cases hexec : c.exec rt answers sql args with
    | mk r c₁ =>
      rw [hexec] at h
      cases r with
      | error f => cases h
      | ok result =>
        obtain ⟨x, r, hcalls, hrequest, hsent, hresult⟩ := exec_ok hexec
        obtain ⟨rest, hrest, hcompletes⟩ := ih result h
        refine ⟨x :: rest, ?_, .exec hrequest hsent hresult hcompletes⟩
        rw [hrest, hcalls, List.append_assoc]
        rfl

theorem run_error (h : body.run rt answers c = (.error f, c')) :
    ∃ good bad, c'.calls = c.calls ++ (good ++ bad) ∧ FailsAfter rt body.Plain good bad := by
  induction body generalizing c with
  | done => cases h
  | throws g =>
    obtain ⟨-, rfl⟩ := Prod.mk.inj h
    exact ⟨[], [], (List.append_nil _).symm, ⟨by simp, by simp, by simp⟩⟩
  | exec sql args next rethrow ih =>
    unfold Body.run at h
    cases hexec : c.exec rt answers sql args with
    | mk r c₁ =>
      rw [hexec] at h
      cases r with
      | error g =>
        obtain ⟨-, rfl⟩ := Prod.mk.inj h
        obtain ⟨x, hcalls, -, hfailed⟩ := exec_error hexec
        refine ⟨[], [x], hcalls, ⟨by simp, by simp, fun _ y hy _ => ?_⟩⟩
        rw [List.mem_singleton.mp hy]
        exact hfailed
      | ok result =>
        obtain ⟨x, r, hcalls, hrequest, hsent, hresult⟩ := exec_ok hexec
        obtain ⟨good, bad, hrest, hfails⟩ := ih result h
        refine ⟨x :: good, bad, ?_, ⟨?_, hfails.short, ?_⟩⟩
        · rw [hrest, hcalls, List.append_assoc]
          rfl
        · intro y hy
          rcases List.mem_cons.mp hy with rfl | hy
          · exact failed_of_outcome hrequest hsent hresult
          · exact hfails.succeed y hy
        · intro hplain y hy hcommit
          rcases List.mem_cons.mp hy with rfl | hy
          · exact absurd (hrequest.symm.trans hcommit) hplain.1
          · exact hfails.noCommit (hplain.2 _) y hy hcommit

theorem run_books (rt : Runtime ν) (answers : ℕ → ServerAnswer) (body : Body ν) (h : c.Books) : (body.run rt answers c).2.Books := by
  induction body generalizing c with
  | done => exact h
  | throws g => exact h
  | exec sql args next rethrow ih =>
    have hexec := h.exec rt answers sql args
    unfold Body.run
    cases hr : c.exec rt answers sql args with
    | mk r c₁ =>
      rw [hr] at hexec
      cases r with
      | error g => exact hexec
      | ok result => exact ih result hexec

theorem transact_books (rt : Runtime ν) (answers : ℕ → ServerAnswer) (beginSql : JsText)
    (body : Body ν) (h : c.Books) : (c.transact rt answers beginSql body).2.Books := by
  have hbegin := h.exec rt answers beginSql []
  unfold Conn.transact
  cases hexec : c.exec rt answers beginSql [] with
  | mk r c₁ =>
    rw [hexec] at hbegin
    cases r with
    | error f => exact hbegin
    | ok result =>
      have hbody := run_books rt answers body hbegin
      dsimp only
      cases hrun : body.run rt answers c₁ with
      | mk r c₂ =>
        rw [hrun] at hbody
        cases r with
        | error f => exact hbody
        | ok u =>
          have hcommit := hbody.exec rt answers (units "COMMIT") []
          dsimp only
          cases hlast : c₂.exec rt answers (units "COMMIT") [] with
          | mk r c₃ =>
            rw [hlast] at hcommit
            cases r with
            | error f => exact hcommit
            | ok result => exact hcommit

/-- An attempt that succeeds has called begin, the whole body and COMMIT. -/
theorem transact_ok (h : c.transact rt answers beginSql body = (.ok (), c')) :
    ∃ b inner x, c'.calls = c.calls ++ b :: (inner ++ [x]) ∧ b.request = .execute beginSql [] ∧
      b.failed rt = false ∧ Completes rt body inner ∧ x.request = COMMIT ∧ x.failed rt = false := by
  unfold Conn.transact at h
  cases hexec : c.exec rt answers beginSql [] with
  | mk r c₁ =>
    rw [hexec] at h
    cases r with
    | error f => cases h
    | ok result =>
      obtain ⟨b, rb, hb, hbrequest, hbsent, hbresult⟩ := exec_ok hexec
      dsimp only at h
      cases hrun : body.run rt answers c₁ with
      | mk r c₂ =>
        rw [hrun] at h
        cases r with
        | error f => cases h
        | ok u =>
          obtain ⟨inner, hinner, hcompletes⟩ := run_ok hrun
          dsimp only at h
          cases hlast : c₂.exec rt answers (units "COMMIT") [] with
          | mk r c₃ =>
            rw [hlast] at h
            cases r with
            | error f => cases h
            | ok result =>
              obtain ⟨-, rfl⟩ := Prod.mk.inj h
              obtain ⟨x, rx, hx, hxrequest, hxsent, hxresult⟩ := exec_ok hlast
              refine ⟨b, inner, x, ?_, hbrequest, failed_of_outcome hbrequest hbsent hbresult,
                hcompletes, hxrequest, failed_of_outcome hxrequest hxsent hxresult⟩
              rw [hx, hinner, hb]
              simp

/-- An attempt that fails has at most one call that failed, its last, and no COMMIT that was
answered with success. -/
theorem transact_error (h : c.transact rt answers beginSql body = (.error f, c')) :
    ∃ good bad, c'.calls = c.calls ++ (good ++ bad) ∧
      FailsAfter rt (Request.execute beginSql [] ≠ COMMIT ∧ body.Plain) good bad := by
  unfold Conn.transact at h
  cases hexec : c.exec rt answers beginSql [] with
  | mk r c₁ =>
    rw [hexec] at h
    cases r with
    | error g =>
      obtain ⟨-, rfl⟩ := Prod.mk.inj h
      obtain ⟨b, hb, hrequest, hfailed⟩ := exec_error hexec
      refine ⟨[], [b], hb, ⟨by simp, by simp, fun _ y hy _ => ?_⟩⟩
      rw [List.mem_singleton.mp hy]
      exact hfailed
    | ok result =>
      obtain ⟨b, rb, hb, hbrequest, hbsent, hbresult⟩ := exec_ok hexec
      have hbgood := failed_of_outcome hbrequest hbsent hbresult
      dsimp only at h
      cases hrun : body.run rt answers c₁ with
      | mk r c₂ =>
        rw [hrun] at h
        cases r with
        | error g =>
          obtain ⟨-, rfl⟩ := Prod.mk.inj h
          obtain ⟨good, bad, hcalls, hfails⟩ := run_error hrun
          refine ⟨b :: good, bad, ?_, ⟨?_, hfails.short, ?_⟩⟩
          · rw [hcalls, hb, List.append_assoc]
            rfl
          · intro y hy
            rcases List.mem_cons.mp hy with rfl | hy
            · exact hbgood
            · exact hfails.succeed y hy
          · intro hplain y hy hcommit
            rcases List.mem_cons.mp hy with rfl | hy
            · exact absurd (hbrequest.symm.trans hcommit) hplain.1
            · exact hfails.noCommit hplain.2 y hy hcommit
        | ok u =>
          obtain ⟨inner, hinner, hcompletes⟩ := run_ok hrun
          dsimp only at h
          cases hlast : c₂.exec rt answers (units "COMMIT") [] with
          | mk r c₃ =>
            rw [hlast] at h
            cases r with
            | ok result => cases h
            | error g =>
              obtain ⟨-, rfl⟩ := Prod.mk.inj h
              obtain ⟨x, hx, -, hfailed⟩ := exec_error hlast
              refine ⟨b :: inner, [x], ?_, ⟨?_, Nat.le_refl _, ?_⟩⟩
              · rw [hx, hinner, hb]
                simp
              · intro y hy
                rcases List.mem_cons.mp hy with rfl | hy
                · exact hbgood
                · exact hcompletes.succeed y hy
              · intro hplain y hy hcommit
                rw [List.cons_append, List.mem_cons, List.mem_append, List.mem_singleton] at hy
                rcases hy with rfl | hy | rfl
                · exact absurd (hbrequest.symm.trans hcommit) hplain.1
                · exact absurd hcommit (hcompletes.plain hplain.2 y hy)
                · exact hfailed

/-! ## What an attempt leaves behind -/

/-- After good calls and at most one that failed, only ROLLBACK and close. -/
theorem onlyRollback_of (bad : List Call) (hgood : ∀ x ∈ good, x.failed rt = false) (hbad : bad.length ≤ 1)
    (hends : ∀ y ∈ ends, y.request = ROLLBACK ∨ y.request = .close) :
    OnlyRollback rt (good ++ (bad ++ ends)) := by
  intro before x after hsplit hfailed y hy
  have hrest : ∃ front, bad ++ ends = front ++ x :: after := by
    rcases List.append_eq_append_iff.mp hsplit with ⟨front, -, hrest⟩ | ⟨front, hgoodsplit, hrest⟩
    · exact ⟨front, hrest⟩
    · cases front with
      | nil => exact ⟨[], hrest.symm⟩
      | cons z front =>
        obtain ⟨rfl, -⟩ := List.cons.inj hrest
        have hin : x ∈ good := by
          rw [hgoodsplit]
          exact List.mem_append_right _ List.mem_cons_self
        rw [hgood x hin] at hfailed
        cases hfailed
  obtain ⟨front, hrest⟩ := hrest
  have hmem : y ∈ ends := by
    match bad, hbad, hrest with
    | [], _, hrest =>
      rw [List.nil_append] at hrest
      rw [hrest]
      exact List.mem_append_right _ (List.mem_cons_of_mem _ hy)
    | [z], _, hrest =>
      cases front with
      | nil =>
        have htail : ends = after := (List.cons.inj hrest).2
        rw [htail]
        exact hy
      | cons w front =>
        have htail : ends = front ++ x :: after := (List.cons.inj hrest).2
        rw [htail]
        exact List.mem_append_right _ (List.mem_cons_of_mem _ hy)
  exact hends y hmem

/-- What every stream has kept. -/
structure Kept (rt : Runtime ν) (calls : List Call) : Prop where
  follow : BatonsFollow calls
  after : OnlyRollback rt calls

/-- No COMMIT was answered with success. -/
def NoCommit (rt : Runtime ν) (calls : List Call) : Prop :=
  ∀ x ∈ calls, x.request = COMMIT → x.failed rt = true

theorem rollback_ne_commit : ROLLBACK ≠ COMMIT := by
  intro h
  have hunits : units "ROLLBACK" = units "COMMIT" := (Request.execute.inj h).1
  exact absurd hunits (by decide)

theorem noCommit_of_ends (h : ∀ x ∈ good ++ bad, x.request = COMMIT → x.failed rt = true)
    (hends : ∀ y ∈ ends, y.request = ROLLBACK ∨ y.request = .close) :
    NoCommit rt (good ++ (bad ++ ends)) := by
  intro x hx hcommit
  rw [← List.append_assoc, List.mem_append] at hx
  rcases hx with hx | hx
  · exact h x hx hcommit
  · rcases hends x hx with hrequest | hrequest
    · exact absurd (hrequest.symm.trans hcommit) rollback_ne_commit
    · rw [hrequest] at hcommit
      cases hcommit

theorem filter_eq_nil_of_noCommit (h : NoCommit rt calls) {commits : Call → Bool}
    (hcommits : ∀ x, commits x = true ↔ x.request = COMMIT ∧ x.failed rt = false) :
    calls.filter commits = [] := by
  refine List.filter_eq_nil_iff.mpr fun x hx hx' => ?_
  obtain ⟨hrequest, hgood⟩ := (hcommits x).mp hx'
  rw [h x hx hrequest] at hgood
  cases hgood

theorem filter_flatten_eq_nil {streams : List (List Call)} (h : ∀ calls ∈ streams, NoCommit rt calls)
    {commits : Call → Bool}
    (hcommits : ∀ x, commits x = true ↔ x.request = COMMIT ∧ x.failed rt = false) :
    streams.flatten.filter commits = [] := by
  refine filter_eq_nil_of_noCommit (fun x hx => ?_) hcommits
  obtain ⟨calls, hcalls, hx⟩ := List.mem_flatten.mp hx
  exact h calls hcalls x hx

/-- One COMMIT, the last statement. -/
theorem CommitsBody.filter_length (h : CommitsBody rt beginSql body calls)
    (hbegin : Request.execute beginSql [] ≠ COMMIT) (hplain : body.Plain) {commits : Call → Bool}
    (hcommits : ∀ x, commits x = true ↔ x.request = COMMIT ∧ x.failed rt = false) :
    (calls.filter commits).length = 1 := by
  obtain ⟨b, inner, x, closing, rfl, hb, -, hcompletes, hx, hxgood, hclosing⟩ := h
  have hnot : ∀ y : Call, y.request ≠ COMMIT → commits y = false := fun y hy =>
    Bool.eq_false_iff.mpr fun hc => hy ((hcommits y).mp hc).1
  have hinner : inner.filter commits = [] := List.filter_eq_nil_iff.mpr fun y hy =>
    Bool.eq_false_iff.mp (hnot y (hcompletes.plain hplain y hy))
  have hend : closing.filter commits = [] := List.filter_eq_nil_iff.mpr fun y hy =>
    Bool.eq_false_iff.mp (hnot y (by rw [hclosing y hy]; exact Request.noConfusion))
  have hfirst : commits b = false := hnot b (by rw [hb]; exact hbegin)
  rw [List.filter_cons_of_neg (Bool.eq_false_iff.mp hfirst), List.filter_append, hinner,
    List.nil_append, List.filter_cons_of_pos ((hcommits x).mpr ⟨hx, hxgood⟩), hend]
  rfl

/-! ## The loop -/

section Loop

variable {url : JsText} {bodies : ℕ → Body ν} {retryable : JsText → Bool}
  {maxAttempts left attempt : ℕ} {p : Progress}

/-- Before an attempt: those before it have failed, and were to be retried. -/
structure Going (rt : Runtime ν) (beginSql : JsText) (bodies : ℕ → Body ν)
    (retryable : JsText → Bool) (attempt : ℕ) (p : Progress) : Prop where
  streams : p.streams.length + 1 = attempt
  conflicts : p.conflicts + 1 = attempt
  texts : p.texts.length + 1 = attempt
  errors : p.errors = p.texts.map (List.take 500)
  retried : ∀ t ∈ p.texts, retryable t = true
  kept : ∀ calls ∈ p.streams, Kept rt calls
  noCommit : Request.execute beginSql [] ≠ COMMIT → (∀ n, (bodies n).Plain) →
    ∀ calls ∈ p.streams, NoCommit rt calls

theorem going_start : Going rt beginSql bodies retryable 1 {} where
  streams := rfl
  conflicts := rfl
  texts := rfl
  errors := rfl
  retried _ ht := absurd ht List.not_mem_nil
  kept _ hcalls := absurd hcalls List.not_mem_nil
  noCommit _ _ _ hcalls := absurd hcalls List.not_mem_nil

theorem forall_mem_concat {α : Type} {P : α → Prop} {l : List α} {y : α} (hl : ∀ z ∈ l, P z) (hy : P y) :
    ∀ z ∈ l ++ [y], P z := by
  intro z hz
  rcases List.mem_append.mp hz with hz | hz
  · exact hl z hz
  · rw [List.mem_singleton.mp hz]
    exact hy

/-- No attempt is left. -/
theorem Going.exhausted (h : Going rt beginSql bodies retryable attempt p)
    (hleft : attempt = maxAttempts + 1) :
    Safe rt answers url beginSql bodies retryable maxAttempts (some ⟨false, maxAttempts, p.conflicts, p.errors⟩) p := by
  have hstreams := h.streams
  have hconflicts := h.conflicts
  have htexts := h.texts
  have herrors : p.errors.length = p.texts.length := by rw [h.errors, List.length_map]
  refine ⟨fun ho => (nomatch ho), fun o ho => ?_, fun calls hc => (h.kept calls hc).follow,
    fun calls hc => (h.kept calls hc).after, fun o ho => ?_, fun hbegin hplain commits hcommits => ⟨fun o ho hok => ?_, fun _ => ?_⟩⟩
  · cases ho
    dsimp only
    omega
  · cases ho
    refine ⟨h.errors, fun hok => Bool.noConfusion hok, fun _ => .inr ⟨h.retried, ?_, ?_, rfl⟩,
      fun t ht => h.retried t (List.mem_of_mem_dropLast ht)⟩
    · dsimp only
      omega
    · dsimp only
      omega
  · cases ho
    cases hok
  · exact filter_flatten_eq_nil (h.noCommit hbegin hplain) hcommits

/-- The attempt commits. -/
theorem Going.commits (h : Going rt beginSql bodies retryable attempt p) (hfollow : BatonsFollow calls)
    (hcalls : CommitsBody rt beginSql (bodies attempt) calls) (honly : OnlyRollback rt calls) (n : ℕ) :
    Safe rt answers url beginSql bodies retryable maxAttempts (some ⟨true, attempt, p.conflicts, p.errors⟩)
      { p with streams := p.streams ++ [calls], count := n } := by
  have hstreams := h.streams
  have hconflicts := h.conflicts
  have htexts := h.texts
  have herrors : p.errors.length = p.texts.length := by rw [h.errors, List.length_map]
  refine ⟨fun ho => (nomatch ho), fun o ho => ?_,
    forall_mem_concat (fun c hc => (h.kept c hc).follow) hfollow,
    forall_mem_concat (fun c hc => (h.kept c hc).after) honly, fun o ho => ?_,
    fun hbegin hplain commits hcommits => ⟨fun o ho _ => ⟨?_, p.streams, calls, rfl, ?_⟩, fun hnot => ?_⟩⟩
  · cases ho
    rw [List.length_append]
    exact hstreams.symm
  · cases ho
    refine ⟨h.errors, fun _ => ⟨?_, ?_⟩, fun hok => Bool.noConfusion hok,
      fun t ht => h.retried t (List.mem_of_mem_dropLast ht)⟩
    · dsimp only
      omega
    · dsimp only
      omega
  · rw [List.flatten_append, List.filter_append,
      filter_flatten_eq_nil (h.noCommit hbegin hplain) hcommits, List.nil_append, List.flatten_singleton]
    exact hcalls.filter_length hbegin (hplain attempt) hcommits
  · cases ho
    exact hcalls
  · cases hnot _ rfl

/-- `runTx` throws: the text of the error cannot be made. -/
theorem Going.throws (h : Going rt beginSql bodies retryable attempt p) (hkept : Kept rt c.calls)
    (hno : Request.execute beginSql [] ≠ COMMIT → (∀ n, (bodies n).Plain) → NoCommit rt c.calls)
    (htransact : Conn.transact rt answers { stream := openStream url, count := p.count } beginSql
      (bodies attempt) = (.error f, c)) (htext : f.text rt = none) (n : ℕ) :
    Safe rt answers url beginSql bodies retryable maxAttempts none
      { p with streams := p.streams ++ [c.calls], count := n } := by
  refine ⟨fun _ => ⟨p.streams, attempt, p.count, f, c, rfl, htransact, htext⟩,
    fun o ho => (nomatch ho), forall_mem_concat (fun c hc => (h.kept c hc).follow) hkept.follow,
    forall_mem_concat (fun c hc => (h.kept c hc).after) hkept.after, fun o ho => (nomatch ho),
    fun hbegin hplain commits hcommits => ⟨fun o ho => (nomatch ho), fun _ => ?_⟩⟩
  exact filter_flatten_eq_nil
    (forall_mem_concat (h.noCommit hbegin hplain) (hno hbegin hplain)) hcommits

/-- The attempt failed with an error that is not retried. -/
theorem Going.stops (h : Going rt beginSql bodies retryable attempt p) (hkept : Kept rt calls)
    (hno : Request.execute beginSql [] ≠ COMMIT → (∀ n, (bodies n).Plain) → NoCommit rt calls)
    {text : JsText} (htext : retryable text = false) (n : ℕ) :
    Safe rt answers url beginSql bodies retryable maxAttempts
      (some ⟨false, attempt, p.conflicts, p.errors ++ [text.take 500]⟩)
      { p with errors := p.errors ++ [text.take 500], texts := p.texts ++ [text],
               streams := p.streams ++ [calls], count := n } := by
  have hstreams := h.streams
  have hconflicts := h.conflicts
  have htexts := h.texts
  have herrors : p.errors.length = p.texts.length := by rw [h.errors, List.length_map]
  refine ⟨fun ho => (nomatch ho), fun o ho => ?_,
    forall_mem_concat (fun c hc => (h.kept c hc).follow) hkept.follow,
    forall_mem_concat (fun c hc => (h.kept c hc).after) hkept.after, fun o ho => ?_,
    fun hbegin hplain commits hcommits => ⟨fun o ho hok => ?_, fun _ => ?_⟩⟩
  · cases ho
    rw [List.length_append]
    exact hstreams.symm
  · cases ho
    refine ⟨?_, fun hok => Bool.noConfusion hok,
      fun _ => .inl ⟨p.texts, text, rfl, htext, ?_, ?_⟩, fun t ht => ?_⟩
    · dsimp only
      rw [h.errors, List.map_append, List.map_singleton]
    · dsimp only
      omega
    · dsimp only
      rw [List.length_append, List.length_singleton]
      omega
    · rw [List.dropLast_concat] at ht
      exact h.retried t ht
  · cases ho
    cases hok
  · exact filter_flatten_eq_nil
      (forall_mem_concat (h.noCommit hbegin hplain) (hno hbegin hplain)) hcommits

/-- The attempt failed, and there is another. -/
theorem Going.next (h : Going rt beginSql bodies retryable attempt p) (hkept : Kept rt calls)
    (hno : Request.execute beginSql [] ≠ COMMIT → (∀ n, (bodies n).Plain) → NoCommit rt calls)
    {text : JsText} (htext : retryable text = true) (n : ℕ) :
    Going rt beginSql bodies retryable (attempt + 1)
      { p with
        errors := p.errors ++ [text.take 500]
        texts := p.texts ++ [text]
        streams := p.streams ++ [calls]
        count := n
        conflicts := p.conflicts + 1 } where
  streams := by
    have := h.streams
    rw [List.length_append, List.length_singleton]
    omega
  conflicts := by
    have := h.conflicts
    dsimp only
    omega
  texts := by
    have := h.texts
    rw [List.length_append, List.length_singleton]
    omega
  errors := by
    dsimp only
    rw [h.errors, List.map_append, List.map_singleton]
  retried := forall_mem_concat h.retried htext
  kept := forall_mem_concat h.kept hkept
  noCommit hbegin hplain := forall_mem_concat (h.noCommit hbegin hplain) (hno hbegin hplain)

theorem runAttempts_safe (h : Going rt beginSql bodies retryable attempt p)
    (hleft : left + attempt = maxAttempts + 1) :
    Safe rt answers url beginSql bodies retryable maxAttempts
      (runAttempts rt answers url beginSql bodies retryable maxAttempts left attempt p).1
      (runAttempts rt answers url beginSql bodies retryable maxAttempts left attempt p).2 := by
  induction left generalizing attempt p with
  | zero => exact h.exhausted (by omega)
  | succ left ih =>
    unfold runAttempts
    have hbooks := transact_books rt answers beginSql (bodies attempt) (books_open url p.count)
    cases htransact : Conn.transact rt answers { stream := openStream url, count := p.count } beginSql
        (bodies attempt) with
    | mk r c =>
      rw [htransact] at hbooks
      cases r with
      | ok u =>
        dsimp only
        obtain ⟨b, inner, x, hcalls, hb, hbgood, hcompletes, hx, hxgood⟩ := transact_ok htransact
        obtain ⟨ends, hclosed, hends⟩ := close_calls rt answers c
        rw [List.nil_append] at hcalls
        have hall : (c.close rt answers).calls = b :: (inner ++ x :: ends) := by
          rw [hclosed, hcalls]
          simp
        refine h.commits hbooks.close.follow ⟨b, inner, x, ends, hall, hb, hbgood, hcompletes, hx, hxgood,
          hends⟩ ?_ _
        rw [hclosed]
        refine onlyRollback_of [] ?_ (by simp) fun y hy => .inr (hends y hy)
        rw [hcalls]
        intro y hy
        rw [List.mem_cons, List.mem_append, List.mem_singleton] at hy
        rcases hy with rfl | hy | rfl
        · exact hbgood
        · exact hcompletes.succeed y hy
        · exact hxgood
      | error f =>
        dsimp only
        obtain ⟨good, bad, hcalls, hfails⟩ := transact_error htransact
        rw [List.nil_append] at hcalls
        have hno : Request.execute beginSql [] ≠ COMMIT → (∀ n, (bodies n).Plain) →
            ∀ x ∈ good ++ bad, x.request = COMMIT → x.failed rt = true := fun hbegin hplain =>
          hfails.noCommit ⟨hbegin, hplain attempt⟩
        cases htext : f.text rt with
        | none =>
          have hend : c.calls = good ++ (bad ++ []) := by rw [hcalls, List.append_nil]
          refine h.throws ⟨hbooks.follow, ?_⟩ (fun hbegin hplain => ?_) htransact htext _
          · rw [hend]
            exact onlyRollback_of bad hfails.succeed hfails.short (by simp)
          · rw [hend]
            exact noCommit_of_ends (hno hbegin hplain) (by simp)
        | some text =>
          dsimp only
          obtain ⟨ends, hwound, hends⟩ := wind_calls rt answers c
          have hend : (c.wind rt answers).calls = good ++ (bad ++ ends) := by
            rw [hwound, hcalls, List.append_assoc]
          have hkept : Kept rt (c.wind rt answers).calls := by
            refine ⟨hbooks.wind.follow, ?_⟩
            rw [hend]
            exact onlyRollback_of bad hfails.succeed hfails.short hends
          have hnone : Request.execute beginSql [] ≠ COMMIT → (∀ n, (bodies n).Plain) →
              NoCommit rt (c.wind rt answers).calls := by
            intro hbegin hplain
            rw [hend]
            exact noCommit_of_ends (hno hbegin hplain) hends
          split
          · rename_i hretry
            exact ih (h.next hkept hnone hretry _) (by omega)
          · rename_i hretry
            exact h.stops hkept hnone (Bool.eq_false_of_not_eq_true hretry) _

end Loop

end Lemmas

/-- Whatever the server answers, whatever the body does and whatever is retried: each attempt has
its stream, the batons follow the answers, a stream that failed is wound up and nothing else, and
the counters say how it ended.  A body that sends no COMMIT of its own is committed once or never. -/
theorem runTx_safe {ν : Type} (rt : Runtime ν) (answers : ℕ → ServerAnswer) (url beginSql : JsText)
    (body : ℕ → Body ν) (retryable : JsText → Bool) (maxAttempts : ℕ) :
    Safe rt answers url beginSql body retryable maxAttempts
      (runTx rt answers url beginSql body retryable maxAttempts).1
      (runTx rt answers url beginSql body retryable maxAttempts).2 :=
  runAttempts_safe going_start rfl

/-! ## A conflict, and the retry -/

def plainRuntime : Runtime ℕ where
  syntaxError _ := []
  typeError _ := []
  text _ := none
  number _ := none
  isZero digits := digits = units "0"

/-- The second request fails, and the third ends the stream. -/
def conflictOnce : ℕ → ServerAnswer
  | 1 => .answered 200
      (units "\x7b\"baton\":\"b2\",\"results\":[\x7b\"type\":\"error\",\"error\":\x7b\"message\":\"conflict\"\x7d\x7d]\x7d")
  | 2 => .answered 200 (units "\x7b\"baton\":null,\"results\":[\x7b\"type\":\"ok\"\x7d]\x7d")
  | _ => .answered 200 (units "\x7b\"baton\":\"b1\",\"results\":[\x7b\"type\":\"ok\"\x7d]\x7d")

-- the conflict comes at COMMIT
example : (runTx plainRuntime conflictOnce (units "libsql://h") (units "BEGIN CONCURRENT")
    (fun _ => .done) (fun _ => true) 5).1 = some ⟨true, 2, 1, [units "conflict"]⟩ := by
  decide

/-- A body of one statement. -/
def bumpCounter : Body ℕ := .exec (units "UPDATE counters SET n = n + 1") [] (fun _ => .done) id

/-- The statement conflicts, and the second attempt is committed, once. -/
theorem runTx_safe_conflictOnce : ∃ p,
    runTx plainRuntime conflictOnce (units "libsql://h") (units "BEGIN CONCURRENT")
      (fun _ => bumpCounter) (fun _ => true) 5 = (some ⟨true, 2, 1, [units "conflict"]⟩, p) ∧
    p.streams.length = 2 ∧
    ∃ earlier last, p.streams = earlier ++ [last] ∧
      CommitsBody plainRuntime (units "BEGIN CONCURRENT") bumpCounter last ∧
      ∀ commits : Call → Bool,
        (∀ x, commits x = true ↔ x.request = COMMIT ∧ x.failed plainRuntime = false) →
          (p.streams.flatten.filter commits).length = 1 := by
  have hsafe := runTx_safe plainRuntime conflictOnce (units "libsql://h") (units "BEGIN CONCURRENT")
    (fun _ => bumpCounter) (fun _ => true) 5
  have hresult : (runTx plainRuntime conflictOnce (units "libsql://h") (units "BEGIN CONCURRENT")
      (fun _ => bumpCounter) (fun _ => true) 5).1 = some ⟨true, 2, 1, [units "conflict"]⟩ := by
    decide +kernel
  have hbegin : Request.execute (units "BEGIN CONCURRENT") [] ≠ COMMIT := fun h =>
    absurd (Request.execute.inj h).1 (by decide)
  have hplain : ∀ _ : ℕ, bumpCounter.Plain := fun _ =>
    ⟨fun h => absurd (Request.execute.inj h).1 (by decide), fun _ => trivial⟩
  generalize runTx plainRuntime conflictOnce (units "libsql://h") (units "BEGIN CONCURRENT")
    (fun _ => bumpCounter) (fun _ => true) 5 = run at hsafe hresult ⊢
  have honce := hsafe.committed hbegin hplain
  refine ⟨run.2, Prod.ext hresult rfl, (hsafe.ownStream _ hresult).symm, ?_⟩
  classical
  obtain ⟨-, earlier, last, hstreams, hcommits⟩ :=
    (honce (fun x => decide (x.request = COMMIT ∧ x.failed plainRuntime = false))
      fun x => decide_eq_true_iff).1 _ hresult rfl
  exact ⟨earlier, last, hstreams, hcommits, fun commits hiff => ((honce commits hiff).1 _ hresult rfl).1⟩

/-! ## A body that commits by itself -/

/-- It sends a COMMIT, and then throws. -/
def commitsThenThrows : Body ℕ :=
  .exec (units "COMMIT") [] (fun _ => .throws (.other (units "too late"))) id

def Call.isCommit (x : Call) : Bool :=
  match x.request with
  | .execute sql args => decide (sql = units "COMMIT") && args.isEmpty
  | .close => false

theorem Call.request_of_isCommit {x : Call} (h : x.isCommit = true) : x.request = COMMIT := by
  unfold Call.isCommit at h
  split at h
  · rename_i sql args hrequest
    obtain ⟨hsql, hargs⟩ := Bool.and_eq_true_iff.mp h
    rw [hrequest, of_decide_eq_true hsql, List.isEmpty_iff.mp hargs]
    rfl
  · cases h

/-- What such a body did is committed, and the outcome is not ok. -/
theorem own_commit_outlives_failure : ¬ ∀ (answers : ℕ → ServerAnswer) (url beginSql : JsText)
    (body : ℕ → Body ℕ) (retryable : JsText → Bool) (maxAttempts : ℕ) (o : TxOutcome),
    (runTx plainRuntime answers url beginSql body retryable maxAttempts).1 = some o → o.ok = false →
      ∀ x ∈ (runTx plainRuntime answers url beginSql body retryable maxAttempts).2.streams.flatten,
        x.request = COMMIT → x.failed plainRuntime = true := by
  intro hnever
  have hstreams := hnever (fun _ => conflictOnce 0) (units "libsql://h") (units "BEGIN CONCURRENT")
    (fun _ => commitsThenThrows) (fun _ => false) 5 ⟨false, 1, 0, [units "too late"]⟩ (by decide +kernel) rfl
  have hcommit : ((runTx plainRuntime (fun _ => conflictOnce 0) (units "libsql://h")
      (units "BEGIN CONCURRENT") (fun _ => commitsThenThrows) (fun _ => false) 5).2.streams.flatten.any
        fun x => x.isCommit && !x.failed plainRuntime) = true := by decide +kernel
  obtain ⟨x, hx, hgood⟩ := List.any_eq_true.mp hcommit
  obtain ⟨his, hgood⟩ := Bool.and_eq_true_iff.mp hgood
  rw [hstreams x hx (Call.request_of_isCommit his)] at hgood
  cases hgood

end SupabaseLab.SqliteEdge.Hrana
