/-
  ClientKeyed/Session.lean --- sessions and their single-flight refresh.

  Source: `Session` and `Ck.session` of experiments/client-keyed-objects/client/src/ctx.ts.

  JavaScript runs one stretch of code at a time, from an `await` to the next, so a
  state is what holds between two stretches and an event is one stretch: a call of
  `token()`, the next thing that happens to a grant in flight, or a caller that goes
  on after its `await`.  Events come in any order.  Every promise the code makes is
  a flight of its own, also when the code means to have one only.

  `startedMs`, `accesses` and `wire` are no variables of the source: they note what
  the clock read, which access tokens the session had, and what went over the wire.
  Bodies are read as far as the client reads them; `.catch(() => ({}))` makes a body
  that is lost or no JSON the one without fields.
-/
import SupabaseLab.ClientKeyed.Envelope
import SupabaseLab.Library.JsMap
import SupabaseLab.Library.Machine
import SupabaseLab.Library.SharedFlight

set_option autoImplicit false

namespace SupabaseLab.ClientKeyed

open Library

/-! ## One token grant -/

/-- The fields of an answer of Auth that the client reads; a body that cannot be
read is the record without any. -/
structure TokenBody where
  accessToken : Option String := none
  refreshToken : Option String := none
  /-- `Number(expires_at) * 1000`; `none` is `NaN`. -/
  expiresAtMs : Option Int := none
  userId : Option String := none
  errorCode : Option String := none
  error : Option String := none
  deriving DecidableEq, Repr

/-- What `r.json()` gives: a value with fields, or `null`, of which every read throws. -/
inductive Body where
  | fields (j : TokenBody)
  | null (typeError : String)
  deriving DecidableEq, Repr

/-- What a grant that was not refused gives. -/
structure Granted where
  accessToken : String
  refreshToken : Option String
  expiresAtMs : Option Int
  userId : String
  deriving DecidableEq, Repr

/-- Where a grant waits. -/
inductive GrantPhase where
  | fetching (attempt : Nat)
  /-- Between two attempts. -/
  | backingOff (attempt : Nat)
  /-- The status is there, the body is not. -/
  | reading (status : Nat)
  deriving DecidableEq, Repr

inductive GrantEvent where
  /-- No HTTP answer: a network error, or no answer in 30 s. -/
  | fetchFails (message : String)
  | retry
  | answers (status : Nat)
  | body (j : Body)
  deriving DecidableEq, Repr

inductive GrantStep where
  | goesOn (phase : GrantPhase)
  | returns (j : Granted)
  | throws (e : Thrown)
  deriving DecidableEq, Repr

/-- What the last lines of `Session.grant` make of an answer. -/
def grantAnswer (grant : String) (status : Nat) : Body → GrantStep
  | .null typeError => .throws (.error typeError)
  | .fields j =>
      match j.accessToken with
      | some access =>
          if status ≠ 200 ∨ access = "" then refused j
          else .returns ⟨access, j.refreshToken, j.expiresAtMs, j.userId.getD ""⟩
      | none => refused j
where
  refused (j : TokenBody) : GrantStep :=
    .throws (.ck ⟨.authError, s!"token grant {grant} answered {status}",
      [("status", .num status), ("code", .text ((j.errorCode.or j.error).getD ""))]⟩)

/-- `Session.grant`, one stretch at a time. -/
def grantStep (grant : String) : GrantPhase → GrantEvent → Option GrantStep
  | .fetching attempt, .fetchFails message =>
      if 3 ≤ attempt then some (.throws (.ck { code := .authError, message := s!"auth unreachable: {message}" }))
      else some (.goesOn (.backingOff attempt))
  | .backingOff attempt, .retry => some (.goesOn (.fetching (attempt + 1)))
  | .fetching _, .answers status => some (.goesOn (.reading status))
  | .reading status, .body j => some (grantAnswer grant status j)
  | _, _ => none

/-! ## A session -/

/-- A promise of the client. -/
inductive FlightPhase (α : Type) where
  | running (phase : GrantPhase)
  | fulfilled (value : α)
  | rejected (e : Thrown)
  deriving DecidableEq, Repr

/-- One run of the refresh inside `token()`; its promise is fulfilled with nothing
in the source, here with what the grant gave and `refreshes` after it. -/
structure Refresh where
  /-- The argument of the grant, read once. -/
  refreshToken : Option String
  startedMs : Int
  phase : FlightPhase (Granted × Nat)
  deriving DecidableEq, Repr

/-- A caller of `token()`. -/
inductive Caller where
  | waiting (flight : Nat)
  | got (token : String) (awaited : Option Nat)
  | failed (e : Thrown) (awaited : Nat)
  deriving DecidableEq, Repr

/-- One line between the session and Auth. -/
inductive Wire where
  | sent (refreshToken : Option String)
  | answered (refreshToken : Option String) (status : Nat)
  /-- The body came after the status, or nothing more; `got` when it had the tokens. -/
  | body (refreshToken : Option String) (got : Bool)
  deriving DecidableEq, Repr

structure Session where
  access : String
  refreshToken : Option String
  expMs : Option Int
  userId : String
  refreshing : Option Nat := none
  refreshes : Nat := 0
  flights : List Refresh := []
  callers : List Caller := []
  accesses : List String := [access]
  wire : List Wire := []
  deriving DecidableEq, Repr

namespace Session

/-- The constructor, on what `signIn` got. -/
def new (j : Granted) : Session where
  access := j.accessToken
  refreshToken := j.refreshToken
  expMs := j.expiresAtMs
  userId := j.userId

inductive Event where
  /-- A call of `token()`, and what `Date.now()` read in it. -/
  | token (nowMs : Int)
  | grant (i : Nat) (e : GrantEvent)
  /-- Caller `c` goes on after `await this.refreshing`. -/
  | resume (c : Nat)
  deriving DecidableEq, Repr

/-- `this.expMs - Date.now() < 60_000`; never so for `NaN`. -/
def needsRefresh (s : Session) (nowMs : Int) : Bool :=
  match s.expMs with
  | some expMs => decide (expMs - nowMs < 60000)
  | none => false

/-- `this.refreshing ??= …`, with the first fetch of the grant. -/
def startRefresh (s : Session) (nowMs : Int) : Session :=
  { s with
    refreshing := some s.flights.length
    flights := s.flights ++ [⟨s.refreshToken, nowMs, .running (.fetching 0)⟩]
    wire := s.wire ++ [.sent s.refreshToken] }

def join (s : Session) (i : Nat) : Session := { s with callers := s.callers ++ [.waiting i] }

/-- The synchronous part of `token()`. -/
def token (s : Session) (nowMs : Int) : Session :=
  if s.needsRefresh nowMs then
    match s.refreshing with
    | some i => s.join i
    | none => (s.startRefresh nowMs).join s.flights.length
  else { s with callers := s.callers ++ [.got s.access none] }

/-- What a stretch of a grant puts on the wire. -/
def wireOf (refreshToken : Option String) (got : Bool) : GrantEvent → List Wire
  | .retry => [.sent refreshToken]
  | .answers status => [.answered refreshToken status]
  | .body _ => [.body refreshToken got]
  | .fetchFails _ => []

/-- A stretch of refresh `i`; both ends run the `finally`. -/
def onRefresh (s : Session) (i : Nat) (f : Refresh) (e : GrantEvent) : GrantStep → Session
  | .goesOn phase =>
      { s with
        flights := s.flights.set i { f with phase := .running phase }
        wire := s.wire ++ wireOf f.refreshToken false e }
  | .returns j =>
      { s with
        access := j.accessToken
        refreshToken := j.refreshToken
        expMs := j.expiresAtMs
        refreshes := s.refreshes + 1
        accesses := s.accesses ++ [j.accessToken]
        refreshing := none
        flights := s.flights.set i { f with phase := .fulfilled (j, s.refreshes + 1) }
        wire := s.wire ++ wireOf f.refreshToken true e }
  | .throws err =>
      { s with
        refreshing := none
        flights := s.flights.set i { f with phase := .rejected err }
        wire := s.wire ++ wireOf f.refreshToken false e }

/-- The end of `token()` for a caller that waited for refresh `i`. -/
def resume (s : Session) (i : Nat) : FlightPhase (Granted × Nat) → Option Caller
  | .fulfilled _ => some (.got s.access (some i))
  | .rejected e => some (.failed e i)
  | .running _ => none

def step (s : Session) : Event → Option Session
  | .token nowMs => some (s.token nowMs)
  | .grant i e =>
      match s.flights[i]? with
      | some f =>
          match f.phase with
          | .running phase => (grantStep "refresh_token" phase e).map (s.onRefresh i f e)
          | _ => none
      | none => none
  | .resume c =>
      match s.callers[c]? with
      | some (.waiting i) =>
          (s.flights[i]?.bind fun f => s.resume i f.phase).map fun caller =>
            { s with callers := s.callers.set c caller }
      | _ => none

/-- A run of a session that sign-in made. -/
def run (j : Granted) (events : List Event) : Option Session := runEvents step (new j) events

/-- Auth answers 200 with an access token and a refresh token it has not seen from
this session; the body may be lost on its way. -/
def honours (s : Session) : Event → Bool
  | .grant i (.body j) =>
      match s.flights[i]?.map Refresh.phase with
      | some (.running (.reading 200)) =>
          match j with
          | .fields ⟨some access, some fresh, _, _, _, _⟩ =>
              decide (access ≠ "" ∧ .sent (some fresh) ∉ s.wire)
          | .fields ⟨none, none, none, none, none, none⟩ => true
          | _ => false
      | _ => true
  | _ => true

end Session

/-! ## The client's sessions -/

structure Credentials where
  email : String
  password : String
  deriving DecidableEq, Repr

/-- One promise of `Session.signIn`. -/
structure SignIn where
  region : String
  credentials : Credentials
  phase : FlightPhase Session
  /-- The handler given to `s.catch` ran. -/
  caught : Bool
  deriving DecidableEq, Repr

/-- What a call of `session` gave at once. -/
inductive Handed where
  | promise (region : String) (signIn : Nat)
  | threw (e : Thrown)
  deriving DecidableEq, Repr

/-- The part of `Ck` that keeps the sessions. -/
structure Sessions where
  sessions : JsMap String Nat := []
  signIns : List SignIn := []
  handed : List Handed := []
  deriving DecidableEq, Repr

namespace Sessions

inductive Event where
  /-- A call of `session` for a target of the region. -/
  | session (region : String)
  | grant (i : Nat) (e : GrantEvent)
  /-- The handler given to `s.catch` of sign-in `i` runs. -/
  | caught (i : Nat)
  deriving DecidableEq, Repr

def hand (ck : Sessions) (h : Handed) : Sessions := { ck with handed := ck.handed ++ [h] }

def startSignIn (ck : Sessions) (region : String) (c : Credentials) : Sessions :=
  { ck with
    sessions := ck.sessions.set region ck.signIns.length
    signIns := ck.signIns ++ [⟨region, c, .running (.fetching 0), false⟩] }

/-- `Ck.session`. -/
def session (creds : String → Option Credentials) (ck : Sessions) (region : String) : Sessions :=
  match ck.sessions.get? region with
  | some i => ck.hand (.promise region i)
  | none =>
      match creds region with
      | some c => (ck.startSignIn region c).hand (.promise region ck.signIns.length)
      | none =>
          ck.hand (.threw (.ck { code := .authError, message := s!"no credentials for region {region}" }))

/-- Where a stretch of `signIn` leaves its promise. -/
def signInPhase : GrantStep → FlightPhase Session
  | .goesOn phase => .running phase
  | .returns j => .fulfilled (Session.new j)
  | .throws e => .rejected e

def step (creds : String → Option Credentials) (ck : Sessions) : Event → Option Sessions
  | .session region => some (ck.session creds region)
  | .grant i e =>
      match ck.signIns[i]? with
      | some f =>
          match f.phase with
          | .running phase => (grantStep "password" phase e).map fun g =>
              { ck with signIns := ck.signIns.set i { f with phase := signInPhase g } }
          | _ => none
      | none => none
  | .caught i =>
      match ck.signIns[i]? with
      | some f =>
          match f.phase, f.caught with
          | .rejected _, false =>
              some { ck with
                sessions := ck.sessions.delete f.region
                signIns := ck.signIns.set i { f with caught := true } }
          | _, _ => none
      | none => none

def run (creds : String → Option Credentials) (events : List Event) : Option Sessions :=
  runEvents (step creds) {} events

end Sessions

end SupabaseLab.ClientKeyed
