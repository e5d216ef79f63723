/-
  KeySvc/Server.lean --- the operator-run key service.

  Source: keysvc/server.ts (`kekFor`, `authorize`, `handle`).

      POST /wrap    {tenant_id, dek}      -> {wrapped, key_id}
      POST /unwrap  {tenant_id, wrapped}  -> {dek}

  The two configuration files, the token library, the Auth server, the Data API
  and the random nonce are the world of one request (`World`).  The map of key
  sets remembers a handle on each JWKS URL and decides nothing, so it is left
  out.
-/
import SupabaseLab.Library.Aead
import SupabaseLab.Library.Base64
import SupabaseLab.Library.Except
import SupabaseLab.Library.Json
import SupabaseLab.Library.Uuid

set_option autoImplicit false

namespace SupabaseLab.KeySvc

open Library

/-! ## Configuration -/

structure TargetCfg where
  /-- Expected `iss` claim. -/
  issuer : String
  authUrl : String
  jwksUrl : String
  restUrl : String
  apikey : String
  deriving DecidableEq, Repr

structure Cfg where
  targets : List (String × TargetCfg)
  tenants : List (String × String)
  deriving DecidableEq, Repr

structure KekEntry where
  keyId : String
  kekB64 : String
  deriving DecidableEq, Repr

abbrev Keks : Type := List (String × KekEntry)

/-! ## The world of one request -/

/-- How a `fetch` ends; the body is what `json()` makes of it, or its failure. -/
inductive Fetched (α : Type) where
  | lost (message : String)
  | answered (status : Nat) (body : Except String α)

/-- What the code that is not the service's own does during one request.  A
failure is given by the message of what it throws. -/
structure World where
  /-- `load("config.json")`. -/
  config : Except String Cfg
  /-- `load("keks.json")`. -/
  keks : Except String Keks
  decodeProtectedHeader : String → Option Json
  /-- `GET {authUrl}/user`, by URL, `apikey` and bearer token. -/
  authUser : String → String → String → Fetched Json
  newUrl : String → Except String Unit
  /-- `jwtVerify`, by JWKS URL, token, issuer and audience; it gives the payload. -/
  jwtVerify : String → String → String → String → Except String Json
  /-- A GET of the Data API by URL, `apikey` and bearer token; the roles of the rows. -/
  dataApi : String → String → String → Fetched (List String)
  /-- `crypto.getRandomValues` of twelve bytes. -/
  iv : { u : Bytes // u.length = 12 }
  /-- What reading a key of a value as text throws. -/
  typeError : Json → String → String
  /-- What importing a key of a wrong length throws. -/
  dataError : String

structure Request where
  method : String
  /-- `new URL(req.url).pathname`. -/
  path : String
  authorization : Option String
  /-- `req.json()`, where that succeeds. -/
  body : Option Json

/-! ## Answers -/

structure Counters where
  wrap : Nat := 0
  unwrap : Nat := 0
  denied : Nat := 0
  deriving DecidableEq, Repr

inductive Body where
  | empty
  | health (ok : Bool) (counters : Counters)
  | failure (error message : String)
  | wrapped (wrapped keyId : String)
  | dek (dek : String)
  deriving DecidableEq, Repr

def cors : List (String × String) :=
  [("access-control-allow-origin", "*"),
    ("access-control-allow-headers", "authorization, content-type"),
    ("access-control-allow-methods", "POST, GET, OPTIONS")]

structure Response where
  status : Nat
  headers : List (String × String)
  body : Body
  deriving DecidableEq, Repr

/-- What one request leaves: the answer, the counters and, for the record only,
what was sealed. -/
structure Reply where
  response : Response
  counters : Counters
  sealed : List Sealing
  deriving DecidableEq, Repr

def json (status : Nat) (body : Body) : Response where
  status := status
  headers := ("content-type", "application/json") :: cors
  body := body

def fail (c : Counters) (status : Nat) (error message : String) : Reply where
  response := json status (.failure error message)
  counters := if status = 401 ∨ status = 403 then { c with denied := c.denied + 1 } else c
  sealed := []

/-- What a request can throw: an `HttpError`, or anything else by its message. -/
inductive Thrown where
  | http (status : Nat) (code message : String)
  | other (message : String)
  deriving DecidableEq, Repr

/-- A step outside the service's own code. -/
def external {α : Type} (x : Except String α) : Except Thrown α := x.mapError .other

/-- `String(value.key ?? "")`. -/
def textOf (w : World) (value : Json) (key : String) : Except Thrown String :=
  orThrow (value.textAt? key) (.other (w.typeError value key))

/-! ## Keys and callers -/

structure Kek where
  key : Bytes
  keyId : String
  deriving DecidableEq, Repr

/-- `crypto.subtle.importKey("raw", …, "AES-GCM", …)`. -/
def importKey (w : World) (raw : Bytes) : Except Thrown Bytes :=
  if raw.length = 16 ∨ raw.length = 24 ∨ raw.length = 32 then .ok raw
  else .error (.other w.dataError)

def kekFor (w : World) (tenant : String) : Except Thrown Kek := do
  let keks ← external w.keks
  let k ← orThrow (keks.lookup tenant) (.http 404 "unknown_tenant" "no KEK for tenant")
  let key ← importKey w (unb64 k.kekB64)
  return { key := key, keyId := k.keyId }

/-- The token of an `Authorization: Bearer …` header, or the empty text. -/
def bearerToken (authorization : Option String) : String :=
  let auth := authorization.getD ""
  if "Bearer ".toList.isPrefixOf auth.toList then String.ofList (auth.toList.drop 7) else ""

def invalidToken (message : String) : Thrown := .http 401 "invalid_token" message

/-- The subject of the token.  Symmetric tokens cannot be verified from a JWKS,
so the issuing Auth server is asked for them. -/
def verifySubject (w : World) (t : TargetCfg) (token alg : String) : Except Thrown String :=
  if alg = "HS256" then
    match w.authUser t.authUrl t.apikey token with
    | .lost message => .error (.other message)
    | .answered status body => do
        refuseIf (status ≠ 200) (invalidToken s!"auth server answered {status}")
        let user ← external body
        textOf w user "id"
  else do
    external (w.newUrl t.jwksUrl)
    let payload ←
      (w.jwtVerify t.jwksUrl token t.issuer "authenticated").mapError (invalidToken ∘ cut 120)
    orThrow (payload.textAt? "sub") (invalidToken (cut 120 (w.typeError payload "sub")))

def membershipsUrl (restUrl tenant sub : String) : String :=
  s!"{restUrl}/memberships?select=role&tenant_id=eq.{tenant}&user_id=eq.{sub}"

/-- The roles of the caller's membership rows, through the target's Data API
with the caller's own token. -/
def membershipRoles (w : World) (t : TargetCfg) (tenant sub token : String) :
    Except Thrown (List String) :=
  match w.dataApi (membershipsUrl t.restUrl tenant sub) t.apikey token with
  | .lost message => .error (.other message)
  | .answered status body => do
      refuseIf (status ≠ 200) (.http 502 "membership_check_failed" s!"data api answered {status}")
      external body

/-- The caller's subject and the token's algorithm; `roles` are the roles that
may go on, `none` for any. -/
def authorize (w : World) (req : Request) (tenant : String) (roles : Option (List String)) :
    Except Thrown (String × String) := do
  let cfg ← external w.config
  let targetName := (cfg.tenants.lookup tenant).getD ""
  refuseIf (targetName = "") (.http 404 "unknown_tenant" "tenant not in directory")
  let t ← orThrow (cfg.targets.lookup targetName)
    (.http 404 "unknown_tenant" "tenant's target not configured")
  let token := bearerToken req.authorization
  refuseIf (token = "") (invalidToken "missing bearer token")
  let alg ← orThrow ((w.decodeProtectedHeader token).bind (·.textAt? "alg"))
    (invalidToken "malformed token")
  let sub ← verifySubject w t token alg
  refuseIf (sub = "") (invalidToken "token has no subject")
  let rows ← membershipRoles w t tenant sub token
  let role ← orThrow rows.head? (.http 403 "not_member" "caller is not a member of the tenant")
  refuseIf (∃ rs ∈ roles, role ∉ rs) (.http 403 "forbidden_role" s!"role {role} may not wrap")
  return (sub, alg)

/-! ## The two calls -/

def aad (tenant : String) : Bytes := utf8 s!"ck-dek-v1|{tenant}"

/-- Two tenants never share their associated data. -/
theorem aad_injective {tenant tenant' : String} (h : aad tenant = aad tenant') :
    tenant = tenant' := by
  have hchars := congrArg String.toList (utf8_injective h)
  simp only [String.toList_append] at hchars
  exact String.toList_inj.mp (List.append_cancel_left hchars)

/-- `POST /wrap`. -/
def wrap (A : Aead) (w : World) (c : Counters) (req : Request) (tenant : String) (body : Json) :
    Except Thrown Reply := do
  let dek := unb64 (← textOf w body "dek")
  if dek.length ≠ 32 then
    return fail c 400 "bad_request" "dek must be 32 bytes, base64"
  else
    let _ ← authorize w req tenant (some ["owner", "editor"])
    let kek ← kekFor w tenant
    let ct := A.encrypt kek.key w.iv (aad tenant) dek
    return {
      response := json 200 (.wrapped (b64 (w.iv ++ ct)) kek.keyId)
      counters := { c with wrap := c.wrap + 1 }
      sealed := [⟨kek.key, w.iv, aad tenant, dek⟩] }

/-- `POST /unwrap`. -/
def unwrap (A : Aead) (w : World) (c : Counters) (req : Request) (tenant : String) (body : Json) :
    Except Thrown Reply := do
  let wrapped := unb64 (← textOf w body "wrapped")
  if wrapped.length ≠ 12 + 32 + 16 then
    return fail c 400 "bad_request" "wrapped has the wrong length"
  else
    let _ ← authorize w req tenant none
    let kek ← kekFor w tenant
    match A.decrypt kek.key (wrapped.take 12) (aad tenant) (wrapped.drop 12) with
    | none =>
        return fail c 409 "unwrap_failed"
          "wrapped key does not authenticate under this tenant's KEK"
    | some dek =>
        return {
          response := json 200 (.dek (b64 dek))
          counters := { c with unwrap := c.unwrap + 1 }
          sealed := [] }

/-- The `catch` around the two calls. -/
def caught (c : Counters) : Except Thrown Reply → Reply
  | .ok r => r
  | .error (.http status code message) => fail c status code message
  | .error (.other message) => fail c 500 "internal" (cut 120 message)

/-- `handle`.  Reading `tenant_id` happens outside the `try`, so what it throws
leaves the handler. -/
def handle (A : Aead) (w : World) (c : Counters) (req : Request) : Except Thrown Reply :=
  if req.method = "OPTIONS" then
    return { response := ⟨204, cors, .empty⟩, counters := c, sealed := [] }
  else if req.method = "GET" ∧ req.path = "/health" then
    return { response := json 200 (.health true c), counters := c, sealed := [] }
  else if req.method ≠ "POST" ∨ (req.path ≠ "/wrap" ∧ req.path ≠ "/unwrap") then
    return fail c 404 "not_found" "no such route"
  else
    match req.body with
    | none => return fail c 400 "bad_request" "body is not JSON"
    | some body => do
        let tenant ← textOf w body "tenant_id"
        if ¬ isUuid tenant then
          return fail c 400 "bad_request" "tenant_id must be a uuid"
        else if req.path = "/wrap" then
          return caught c (wrap A w c req tenant body)
        else
          return caught c (unwrap A w c req tenant body)

end SupabaseLab.KeySvc
