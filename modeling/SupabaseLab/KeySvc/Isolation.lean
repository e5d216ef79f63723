/-
  KeySvc/Isolation.lean --- who the key service answers, and with which keys.

  `Honest` is what is relied on of the code the service calls: its token
  library, the Auth servers and the Data APIs of the targets it is configured
  with, against the tables behind them (`Tables`).  `authorize_ok` and the two
  `…_ok` lemmas then say once what an answer 200 rests on, and the service's
  promises are read off them.
-/
import SupabaseLab.KeySvc.Server

set_option autoImplicit false

namespace SupabaseLab.KeySvc

open Library

/-! ## What stands behind the service -/

/-- A token of an issuer and the subject it was issued to. -/
structure Issued where
  issuer : String
  token : String
  sub : String
  deriving DecidableEq, Repr

structure MembershipRow where
  tenantId : String
  userId : String
  role : String
  deriving DecidableEq, Repr

/-- The tokens in force and, by Data API, the rows of its memberships table. -/
structure Tables where
  issued : List Issued
  memberships : String → List MembershipRow

/-- A target that the configuration of this request names. -/
def World.Configured (w : World) (t : TargetCfg) : Prop :=
  ∃ cfg name, w.config = .ok cfg ∧ cfg.targets.lookup name = some t

/-- The code outside keeps its documented behaviour.

`jwtVerify` accepts only a token of the issuer it is told to expect, whose keys
are the target's.  The Auth server of a target answers `/user` with the user its
own token was issued to.  User ids are uuids.  The Data API answers a request
with two equality filters with rows that match them. -/
structure World.Honest (w : World) (T : Tables) : Prop where
  jwtVerify_issued : ∀ t token payload sub, w.Configured t →
    w.jwtVerify t.jwksUrl token t.issuer "authenticated" = .ok payload →
    payload.textAt? "sub" = some sub → sub ≠ "" → ⟨t.issuer, token, sub⟩ ∈ T.issued
  authUser_issued : ∀ t token user sub, w.Configured t →
    w.authUser t.authUrl t.apikey token = .answered 200 (.ok user) →
    user.textAt? "id" = some sub → sub ≠ "" → ⟨t.issuer, token, sub⟩ ∈ T.issued
  sub_uuid : ∀ i ∈ T.issued, isUuid i.sub
  dataApi_filters : ∀ restUrl apikey token tenant sub roles, isUuid tenant → isUuid sub →
    w.dataApi (membershipsUrl restUrl tenant sub) apikey token = .answered 200 (.ok roles) →
    ∀ role ∈ roles, ⟨tenant, sub, role⟩ ∈ T.memberships restUrl

/-- The target a tenant lives on. -/
def World.homeTarget (w : World) (tenant : String) : Option TargetCfg :=
  match w.config with
  | .error _ => none
  | .ok cfg => (cfg.tenants.lookup tenant).bind fun name => cfg.targets.lookup name

/-- The bearer token of the request is one that the issuer of the tenant's home
target issued, and its subject has a membership row in the tenant there, with a
role in `may`. -/
def Entitled (w : World) (T : Tables) (req : Request) (tenant : String) (may : String → Prop) :
    Prop :=
  ∃ t sub role, w.homeTarget tenant = some t ∧
    ⟨t.issuer, bearerToken req.authorization, sub⟩ ∈ T.issued ∧
    ⟨tenant, sub, role⟩ ∈ T.memberships t.restUrl ∧ may role

/-! ## What each step rests on -/

section Steps

variable {w : World} {T : Tables} {req : Request} {tenant : String}

theorem external_eq_ok {α : Type} {x : Except String α} {a : α} : external x = .ok a ↔ x = .ok a :=
  mapError_eq_ok

/-- A subject comes with a token of the target's issuer. -/
theorem verifySubject_issued (hw : w.Honest T) {t : TargetCfg} (ht : w.Configured t)
    {token alg sub : String} (h : verifySubject w t token alg = .ok sub) (hsub : sub ≠ "") :
    ⟨t.issuer, token, sub⟩ ∈ T.issued := by
  unfold verifySubject at h
  split at h
  · split at h
    · cases h
    · rename_i status body hanswer
      obtain ⟨_, hstatus, h⟩ := bind_eq_ok.mp h
      obtain ⟨user, huser, h⟩ := bind_eq_ok.mp h
      have hok : status = 200 := not_not.mp (refuseIf_eq_ok.mp hstatus)
      rw [hok, external_eq_ok.mp huser] at hanswer
      exact hw.authUser_issued t token user sub ht hanswer (orThrow_eq_ok.mp h) hsub
  · obtain ⟨_, _, h⟩ := bind_eq_ok.mp h
    obtain ⟨payload, hpayload, h⟩ := bind_eq_ok.mp h
    exact hw.jwtVerify_issued t token payload sub ht (mapError_eq_ok.mp hpayload)
      (orThrow_eq_ok.mp h) hsub

/-- A role read for a caller stands in one of the caller's rows. -/
theorem membershipRoles_mem (hw : w.Honest T) {t : TargetCfg} {sub token : String}
    {rows : List String} (htenant : isUuid tenant) (hsub : isUuid sub)
    (h : membershipRoles w t tenant sub token = .ok rows) :
    ∀ role ∈ rows, ⟨tenant, sub, role⟩ ∈ T.memberships t.restUrl := by
  unfold membershipRoles at h
  split at h
  · cases h
  · rename_i status body hanswer
    obtain ⟨_, hstatus, h⟩ := bind_eq_ok.mp h
    have hok : status = 200 := not_not.mp (refuseIf_eq_ok.mp hstatus)
    rw [hok, external_eq_ok.mp h] at hanswer
    exact hw.dataApi_filters _ _ _ tenant sub rows htenant hsub hanswer

/-- Whoever is let through is entitled, in one of the roles asked for. -/
theorem authorize_ok (hw : w.Honest T) (htenant : isUuid tenant) {roles : Option (List String)}
    {caller : String × String} (h : authorize w req tenant roles = .ok caller) :
    Entitled w T req tenant fun role => ∀ rs ∈ roles, role ∈ rs := by
  unfold authorize at h
  obtain ⟨cfg, hcfg, h⟩ := bind_eq_ok.mp h
  obtain ⟨_, hname, h⟩ := bind_eq_ok.mp h
  obtain ⟨t, ht, h⟩ := bind_eq_ok.mp h
  obtain ⟨_, _, h⟩ := bind_eq_ok.mp h
  obtain ⟨alg, _, h⟩ := bind_eq_ok.mp h
  obtain ⟨sub, hsub, h⟩ := bind_eq_ok.mp h
  obtain ⟨_, hne, h⟩ := bind_eq_ok.mp h
  obtain ⟨rows, hrows, h⟩ := bind_eq_ok.mp h
  obtain ⟨role, hrole, h⟩ := bind_eq_ok.mp h
  obtain ⟨_, hmay, _⟩ := bind_eq_ok.mp h
  have hcfg := external_eq_ok.mp hcfg
  have ht := orThrow_eq_ok.mp ht
  have hissued := verifySubject_issued hw ⟨cfg, _, hcfg, ht⟩ hsub (refuseIf_eq_ok.mp hne)
  have hrow := membershipRoles_mem hw htenant (hw.sub_uuid _ hissued) hrows role
    (List.mem_of_mem_head? (orThrow_eq_ok.mp hrole))
  have hhome : w.homeTarget tenant = some t := by
    unfold World.homeTarget
    rw [hcfg]
    show (cfg.tenants.lookup tenant).bind (fun name => cfg.targets.lookup name) = some t
    cases hlookup : cfg.tenants.lookup tenant with
    | none => exact absurd (by rw [hlookup]; rfl) (refuseIf_eq_ok.mp hname)
    | some name =>
      rw [hlookup] at ht
      exact ht
  refine ⟨t, sub, role, hhome, hissued, hrow, fun rs hrs => ?_⟩
  exact not_not.mp fun hnot => refuseIf_eq_ok.mp hmay ⟨rs, hrs, hnot⟩

end Steps

/-! ## What an answer rests on -/

section Answers

variable {A : Aead} {w : World} {c : Counters} {req : Request} {tenant : String} {body : Json}
  {r : Reply}

/-- The request names `tenant`, as the service reads it. -/
def Request.Names (req : Request) (body : Json) (tenant : String) : Prop :=
  req.body = some body ∧ body.textAt? "tenant_id" = some tenant ∧ isUuid tenant

@[simp] theorem fail_status (status : Nat) (error message : String) :
    (fail c status error message).response.status = status := rfl

/-- How `/wrap` comes to answer 200. -/
structure Wrapped (A : Aead) (w : World) (req : Request) (tenant : String) (body : Json)
    (r : Reply) (dek : Bytes) (kek : Kek) : Prop where
  text : ∃ s, body.textAt? "dek" = some s ∧ unb64 s = dek
  length : dek.length = 32
  authorized : ∃ caller, authorize w req tenant (some ["owner", "editor"]) = .ok caller
  kekFor : kekFor w tenant = .ok kek
  answer : r.response.body =
    .wrapped (b64 (w.iv ++ A.encrypt kek.key w.iv (aad tenant) dek)) kek.keyId
  sealed : r.sealed = [⟨kek.key, w.iv, aad tenant, dek⟩]

/-- How `/unwrap` comes to answer 200. -/
structure Unwrapped (A : Aead) (w : World) (req : Request) (tenant : String) (body : Json)
    (r : Reply) (wrapped dek : Bytes) (kek : Kek) : Prop where
  text : ∃ s, body.textAt? "wrapped" = some s ∧ unb64 s = wrapped
  authorized : ∃ caller, authorize w req tenant none = .ok caller
  kekFor : kekFor w tenant = .ok kek
  opened : A.decrypt kek.key (wrapped.take 12) (aad tenant) (wrapped.drop 12) = some dek
  answer : r.response.body = .dek (b64 dek)

/-! ### Nothing thrown is an answer 200 -/

/-- An `HttpError` of the service carries a status of an error. -/
def Thrown.Refuses : Thrown → Prop
  | .http status _ _ => 400 ≤ status
  | .other _ => True

theorem external_refuses {α : Type} (x : Except String α) : Throws (external x) Thrown.Refuses :=
  Throws.mapError fun _ => trivial

theorem textOf_refuses (value : Json) (key : String) :
    Throws (textOf w value key) Thrown.Refuses :=
  Throws.orThrow trivial

theorem invalidToken_refuses (message : String) : (invalidToken message).Refuses := by
  show 400 ≤ 401
  omega

theorem kekFor_refuses : Throws (KeySvc.kekFor w tenant) Thrown.Refuses := by
  unfold KeySvc.kekFor
  refine Throws.bind (external_refuses _) fun keks => ?_
  refine Throws.bind (Throws.orThrow (by show 400 ≤ 404; omega)) fun k => ?_
  refine Throws.bind ?_ fun key => Throws.ok _
  unfold importKey
  split
  · exact Throws.ok _
  · exact Throws.error trivial

theorem verifySubject_refuses (t : TargetCfg) (token alg : String) :
    Throws (verifySubject w t token alg) Thrown.Refuses := by
  unfold verifySubject
  split
  · split
    · exact Throws.error trivial
    · refine Throws.bind (Throws.refuseIf (invalidToken_refuses _)) fun _ => ?_
      exact Throws.bind (external_refuses _) fun user => textOf_refuses user "id"
  · refine Throws.bind (external_refuses _) fun _ => ?_
    refine Throws.bind (Throws.mapError fun _ => invalidToken_refuses _) fun payload => ?_
    exact Throws.orThrow (invalidToken_refuses _)

theorem membershipRoles_refuses (t : TargetCfg) (sub token : String) :
    Throws (membershipRoles w t tenant sub token) Thrown.Refuses := by
  unfold membershipRoles
  split
  · exact Throws.error trivial
  · refine Throws.bind (Throws.refuseIf (by show 400 ≤ 502; omega)) fun _ => ?_
    exact external_refuses _

theorem authorize_refuses (roles : Option (List String)) :
    Throws (authorize w req tenant roles) Thrown.Refuses := by
  unfold authorize
  refine Throws.bind (external_refuses _) fun cfg => ?_
  refine Throws.bind (Throws.refuseIf (by show 400 ≤ 404; omega)) fun _ => ?_
  refine Throws.bind (Throws.orThrow (by show 400 ≤ 404; omega)) fun t => ?_
  refine Throws.bind (Throws.refuseIf (invalidToken_refuses _)) fun _ => ?_
  refine Throws.bind (Throws.orThrow (invalidToken_refuses _)) fun alg => ?_
  refine Throws.bind (verifySubject_refuses t _ alg) fun sub => ?_
  refine Throws.bind (Throws.refuseIf (invalidToken_refuses _)) fun _ => ?_
  refine Throws.bind (membershipRoles_refuses t sub _) fun rows => ?_
  refine Throws.bind (Throws.orThrow (by show 400 ≤ 403; omega)) fun role => ?_
  refine Throws.bind (Throws.refuseIf (by show 400 ≤ 403; omega)) fun _ => ?_
  exact Throws.ok _

theorem wrap_refuses : Throws (wrap A w c req tenant body) Thrown.Refuses := by
  unfold wrap
  refine Throws.bind (textOf_refuses _ _) fun s => ?_
  dsimp only
  split
  · exact Throws.ok _
  · refine Throws.bind (authorize_refuses _) fun _ => ?_
    exact Throws.bind kekFor_refuses fun kek => Throws.ok _

theorem unwrap_refuses : Throws (unwrap A w c req tenant body) Thrown.Refuses := by
  unfold unwrap
  refine Throws.bind (textOf_refuses _ _) fun s => ?_
  dsimp only
  split
  · exact Throws.ok _
  · refine Throws.bind (authorize_refuses _) fun _ => ?_
    refine Throws.bind kekFor_refuses fun kek => ?_
    split
    · exact Throws.ok _
    · exact Throws.ok _

/-- An answer 200 was returned, not thrown. -/
theorem caught_status_200 {x : Except Thrown Reply} (hx : Throws x Thrown.Refuses)
    (h : (caught c x).response.status = 200) : x = .ok (caught c x) := by
  cases x with
  | ok r => rfl
  | error e =>
    cases e with
    | http status code message =>
      have hrefuses : 400 ≤ status := hx
      have hstatus : status = 200 := h
      omega
    | other message => exact absurd h (by simp [caught])

/-! ### The two calls -/

theorem wrap_ok (h : wrap A w c req tenant body = .ok r) (hstatus : r.response.status = 200) :
    ∃ dek kek, Wrapped A w req tenant body r dek kek := by
  unfold wrap at h
  obtain ⟨s, hs, h⟩ := bind_eq_ok.mp h
  dsimp only at h
  split at h
  · cases h
    cases hstatus
  · rename_i hlength
    obtain ⟨caller, hcaller, h⟩ := bind_eq_ok.mp h
    obtain ⟨kek, hkek, h⟩ := bind_eq_ok.mp h
    cases h
    exact ⟨unb64 s, kek,
      { text := ⟨s, orThrow_eq_ok.mp hs, rfl⟩
        length := not_not.mp hlength
        authorized := ⟨caller, hcaller⟩
        kekFor := hkek
        answer := rfl
        sealed := rfl }⟩

theorem unwrap_ok (h : unwrap A w c req tenant body = .ok r) (hstatus : r.response.status = 200) :
    ∃ wrapped dek kek, Unwrapped A w req tenant body r wrapped dek kek := by
  unfold unwrap at h
  obtain ⟨s, hs, h⟩ := bind_eq_ok.mp h
  dsimp only at h
  split at h
  · cases h
    cases hstatus
  · obtain ⟨caller, hcaller, h⟩ := bind_eq_ok.mp h
    obtain ⟨kek, hkek, h⟩ := bind_eq_ok.mp h
    split at h
    · cases h
      cases hstatus
    · rename_i dek hdec
      cases h
      exact ⟨unb64 s, dek, kek,
        { text := ⟨s, orThrow_eq_ok.mp hs, rfl⟩
          authorized := ⟨caller, hcaller⟩
          kekFor := hkek
          opened := hdec
          answer := rfl }⟩

/-- An answer 200 on one of the two routes comes from the call behind it. -/
theorem handle_ok (h : handle A w c req = .ok r) (hstatus : r.response.status = 200)
    (hpath : req.path = "/wrap" ∨ req.path = "/unwrap") :
    ∃ body tenant, req.Names body tenant ∧
      if req.path = "/wrap" then wrap A w c req tenant body = .ok r
      else unwrap A w c req tenant body = .ok r := by
  have hhealth : req.path ≠ "/health" := by
    rintro heq
    rw [heq] at hpath
    exact absurd hpath (by decide)
  unfold handle at h
  split at h
  · cases h
    cases hstatus
  · rw [if_neg fun hand => hhealth hand.2] at h
    split at h
    · cases h
      cases hstatus
    · split at h
      · cases h
        cases hstatus
      · rename_i body hbody
        obtain ⟨tenant, htenant, h⟩ := bind_eq_ok.mp h
        split at h
        · cases h
          cases hstatus
        · rename_i huuid
          refine ⟨body, tenant, ⟨hbody, orThrow_eq_ok.mp htenant, not_not.mp huuid⟩, ?_⟩
          split at h
          · rename_i hwrap
            rw [if_pos hwrap]
            cases h
            exact caught_status_200 wrap_refuses hstatus
          · rename_i hunwrap
            rw [if_neg hunwrap]
            cases h
            exact caught_status_200 unwrap_refuses hstatus

theorem handle_wrap (h : handle A w c req = .ok r) (hstatus : r.response.status = 200)
    (hpath : req.path = "/wrap") :
    ∃ body tenant dek kek, req.Names body tenant ∧ Wrapped A w req tenant body r dek kek := by
  obtain ⟨body, tenant, hnames, hcall⟩ := handle_ok h hstatus (.inl hpath)
  rw [if_pos hpath] at hcall
  obtain ⟨dek, kek, hwrapped⟩ := wrap_ok hcall hstatus
  exact ⟨body, tenant, dek, kek, hnames, hwrapped⟩

theorem handle_unwrap (h : handle A w c req = .ok r) (hstatus : r.response.status = 200)
    (hpath : req.path = "/unwrap") :
    ∃ body tenant wrapped dek kek, req.Names body tenant ∧
      Unwrapped A w req tenant body r wrapped dek kek := by
  obtain ⟨body, tenant, hnames, hcall⟩ := handle_ok h hstatus (.inr hpath)
  rw [if_neg (by rw [hpath]; decide)] at hcall
  obtain ⟨wrapped, dek, kek, hunwrapped⟩ := unwrap_ok hcall hstatus
  exact ⟨body, tenant, wrapped, dek, kek, hnames, hunwrapped⟩

/-- A well-formed `/unwrap` request gets past the checks outside the call. -/
theorem handle_post_unwrap (hmethod : req.method = "POST") (hpath : req.path = "/unwrap")
    (hnames : req.Names body tenant) :
    handle A w c req = .ok (caught c (unwrap A w c req tenant body)) := by
  obtain ⟨hbody, htenant, huuid⟩ := hnames
  have htext : textOf w body "tenant_id" = .ok tenant := orThrow_eq_ok.mpr htenant
  unfold handle
  rw [hmethod, hpath, hbody, if_neg (by decide), if_neg (by decide), if_neg (by decide)]
  show (textOf w body "tenant_id" >>= _) = _
  rw [htext, ok_bind, if_neg (not_not.mpr huuid), if_neg (by decide)]
  rfl

/-- An authorised caller gets what the presented bytes open to. -/
theorem unwrap_of_opens {s : String} {wrapped dek : Bytes} {caller : String × String} {kek : Kek}
    (htext : body.textAt? "wrapped" = some s) (hwrapped : unb64 s = wrapped)
    (hlength : wrapped.length = 60) (hauth : authorize w req tenant none = .ok caller)
    (hkek : kekFor w tenant = .ok kek)
    (hdec : A.decrypt kek.key (wrapped.take 12) (aad tenant) (wrapped.drop 12) = some dek) :
    unwrap A w c req tenant body = .ok
      { response := json 200 (.dek (b64 dek))
        counters := { c with unwrap := c.unwrap + 1 }
        sealed := [] } := by
  have htextOf : textOf w body "wrapped" = .ok s := orThrow_eq_ok.mpr htext
  unfold unwrap
  rw [htextOf, ok_bind]
  dsimp only
  rw [hwrapped, if_neg (not_not.mpr hlength), hauth, ok_bind, hkek, ok_bind, hdec]
  rfl

end Answers

/-! ## Runs -/

/-- A request, the world it meets and the tables behind that world. -/
structure Call where
  world : World
  tables : Tables
  request : Request

/-- A call and how `handle` ended. -/
structure Served where
  call : Call
  outcome : Except Thrown Reply

/-- The counters after a call; a handler that threw has touched none. -/
def countersAfter (c : Counters) : Except Thrown Reply → Counters
  | .ok r => r.counters
  | .error _ => c

/-- The service, one request after another. -/
def serve (A : Aead) (c : Counters) : List Call → List Served
  | [] => []
  | call :: rest =>
      let outcome := handle A call.world c call.request
      ⟨call, outcome⟩ :: serve A (countersAfter c outcome) rest

def Served.sealed (s : Served) : List Sealing :=
  match s.outcome with
  | .ok r => r.sealed
  | .error _ => []

/-- Everything the service sealed in a run. -/
def sealings (A : Aead) (c : Counters) (run : List Call) : List Sealing :=
  (serve A c run).flatMap Served.sealed

/-- The call was answered 200 on `path`, with `answer`, and named `tenant`. -/
structure Served.Answers (s : Served) (path : String) (body : Json) (tenant : String)
    (answer : Body) : Prop where
  path : s.call.request.path = path
  names : s.call.request.Names body tenant
  returned : ∃ r, s.outcome = .ok r ∧ r.response.status = 200 ∧ r.response.body = answer

section Runs

variable {A : Aead} {c : Counters} {run : List Call} {s q : Served} {r : Reply}

/-- Every call of a run was handled, with the counters of its moment. -/
theorem outcome_of_mem_serve (hs : s ∈ serve A c run) :
    s.call ∈ run ∧ ∃ c', handle A s.call.world c' s.call.request = s.outcome := by
  induction run generalizing c with
  | nil => exact absurd hs List.not_mem_nil
  | cons call rest ih =>
    rcases List.mem_cons.mp hs with rfl | hrest
    · exact ⟨List.mem_cons_self, c, rfl⟩
    · obtain ⟨hcall, hhandled⟩ := ih hrest
      exact ⟨List.mem_cons_of_mem _ hcall, hhandled⟩

theorem mem_sealings (hs : s ∈ serve A c run) (h : s.outcome = .ok r) {x : Sealing}
    (hx : x ∈ r.sealed) : x ∈ sealings A c run := by
  refine List.mem_flatMap.mpr ⟨s, hs, ?_⟩
  unfold Served.sealed
  rw [h]
  exact hx

theorem Request.Names.unique {req : Request} {body body' : Json} {tenant tenant' : String}
    (h : req.Names body tenant) (h' : req.Names body' tenant') : body = body' ∧ tenant = tenant' := by
  obtain ⟨hbody, htenant, -⟩ := h
  obtain ⟨hbody', htenant', -⟩ := h'
  cases hbody.symm.trans hbody'
  exact ⟨rfl, Option.some.inj (htenant.symm.trans htenant')⟩

theorem served_wrap (hs : s ∈ serve A c run) (h : s.outcome = .ok r)
    (hpath : s.call.request.path = "/wrap") (hstatus : r.response.status = 200) :
    ∃ body tenant dek kek, s.call.request.Names body tenant ∧
      Wrapped A s.call.world s.call.request tenant body r dek kek := by
  obtain ⟨_, c', hhandle⟩ := outcome_of_mem_serve hs
  exact handle_wrap (hhandle.trans h) hstatus hpath

theorem served_unwrap (hs : s ∈ serve A c run) (h : s.outcome = .ok r)
    (hpath : s.call.request.path = "/unwrap") (hstatus : r.response.status = 200) :
    ∃ body tenant wrapped dek kek, s.call.request.Names body tenant ∧
      Unwrapped A s.call.world s.call.request tenant body r wrapped dek kek := by
  obtain ⟨_, c', hhandle⟩ := outcome_of_mem_serve hs
  exact handle_unwrap (hhandle.trans h) hstatus hpath

/-- What a wrapped key is: the nonce and the ciphertext of a sealing of the run,
bound to its tenant. -/
theorem sealing_of_wrapped (hs : s ∈ serve A c run) {body : Json} {tenant text keyId : String}
    (h : s.Answers "/wrap" body tenant (.wrapped text keyId)) :
    ∃ x ∈ sealings A c run, x.nonce.length = 12 ∧ x.plain.length = 32 ∧ x.aad = aad tenant ∧
      unb64 text = x.nonce ++ A.encrypt x.key x.nonce x.aad x.plain ∧
      (∃ given, body.textAt? "dek" = some given ∧ unb64 given = x.plain) ∧
      ∃ keyId, kekFor s.call.world tenant = .ok ⟨x.key, keyId⟩ := by
  obtain ⟨r, houtcome, hstatus, hanswer⟩ := h.returned
  obtain ⟨body', tenant', dek, kek, hnames, hwrapped⟩ := served_wrap hs houtcome h.path hstatus
  obtain ⟨rfl, rfl⟩ := h.names.unique hnames
  have htext := hanswer.symm.trans hwrapped.answer
  injection htext with htext _
  refine ⟨_, mem_sealings hs houtcome (hwrapped.sealed ▸ List.mem_cons_self),
    s.call.world.iv.property, hwrapped.length, rfl, ?_, hwrapped.text, kek.keyId, hwrapped.kekFor⟩
  rw [htext, unb64_b64]

/-- **The key service keeps tenants apart.**  Over every run of requests, with
the AEAD ideal for what the service sealed: a data key leaves `/unwrap` only for
a token of the tenant's own home issuer whose subject is a member there;
`/wrap` answers only an owner or an editor; a wrapped key opens, for whoever may
read the tenant, to the data key that was wrapped; and presented for another
tenant it opens to nothing. -/
theorem keyService_isolates (hideal : A.IdealOn 16 (sealings A c run))
    (hhonest : ∀ call ∈ run, call.world.Honest call.tables) :
    (∀ s ∈ serve A c run, ∀ r, s.outcome = .ok r → s.call.request.path = "/unwrap" →
      r.response.status = 200 → ∃ body tenant dek,
        s.Answers "/unwrap" body tenant (.dek (b64 dek)) ∧
        Entitled s.call.world s.call.tables s.call.request tenant fun _ => True) ∧
    (∀ s ∈ serve A c run, ∀ r, s.outcome = .ok r → s.call.request.path = "/wrap" →
      r.response.status = 200 → ∃ body tenant text keyId,
        s.Answers "/wrap" body tenant (.wrapped text keyId) ∧
        Entitled s.call.world s.call.tables s.call.request tenant
          fun role => role = "owner" ∨ role = "editor") ∧
    (∀ s ∈ serve A c run, ∀ q ∈ serve A c run, ∀ body body' tenant text text' keyId caller,
      s.Answers "/wrap" body tenant (.wrapped text keyId) →
      q.call.request.method = "POST" → q.call.request.path = "/unwrap" →
      q.call.request.Names body' tenant → body'.textAt? "wrapped" = some text' →
      unb64 text' = unb64 text → authorize q.call.world q.call.request tenant none = .ok caller →
      kekFor q.call.world tenant = kekFor s.call.world tenant →
      ∃ given dek, body.textAt? "dek" = some given ∧ unb64 given = dek ∧ dek.length = 32 ∧
        q.Answers "/unwrap" body' tenant (.dek (b64 dek))) ∧
    (∀ s ∈ serve A c run, ∀ q ∈ serve A c run, ∀ body body' tenant tenant' text text' keyId,
      s.Answers "/wrap" body tenant (.wrapped text keyId) →
      q.call.request.path = "/unwrap" → q.call.request.Names body' tenant' →
      body'.textAt? "wrapped" = some text' → unb64 text' = unb64 text → tenant' ≠ tenant →
      ∀ r, q.outcome = .ok r → r.response.status ≠ 200) := by
  refine ⟨?unwrapEntitled, ?wrapEntitled, ?roundTrip, ?bound⟩
  case unwrapEntitled =>
    intro s hs r houtcome hpath hstatus
    obtain ⟨body, tenant, wrapped, dek, kek, hnames, h⟩ := served_unwrap hs houtcome hpath hstatus
    obtain ⟨caller, hauth⟩ := h.authorized
    obtain ⟨t, sub, role, hhome, hissued, hrow, -⟩ :=
      authorize_ok (hhonest _ (outcome_of_mem_serve hs).1) hnames.2.2 hauth
    exact ⟨body, tenant, dek, ⟨hpath, hnames, r, houtcome, hstatus, h.answer⟩,
      t, sub, role, hhome, hissued, hrow, trivial⟩
  case wrapEntitled =>
    intro s hs r houtcome hpath hstatus
    obtain ⟨body, tenant, dek, kek, hnames, h⟩ := served_wrap hs houtcome hpath hstatus
    obtain ⟨caller, hauth⟩ := h.authorized
    obtain ⟨t, sub, role, hhome, hissued, hrow, hmay⟩ :=
      authorize_ok (hhonest _ (outcome_of_mem_serve hs).1) hnames.2.2 hauth
    have hrole : role ∈ ["owner", "editor"] := hmay _ rfl
    exact ⟨body, tenant, _, _, ⟨hpath, hnames, r, houtcome, hstatus, h.answer⟩,
      t, sub, role, hhome, hissued, hrow, by simpa using hrole⟩
  case roundTrip =>
    intro s hs q hq body body' tenant text text' keyId caller h hmethod hpath hnames htext' hbytes
      hauth hkek
    obtain ⟨x, hx, hnonce, hplain, haad, hwrapped, ⟨given, hgiven, hdek⟩, keyId', hkek'⟩ :=
      sealing_of_wrapped hs h
    obtain ⟨_, c', hhandle⟩ := outcome_of_mem_serve hq
    -- nonce and ciphertext are cut where `wrap` joined them
    have hlength := hideal.length_encrypt x hx
    have hcut : (x.nonce ++ A.encrypt x.key x.nonce x.aad x.plain).take 12 = x.nonce :=
      List.take_left' hnonce
    have hrest : (x.nonce ++ A.encrypt x.key x.nonce x.aad x.plain).drop 12 =
        A.encrypt x.key x.nonce x.aad x.plain := List.drop_left' hnonce
    have hopened := unwrap_of_opens (c := c') htext' (hbytes.trans hwrapped)
      (by rw [List.length_append, hnonce, hlength, hplain]) hauth (hkek.trans hkek')
      (by rw [hcut, hrest, ← haad]; exact hideal.decrypt_encrypt x hx)
    rw [handle_post_unwrap hmethod hpath hnames, hopened] at hhandle
    exact ⟨given, x.plain, hgiven, hdek, hplain, hpath, hnames, _, hhandle.symm, rfl, rfl⟩
  case bound =>
    intro s hs q hq body body' tenant tenant' text text' keyId h hpath hnames htext' hbytes hne r
      houtcome hstatus
    obtain ⟨x, hx, hnonce, -, haad, hwrapped, -⟩ := sealing_of_wrapped hs h
    obtain ⟨body'', tenant'', wrapped, dek, kek, hnames', hunwrapped⟩ :=
      served_unwrap hq houtcome hpath hstatus
    obtain ⟨rfl, rfl⟩ := hnames.unique hnames'
    obtain ⟨shown, hshown, hsame⟩ := hunwrapped.text
    cases Option.some.inj (htext'.symm.trans hshown)
    have hopened := hunwrapped.opened
    rw [← hsame, hbytes, hwrapped, List.take_left' hnonce, List.drop_left' hnonce] at hopened
    exact hne (aad_injective ((hideal.aad_eq hx hopened).trans haad))

end Runs

/-! ## Two tenants of one region -/

/-- The URL of a membership check determines the table and the row it asks for. -/
theorem membershipsUrl_injective {restUrl restUrl' tenant tenant' sub sub' : String}
    (ht : isUuid tenant) (ht' : isUuid tenant') (hs : isUuid sub) (hs' : isUuid sub')
    (h : membershipsUrl restUrl tenant sub = membershipsUrl restUrl' tenant' sub') :
    restUrl = restUrl' ∧ tenant = tenant' ∧ sub = sub' := by
  have hchars := congrArg String.toList h
  simp only [membershipsUrl, String.toList_append] at hchars
  obtain ⟨hchars, hsub⟩ := List.append_inj' hchars ((length_of_isUuid hs).trans (length_of_isUuid hs').symm)
  obtain ⟨hchars, -⟩ := List.append_inj' hchars rfl
  obtain ⟨hchars, htenant⟩ := List.append_inj' hchars ((length_of_isUuid ht).trans (length_of_isUuid ht').symm)
  obtain ⟨hrest, -⟩ := List.append_inj' hchars rfl
  exact ⟨String.toList_inj.mp hrest, String.toList_inj.mp htenant, String.toList_inj.mp hsub⟩

namespace TwoTenants

def first : String := "aaaaaaaa-aaaa-4aaa-8aaa-aaaaaaaaaaaa"
def second : String := "bbbbbbbb-bbbb-4bbb-8bbb-bbbbbbbbbbbb"
def user : String := "cccccccc-cccc-4ccc-8ccc-cccccccccccc"

def target : TargetCfg where
  issuer := "https://eu/auth/v1"
  authUrl := "https://eu/auth/v1"
  jwksUrl := "https://eu/auth/v1/.well-known/jwks.json"
  restUrl := "https://eu/rest/v1"
  apikey := "anon"

/-- One user owns both tenants. -/
def rows : List MembershipRow := [⟨first, user, "owner"⟩, ⟨second, user, "owner"⟩]

def tables : Tables where
  issued := [⟨target.issuer, "token", user⟩]
  memberships restUrl := if restUrl = target.restUrl then rows else []

def world : World where
  config := .ok
    { targets := [("eu", target)]
      tenants := [(first, "eu"), (second, "eu")] }
  keks := .ok
    [(first, ⟨"keysvc:v1:a", b64 (List.replicate 32 1)⟩),
      (second, ⟨"keysvc:v1:b", b64 (List.replicate 32 2)⟩)]
  decodeProtectedHeader _ := some (.obj [("alg", .str "ES256")])
  authUser _ _ _ := .lost "unreachable"
  newUrl _ := .ok ()
  jwtVerify _ token issuer _ :=
    if token = "token" ∧ issuer = target.issuer then .ok (.obj [("sub", .str user)])
    else .error "signature verification failed"
  dataApi url _ _ := .answered 200 <| .ok <|
    (rows.filter fun m => membershipsUrl target.restUrl m.tenantId m.userId = url).map (·.role)
  iv := ⟨List.replicate 12 9, rfl⟩
  typeError _ _ := "No default value"
  dataError := "Invalid key length"

theorem world_honest : world.Honest tables where
  jwtVerify_issued t token payload sub ht hverify hsub _ := by
    simp only [world] at hverify
    split at hverify
    · rename_i heq
      obtain ⟨rfl, hissuer⟩ := heq
      cases hverify
      rw [Json.textAt?_str (show _ = some (JsonOf.str user) from rfl)] at hsub
      cases hsub
      rw [hissuer]
      exact List.mem_cons_self
    · cases hverify
  authUser_issued t token user sub _ h := by cases h
  sub_uuid := by decide
  dataApi_filters restUrl apikey token tenant sub roles htenant hsub h role hrole := by
    have huuids : ∀ m ∈ rows, isUuid m.tenantId ∧ isUuid m.userId := by decide
    simp only [world] at h
    injection h with _ h
    injection h with h
    rw [← h] at hrole
    obtain ⟨m, hfiltered, rfl⟩ := List.mem_map.mp hrole
    obtain ⟨hrow, hurl⟩ := List.mem_filter.mp hfiltered
    obtain ⟨rfl, rfl, rfl⟩ := membershipsUrl_injective (huuids m hrow).1 htenant (huuids m hrow).2
      hsub (of_decide_eq_true hurl)
    show m ∈ if target.restUrl = target.restUrl then rows else []
    rw [if_pos rfl]
    exact hrow

def dek : Bytes := List.replicate 32 7

def sealing : Sealing := ⟨List.replicate 32 1, List.replicate 12 9, KeySvc.aad first, dek⟩

def aead : Aead := Aead.checksum.restrict [sealing]

/-- The key of the first tenant, wrapped. -/
def wrappedDek : String :=
  b64 (sealing.nonce ++ aead.encrypt sealing.key sealing.nonce sealing.aad sealing.plain)

def post (path tenant key value : String) : Call where
  world := world
  tables := tables
  request :=
    { method := "POST"
      path := path
      authorization := some "Bearer token"
      body := some (.obj [("tenant_id", .str tenant), (key, .str value)]) }

/-- Wrap for the first tenant, unwrap for it, and present it for the second. -/
def run : List Call :=
  [post "/wrap" first "dek" (b64 dek), post "/unwrap" first "wrapped" wrappedDek,
    post "/unwrap" second "wrapped" wrappedDek]

theorem sealings_run : sealings aead {} run = [sealing] := by
  decide +kernel

theorem handle_wrap_first :
    handle aead world {} (post "/wrap" first "dek" (b64 dek)).request =
      .ok ⟨json 200 (.wrapped wrappedDek "keysvc:v1:a"), { wrap := 1 }, [sealing]⟩ := by
  decide +kernel

theorem handle_unwrap_first :
    handle aead world { wrap := 1 } (post "/unwrap" first "wrapped" wrappedDek).request =
      .ok ⟨json 200 (.dek (b64 dek)), { wrap := 1, unwrap := 1 }, []⟩ := by
  decide +kernel

/-- The run, with the counters each call found. -/
theorem serve_run : serve aead {} run =
    [⟨post "/wrap" first "dek" (b64 dek),
        handle aead world {} (post "/wrap" first "dek" (b64 dek)).request⟩,
      ⟨post "/unwrap" first "wrapped" wrappedDek,
        handle aead world { wrap := 1 } (post "/unwrap" first "wrapped" wrappedDek).request⟩,
      ⟨post "/unwrap" second "wrapped" wrappedDek,
        handle aead world { wrap := 1, unwrap := 1 }
          (post "/unwrap" second "wrapped" wrappedDek).request⟩] := by
  have hwrap : countersAfter {} (handle aead world {}
      (post "/wrap" first "dek" (b64 dek)).request) = { wrap := 1 } := by
    rw [handle_wrap_first]
    rfl
  have hunwrap : countersAfter { wrap := 1 } (handle aead world { wrap := 1 }
      (post "/unwrap" first "wrapped" wrappedDek).request) = { wrap := 1, unwrap := 1 } := by
    rw [handle_unwrap_first]
    rfl
  rw [← hunwrap, ← hwrap]
  rfl

theorem authorize_first :
    authorize world (post "/unwrap" first "wrapped" wrappedDek).request first none =
      .ok (user, "ES256") := by
  decide

theorem aead_idealOn : aead.IdealOn 16 (sealings aead {} run) := by
  rw [sealings_run]
  refine Aead.restrict_idealOn Aead.checksum_lawful.toInverts fun s hs t ht _ _ => ?_
  exact (List.mem_singleton.mp hs).trans (List.mem_singleton.mp ht).symm

theorem names_post {path tenant key value : String} (huuid : isUuid tenant) :
    (post path tenant key value).request.Names
      (.obj [("tenant_id", .str tenant), (key, .str value)]) tenant :=
  ⟨rfl, Json.textAt?_str rfl, huuid⟩

end TwoTenants

open TwoTenants in
/-- The owner of both tenants gets the first one's key back, and gets nothing
for it from the second. -/
theorem keyService_isolates_twoTenants :
    Entitled world tables (post "/wrap" first "dek" (b64 dek)).request first
        (fun role => role = "owner" ∨ role = "editor") ∧
      (∃ r, handle aead world { wrap := 1 } (post "/unwrap" first "wrapped" wrappedDek).request =
        .ok r ∧ r.response.status = 200 ∧ r.response.body = .dek (b64 dek)) ∧
      ∀ r, handle aead world { wrap := 1, unwrap := 1 }
        (post "/unwrap" second "wrapped" wrappedDek).request = .ok r → r.response.status ≠ 200 := by
  obtain ⟨-, hwrap, hround, hbound⟩ := keyService_isolates aead_idealOn
    (by intro call hcall; fin_cases hcall <;> exact world_honest)
  have hfirst : isUuid first := by decide
  have hsecond : isUuid second := by decide
  have hmem₁ : ⟨post "/wrap" first "dek" (b64 dek), handle aead world {}
      (post "/wrap" first "dek" (b64 dek)).request⟩ ∈ serve aead {} run := by
    rw [serve_run]
    exact List.mem_cons_self
  have hanswers : Served.Answers ⟨post "/wrap" first "dek" (b64 dek), handle aead world {}
      (post "/wrap" first "dek" (b64 dek)).request⟩ "/wrap"
      (.obj [("tenant_id", .str first), ("dek", .str (b64 dek))]) first
      (.wrapped wrappedDek "keysvc:v1:a") :=
    ⟨rfl, names_post hfirst, _, handle_wrap_first, rfl, rfl⟩
  refine ⟨?_, ?_, ?_⟩
  · obtain ⟨body, tenant, text, keyId, h, hentitled⟩ := hwrap _ hmem₁ _ handle_wrap_first rfl rfl
    obtain ⟨-, rfl⟩ := h.names.unique hanswers.names
    exact hentitled
  · have hmem₂ : ⟨post "/unwrap" first "wrapped" wrappedDek, handle aead world { wrap := 1 }
        (post "/unwrap" first "wrapped" wrappedDek).request⟩ ∈ serve aead {} run := by
      rw [serve_run]
      exact List.mem_cons_of_mem _ List.mem_cons_self
    obtain ⟨given, key, hgiven, rfl, -, h⟩ := hround _ hmem₁ _ hmem₂ _ _ _ _ _ _ _ hanswers rfl rfl
      (names_post hfirst) (Json.textAt?_str rfl) rfl authorize_first rfl
    rw [Json.textAt?_str rfl] at hgiven
    cases hgiven
    rw [unb64_b64] at h
    exact h.returned
  · have hmem₃ : ⟨post "/unwrap" second "wrapped" wrappedDek, handle aead world
        { wrap := 1, unwrap := 1 } (post "/unwrap" second "wrapped" wrappedDek).request⟩ ∈
          serve aead {} run := by
      rw [serve_run]
      exact List.mem_cons_of_mem _ (List.mem_cons_of_mem _ List.mem_cons_self)
    exact hbound _ hmem₁ _ hmem₃ _ _ _ _ _ _ _ hanswers rfl (names_post hsecond)
      (Json.textAt?_str rfl) rfl (by decide)

end SupabaseLab.KeySvc
