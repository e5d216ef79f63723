/-
  EdgeResilience/TenantRoute.lean --- the worker as a proxy in front of many tenants.

  Source: `TENANT` and the tenant routing mode of `fetch` in
  experiments/edge-resilience/worker/worker.ts.

  The path segment behind `/t/` is the key into the parsed route table.  An object also
  has what it inherits, and the test for an unknown tenant takes such a property for the
  base of an origin.  A path is its list of characters; a URL has only ASCII ones.
-/
import SupabaseLab.EdgeResilience.Worker
import SupabaseLab.Library.Json
import SupabaseLab.Library.KeyMap
import SupabaseLab.Library.SearchParams

set_option autoImplicit false

namespace SupabaseLab.EdgeResilience

open Library

/-! ## URLs -/

/-- The parts of a parsed URL that the worker reads; an empty query is none. -/
structure Url where
  pathname : List Char
  query : List Char
  deriving DecidableEq

def searchText (query : List Char) : List Char := if query = [] then [] else '?' :: query

def Url.search (u : Url) : List Char := searchText u.query

def tenantPrefix : List Char := "/t/".toList

def restPrefix : List Char := "/rest/v1/".toList

/-- What follows `/t/` in a path. -/
def afterPrefix (pathname : List Char) : Option (List Char) :=
  if tenantPrefix <+: pathname then some (pathname.drop tenantPrefix.length) else none

/-- `pathname.match(/^\/t\/([^/]+)\/rest\/v1\//)?.[1]`; the group ends at the next slash. -/
def tenantOf (pathname : List Char) : Option (List Char) := do
  let rest ← afterPrefix pathname
  let tenant := rest.takeWhile (· ≠ '/')
  if tenant ≠ [] ∧ restPrefix <+: rest.dropWhile (· ≠ '/') then some tenant else none

/-- `pathname.replace(/^\/t\/[^/]+/, "")`. -/
def dropTenant (pathname : List Char) : List Char :=
  match afterPrefix pathname with
  | some rest => if rest.takeWhile (· ≠ '/') = [] then pathname else rest.dropWhile (· ≠ '/')
  | none => pathname

/-- `key.startsWith("_")`. -/
def isDrillParam (name : List Char) : Bool := name.head? = some '_'

/-- The URL without the parameters of the drills. -/
def withoutDrillParams (u : Url) : Url :=
  let params := SearchParams.ofQuery u.query
  { u with query := (params.deleteEach (params.keys.filter isDrillParam)).query }

/-! ## Requests -/

structure Inbound where
  url : Url
  method : String
  headers : Headers
  body : Option String

/-- `new Request(url, req)`. -/
structure Outbound where
  url : List Char
  method : String
  headers : Headers
  body : Option String
  deriving DecidableEq

def Inbound.to (req : Inbound) (url : List Char) : Outbound :=
  { url := url, method := req.method, headers := req.headers, body := req.body }

/-- `new Request` throws where the text is no URL, and then nothing is sent. -/
inductive Fetched where
  | invalid
  | rejected
  | responded (r : Response)

/-- What is outside the worker: the origins, and the texts of inherited properties. -/
structure Surroundings where
  fetch : Outbound → Fetched
  inherited : String → List Char

/-! ## Answers -/

abbrev RouteTable := KeyMap (List Char) (List Char)

/-- `table[tenant]`, where that is no empty text; functions and objects are truthy. -/
def baseOf (env : Surroundings) (table : RouteTable) (tenant : List Char) : Option (List Char) :=
  match table.get? tenant with
  | some base => if base = [] then none else some base
  | none =>
      if String.ofList tenant ∈ objectPrototype then some (env.inherited (String.ofList tenant))
      else none

/-- `new Response(text, { status })`. -/
def textResponse (status : Nat) (body : String) : Response :=
  ⟨status, [("content-type", "text/plain;charset=UTF-8")], body⟩

def tag (tenant : List Char) (r : Response) (originStr : List Char) : Option Response :=
  (withTag r "ROUTE" (some (String.ofList originStr))).map fun n =>
    { n with headers := n.headers.set "x-drill-tenant" (String.ofList tenant) }

def dead (tenant : List Char) : List Char := tenant ++ "->dead".toList

def unreachable (tenant : List Char) : Option Response :=
  tag tenant (textResponse 502 "\x7b\"error\":\"origin unreachable\"\x7d") (dead tenant)

/-- What the response of the origin becomes; `none` where a tag throws. -/
def answerOf (tenant : List Char) (origin : Response) : Option Response :=
  if 500 ≤ origin.status ∨ origin.status = 403 then
    tag tenant (textResponse 502 ("\x7b\"error\":\"origin failed\",\"upstream\":" ++
      toString origin.status ++ "\x7d")) (dead tenant)
  else tag tenant origin tenant

/-- The answer, and the requests that were sent. -/
abbrev Routed := Option Response × List Outbound

/-- The body of `if (tenantMatch)`. -/
def routeTenant (env : Surroundings) (table : RouteTable) (req : Inbound) (tenant : List Char) : Routed :=
  match baseOf env table tenant with
  | none => (tag tenant (textResponse 404 "\x7b\"error\":\"tenant ejected\"\x7d") "ejected".toList, [])
  | some base =>
      let originUrl := withoutDrillParams req.url
      let out := req.to (base ++ dropTenant originUrl.pathname ++ originUrl.search)
      match env.fetch out with
      | .invalid => (unreachable tenant, [])
      | .rejected => (unreachable tenant, [out])
      | .responded origin => ((answerOf tenant origin).or (unreachable tenant), [out])

/-- `fetch` in the routing mode; `none` where the worker goes on in another mode. -/
def fetchTenant (env : Surroundings) (routeTable : Option RouteTable) (req : Inbound) : Option Routed :=
  (tenantOf req.url.pathname).map (routeTenant env (routeTable.getD .empty) req)

/-! ## The tenant's origin, and no other -/

/-- The path `/t/<tenant>/rest/v1/<rest>`. -/
def tenantPath (tenant rest : List Char) : List Char := tenantPrefix ++ (tenant ++ (restPrefix ++ rest))

/-- What a call for a tenant may send, and what it must answer. -/
structure RoutesToTenant (table : RouteTable) (req : Inbound) (tenant path : List Char) (res : Routed) :
    Prop where
  once : res.2.length ≤ 1
  listed : ∀ out ∈ res.2, ∃ base query, table.get? tenant = some base ∧
    out = req.to (base ++ path ++ searchText query) ∧
    parseParams query = (parseParams req.url.query).filter fun p => !isDrillParam p.1
  ejected : table.get? tenant = none → res.2 = [] ∧ ∃ answer, res.1 = some answer ∧
    answer.status = 404 ∧ answer.headers.get "x-drill-origin" = some "ejected"
  tagged : ∃ answer, res.1 = some answer ∧
    answer.headers.get "x-drill-tenant" = some (String.ofList tenant)

section Lemmas

variable {env : Surroundings} {table : RouteTable} {req : Inbound} {tenant rest base : List Char}
  {r answer : Response} {originStr : List Char} {res : Routed}

/-! ### Paths and queries -/

theorem afterPrefix_append (rest : List Char) : afterPrefix (tenantPrefix ++ rest) = some rest := by
  unfold afterPrefix
  rw [if_pos (List.prefix_append _ _), List.drop_left]

theorem takeWhile_segment (rest : List Char) (hslash : '/' ∉ tenant) :
    (tenant ++ (restPrefix ++ rest)).takeWhile (· ≠ '/') = tenant ∧
      (tenant ++ (restPrefix ++ rest)).dropWhile (· ≠ '/') = restPrefix ++ rest := by
  have hall : ∀ c ∈ tenant, decide (c ≠ '/') = true := by
    intro c hc
    rw [decide_eq_true_eq]
    rintro rfl
    exact hslash hc
  rw [List.takeWhile_append_of_pos hall, List.dropWhile_append_of_pos hall]
  exact ⟨List.append_nil tenant, rfl⟩

theorem tenantOf_tenantPath (hne : tenant ≠ []) (hslash : '/' ∉ tenant) :
    tenantOf (tenantPath tenant rest) = some tenant := by
  obtain ⟨htake, hdrop⟩ := takeWhile_segment rest hslash
  unfold tenantOf tenantPath
  rw [afterPrefix_append]
  show (if _ then _ else _) = _
  rw [htake, hdrop, if_pos ⟨hne, List.prefix_append _ _⟩]

theorem dropTenant_tenantPath (hne : tenant ≠ []) (hslash : '/' ∉ tenant) :
    dropTenant (tenantPath tenant rest) = restPrefix ++ rest := by
  obtain ⟨htake, hdrop⟩ := takeWhile_segment rest hslash
  unfold dropTenant tenantPath
  rw [afterPrefix_append]
  dsimp only
  rw [htake, hdrop, if_neg hne]

theorem parseParams_withoutDrillParams (u : Url) : parseParams (withoutDrillParams u).query =
    (parseParams u.query).filter fun p => !isDrillParam p.1 := by
  unfold withoutDrillParams
  dsimp only
  rw [SearchParams.reads, SearchParams.pairs_deleteEach_filter]
  rfl

/-! ### Tags -/

theorem tag_headers (h : tag tenant r originStr = some answer) :
    answer.status = r.status ∧
      answer.headers.get "x-drill-tenant" = some (String.ofList tenant) ∧
      answer.headers.get "x-drill-origin" = some (String.ofList originStr) := by
  obtain ⟨n, hn, rfl⟩ := Option.map_eq_some_iff.mp h
  have htagged := tagged_of_withTag hn
  refine ⟨htagged.status, Headers.get_set_self _ _ _, ?_⟩
  rw [Headers.get_set_of_ne _ _ (by decide)]
  exact htagged.originTag _ rfl

theorem tag_of_servable (tenant originStr : List Char) (h : r.Servable) : ∃ n, tag tenant r originStr = some n := by
  obtain ⟨n, hn⟩ := withTag_of_servable "ROUTE" (some (String.ofList originStr)) h
  unfold tag
  rw [hn]
  exact ⟨_, rfl⟩

/-! ### Answers -/

theorem unreachable_answer (tenant : List Char) : ∃ n, unreachable tenant = some n ∧
    n.headers.get "x-drill-tenant" = some (String.ofList tenant) ∧ n.status = 502 := by
  obtain ⟨n, hn⟩ := tag_of_servable tenant (dead tenant)
    (r := textResponse 502 "\x7b\"error\":\"origin unreachable\"\x7d") ⟨by decide, by decide⟩
  obtain ⟨hstatus, htenant, -⟩ := tag_headers hn
  exact ⟨n, hn, htenant, hstatus⟩

theorem answerOf_tagged (h : answerOf tenant r = some answer) :
    answer.headers.get "x-drill-tenant" = some (String.ofList tenant) ∧
      (answer.status = 502 ∨ answer.headers.get "x-drill-origin" = some (String.ofList tenant)) := by
  unfold answerOf at h
  split at h
  · obtain ⟨hstatus, htenant, -⟩ := tag_headers h
    exact ⟨htenant, .inl hstatus⟩
  · obtain ⟨-, htenant, horigin⟩ := tag_headers h
    exact ⟨htenant, .inr horigin⟩

/-- With a base, the answer is a failed origin's or names the tenant as its origin. -/
theorem routeTenant_answer (req : Inbound) (h : baseOf env table tenant = some base) :
    ∃ n, (routeTenant env table req tenant).1 = some n ∧
      n.headers.get "x-drill-tenant" = some (String.ofList tenant) ∧
      (n.status = 502 ∨ n.headers.get "x-drill-origin" = some (String.ofList tenant)) := by
  obtain ⟨u, hu, htenant, hstatus⟩ := unreachable_answer tenant
  unfold routeTenant
  rw [h]
  dsimp only
  split
  · exact ⟨u, hu, htenant, .inl hstatus⟩
  · exact ⟨u, hu, htenant, .inl hstatus⟩
  · rename_i origin _
    cases hanswer : answerOf tenant origin with
    | none => exact ⟨u, hu, htenant, .inl hstatus⟩
    | some n => exact ⟨n, rfl, answerOf_tagged hanswer⟩

theorem routeTenant_sent (req : Inbound) (h : baseOf env table tenant = some base) :
    (routeTenant env table req tenant).2.Sublist
      [req.to (base ++ dropTenant req.url.pathname ++ (withoutDrillParams req.url).search)] := by
  unfold routeTenant
  rw [h]
  dsimp only
  split
  · exact List.nil_sublist _
  · exact .refl _
  · exact .refl _

theorem ejected_answer (tenant : List Char) : ∃ n,
    tag tenant (textResponse 404 "\x7b\"error\":\"tenant ejected\"\x7d") "ejected".toList = some n ∧
      n.status = 404 ∧ n.headers.get "x-drill-tenant" = some (String.ofList tenant) ∧
      n.headers.get "x-drill-origin" = some "ejected" := by
  obtain ⟨n, hn⟩ := tag_of_servable tenant "ejected".toList
    (r := textResponse 404 "\x7b\"error\":\"tenant ejected\"\x7d") ⟨by decide, by decide⟩
  exact ⟨n, hn, tag_headers hn⟩

/-! ### Routing -/

/-- A base that is found is the listed one where the tenant is listed, and otherwise is
the text of an inherited property. -/
theorem baseOf_eq_some (h : baseOf env table tenant = some base) :
    table.get? tenant = some base ∨
      (table.get? tenant = none ∧ String.ofList tenant ∈ objectPrototype) := by
  unfold baseOf at h
  split at h
  · rename_i listed hlisted
    split at h
    · cases h
    · rw [← h]
      exact .inl hlisted
  · rename_i hnone
    split at h
    · rename_i hmem
      exact .inr ⟨hnone, hmem⟩
    · cases h

theorem routesToTenant_of (h : (table.get? tenant).isSome ∨ String.ofList tenant ∉ objectPrototype)
    (hne : tenant ≠ []) (hslash : '/' ∉ tenant) (hpath : req.url.pathname = tenantPath tenant rest) :
    RoutesToTenant table req tenant (restPrefix ++ rest) (routeTenant env table req tenant) := by
  cases hbase : baseOf env table tenant with
  | none =>
    have hroute : routeTenant env table req tenant =
        (tag tenant (textResponse 404 "\x7b\"error\":\"tenant ejected\"\x7d") "ejected".toList, []) := by
      unfold routeTenant
      rw [hbase]
    obtain ⟨n, hn, hstatus, htenant, horigin⟩ := ejected_answer tenant
    rw [hroute]
    exact ⟨Nat.zero_le _, fun _ hout => absurd hout List.not_mem_nil,
      fun _ => ⟨rfl, n, hn, hstatus, horigin⟩, n, hn, htenant⟩
  | some base =>
    have hlisted : table.get? tenant = some base := by
      rcases baseOf_eq_some hbase with hlisted | ⟨hnone, hmem⟩
      · exact hlisted
      · rw [hnone] at h
        exact absurd hmem (h.resolve_left (by decide))
    obtain ⟨n, hn, htenant, -⟩ := routeTenant_answer req hbase
    have hsent := routeTenant_sent req hbase
    rw [hpath, dropTenant_tenantPath hne hslash] at hsent
    refine ⟨hsent.length_le, fun out hout => ?_, fun hnone => ?_, n, hn, htenant⟩
    · exact ⟨base, _, hlisted, List.mem_singleton.mp (hsent.mem hout), parseParams_withoutDrillParams _⟩
    · rw [hlisted] at hnone
      cases hnone

/-- An inherited property is taken for a base, and the answer is not the one of an
unknown tenant. -/
theorem not_ejected_of_inherited (hnone : table.get? tenant = none)
    (hmem : String.ofList tenant ∈ objectPrototype) {n : Response}
    (hn : (routeTenant env table req tenant).1 = some n) (hstatus : n.status = 404) :
    n.headers.get "x-drill-origin" ≠ some "ejected" := by
  have hbase : baseOf env table tenant = some (env.inherited (String.ofList tenant)) := by
    unfold baseOf
    rw [hnone]
    exact if_pos hmem
  obtain ⟨n', hn', -, hanswer⟩ := routeTenant_answer req hbase
  rw [hn] at hn'
  cases hn'
  intro hejected
  rcases hanswer with hfailed | horigin
  · rw [hstatus] at hfailed
    exact absurd hfailed (by decide)
  · rw [horigin] at hejected
    rw [Option.some.inj hejected] at hmem
    exact absurd hmem (by decide)

end Lemmas

/-! ## When a call reaches only its tenant's origin -/

theorem routesToTenant_iff (env : Surroundings) (routeTable : Option RouteTable) (req : Inbound)
    (tenant rest : List Char) (hne : tenant ≠ []) (hslash : '/' ∉ tenant)
    (hpath : req.url.pathname = tenantPath tenant rest) :
    (∃ res, fetchTenant env routeTable req = some res ∧
      RoutesToTenant (routeTable.getD .empty) req tenant (restPrefix ++ rest) res) ↔
    ((routeTable.getD .empty).get? tenant).isSome ∨ String.ofList tenant ∉ objectPrototype := by
  have hroute : fetchTenant env routeTable req =
      some (routeTenant env (routeTable.getD .empty) req tenant) := by
    unfold fetchTenant
    rw [hpath, tenantOf_tenantPath hne hslash]
    rfl
  rw [hroute]
  constructor
  · rintro ⟨res, hres, hroutes⟩
    cases hres
    by_contra hcontra
    obtain ⟨hunlisted, hinherited⟩ := not_or.mp hcontra
    have hnone := Option.not_isSome_iff_eq_none.mp hunlisted
    obtain ⟨-, n, hn, hstatus, hejected⟩ := hroutes.ejected hnone
    exact not_ejected_of_inherited hnone (not_not.mp hinherited) hn hstatus hejected
  · intro h
    exact ⟨_, rfl, routesToTenant_of h hne hslash hpath⟩

/-- A table of one tenant, whose origin answers; any other text is no URL. -/
def oneOrigin : Surroundings where
  fetch out :=
    if "https://".toList <+: out.url then .responded ⟨200, [], "[]"⟩ else .invalid
  inherited name :=
    let function := if name = "constructor" then "Object" else name
    "function ".toList ++ function.toList ++ "() \x7b [native code] \x7d".toList

def acmeOnly : RouteTable := KeyMap.empty.set "acme".toList "https://acme.example".toList

def callFor (tenant : String) : Inbound where
  url := ⟨tenantPath tenant.toList "w_probe".toList, "select=id&_w25=1".toList⟩
  method := "GET"
  headers := []
  body := none

theorem routesToTenant_iff_acme :
    ∃ res, fetchTenant oneOrigin (some acmeOnly) (callFor "acme") = some res ∧
      RoutesToTenant acmeOnly (callFor "acme") "acme".toList (restPrefix ++ "w_probe".toList) res :=
  (routesToTenant_iff oneOrigin (some acmeOnly) (callFor "acme") "acme".toList "w_probe".toList
    (by decide) (by decide) rfl).mpr (.inl (by decide))

/-- No tenant `constructor` is listed, and the answer to a call for it is a dead origin's. -/
theorem inherited_name_not_ejected :
    ¬ ∃ res, fetchTenant oneOrigin (some acmeOnly) (callFor "constructor") = some res ∧
      RoutesToTenant acmeOnly (callFor "constructor") "constructor".toList
        (restPrefix ++ "w_probe".toList) res := by
  rintro ⟨res, hres, hroutes⟩
  have hroute : fetchTenant oneOrigin (some acmeOnly) (callFor "constructor") =
      some (routeTenant oneOrigin acmeOnly (callFor "constructor") "constructor".toList) := rfl
  rw [hroute] at hres
  cases hres
  obtain ⟨-, n, hn, hstatus, hejected⟩ := hroutes.ejected (by decide)
  exact not_ejected_of_inherited (by decide) (by decide) hn hstatus hejected

end SupabaseLab.EdgeResilience
