/-
  StarterKit/FanOut.lean --- one screen request, four upstream calls, and their cache.

  Source: `cacheTtl`, `callOne` and `fanOut` of experiments/governed-starter-kit/
  supabase/functions/fanout-api/fanout.ts, `pgCache` of its index.ts, and the table
  and the functions of sql/50-fanout.sql.

  A call reads the cache, waits for its upstream answers, and may write the cache;
  each of these is an event of its own, and the events of all calls interleave.
  Times are microseconds.  How long a call took is not kept, and the text of an
  exception is as it came.
-/
import SupabaseLab.Library.JsString
import SupabaseLab.Library.Json
import SupabaseLab.Library.KeyMap
import SupabaseLab.Library.Machine
import SupabaseLab.Library.Uuid

set_option autoImplicit false

namespace SupabaseLab.StarterKit

open Library

inductive Endpoint where
  | profile
  | feed
  | inbox
  | stats
  deriving DecidableEq, Repr

/-- `ENDPOINTS`. -/
def endpoints : List Endpoint := [.profile, .feed, .inbox, .stats]

/-- `MAX_TTL_S`. -/
def maxTtlS : Nat := 3600

/-! ## Cache-Control -/

/-- The directives of a header.  A header value has Latin-1 characters only, and of
these just the capital letters become letters of a directive. -/
def directives (header : String) : List String :=
  (header.toLower.toList.splitOn ',').map fun part => jsTrim (String.ofList part)

/-- `/^max-age=(\d+)$/` -/
def maxAge? (part : String) : Option Nat :=
  let digits := part.toList.drop 8
  if part.toList.take 8 = "max-age=".toList ∧ digits ≠ [] ∧ digits.all Char.isDigit then
    some (digits.foldl (fun n c => 10 * n + (c.toNat - '0'.toNat)) 0)
  else none

def cacheTtl (header : Option String) : Nat :=
  match header with
  | none => 0
  | some header =>
      if header = "" then 0
      else if "no-store" ∈ directives header ∨ "no-cache" ∈ directives header then 0
      else
        match (directives header).findSome? maxAge? with
        | none => 0
        | some n => min n maxTtlS

/-! ## Upstream calls -/

/-- What becomes of one upstream call: an answer, with its body if that is JSON, or an
exception, after the deadline or before it. -/
inductive Upstream where
  | response (http : Nat) (parsed : Option Json) (cacheControl : Option String)
  | failed (aborted : Bool) (message : String)

inductive UpstreamStatus where
  | ok
  | error
  | timeout
  deriving DecidableEq, Repr

inductive Source where
  | cache
  | upstream
  deriving DecidableEq, Repr

structure UpstreamReport where
  status : UpstreamStatus
  source : Source
  http : Option Nat := none
  ttlS : Option Nat := none
  ageS : Option Int := none
  error : Option String := none
  deriving DecidableEq

/-- The report and the body of an upstream call. -/
def callOne (timeoutMs : Nat) : Upstream → UpstreamReport × Json
  | .response http parsed cacheControl =>
      if ¬ (200 ≤ http ∧ http ≤ 299) then
        ({ status := .error
           source := .upstream
           http := some http
           error := some ("upstream http " ++ toString http) }, .null)
      else
        match parsed with
        | none =>
            ({ status := .error
               source := .upstream
               http := some http
               error := some "upstream body is not JSON" }, .null)
        | some body =>
            ({ status := .ok
               source := .upstream
               http := some http
               ttlS := some (cacheTtl cacheControl) }, body)
  | .failed true _ =>
      ({ status := .timeout
         source := .upstream
         error := some ("no answer within " ++ toString timeoutMs ++ " ms") }, .null)
  | .failed false message =>
      ({ status := .error
         source := .upstream
         error := some message }, .null)

/-! ## The aggregate -/

structure Controls where
  fail : List Endpoint := []
  slow : List Endpoint := []
  refresh : Bool := false

structure CacheEntry where
  endpoint : Endpoint
  body : Json
  ageS : Int

structure CacheWrite where
  endpoint : Endpoint
  body : Json
  ttlS : Nat

/-- What came of reading the cache. -/
inductive CacheRead where
  | off
  | skipped
  | failed (message : String)
  | entries (entries : List CacheEntry)

def readable (controls : Controls) : List Endpoint :=
  endpoints.filter fun e => e ∉ controls.fail && e ∉ controls.slow

/-- `hits.get(endpoint)`; of two entries the later one counts. -/
def hit (controls : Controls) (read : CacheRead) (e : Endpoint) : Option CacheEntry :=
  match read with
  | .entries entries =>
      (entries.filter fun entry => entry.endpoint = e && entry.endpoint ∈ readable controls).getLast?
  | _ => none

structure Aggregate where
  isPartial : Bool
  data : Endpoint → Json
  upstreams : Endpoint → UpstreamReport

/-- The answer to one screen request, given what the cache and the upstreams gave. -/
def aggregate (timeoutMs : Nat) (controls : Controls) (read : CacheRead)
    (answers : Endpoint → Upstream) : Aggregate :=
  let upstreams := fun e =>
    match hit controls read e with
    | some entry => { status := .ok, source := .cache, ageS := some entry.ageS }
    | none => (callOne timeoutMs (answers e)).1
  { isPartial := endpoints.any fun e => (upstreams e).status ≠ .ok
    data := fun e =>
      match hit controls read e with
      | some entry => entry.body
      | none => (callOne timeoutMs (answers e)).2
    upstreams }

/-- The responses to store: of the endpoints that were called, those that may be kept. -/
def cacheWrites (timeoutMs : Nat) (controls : Controls) (read : CacheRead)
    (answers : Endpoint → Upstream) : List CacheWrite :=
  (endpoints.filter fun e => (hit controls read e).isNone).filterMap fun e =>
    let out := callOne timeoutMs (answers e)
    if out.1.status = .ok ∧ 0 < out.1.ttlS.getD 0 then
      some ⟨e, out.2, out.1.ttlS.getD 0⟩
    else none

/-! ## The cache -/

/-- A row of `private.fanout_cache`, without its key. -/
structure CacheRow where
  body : Json
  fetchedAt : Int
  expiresAt : Int

def second : Int := 1000000

/-- `public.fanout_cache_get`, as the user. -/
def fanoutCacheGet (table : KeyMap (Uuid × Endpoint) CacheRow) (uid : Uuid)
    (wanted : List Endpoint) (now : Int) : List CacheEntry :=
  table.entries.filterMap fun (key, row) =>
    if key.1 = uid ∧ key.2 ∈ wanted ∧ now < row.expiresAt then
      some ⟨key.2, row.body, (now - row.fetchedAt) / second⟩
    else none

/-- `public.fanout_cache_put`. -/
def fanoutCachePut (table : KeyMap (Uuid × Endpoint) CacheRow) (uid : Uuid)
    (writes : List CacheWrite) (now : Int) : KeyMap (Uuid × Endpoint) CacheRow :=
  writes.foldl (fun table w =>
    table.set (uid, w.endpoint) ⟨w.body, now, now + second * min w.ttlS maxTtlS⟩) table

/-! ## Calls -/

structure FanOutOptions where
  userId : Uuid
  timeoutMs : Nat
  controls : Controls
  cached : Bool := true

/-- A call that waits for its upstream answers. -/
structure FanOutCall where
  options : FanOutOptions
  readAt : Int
  read : CacheRead

/-- An answer to the app. -/
structure FanOutAnswer where
  call : FanOutCall
  aggregate : Aggregate

/-- A call that has its answer and writes the cache. -/
structure CacheWriter where
  answer : FanOutAnswer
  writes : List CacheWrite

/-- A successful upstream response, and when the call had all its answers. -/
structure UpstreamResponse where
  userId : Uuid
  endpoint : Endpoint
  body : Json
  cacheControl : Option String
  settledAt : Int

/-- The cache and the calls that are under way, with all successful upstream
responses and all answers so far. -/
structure FanOutState where
  table : KeyMap (Uuid × Endpoint) CacheRow := .empty
  clock : Int := 0
  calls : List FanOutCall := []
  writers : List CacheWriter := []
  responses : List UpstreamResponse := []
  answered : List FanOutAnswer := []

inductive FanOutEvent where
  /-- A call comes in and reads the cache. -/
  | reads (options : FanOutOptions) (now : Int) (fails : Option String)
  /-- All its upstream calls have settled. -/
  | settles (call : Nat) (now : Int) (answers : Endpoint → Upstream)
  /-- It has written the cache, or failed to. -/
  | writes (writer : Nat) (now : Int) (fails : Bool)

/-- The successful responses among the upstream calls that a call has made. -/
def successes (call : FanOutCall) (now : Int) (answers : Endpoint → Upstream) :
    List UpstreamResponse :=
  (endpoints.filter fun e => (hit call.options.controls call.read e).isNone).filterMap fun e =>
    match answers e with
    | .response http (some body) cacheControl =>
        if 200 ≤ http ∧ http ≤ 299 then some ⟨call.options.userId, e, body, cacheControl, now⟩
        else none
    | _ => none

/-- The cache read of a call. -/
def readCache (table : KeyMap (Uuid × Endpoint) CacheRow) (o : FanOutOptions) (now : Int)
    (fails : Option String) : CacheRead :=
  if o.cached = false then .off
  else if o.controls.refresh then .skipped
  else if readable o.controls = [] then .entries []
  else
    match fails with
    | some message => .failed message
    | none => .entries (fanoutCacheGet table o.userId (readable o.controls) now)

def fanOutStep (s : FanOutState) : FanOutEvent → Option FanOutState
  | .reads o now fails =>
      if s.clock ≤ now then
        some { s with
          clock := now
          calls := s.calls ++ [⟨o, now, readCache s.table o now fails⟩] }
      else none
  | .settles i now answers =>
      if s.clock ≤ now then
        (s.calls[i]?).map fun call =>
          let o := call.options
          let answer := ⟨call, aggregate o.timeoutMs o.controls call.read answers⟩
          let writes := cacheWrites o.timeoutMs o.controls call.read answers
          let s := { s with
            clock := now
            calls := s.calls.eraseIdx i
            responses := s.responses ++ successes call now answers }
          if o.cached = true ∧ writes ≠ [] then
            { s with writers := s.writers ++ [⟨answer, writes⟩] }
          else { s with answered := s.answered ++ [answer] }
      else none
  | .writes i now fails =>
      if s.clock ≤ now then
        (s.writers[i]?).map fun w =>
          { s with
            clock := now
            writers := s.writers.eraseIdx i
            table :=
              if fails then s.table
              else fanoutCachePut s.table w.answer.call.options.userId w.writes now
            answered := s.answered ++ [w.answer] }
      else none

/-! ## What the cache serves -/

/-- The header lets a response be kept for `n` seconds. -/
def Allows (header : Option String) (n : Nat) : Prop :=
  0 < n ∧ ∃ h, header = some h ∧ "no-store" ∉ directives h ∧ "no-cache" ∉ directives h ∧
    (directives h).findSome? maxAge? = some n

/-- The row holds a successful response of its user and endpoint, for as long as the
response allows. -/
def Kept (responses : List UpstreamResponse) (uid : Uuid) (e : Endpoint) (row : CacheRow) : Prop :=
  ∃ r ∈ responses, r.userId = uid ∧ r.endpoint = e ∧ r.body = row.body ∧
    r.settledAt ≤ row.fetchedAt ∧
      ∃ n, Allows r.cacheControl n ∧ row.expiresAt = row.fetchedAt + second * min n maxTtlS

/-- The body is that of a successful response of the user and the endpoint, stored
before `readAt` and less long ago than the response allows. -/
def Fresh (responses : List UpstreamResponse) (uid : Uuid) (e : Endpoint) (body : Json)
    (readAt : Int) : Prop :=
  ∃ r ∈ responses, r.userId = uid ∧ r.endpoint = e ∧ r.body = body ∧
    ∃ storedAt n, Allows r.cacheControl n ∧ r.settledAt ≤ storedAt ∧ storedAt ≤ readAt ∧
      readAt - storedAt < second * min n maxTtlS

structure SoundAnswer (responses : List UpstreamResponse) (a : FanOutAnswer) : Prop where
  cached : ∀ e, (a.aggregate.upstreams e).source = .cache →
    Fresh responses a.call.options.userId e (a.aggregate.data e) a.call.readAt
  failed : ∀ e, (a.aggregate.upstreams e).status ≠ .ok → a.aggregate.data e = .null
  isPartial : a.aggregate.isPartial = true ↔ ∃ e, (a.aggregate.upstreams e).status ≠ .ok

/-- What a call has from the cache is fresh. -/
def Served (responses : List UpstreamResponse) (call : FanOutCall) : Prop :=
  ∀ e entry, hit call.options.controls call.read e = some entry →
    Fresh responses call.options.userId e entry.body call.readAt

/-- What is to be stored is a successful response that may be kept. -/
def Storable (responses : List UpstreamResponse) (clock : Int) (uid : Uuid) (w : CacheWrite) :
    Prop :=
  ∃ r ∈ responses, r.userId = uid ∧ r.endpoint = w.endpoint ∧ r.body = w.body ∧
    r.settledAt ≤ clock ∧ ∃ n, Allows r.cacheControl n ∧ w.ttlS = min n maxTtlS

structure FanOutInv (s : FanOutState) : Prop where
  rows : ∀ uid e row, s.table.get? (uid, e) = some row →
    row.fetchedAt ≤ s.clock ∧ Kept s.responses uid e row
  calls : ∀ c ∈ s.calls, Served s.responses c
  writers : ∀ w ∈ s.writers, SoundAnswer s.responses w.answer ∧
    ∀ x ∈ w.writes, Storable s.responses s.clock w.answer.call.options.userId x
  answered : ∀ a ∈ s.answered, SoundAnswer s.responses a

section FanOut

variable {s s' : FanOutState} {responses responses' : List UpstreamResponse} {uid : Uuid}
  {e : Endpoint} {call : FanOutCall} {now clock : Int} {answers : Endpoint → Upstream}
  {controls : Controls} {read : CacheRead} {timeoutMs : Nat}

theorem cacheTtl_pos {header : Option String} (h : 0 < cacheTtl header) :
    ∃ n, Allows header n ∧ cacheTtl header = min n maxTtlS := by
  unfold cacheTtl at h ⊢
  cases header with
  | none => exact absurd h (Nat.lt_irrefl 0)
  | some header =>
    dsimp only at h ⊢
    by_cases hempty : header = ""
    · rw [if_pos hempty] at h
      exact absurd h (Nat.lt_irrefl 0)
    · rw [if_neg hempty] at h ⊢
      by_cases hno : "no-store" ∈ directives header ∨ "no-cache" ∈ directives header
      · rw [if_pos hno] at h
        exact absurd h (Nat.lt_irrefl 0)
      · rw [if_neg hno] at h ⊢
        cases hage : (directives header).findSome? maxAge? with
        | none =>
          rw [hage] at h
          exact absurd h (Nat.lt_irrefl 0)
        | some n =>
          rw [hage] at h
          obtain ⟨hstore, hcache⟩ := not_or.mp hno
          exact ⟨n, ⟨lt_of_lt_of_le h (Nat.min_le_left _ _), header, rfl, hstore, hcache, hage⟩, rfl⟩

/-- A call that is ok was answered with a body, and one that is not gives no data. -/
theorem callOne_spec (answer : Upstream) :
    ((callOne timeoutMs answer).1.source = .upstream) ∧
      ((callOne timeoutMs answer).1.status ≠ .ok → (callOne timeoutMs answer).2 = .null) ∧
      ((callOne timeoutMs answer).1.status = .ok →
        ∃ http body cacheControl, answer = .response http (some body) cacheControl ∧
          (200 ≤ http ∧ http ≤ 299) ∧ (callOne timeoutMs answer).2 = body ∧
            (callOne timeoutMs answer).1.ttlS = some (cacheTtl cacheControl)) := by
  cases answer with
  | failed aborted message =>
    cases aborted with
    | true => exact ⟨rfl, fun _ => rfl, fun h => UpstreamStatus.noConfusion h⟩
    | false => exact ⟨rfl, fun _ => rfl, fun h => UpstreamStatus.noConfusion h⟩
  | response http parsed cacheControl =>
    unfold callOne
    dsimp only
    by_cases hhttp : 200 ≤ http ∧ http ≤ 299
    · rw [if_neg (not_not.mpr hhttp)]
      cases parsed with
      | none => exact ⟨rfl, fun _ => rfl, fun h => UpstreamStatus.noConfusion h⟩
      | some body =>
        exact ⟨rfl, fun h => absurd rfl h, fun _ => ⟨http, body, cacheControl, rfl, hhttp, rfl, rfl⟩⟩
    · rw [if_pos hhttp]
      exact ⟨rfl, fun _ => rfl, fun h => UpstreamStatus.noConfusion h⟩

theorem cacheWrites_storable {w : CacheWrite} (hclock : now ≤ clock)
    (hw : w ∈ cacheWrites timeoutMs call.options.controls call.read answers)
    (hsub : successes call now answers ⊆ responses) :
    Storable responses clock call.options.userId w := by
  obtain ⟨e, he, hw⟩ := List.mem_filterMap.mp hw
  dsimp only at hw
  split at hw
  · rename_i hkeep
    obtain ⟨-, -, hok⟩ := @callOne_spec timeoutMs (answers e)
    obtain ⟨http, body, cacheControl, hanswer, hhttp, hbody, httl⟩ := hok hkeep.1
    cases hw
    have hpos := hkeep.2
    rw [httl, Option.getD_some] at hpos
    obtain ⟨n, hallows, hn⟩ := cacheTtl_pos hpos
    refine ⟨⟨call.options.userId, e, body, cacheControl, now⟩, hsub ?_, rfl, rfl, hbody.symm, hclock,
      n, hallows, ?_⟩
    · refine List.mem_filterMap.mpr ⟨e, he, ?_⟩
      rw [hanswer]
      exact if_pos hhttp
    · rw [httl, Option.getD_some]
      exact hn
  · cases hw

theorem mem_endpoints (e : Endpoint) : e ∈ endpoints := by
  cases e with
  | profile => decide
  | feed => decide
  | inbox => decide
  | stats => decide

theorem aggregate_sound (h : Served responses call) :
    SoundAnswer responses
      ⟨call, aggregate timeoutMs call.options.controls call.read answers⟩ := by
  refine ⟨fun e hsource => ?_, fun e hstatus => ?_, ?_⟩
  · unfold aggregate at hsource ⊢
    dsimp only at hsource ⊢
    cases hhit : hit call.options.controls call.read e with
    | none =>
      rw [hhit] at hsource
      rw [show (callOne timeoutMs (answers e)).1.source = .upstream from (callOne_spec _).1] at hsource
      cases hsource
    | some entry => exact h e entry hhit
  · unfold aggregate at hstatus ⊢
    dsimp only at hstatus ⊢
    cases hhit : hit call.options.controls call.read e with
    | none =>
      rw [hhit] at hstatus
      exact (callOne_spec _).2.1 hstatus
    | some entry =>
      rw [hhit] at hstatus
      exact absurd rfl hstatus
  · unfold aggregate
    dsimp only
    rw [List.any_eq_true]
    refine ⟨fun ⟨e, _, he⟩ => ⟨e, of_decide_eq_true he⟩,
      fun ⟨e, he⟩ => ⟨e, mem_endpoints e, decide_eq_true he⟩⟩

/-! ### More responses, a later clock -/

theorem Fresh.mono {body : Json} {readAt : Int} (h : Fresh responses uid e body readAt)
    (hsub : responses ⊆ responses') : Fresh responses' uid e body readAt := by
  obtain ⟨r, hr, hrest⟩ := h
  exact ⟨r, hsub hr, hrest⟩

theorem SoundAnswer.mono {a : FanOutAnswer} (h : SoundAnswer responses a)
    (hsub : responses ⊆ responses') : SoundAnswer responses' a :=
  ⟨fun e he => (h.cached e he).mono hsub, h.failed, h.isPartial⟩

theorem Storable.mono {w : CacheWrite} {clock' : Int} (h : Storable responses clock uid w)
    (hsub : responses ⊆ responses') (hclock : clock ≤ clock') :
    Storable responses' clock' uid w := by
  obtain ⟨r, hr, huser, hendpoint, hbody, hat, hrest⟩ := h
  exact ⟨r, hsub hr, huser, hendpoint, hbody, hat.trans hclock, hrest⟩

theorem FanOutInv.mono (h : FanOutInv s) (hsub : s.responses ⊆ responses') (hnow : s.clock ≤ now) :
    FanOutInv { s with clock := now, responses := responses' } := by
  refine ⟨fun uid e row hrow => ?_, fun c hc e entry hhit => (h.calls c hc e entry hhit).mono hsub,
    fun w hw => ?_, fun a ha => (h.answered a ha).mono hsub⟩
  · obtain ⟨hclock, r, hr, hrest⟩ := h.rows uid e row hrow
    exact ⟨hclock.trans hnow, r, hsub hr, hrest⟩
  · obtain ⟨hanswer, hwrites⟩ := h.writers w hw
    exact ⟨hanswer.mono hsub, fun x hx => (hwrites x hx).mono hsub hnow⟩

/-! ### One step -/

/-- A read serves rows that have not expired. -/
theorem readCache_served (h : FanOutInv s) {o : FanOutOptions} {fails : Option String}
    (hnow : s.clock ≤ now) : Served s.responses ⟨o, now, readCache s.table o now fails⟩ := by
  intro e entry hhit
  unfold hit at hhit
  split at hhit
  · rename_i entries hread
    obtain ⟨hmem, hkey⟩ := List.mem_filter.mp (List.mem_of_getLast? hhit)
    rw [Bool.and_eq_true, decide_eq_true_eq, decide_eq_true_eq] at hkey
    have hread : readCache s.table o now fails = .entries entries := hread
    have hentries : entry ∈ fanoutCacheGet s.table o.userId (readable o.controls) now := by
      unfold readCache at hread
      split at hread
      · cases hread
      · split at hread
        · cases hread
        · split at hread
          · cases hread
            cases hmem
          · split at hread
            · cases hread
            · cases hread
              exact hmem
    obtain ⟨⟨key, row⟩, hrow, hentry⟩ := List.mem_filterMap.mp hentries
    dsimp only at hentry
    split at hentry
    · rename_i hlive
      cases hentry
      obtain ⟨huser, -, hexpires⟩ := hlive
      have hget : s.table.get? (key.1, key.2) = some row := KeyMap.mem_entries.mp hrow
      obtain ⟨hclock, r, hr, hruser, hrendpoint, hbody, hsettled, n, hallows, hends⟩ :=
        h.rows _ _ _ hget
      refine ⟨r, hr, hruser.trans huser, hrendpoint.trans hkey.1, hbody, row.fetchedAt, n, hallows,
        hsettled, hclock.trans hnow, ?_⟩
      dsimp only
      omega
    · cases hentry
  · cases hhit

theorem fanoutCachePut_rows {table : KeyMap (Uuid × Endpoint) CacheRow} {writes : List CacheWrite}
    (h : ∀ uid e row, table.get? (uid, e) = some row →
      row.fetchedAt ≤ now ∧ Kept responses uid e row)
    (hwrites : ∀ w ∈ writes, Storable responses now uid w) :
    ∀ uid' e row, (fanoutCachePut table uid writes now).get? (uid', e) = some row →
      row.fetchedAt ≤ now ∧ Kept responses uid' e row := by
  unfold fanoutCachePut
  induction writes generalizing table with
  | nil => exact h
  | cons w rest ih =>
    rw [List.foldl_cons]
    refine ih (fun uid' e row hget => ?_) fun x hx => hwrites x (List.mem_cons_of_mem _ hx)
    rw [KeyMap.get?_set] at hget
    split at hget
    · rename_i hkey
      obtain ⟨rfl, rfl⟩ := Prod.mk.inj hkey
      cases hget
      obtain ⟨r, hr, huser, hendpoint, hbody, hsettled, n, hallows, httl⟩ :=
        hwrites w List.mem_cons_self
      refine ⟨le_refl _, r, hr, huser, hendpoint, hbody, hsettled, n, hallows, ?_⟩
      dsimp only
      rw [httl, Nat.min_assoc, Nat.min_self]
    · exact h uid' e row hget

theorem fanOutStep_inv {event : FanOutEvent} (h : FanOutInv s)
    (hstep : fanOutStep s event = some s') : FanOutInv s' := by
  cases event with
  | reads o now fails =>
    unfold fanOutStep at hstep
    dsimp only at hstep
    split at hstep
    · rename_i hnow
      cases hstep
      have hlater := h.mono (List.Subset.refl _) hnow
      refine ⟨hlater.rows, fun c hc => ?_, hlater.writers, hlater.answered⟩
      obtain hc | hc := List.mem_append.mp hc
      · exact hlater.calls c hc
      · rw [List.mem_singleton.mp hc]
        exact readCache_served h hnow
    · cases hstep
  | settles i now answers =>
    unfold fanOutStep at hstep
    dsimp only at hstep
    split at hstep
    · rename_i hnow
      obtain ⟨call, hcall, hstep⟩ := Option.map_eq_some_iff.mp hstep
      have hmem := List.mem_of_getElem? hcall
      have hsub : s.responses ⊆ s.responses ++ successes call now answers :=
        List.subset_append_left _ _
      have hlater := h.mono hsub hnow
      have hserved : Served (s.responses ++ successes call now answers) call := hlater.calls call hmem
      have hanswer := @aggregate_sound (s.responses ++ successes call now answers) call answers
        call.options.timeoutMs hserved
      have hcalls : ∀ c ∈ s.calls.eraseIdx i, Served (s.responses ++ successes call now answers) c :=
        fun c hc => hlater.calls c (List.mem_of_mem_eraseIdx hc)
      split at hstep
      · subst hstep
        refine ⟨hlater.rows, hcalls, fun w hw => ?_, hlater.answered⟩
        obtain hw | hw := List.mem_append.mp hw
        · exact hlater.writers w hw
        · rw [List.mem_singleton.mp hw]
          refine ⟨hanswer, fun x hx => ?_⟩
          exact cacheWrites_storable (le_refl _) hx (List.subset_append_right _ _)
      · subst hstep
        refine ⟨hlater.rows, hcalls, hlater.writers, fun a ha => ?_⟩
        obtain ha | ha := List.mem_append.mp ha
        · exact hlater.answered a ha
        · rw [List.mem_singleton.mp ha]
          exact hanswer
    · cases hstep
  | writes i now fails =>
    unfold fanOutStep at hstep
    dsimp only at hstep
    split at hstep
    · rename_i hnow
      obtain ⟨w, hw, hstep⟩ := Option.map_eq_some_iff.mp hstep
      subst hstep
      have hmem := List.mem_of_getElem? hw
      have hlater := h.mono (List.Subset.refl _) hnow
      obtain ⟨hanswer, hwrites⟩ := hlater.writers w hmem
      refine ⟨?_, hlater.calls, fun x hx => hlater.writers x (List.mem_of_mem_eraseIdx hx),
        fun a ha => ?_⟩
      · cases fails with
        | true => exact hlater.rows
        | false => exact fanoutCachePut_rows hlater.rows hwrites
      · obtain ha | ha := List.mem_append.mp ha
        · exact hlater.answered a ha
        · rw [List.mem_singleton.mp ha]
          exact hanswer
    · cases hstep

theorem fanOutInv_start : FanOutInv {} := by
  refine ⟨fun uid e row hrow => ?_, fun c hc => absurd hc List.not_mem_nil,
    fun w hw => absurd hw List.not_mem_nil, fun a ha => absurd ha List.not_mem_nil⟩
  cases hrow

/-- Whatever the interleaving, the cache holds and serves what it may, an answer is
partial as its endpoints say, and a cache that fails changes no answer. -/
theorem fanOut_sound :
    (∀ es s, runEvents fanOutStep {} es = some s →
      (∀ uid e row, s.table.get? (uid, e) = some row → Kept s.responses uid e row) ∧
        ∀ a ∈ s.answered, SoundAnswer s.responses a) ∧
    (∀ timeoutMs controls message answers,
      aggregate timeoutMs controls (.failed message) answers =
        aggregate timeoutMs controls .off answers) ∧
    ∀ s i now failed stored, fanOutStep s (.writes i now true) = some failed →
      fanOutStep s (.writes i now false) = some stored → failed.answered = stored.answered := by
  refine ⟨fun es s hrun => ?_, fun _ _ _ _ => rfl, fun s i now failed stored hfailed hstored => ?_⟩
  · have hinv := runEvents_invariant (I := fun _ s => FanOutInv s) fanOutInv_start
      (fun _ _ _ _ _ hm hstep => fanOutStep_inv hm hstep) es s hrun
    exact ⟨fun uid e row hrow => (hinv.rows uid e row hrow).2, hinv.answered⟩
  · unfold fanOutStep at hfailed hstored
    dsimp only at hfailed hstored
    split at hfailed
    · rename_i hnow
      rw [if_pos hnow] at hstored
      obtain ⟨w, hw, rfl⟩ := Option.map_eq_some_iff.mp hfailed
      obtain ⟨w', hw', rfl⟩ := Option.map_eq_some_iff.mp hstored
      rw [hw] at hw'
      cases hw'
      rfl
    · cases hfailed

end FanOut

/-! ### A null that is an answer -/

def sampleUser : Uuid := ⟨"55555555-5555-5555-5555-555555555555", by decide⟩

/-- Every endpoint answers 200 with the body `null`. -/
def allNull : Endpoint → Upstream := fun _ => .response 200 (some .null) none

/-- The data are null, and yet the endpoint was ok and the answer is whole. -/
theorem null_while_ok : ∃ s a,
    runEvents fanOutStep {} [.reads ⟨sampleUser, 800, {}, true⟩ 0 none, .settles 0 1 allNull] =
      some s ∧ a ∈ s.answered ∧ a.aggregate.data .profile = .null ∧
      (a.aggregate.upstreams .profile).status = .ok ∧ a.aggregate.isPartial = false :=
  ⟨_, _, rfl, List.mem_singleton_self _, rfl, rfl, rfl⟩

/-- The profile may be kept for a minute, and the rest may not. -/
def minute : Endpoint → Upstream
  | .profile => .response 200 (some (.str "alice")) (some "private, max-age=60")
  | _ => .response 503 none none

/-- A call that stores the profile, one that it is served to half a minute later, and
one that reads past the cache. -/
def minuteEvents : List FanOutEvent :=
  [.reads ⟨sampleUser, 800, {}, true⟩ 0 none, .settles 0 1 minute, .writes 0 2 false,
    .reads ⟨sampleUser, 800, {}, true⟩ 30000000 none, .settles 0 30000001 minute,
    .reads ⟨sampleUser, 800, { refresh := true }, true⟩ 40000000 none, .settles 0 40000001 minute]

def answerKinds (s : FanOutState) : List (Source × Bool) :=
  s.answered.map fun a => ((a.aggregate.upstreams .profile).source, a.aggregate.isPartial)

/-- The last call has the same answer whether its cache write fails or not. -/
theorem fanOut_sound_minute : ∃ s failed stored, runEvents fanOutStep {} minuteEvents = some s ∧
    answerKinds s = [(.upstream, true), (.cache, true)] ∧
    (∀ a ∈ s.answered, SoundAnswer s.responses a) ∧
    fanOutStep s (.writes 0 40000002 true) = some failed ∧
    fanOutStep s (.writes 0 40000002 false) = some stored ∧
    answerKinds failed = [(.upstream, true), (.cache, true), (.upstream, true)] ∧
    failed.answered = stored.answered := by
  have hrun : (runEvents fanOutStep {} minuteEvents).map answerKinds =
      some [(.upstream, true), (.cache, true)] := by with_unfolding_all decide
  have hfailed : ((runEvents fanOutStep {} minuteEvents).bind fun s =>
      fanOutStep s (.writes 0 40000002 true)).map answerKinds =
      some [(.upstream, true), (.cache, true), (.upstream, true)] := by with_unfolding_all decide
  have hstored : ((runEvents fanOutStep {} minuteEvents).bind fun s =>
      fanOutStep s (.writes 0 40000002 false)).isSome := by with_unfolding_all decide
  obtain ⟨s, hs, hanswers⟩ := Option.map_eq_some_iff.mp hrun
  rw [hs, Option.bind_some] at hfailed hstored
  obtain ⟨failed, hfailed, hkinds⟩ := Option.map_eq_some_iff.mp hfailed
  obtain ⟨stored, hstored⟩ := Option.isSome_iff_exists.mp hstored
  obtain ⟨hruns, -, hfails⟩ := fanOut_sound
  exact ⟨s, failed, stored, hs, hanswers, (hruns _ s hs).2, hfailed, hstored, hkinds,
    hfails s 0 40000002 failed stored hfailed hstored⟩

end SupabaseLab.StarterKit
