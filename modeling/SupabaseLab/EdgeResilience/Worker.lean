/-
  EdgeResilience/Worker.lean --- the worker that caches, and fails over, in front of PostgREST.

  Source: `withTag` and the cacheable path of `fetch` in
  experiments/edge-resilience/worker/worker.ts.

  A call of the handler runs from one `await` to the next, and the calls interleave at
  these: each part is an event.  A call knows its request, the environment of the
  deployment it reached, and what each origin answers to it.  The Cache API matches the
  URL and the headers that the `Vary` of the stored response names; what it holds may
  vanish.  Times are milliseconds.
-/
import SupabaseLab.Library.JsString
import SupabaseLab.Library.Machine

set_option autoImplicit false

namespace SupabaseLab.EdgeResilience

open Library

/-! ## Requests and responses -/

/-- The names of headers are lower-case, as `Headers` keeps them. -/
abbrev Headers := List (String × String)

/-- `headers.get(name)`: the values under the name, in one text. -/
def Headers.get (h : Headers) (name : String) : Option String :=
  match h.filter fun e => e.1 = name with
  | [] => none
  | e :: es => some (", ".intercalate ((e :: es).map (·.2)))

def Headers.delete (h : Headers) (name : String) : Headers := h.filter fun e => e.1 ≠ name

def Headers.set (h : Headers) (name value : String) : Headers := h.delete name ++ [(name, value)]

/-- A `GET` of a path that `CACHEABLE` admits. -/
structure Request where
  pathname : String
  search : String
  headers : Headers
  cacheable : "/rest/v1/w_probe".toList <+: pathname.toList
  deriving DecidableEq

/-- What PostgREST decides a caller's rows by. -/
def Request.caller (req : Request) : Option String × Option String :=
  (req.headers.get "authorization", req.headers.get "apikey")

def Request.SameUrl (req req' : Request) : Prop :=
  req.pathname = req'.pathname ∧ req.search = req'.search

instance (req req' : Request) : Decidable (req.SameUrl req') :=
  inferInstanceAs (Decidable (_ ∧ _))

structure Response where
  status : Nat
  headers : Headers
  body : String
  deriving DecidableEq

def Response.ok (r : Response) : Bool := 200 ≤ r.status && r.status ≤ 299

/-- The names in the `Vary` headers. -/
def Response.vary (r : Response) : List String :=
  (r.headers.filter fun e => e.1 = "vary").flatMap fun e =>
    ((e.2.toList.map Char.toLower).splitOn ',').map fun name => jsTrim (String.ofList name)

/-- `new Response(body, init)` throws a `RangeError` for any other status. -/
def Response.Servable (r : Response) : Prop := 200 ≤ r.status ∧ r.status ≤ 599

instance (r : Response) : Decidable r.Servable := inferInstanceAs (Decidable (_ ∧ _))

def withTag (r : Response) (tag : String) (originStr : Option String) : Option Response :=
  if r.Servable then
    let headers := r.headers.set "x-drill-cache" tag
    some { r with
      headers := match originStr with
        | some origin => headers.set "x-drill-origin" origin
        | none => headers }
  else none

/-! ## The environment -/

structure Env where
  upstream : String
  outage : String := "false"
  failoverPrimary : Option String := none
  failoverStandby : Option String := none
  /-- `parseInt(env.HOLD_MS)`, `none` when that is `NaN`; 0 where it is not set. -/
  holdMs : Option Int := some 0

def blackhole : String := "https://192.0.2.1"

def Env.primaryUrl (env : Env) : String :=
  match env.failoverPrimary with
  | some url => if url = "" then env.upstream else url
  | none => env.upstream

def Env.originBase (env : Env) : String :=
  if env.outage = "true" then blackhole else env.primaryUrl

/-- The standby's URL; the empty text counts as none. -/
def Env.standby (env : Env) : Option String := env.failoverStandby.filter fun url => url ≠ ""

def Env.failoverMode (env : Env) : Bool := env.standby.isSome

def isFailure (env : Env) (r : Response) : Bool :=
  500 ≤ r.status || r.status = 403 || (env.outage = "true" && !r.ok)

/-- `standby && holdMs > 0 && Date.now() - lastFailureTime < holdMs`. -/
def Env.holds (env : Env) (now lastFailureTime : Nat) : Bool :=
  env.failoverMode && match env.holdMs with
    | some holdMs => 0 < holdMs && (now : Int) - lastFailureTime < holdMs
    | none => false

/-! ## Calls -/

inductive Origin where
  | primary
  | standby
  deriving DecidableEq, Repr

def Origin.name : Origin → String
  | .primary => "primary"
  | .standby => "standby"

/-- A `fetch` gives a response, of any status, or rejects. -/
inductive Outcome where
  | rejected
  | responded (r : Response)

structure Call where
  request : Request
  env : Env
  /-- What the origin in this role does, when it is asked at this URL. -/
  fetch : Origin → String → Outcome

def Call.originFetch (c : Call) : Origin → Outcome
  | .primary => c.fetch .primary c.env.originBase
  | .standby => c.fetch .standby (c.env.standby.getD "")

/-- The fetch rejected, or its response counts as a failure. -/
def Call.failed (c : Call) (o : Origin) : Bool :=
  match c.originFetch o with
  | .rejected => true
  | .responded r => isFailure c.env r

/-- Where the handler waits. -/
inductive Phase where
  | absent
  /-- At `cache.match(failureKey)`. -/
  | looking
  | deciding (lastFailureTime : Nat)
  /-- At a fetch; `last` when no other origin is tried after it. -/
  | asking (o : Origin) (last : Bool)
  /-- At the second `cache.match(cacheKey)`. -/
  | rereading
  | replied (r : Response)
  | rejected
  deriving DecidableEq

/-- A call, with the puts it leaves to `waitUntil`. -/
structure Task where
  phase : Phase := .absent
  /-- The copy that is to be stored under `cacheKey`. -/
  copy : Option Response := none
  /-- The time that is to be stored under `failureKey`. -/
  failure : Option Nat := none
  /-- The origins it contacted, and those of them that have settled. -/
  asked : List Origin := []
  settled : List Origin := []
  /-- The time at which it chose the origin to try first, and the record it went by. -/
  chose : Option (Nat × Nat) := none

/-- A stored response, with the request it is stored under and the call that stored it. -/
structure Entry where
  call : Nat
  request : Request
  response : Response

/-- The Cache API's rule: the URL, and the headers that `Vary` names. -/
def Entry.Matches (e : Entry) (req : Request) : Prop :=
  e.request.SameUrl req ∧ ∀ name ∈ e.response.vary, e.request.headers.get name = req.headers.get name

instance (e : Entry) (req : Request) : Decidable (e.Matches req) :=
  inferInstanceAs (Decidable (_ ∧ _))

structure Worker where
  clock : Nat := 0
  tasks : Nat → Task := fun _ => {}
  cache : List Entry := []
  /-- What is stored under `failureKey`; `parseFloat` reads what `toString` wrote. -/
  record : Option Nat := none

def Worker.setTask (s : Worker) (k : Nat) (t : Task) : Worker :=
  { s with tasks := Function.update s.tasks k t }

def Worker.match? (s : Worker) (req : Request) : Option Entry :=
  s.cache.find? fun e => e.Matches req

/-- The Cache API refuses partial content, and a `Vary` that no request can match. -/
def Response.Storable (r : Response) : Prop := r.status ≠ 206 ∧ "*" ∉ r.vary

instance (r : Response) : Decidable r.Storable := inferInstanceAs (Decidable (_ ∧ _))

/-- `cache.put`: what the request matches is replaced. -/
def Worker.store (s : Worker) (e : Entry) : Worker :=
  if e.response.Storable then
    { s with cache := s.cache.filter (fun old => ¬ old.Matches e.request) ++ [e] }
  else s

/-! ## The handler -/

inductive Event where
  /-- The request comes in; in cache mode it is matched. -/
  | arrive (k : Nat)
  | look (k : Nat)
  | decide (k now : Nat)
  | settle (k now : Nat)
  | reread (k : Nat)
  | put (k : Nat)
  | putFailure (k : Nat)
  /-- An entry vanishes from the cache, or the record does. -/
  | evict (k : Nat)
  | evictFailure
  deriving DecidableEq

/-- The call that an event is of. -/
def Event.call : Event → Option Nat
  | .arrive k | .look k | .decide k _ | .settle k _ | .reread k | .put k | .putFailure k
  | .evict k => some k
  | .evictFailure => none

def emptyReply : Response where
  status := 503
  headers := [("content-type", "application/json"), ("x-drill-cache", "EMPTY")]
  body := "\x7b\"error\":\"origin unreachable, cache empty\"\x7d"

/-- The answer, or the rejection where `withTag` throws. -/
def Task.reply (t : Task) : Option Response → Task
  | some r => { t with phase := .replied r }
  | none => { t with phase := .rejected }

def Task.ask (t : Task) (o : Origin) (last : Bool) : Task :=
  { t with phase := .asking o last, asked := t.asked ++ [o] }

def storedCopy (r : Response) : Response :=
  { r with headers := (r.headers.delete "set-cookie").set "cache-control" "public, max-age=86400" }

/-- From `if (origin.ok)` on. -/
def finish (t : Task) (origin : Response) (originTag : Origin) : Task :=
  if origin.ok then
    let finalTagged := withTag origin "MISS" originTag.name
    { t.reply finalTagged with copy := finalTagged.map storedCopy }
  else t.reply (withTag origin "PASS" originTag.name)

/-- The two `catch` blocks around the first fetch. -/
def onFailure (c : Call) (t : Task) (now : Nat) : Origin → Task
  | .standby => t.ask .primary true
  | .primary =>
      if c.env.failoverMode then { t.ask .standby true with failure := some now }
      else { t with phase := .rereading }

/-- What the handler does when a fetch of it has settled. -/
def afterFetch (c : Call) (t : Task) (now : Nat) (o : Origin) (last : Bool) : Task :=
  let t := { t with settled := t.settled ++ [o] }
  match c.originFetch o with
  | .responded r => if last || !isFailure c.env r then finish t r o else onFailure c t now o
  | .rejected => if last then { t with phase := .rejected } else onFailure c t now o

def workerStep (w : Nat → Call) (s : Worker) : Event → Option Worker
  | .arrive k =>
      let t := s.tasks k
      if t.phase = .absent then
        let hit := if (w k).env.failoverMode then none else s.match? (w k).request
        match hit with
        | some e => some (s.setTask k (t.reply (withTag e.response "HIT" none)))
        | none => some (s.setTask k { t with phase := .looking })
      else none
  | .look k =>
      let t := s.tasks k
      if t.phase = .looking then
        some (s.setTask k { t with phase := .deciding (s.record.getD 0) })
      else none
  | .decide k now =>
      if s.clock ≤ now then
        let t := s.tasks k
        match t.phase with
        | .deciding last =>
            let t := { t with chose := some (now, last) }
            some ({ s with clock := now }.setTask k
              (if (w k).env.holds now last then t.ask .standby false else t.ask .primary false))
        | _ => none
      else none
  | .settle k now =>
      if s.clock ≤ now then
        match (s.tasks k).phase with
        | .asking o last =>
            some ({ s with clock := now }.setTask k (afterFetch (w k) (s.tasks k) now o last))
        | _ => none
      else none
  | .reread k =>
      let t := s.tasks k
      if t.phase = .rereading then
        match s.match? (w k).request with
        | some e => some (s.setTask k (t.reply (withTag e.response "STALE" none)))
        | none => some (s.setTask k (t.reply (some emptyReply)))
      else none
  | .put k =>
      ((s.tasks k).copy).map fun r =>
        (s.store ⟨k, (w k).request, r⟩).setTask k { s.tasks k with copy := none }
  | .putFailure k =>
      ((s.tasks k).failure).map fun time =>
        { s with record := some time }.setTask k { s.tasks k with failure := none }
  | .evict k => some { s with cache := s.cache.filter fun e => e.call ≠ k }
  | .evictFailure => some { s with record := none }

/-! ## Headers and tags -/

theorem Headers.filter_set {h : Headers} {name other : String} (value : String)
    (hne : name ≠ other) :
    ((h.set name value).filter fun e => e.1 = other) = h.filter fun e => e.1 = other := by
  unfold Headers.set Headers.delete
  rw [List.filter_append, List.filter_cons_of_neg (by simpa using hne), List.filter_nil,
    List.append_nil, List.filter_filter]
  refine List.filter_congr fun e _ => ?_
  by_cases he : e.1 = other
  · simp [he, hne.symm]
  · simp [he]

theorem Headers.filter_delete {h : Headers} {name other : String} (hne : name ≠ other) :
    ((h.delete name).filter fun e => e.1 = other) = h.filter fun e => e.1 = other := by
  unfold Headers.delete
  rw [List.filter_filter]
  refine List.filter_congr fun e _ => ?_
  by_cases he : e.1 = other
  · simp [he, hne.symm]
  · simp [he]

@[simp] theorem Headers.get_set_self (h : Headers) (name value : String) :
    (h.set name value).get name = some value := by
  have hnone : (h.delete name).filter (fun e => e.1 = name) = [] := by
    unfold Headers.delete
    rw [List.filter_filter]
    exact List.filter_eq_nil_iff.mpr fun e _ => by simp
  have hfilter : ((h.set name value).filter fun e => e.1 = name) = [(name, value)] := by
    unfold Headers.set
    rw [List.filter_append, hnone, List.nil_append, List.filter_cons_of_pos (by simp),
      List.filter_nil]
  unfold Headers.get
  rw [hfilter]
  rfl

theorem Headers.get_set_of_ne (h : Headers) {name other : String} (value : String)
    (hne : name ≠ other) : (h.set name value).get other = h.get other := by
  unfold Headers.get
  rw [Headers.filter_set value hne]

/-- What `withTag` leaves as it is, and the headers it sets. -/
structure Tagged (r : Response) (tag : String) (originStr : Option String) (r' : Response) :
    Prop where
  servable : r.Servable
  status : r'.status = r.status
  body : r'.body = r.body
  vary : r'.vary = r.vary
  cacheTag : r'.headers.get "x-drill-cache" = some tag
  originTag : ∀ origin, originStr = some origin → r'.headers.get "x-drill-origin" = some origin

theorem tagged_of_withTag {r r' : Response} {tag : String} {originStr : Option String}
    (h : withTag r tag originStr = some r') : Tagged r tag originStr r' := by
  unfold withTag at h
  split at h
  · next hservable =>
    cases h
    cases originStr with
    | none =>
      refine ⟨hservable, rfl, rfl, ?_, Headers.get_set_self _ _ _, fun _ ho => by cases ho⟩
      unfold Response.vary
      rw [Headers.filter_set _ (by decide)]
    | some origin =>
      refine ⟨hservable, rfl, rfl, ?_, ?_, ?_⟩
      · unfold Response.vary
        rw [Headers.filter_set _ (by decide), Headers.filter_set _ (by decide)]
      · exact (Headers.get_set_of_ne _ _ (by decide)).trans (Headers.get_set_self _ _ _)
      · rintro _ ⟨⟩
        exact Headers.get_set_self _ _ _
  · cases h

theorem withTag_of_servable {r : Response} (tag : String) (originStr : Option String)
    (h : r.Servable) : ∃ r', withTag r tag originStr = some r' :=
  ⟨_, if_pos h⟩

theorem withTag_eq_none {r : Response} {tag : String} {originStr : Option String} :
    withTag r tag originStr = none ↔ ¬ r.Servable := by
  unfold withTag
  split
  · next h => simp [h]
  · next h => simp [h]

theorem Response.servable_of_ok {r : Response} (h : r.ok = true) : r.Servable := by
  unfold Response.ok at h
  rw [Bool.and_eq_true, decide_eq_true_eq, decide_eq_true_eq] at h
  exact ⟨h.1, by omega⟩

@[simp] theorem vary_storedCopy (r : Response) : (storedCopy r).vary = r.vary := by
  unfold Response.vary storedCopy
  dsimp only
  rw [Headers.filter_set _ (by decide), Headers.filter_delete (by decide)]

/-! ## The steps -/

def Task.settle (t : Task) (o : Origin) : Task := { t with settled := t.settled ++ [o] }

/-- What becomes of a call when its fetch has settled. -/
inductive Settles (c : Call) (t : Task) (now : Nat) (o : Origin) (last : Bool) : Task → Prop
  | finish {r : Response} (hfetch : c.originFetch o = .responded r)
      (hserve : last = true ∨ c.failed o = false) :
      Settles c t now o last (finish (t.settle o) r o)
  | reject (hlast : last = true) (hfetch : c.originFetch o = .rejected) :
      Settles c t now o last { t.settle o with phase := .rejected }
  | toPrimary (hlast : last = false) (ho : o = .standby) (hfailed : c.failed o = true) :
      Settles c t now o last ((t.settle o).ask .primary true)
  | toStandby (hlast : last = false) (ho : o = .primary) (hfailed : c.failed o = true)
      (hmode : c.env.failoverMode = true) :
      Settles c t now o last { (t.settle o).ask .standby true with failure := some now }
  | reread (hlast : last = false) (ho : o = .primary) (hfailed : c.failed o = true)
      (hmode : c.env.failoverMode = false) :
      Settles c t now o last { t.settle o with phase := .rereading }

theorem onFailure_settles {c : Call} {o : Origin} (t : Task) (now : Nat)
    (hfailed : c.failed o = true) : Settles c t now o false (onFailure c (t.settle o) now o) := by
  cases o with
  | standby => exact .toPrimary rfl rfl hfailed
  | primary =>
    simp only [onFailure]
    split
    · next hmode => exact .toStandby rfl rfl hfailed hmode
    · next hmode => exact .reread rfl rfl hfailed (Bool.eq_false_iff.mpr hmode)

theorem afterFetch_settles (c : Call) (t : Task) (now : Nat) (o : Origin) (last : Bool) :
    Settles c t now o last (afterFetch c t now o last) := by
  unfold afterFetch
  cases hfetch : c.originFetch o with
  | rejected =>
    cases last with
    | true => exact .reject rfl hfetch
    | false =>
      refine onFailure_settles t now ?_
      unfold Call.failed
      rw [hfetch]
  | responded r =>
    have hfailed : c.failed o = isFailure c.env r := by
      unfold Call.failed
      rw [hfetch]
    dsimp only
    split
    · next hserve =>
      refine .finish hfetch ?_
      rw [hfailed]
      simpa using hserve
    · next hserve =>
      rw [Bool.or_eq_true, not_or, Bool.not_eq_true', Bool.not_eq_false, Bool.not_eq_true] at hserve
      obtain ⟨rfl, hfailure⟩ := hserve
      exact onFailure_settles t now (hfailed.trans hfailure)

theorem Settles.settled {c : Call} {t t' : Task} {now : Nat} {o : Origin} {last : Bool}
    (h : Settles c t now o last t') : t'.settled = t.settled ++ [o] := by
  cases h with
  | finish hfetch hserve =>
    unfold EdgeResilience.finish
    split
    · cases withTag _ "MISS" _ <;> rfl
    · cases withTag _ "PASS" _ <;> rfl
  | reject hlast hfetch => rfl
  | toPrimary hlast ho hfailed => rfl
  | toStandby hlast ho hfailed hmode => rfl
  | reread hlast ho hfailed hmode => rfl

/-- How a step goes, with what it is taken under. -/
inductive Moves (w : Nat → Call) (s : Worker) : Event → Worker → Prop
  | hit {k : Nat} {e : Entry} (hphase : (s.tasks k).phase = .absent)
      (hmode : (w k).env.failoverMode = false) (hmatch : s.match? (w k).request = some e) :
      Moves w s (.arrive k) (s.setTask k ((s.tasks k).reply (withTag e.response "HIT" none)))
  | miss {k : Nat} (hphase : (s.tasks k).phase = .absent)
      (hmatch : (w k).env.failoverMode = false → s.match? (w k).request = none) :
      Moves w s (.arrive k) (s.setTask k { s.tasks k with phase := .looking })
  | look {k : Nat} (hphase : (s.tasks k).phase = .looking) :
      Moves w s (.look k)
        (s.setTask k { s.tasks k with phase := .deciding (s.record.getD 0) })
  | decide {k now last : Nat} (hclock : s.clock ≤ now)
      (hphase : (s.tasks k).phase = .deciding last) :
      Moves w s (.decide k now) ({ s with clock := now }.setTask k
        (Task.ask { s.tasks k with chose := some (now, last) }
          (if (w k).env.holds now last then .standby else .primary) false))
  | settle {k now : Nat} {o : Origin} {last : Bool} (hclock : s.clock ≤ now)
      (hphase : (s.tasks k).phase = .asking o last) :
      Moves w s (.settle k now)
        ({ s with clock := now }.setTask k (afterFetch (w k) (s.tasks k) now o last))
  | stale {k : Nat} {e : Entry} (hphase : (s.tasks k).phase = .rereading)
      (hmatch : s.match? (w k).request = some e) :
      Moves w s (.reread k) (s.setTask k ((s.tasks k).reply (withTag e.response "STALE" none)))
  | empty {k : Nat} (hphase : (s.tasks k).phase = .rereading)
      (hmatch : s.match? (w k).request = none) :
      Moves w s (.reread k) (s.setTask k ((s.tasks k).reply (some emptyReply)))
  | put {k : Nat} {r : Response} (hcopy : (s.tasks k).copy = some r) :
      Moves w s (.put k)
        ((s.store ⟨k, (w k).request, r⟩).setTask k { s.tasks k with copy := none })
  | putFailure {k time : Nat} (hfailure : (s.tasks k).failure = some time) :
      Moves w s (.putFailure k)
        ({ s with record := some time }.setTask k { s.tasks k with failure := none })
  | evict {k : Nat} :
      Moves w s (.evict k) { s with cache := s.cache.filter fun e => e.call ≠ k }
  | evictFailure : Moves w s .evictFailure { s with record := none }

theorem workerStep_moves {w : Nat → Call} {s s' : Worker} {e : Event}
    (h : workerStep w s e = some s') : Moves w s e s' := by
  cases e with
  | arrive k =>
    simp only [workerStep] at h
    split at h
    · next hphase =>
      split at h
      · next e hhit =>
        cases h
        cases hmode : (w k).env.failoverMode with
        | true =>
          rw [hmode, if_pos rfl] at hhit
          cases hhit
        | false =>
          rw [hmode, if_neg Bool.false_ne_true] at hhit
          exact .hit hphase hmode hhit
      · next hmiss =>
        cases h
        refine .miss hphase fun hmode => ?_
        rwa [hmode, if_neg Bool.false_ne_true] at hmiss
    · cases h
  | look k =>
    simp only [workerStep] at h
    split at h
    · next hphase =>
      cases h
      exact .look hphase
    · cases h
  | decide k now =>
    simp only [workerStep] at h
    split at h
    · next hclock =>
      split at h
      · next last hphase =>
        cases h
        have hmoves := Moves.decide (w := w) hclock hphase
        split
        · next hholds => rwa [if_pos hholds] at hmoves
        · next hholds => rwa [if_neg hholds] at hmoves
      · cases h
    · cases h
  | settle k now =>
    simp only [workerStep] at h
    split at h
    · next hclock =>
      split at h
      · next o last hphase =>
        cases h
        exact .settle hclock hphase
      · cases h
    · cases h
  | reread k =>
    simp only [workerStep] at h
    split at h
    · next hphase =>
      split at h
      · next e hmatch =>
        cases h
        exact .stale hphase hmatch
      · next hmatch =>
        cases h
        exact .empty hphase hmatch
    · cases h
  | put k =>
    simp only [workerStep] at h
    obtain ⟨r, hcopy, rfl⟩ := Option.map_eq_some_iff.mp h
    exact .put hcopy
  | putFailure k =>
    simp only [workerStep] at h
    obtain ⟨time, hfailure, rfl⟩ := Option.map_eq_some_iff.mp h
    exact .putFailure hfailure
  | evict k =>
    cases h
    exact .evict
  | evictFailure =>
    cases h
    exact .evictFailure

theorem Moves.step {w : Nat → Call} {s s' : Worker} {e : Event} (h : Moves w s e s') :
    workerStep w s e = some s' := by
  cases h with
  | hit hphase hmode hmatch => simp [workerStep, hphase, hmode, hmatch]
  | @miss k hphase hmatch =>
    cases hmode : (w k).env.failoverMode with
    | true => simp [workerStep, hphase, hmode]
    | false => simp [workerStep, hphase, hmode, hmatch hmode]
  | look hphase => simp [workerStep, hphase]
  | @decide k now last hclock hphase =>
    simp only [workerStep, if_pos hclock, hphase]
    cases (w k).env.holds now last <;> rfl
  | settle hclock hphase => simp [workerStep, hclock, hphase]
  | stale hphase hmatch => simp [workerStep, hphase, hmatch]
  | empty hphase hmatch => simp [workerStep, hphase, hmatch]
  | put hcopy => simp [workerStep, hcopy]
  | putFailure hfailure => simp [workerStep, hfailure]
  | evict => rfl
  | evictFailure => rfl

@[simp] theorem Worker.setTask_tasks_self (s : Worker) (k : Nat) (t : Task) :
    (s.setTask k t).tasks k = t :=
  Function.update_self _ _ _

theorem Worker.setTask_tasks_of_ne (s : Worker) {j k : Nat} (t : Task) (h : j ≠ k) :
    (s.setTask k t).tasks j = s.tasks j :=
  Function.update_of_ne h _ _

@[simp] theorem Worker.setTask_cache (s : Worker) (k : Nat) (t : Task) :
    (s.setTask k t).cache = s.cache := rfl

@[simp] theorem Worker.setTask_record (s : Worker) (k : Nat) (t : Task) :
    (s.setTask k t).record = s.record := rfl

@[simp] theorem Worker.setTask_clock (s : Worker) (k : Nat) (t : Task) :
    (s.setTask k t).clock = s.clock := rfl

@[simp] theorem Worker.store_tasks (s : Worker) (e : Entry) : (s.store e).tasks = s.tasks := by
  unfold Worker.store
  split <;> rfl

@[simp] theorem Worker.store_record (s : Worker) (e : Entry) : (s.store e).record = s.record := by
  unfold Worker.store
  split <;> rfl

@[simp] theorem Worker.store_clock (s : Worker) (e : Entry) : (s.store e).clock = s.clock := by
  unfold Worker.store
  split <;> rfl

theorem Worker.mem_store {s : Worker} {e old : Entry} (h : old ∈ (s.store e).cache) :
    old ∈ s.cache ∨ (old = e ∧ e.response.Storable) := by
  unfold Worker.store at h
  split at h
  · next hstorable =>
    obtain hold | hnew := List.mem_append.mp h
    · exact .inl (List.mem_filter.mp hold).1
    · exact .inr ⟨List.mem_singleton.mp hnew, hstorable⟩
  · exact .inl h

theorem Worker.of_match? {s : Worker} {req : Request} {e : Entry} (h : s.match? req = some e) :
    e ∈ s.cache ∧ e.Matches req := by
  unfold Worker.match? at h
  have hmatches := List.find?_some h
  exact ⟨List.mem_of_find?_eq_some h, of_decide_eq_true hmatches⟩

end SupabaseLab.EdgeResilience
