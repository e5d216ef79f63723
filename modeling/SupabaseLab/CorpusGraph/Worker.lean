/-
  CorpusGraph/Worker.lean --- the caching proxy in front of the read RPCs.

  Source: `withMark` and `fetch` of experiments/pdf-corpus-graph/demo/worker/index.ts.

  A request matches the cache, and answers from it or waits for the origin; the put
  of an answer goes on after the reply.  Each of these is an event, and the events of
  all requests interleave.  The Cache API is a map keyed by URL, from which entries
  may vanish; SHA-256 is a parameter.  Times are milliseconds.
-/
import SupabaseLab.Library.KeyMap
import SupabaseLab.Library.Machine
import SupabaseLab.Library.Separated

set_option autoImplicit false

namespace SupabaseLab.CorpusGraph

open Library

/-! ## Requests and responses -/

/-- `url.pathname`: it ends where the query begins. -/
structure Pathname where
  text : String
  noQuery : '?' ∉ text.toList
  deriving DecidableEq

structure Request where
  method : String
  path : Pathname
  query : String
  body : String
  apikey : Option String := none
  contentType : Option String := none
  contentProfile : Option String := none
  acceptProfile : Option String := none
  deriving DecidableEq

/-- The names of headers are lower-case, as `Headers` keeps them. -/
abbrev Headers := List (String × String)

def Headers.delete (h : Headers) (name : String) : Headers := h.filter fun e => e.1 ≠ name

def Headers.set (h : Headers) (name value : String) : Headers := h.delete name ++ [(name, value)]

structure Response where
  status : Nat
  headers : Headers
  body : String
  deriving DecidableEq

def Response.ok (r : Response) : Bool := 200 ≤ r.status && r.status ≤ 299

inductive Mark where
  | hit
  | miss
  | stale
  deriving DecidableEq, Repr

def Mark.text : Mark → String
  | .hit => "HIT"
  | .miss => "MISS"
  | .stale => "STALE"

def withMark (r : Response) (mark : Mark) : Response :=
  { r with headers := r.headers.set "x-pggraph-cache" mark.text }

/-! ## The cache -/

def cacheTtlMs : Nat := 6 * 60 * 60 * 1000

def cacheVersion : String := "2026-08-14"

def storeMaxAgeS : Nat := 7 * 24 * 3600

/-- The text that is hashed, and sent to the origin as the body of a POST. -/
def Request.bodyText (req : Request) : String := if req.method = "POST" then req.body else ""

/-- The URL of the cache key. -/
def cacheKey (sha256Hex : String → String) (req : Request) : String :=
  "https://pggraph.cache/" ++ cacheVersion ++ req.path.text ++ "?h=" ++ sha256Hex req.bodyText

/-- A stored response; its `x-cached-at` is kept as a number as well. -/
structure Entry where
  response : Response
  cachedAt : Nat
  deriving DecidableEq

/-- The copy of an answer that is stored at `now`. -/
def storedCopy (origin : Response) (now : Nat) : Entry where
  response := { origin with
    headers := ((origin.headers.delete "set-cookie").set "cache-control"
      ("public, max-age=" ++ toString storeMaxAgeS)).set "x-cached-at" (toString now) }
  cachedAt := now

/-! ## The worker -/

/-- What the origin does with a request. -/
inductive OriginOutcome where
  | unreachable
  | answered (r : Response)

/-- The network failed, or the status is not ok. -/
def OriginOutcome.failed : OriginOutcome → Bool
  | .unreachable => true
  | .answered r => !r.ok

/-- A request that waits for the origin, with the entry that was too old. -/
structure Waiting where
  request : Request
  cached : Option Entry

/-- A reply, with the mark it was given and what the origin did for it. -/
structure Reply where
  request : Request
  response : Response
  mark : Option Mark
  repliedAt : Nat
  origin : Option OriginOutcome

/-- An answer the origin gave with an ok status. -/
structure Given where
  request : Request
  response : Response
  givenAt : Nat

/-- The cache, the requests and the puts that are under way, all ok answers of the
origin and all replies so far. -/
structure Worker where
  cache : KeyMap String Entry := .empty
  clock : Nat := 0
  waiting : List Waiting := []
  puts : List (String × Entry) := []
  given : List Given := []
  replies : List Reply := []

inductive WorkerEvent where
  | request (req : Request) (now : Nat)
  /-- The origin settles for a request that waits. -/
  | origin (i : Nat) (now : Nat) (outcome : OriginOutcome)
  /-- A put is over; it may have failed. -/
  | put (i : Nat) (ok : Bool)
  | evict (key : String)

def unreachableReply : Response := ⟨502, [], "origin unreachable and nothing cached"⟩

def workerStep (sha256Hex : String → String) (s : Worker) : WorkerEvent → Option Worker
  | .request req now =>
      if s.clock ≤ now then
        let s := { s with clock := now }
        -- anything else is answered by the assets
        if "/rest/".toList <+: req.path.text.toList then
          match s.cache.get? (cacheKey sha256Hex req) with
          | some e =>
              if now - e.cachedAt < cacheTtlMs then
                some { s with
                  replies := s.replies ++ [⟨req, withMark e.response .hit, some .hit, now, none⟩] }
              else some { s with waiting := s.waiting ++ [⟨req, some e⟩] }
          | none => some { s with waiting := s.waiting ++ [⟨req, none⟩] }
        else some s
      else none
  | .origin i now outcome =>
      if s.clock ≤ now then
        match s.waiting[i]? with
        | none => none
        | some w =>
            let s := { s with clock := now, waiting := s.waiting.eraseIdx i }
            match outcome, w.cached with
            | .unreachable, some e =>
                some { s with replies := s.replies ++
                  [⟨w.request, withMark e.response .stale, some .stale, now, some outcome⟩] }
            | .unreachable, none =>
                some { s with replies := s.replies ++
                  [⟨w.request, unreachableReply, none, now, some outcome⟩] }
            | .answered r, cached =>
                if r.ok then
                  some { s with
                    puts := s.puts ++ [(cacheKey sha256Hex w.request, storedCopy r now)]
                    given := s.given ++ [⟨w.request, r, now⟩]
                    replies := s.replies ++
                      [⟨w.request, withMark r .miss, some .miss, now, some outcome⟩] }
                else
                  match cached with
                  | some e =>
                      some { s with replies := s.replies ++
                        [⟨w.request, withMark e.response .stale, some .stale, now, some outcome⟩] }
                  | none =>
                      some { s with replies := s.replies ++
                        [⟨w.request, r, none, now, some outcome⟩] }
      else none
  | .put i ok =>
      (s.puts[i]?).map fun (key, e) =>
        { s with
          puts := s.puts.eraseIdx i
          cache := if ok then s.cache.set key e else s.cache }
  | .evict key => some { s with cache := s.cache.delete key }

/-! ## What the worker serves -/

/-- The inputs of a request that its key is made of. -/
def SameKey (req req' : Request) : Prop :=
  req.path = req'.path ∧ req.bodyText = req'.bodyText

/-- The headers that a stored copy and its mark may differ in. -/
def ownHeaders : List String := ["set-cookie", "cache-control", "x-cached-at", "x-pggraph-cache"]

def Response.others (r : Response) : Headers := r.headers.filter fun e => e.1 ∉ ownHeaders

/-- The answer as the origin gave it, but for the headers the worker sets. -/
def SameAnswer (r r' : Response) : Prop :=
  r.status = r'.status ∧ r.body = r'.body ∧ r.others = r'.others

/-- The origin has given the answer, with an ok status, for the same key. -/
def GivenFor (given : List Given) (req : Request) (r : Response) (storedAt : Nat) : Prop :=
  ∃ g ∈ given, SameKey g.request req ∧ g.response.ok = true ∧ SameAnswer r g.response ∧
    g.givenAt = storedAt

structure Transparent (given : List Given) (reply : Reply) : Prop where
  hit : reply.mark = some .hit → ∃ storedAt, GivenFor given reply.request reply.response storedAt ∧
    storedAt ≤ reply.repliedAt ∧ reply.repliedAt - storedAt < cacheTtlMs
  stale : reply.mark = some .stale →
    (∃ storedAt, GivenFor given reply.request reply.response storedAt ∧
      storedAt ≤ reply.repliedAt) ∧
    ∃ outcome, reply.origin = some outcome ∧ outcome.failed = true

/-- An entry under a key is the stored copy of an ok answer to a request of that key. -/
def Stored (sha256Hex : String → String) (given : List Given) (clock : Nat) (key : String)
    (e : Entry) : Prop :=
  ∃ g ∈ given, cacheKey sha256Hex g.request = key ∧ g.response.ok = true ∧
    e = storedCopy g.response g.givenAt ∧ g.givenAt ≤ clock

structure WorkerInv (sha256Hex : String → String) (s : Worker) : Prop where
  cache : ∀ key e, s.cache.get? key = some e → Stored sha256Hex s.given s.clock key e
  puts : ∀ p ∈ s.puts, Stored sha256Hex s.given s.clock p.1 p.2
  waiting : ∀ w ∈ s.waiting, ∀ e, w.cached = some e →
    Stored sha256Hex s.given s.clock (cacheKey sha256Hex w.request) e
  replies : ∀ reply ∈ s.replies, Transparent s.given reply

section Worker

variable {sha256Hex : String → String} {s s' : Worker} {given given' : List Given} {now clock : Nat}
  {key : String} {e : Entry} {req : Request} {mark : Mark}

/-- The key tells paths and texts apart. -/
theorem sameKey_of_cacheKey (hinj : Function.Injective sha256Hex) {req req' : Request}
    (h : cacheKey sha256Hex req = cacheKey sha256Hex req') : SameKey req req' := by
  have hlist := congrArg String.toList h
  unfold cacheKey at hlist
  simp only [String.toList_append, List.append_assoc] at hlist
  have htail := List.append_cancel_left (List.append_cancel_left hlist)
  obtain ⟨hpath, hrest⟩ := append_cons_inj req.path.noQuery req'.path.noQuery htail
  have hpath := String.toList_injective hpath
  have hhash : sha256Hex req.bodyText = sha256Hex req'.bodyText :=
    String.toList_injective (List.append_cancel_left hrest)
  refine ⟨?_, hinj hhash⟩
  obtain ⟨method, ⟨text, hq⟩, _⟩ := req
  obtain ⟨method', ⟨text', hq'⟩, _⟩ := req'
  cases hpath
  rfl

theorem others_set (h : Headers) {name : String} (value : String) (hown : name ∈ ownHeaders) :
    (h.set name value).filter (fun e => e.1 ∉ ownHeaders) = h.filter fun e => e.1 ∉ ownHeaders := by
  unfold Headers.set Headers.delete
  rw [List.filter_append, List.filter_cons_of_neg, List.filter_nil, List.append_nil, List.filter_filter]
  · refine List.filter_congr fun e _ => ?_
    by_cases he : e.1 ∈ ownHeaders
    · simp [he]
    · have hne : e.1 ≠ name := fun heq => he (heq ▸ hown)
      simp [hne]
  · simp [hown]

theorem others_delete (h : Headers) {name : String} (hown : name ∈ ownHeaders) :
    (h.delete name).filter (fun e => e.1 ∉ ownHeaders) = h.filter fun e => e.1 ∉ ownHeaders := by
  unfold Headers.delete
  rw [List.filter_filter]
  refine List.filter_congr fun e _ => ?_
  by_cases he : e.1 ∈ ownHeaders
  · simp [he]
  · have hne : e.1 ≠ name := fun heq => he (heq ▸ hown)
    simp [hne]

/-- A stored copy, marked, is the answer it was made of. -/
theorem sameAnswer_stored (r : Response) :
    SameAnswer (withMark (storedCopy r now).response mark) r := by
  refine ⟨rfl, rfl, ?_⟩
  unfold Response.others withMark storedCopy
  dsimp only
  rw [others_set _ _ (by decide), others_set _ _ (by decide), others_set _ _ (by decide),
    others_delete _ (by decide)]

theorem Stored.mono (h : Stored sha256Hex given clock key e) (hsub : given ⊆ given')
    (hclock : clock ≤ now) : Stored sha256Hex given' now key e := by
  obtain ⟨g, hg, hkey, hok, hcopy, hat⟩ := h
  exact ⟨g, hsub hg, hkey, hok, hcopy, hat.trans hclock⟩

theorem GivenFor.mono {r : Response} {storedAt : Nat} (h : GivenFor given req r storedAt)
    (hsub : given ⊆ given') : GivenFor given' req r storedAt := by
  obtain ⟨g, hg, hrest⟩ := h
  exact ⟨g, hsub hg, hrest⟩

theorem Transparent.mono {reply : Reply} (h : Transparent given reply) (hsub : given ⊆ given') :
    Transparent given' reply := by
  refine ⟨fun hmark => ?_, fun hmark => ?_⟩
  · obtain ⟨storedAt, hgiven, hrest⟩ := h.hit hmark
    exact ⟨storedAt, hgiven.mono hsub, hrest⟩
  · obtain ⟨⟨storedAt, hgiven, hat⟩, hfailed⟩ := h.stale hmark
    exact ⟨⟨storedAt, hgiven.mono hsub, hat⟩, hfailed⟩

theorem WorkerInv.mono (h : WorkerInv sha256Hex s) (hsub : s.given ⊆ given') (hnow : s.clock ≤ now) :
    WorkerInv sha256Hex { s with clock := now, given := given' } :=
  ⟨fun key e hget => (h.cache key e hget).mono hsub hnow,
    fun p hp => (h.puts p hp).mono hsub hnow,
    fun w hw e he => (h.waiting w hw e he).mono hsub hnow,
    fun reply hr => (h.replies reply hr).mono hsub⟩

/-- What is stored under the key of a request was given for it. -/
theorem Stored.givenFor (hinj : Function.Injective sha256Hex)
    (h : Stored sha256Hex given clock (cacheKey sha256Hex req) e) (mark : Mark) :
    GivenFor given req (withMark e.response mark) e.cachedAt ∧ e.cachedAt ≤ clock := by
  obtain ⟨g, hg, hkey, hok, rfl, hat⟩ := h
  exact ⟨⟨g, hg, sameKey_of_cacheKey hinj hkey, hok, sameAnswer_stored _, rfl⟩, hat⟩

theorem transparent_unmarked {request : Request} {response : Response} {repliedAt : Nat}
    {origin : Option OriginOutcome} : Transparent given ⟨request, response, none, repliedAt, origin⟩ :=
  ⟨fun h => (by cases h), fun h => (by cases h)⟩

theorem transparent_miss {request : Request} {response : Response} {repliedAt : Nat}
    {origin : Option OriginOutcome} :
    Transparent given ⟨request, response, some .miss, repliedAt, origin⟩ :=
  ⟨fun h => (by cases h), fun h => (by cases h)⟩

/-- A stale reply, after the origin has failed. -/
theorem transparent_stale (hinj : Function.Injective sha256Hex)
    (h : Stored sha256Hex given now (cacheKey sha256Hex req) e) {outcome : OriginOutcome}
    (hfailed : outcome.failed = true) :
    Transparent given ⟨req, withMark e.response .stale, some .stale, now, some outcome⟩ :=
  ⟨fun hmark => (by cases hmark), fun _ => ⟨⟨e.cachedAt, h.givenFor hinj .stale⟩, outcome, rfl, hfailed⟩⟩

/-- A reply is added to those given. -/
theorem WorkerInv.reply (h : WorkerInv sha256Hex s) {reply : Reply}
    (hreply : Transparent s.given reply) :
    WorkerInv sha256Hex { s with replies := s.replies ++ [reply] } := by
  refine ⟨h.cache, h.puts, h.waiting, fun r hr => ?_⟩
  obtain hr | hr := List.mem_append.mp hr
  · exact h.replies r hr
  · rw [List.mem_singleton.mp hr]
    exact hreply

theorem WorkerInv.wait (h : WorkerInv sha256Hex s) {w : Waiting}
    (hw : ∀ e, w.cached = some e →
      Stored sha256Hex s.given s.clock (cacheKey sha256Hex w.request) e) :
    WorkerInv sha256Hex { s with waiting := s.waiting ++ [w] } := by
  refine ⟨h.cache, h.puts, fun x hx => ?_, h.replies⟩
  obtain hx | hx := List.mem_append.mp hx
  · exact h.waiting x hx
  · rw [List.mem_singleton.mp hx]
    exact hw

theorem WorkerInv.putting (h : WorkerInv sha256Hex s) {p : String × Entry}
    (hp : Stored sha256Hex s.given s.clock p.1 p.2) :
    WorkerInv sha256Hex { s with puts := s.puts ++ [p] } := by
  refine ⟨h.cache, fun x hx => ?_, h.waiting, h.replies⟩
  obtain hx | hx := List.mem_append.mp hx
  · exact h.puts x hx
  · rw [List.mem_singleton.mp hx]
    exact hp

theorem WorkerInv.request (hinj : Function.Injective sha256Hex) {req : Request} {now : Nat}
    (h : WorkerInv sha256Hex s) (hstep : workerStep sha256Hex s (.request req now) = some s') :
    WorkerInv sha256Hex s' := by
  unfold workerStep at hstep
  dsimp only at hstep
  split at hstep
  · rename_i hnow
    have hlater := h.mono (List.Subset.refl _) hnow
    split at hstep
    · split at hstep
      · rename_i e hget
        have hstored := hlater.cache _ _ hget
        split at hstep
        · rename_i hfresh
          cases hstep
          refine hlater.reply ⟨fun _ => ?_, fun hmark => by cases hmark⟩
          obtain ⟨hgiven, hat⟩ := hstored.givenFor hinj .hit
          exact ⟨e.cachedAt, hgiven, hat, hfresh⟩
        · cases hstep
          refine hlater.wait fun e' he' => ?_
          cases he'
          exact hstored
      · cases hstep
        exact hlater.wait fun e' he' => by cases he'
    · cases hstep
      exact hlater
  · cases hstep

/-- The waiting request is answered: from the origin, from the entry it found, or not at all. -/
theorem WorkerInv.origin (hinj : Function.Injective sha256Hex) {i : Nat} {now : Nat}
    {outcome : OriginOutcome} (h : WorkerInv sha256Hex s)
    (hstep : workerStep sha256Hex s (.origin i now outcome) = some s') :
    WorkerInv sha256Hex s' := by
  unfold workerStep at hstep
  dsimp only at hstep
  split at hstep
  · rename_i hnow
    split at hstep
    · cases hstep
    · rename_i w hget
      have hlater := h.mono (List.Subset.refl _) hnow
      have hleft : WorkerInv sha256Hex { s with clock := now, waiting := s.waiting.eraseIdx i } :=
        ⟨hlater.cache, hlater.puts, fun x hx => hlater.waiting x (List.mem_of_mem_eraseIdx hx),
          hlater.replies⟩
      have hcached := hlater.waiting w (List.mem_of_getElem? hget)
      split at hstep
      · rename_i e he
        cases hstep
        exact hleft.reply (transparent_stale hinj (hcached e he) rfl)
      · cases hstep
        exact hleft.reply transparent_unmarked
      · rename_i r
        split at hstep
        · rename_i hok
          cases hstep
          have hsub : s.given ⊆ s.given ++ [⟨w.request, r, now⟩] := List.subset_append_left _ _
          have hmore := hleft.mono hsub (le_refl now)
          refine (hmore.putting ?_).reply transparent_miss
          exact ⟨⟨w.request, r, now⟩, List.mem_append_right _ (List.mem_singleton_self _), rfl, hok,
            rfl, le_refl now⟩
        · rename_i hbad
          split at hstep
          · rename_i e he
            cases hstep
            refine hleft.reply (transparent_stale hinj (hcached e he) ?_)
            exact (Bool.not_eq_true' _).mpr (Bool.not_eq_true _ ▸ hbad)
          · cases hstep
            exact hleft.reply transparent_unmarked
  · cases hstep

theorem WorkerInv.put {i : Nat} {ok : Bool} (h : WorkerInv sha256Hex s)
    (hstep : workerStep sha256Hex s (.put i ok) = some s') : WorkerInv sha256Hex s' := by
  unfold workerStep at hstep
  dsimp only at hstep
  obtain ⟨⟨key, e⟩, hput, rfl⟩ := Option.map_eq_some_iff.mp hstep
  have hstored := h.puts _ (List.mem_of_getElem? hput)
  refine ⟨fun k x hx => ?_, fun p hp => h.puts p (List.mem_of_mem_eraseIdx hp), h.waiting, h.replies⟩
  cases ok with
  | false => exact h.cache k x hx
  | true =>
    have hx : (s.cache.set key e).get? k = some x := hx
    rw [KeyMap.get?_set] at hx
    split at hx
    · rename_i hk
      cases hx
      rw [hk]
      exact hstored
    · exact h.cache k x hx

theorem WorkerInv.evict {key : String} (h : WorkerInv sha256Hex s) :
    WorkerInv sha256Hex { s with cache := s.cache.delete key } := by
  refine ⟨fun k x hx => ?_, h.puts, h.waiting, h.replies⟩
  have hx : (s.cache.delete key).get? k = some x := hx
  rw [KeyMap.get?_delete] at hx
  split at hx
  · cases hx
  · exact h.cache k x hx

theorem workerStep_inv (hinj : Function.Injective sha256Hex) {event : WorkerEvent}
    (h : WorkerInv sha256Hex s) (hstep : workerStep sha256Hex s event = some s') :
    WorkerInv sha256Hex s' := by
  cases event with
  | request req now => exact h.request hinj hstep
  | origin i now outcome => exact h.origin hinj hstep
  | put i ok => exact h.put hstep
  | evict key =>
    cases hstep
    exact h.evict

theorem workerInv_start : WorkerInv sha256Hex {} := by
  refine ⟨fun key e hget => ?_, fun p hp => absurd hp List.not_mem_nil,
    fun w hw => absurd hw List.not_mem_nil, fun r hr => absurd hr List.not_mem_nil⟩
  cases hget

/-- Whatever the interleaving, only ok answers are stored; a hit and a stale reply are
the origin's ok answer to a request of the same path and text, a hit one of the last
six hours and a stale one sent when the origin failed. -/
theorem worker_transparent (sha256Hex : String → String) (hinj : Function.Injective sha256Hex)
    (es : List WorkerEvent) (s : Worker) (hrun : runEvents (workerStep sha256Hex) {} es = some s) :
    (∀ reply ∈ s.replies, Transparent s.given reply) ∧
      ∀ key e, s.cache.get? key = some e → ∃ g ∈ s.given,
        cacheKey sha256Hex g.request = key ∧ g.response.ok = true ∧
          e = storedCopy g.response g.givenAt := by
  have hinv := runEvents_invariant (I := fun _ s => WorkerInv sha256Hex s) workerInv_start
    (fun _ _ _ _ _ hm hstep => workerStep_inv hinj hm hstep) es s hrun
  refine ⟨hinv.replies, fun key e hget => ?_⟩
  obtain ⟨g, hg, hkey, hok, hcopy, -⟩ := hinv.cache key e hget
  exact ⟨g, hg, hkey, hok, hcopy⟩

end Worker

/-! ### Callers that share an entry -/

/-- The digest of the empty text, and of other texts something else. -/
def sampleDigest (s : String) : String :=
  if s = "" then "e3b0c44298fc1c149afbf4c8996fb92427ae41e4649b934ca495991b7852b855" else "x" ++ s

theorem sampleDigest_injective : Function.Injective sampleDigest := by
  have hne : ∀ s : String,
      "e3b0c44298fc1c149afbf4c8996fb92427ae41e4649b934ca495991b7852b855" ≠ "x" ++ s := by
    intro s h
    have hhead := congrArg (fun t => t.toList.head?) h
    have hx : "x".toList.head? = some 'x' := by decide
    rw [String.toList_append, List.head?_append, hx, Option.some_or] at hhead
    revert hhead
    decide
  intro s t h
  unfold sampleDigest at h
  by_cases hs : s = ""
  · by_cases ht : t = ""
    · rw [hs, ht]
    · rw [if_pos hs, if_neg ht] at h
      exact absurd h (hne t)
  · by_cases ht : t = ""
    · rw [if_neg hs, if_pos ht] at h
      exact absurd h.symm (hne s)
    · rw [if_neg hs, if_neg ht] at h
      have hlist := congrArg String.toList h
      rw [String.toList_append, String.toList_append] at hlist
      exact String.toList_injective (List.append_cancel_left hlist)

def notesPath : Pathname := ⟨"/rest/v1/notes", by decide⟩

def readNotes : Request where
  method := "GET"
  path := notesPath
  query := "?select=id"
  body := ""
  apikey := some "alice"
  acceptProfile := some "tenant_a"

/-- Another method, another query, another caller and another schema. -/
def deleteNotes : Request where
  method := "DELETE"
  path := notesPath
  query := "?id=eq.1"
  body := ""
  apikey := some "bob"
  acceptProfile := some "tenant_b"

def notes : Response := ⟨200, [], "notes of tenant_a"⟩

/-- One caller's answer is stored, and asked for by another. -/
def sharedEntry : List WorkerEvent :=
  [.request readNotes 1, .origin 0 2 (.answered notes), .put 0 true, .request deleteNotes 3]

/-- The second request is answered with a hit, and the origin never gave that answer
to a request of its method, query or headers. -/
theorem entry_shared : ∃ s reply,
    runEvents (workerStep sampleDigest) {} sharedEntry = some s ∧ reply ∈ s.replies ∧
      reply.request = deleteNotes ∧ reply.mark = some .hit ∧
      reply.response.body = "notes of tenant_a" ∧
      s.given.map (fun g => g.request) = [readNotes] ∧ readNotes.method ≠ deleteNotes.method ∧
      readNotes.query ≠ deleteNotes.query ∧ readNotes.apikey ≠ deleteNotes.apikey ∧
      readNotes.acceptProfile ≠ deleteNotes.acceptProfile := by
  have hrun : (runEvents (workerStep sampleDigest) {} sharedEntry).map (fun s =>
      (s.replies.map fun r => (r.request, r.mark, r.response.body), s.given.map Given.request)) =
      some ([(readNotes, some .miss, "notes of tenant_a"), (deleteNotes, some .hit,
        "notes of tenant_a")], [readNotes]) := by decide
  obtain ⟨s, hs, heq⟩ := Option.map_eq_some_iff.mp hrun
  obtain ⟨hreplies, hgiven⟩ := Prod.mk.inj heq
  have hmem : (deleteNotes, some Mark.hit, "notes of tenant_a") ∈
      s.replies.map fun r => (r.request, r.mark, r.response.body) := by
    rw [hreplies]
    exact List.mem_cons_of_mem _ (List.mem_singleton_self _)
  obtain ⟨reply, hreply, heq⟩ := List.mem_map.mp hmem
  obtain ⟨hrequest, heq⟩ := Prod.mk.inj heq
  obtain ⟨hmark, hbody⟩ := Prod.mk.inj heq
  exact ⟨s, reply, hs, hreply, hrequest, hmark, hbody, hgiven, by decide, by decide, by decide,
    by decide⟩

theorem worker_transparent_shared : ∃ s,
    runEvents (workerStep sampleDigest) {} sharedEntry = some s ∧
      ∀ reply ∈ s.replies, Transparent s.given reply := by
  have hrun : (runEvents (workerStep sampleDigest) {} sharedEntry).isSome := by decide
  obtain ⟨s, hs⟩ := Option.isSome_iff_exists.mp hrun
  exact ⟨s, hs, (worker_transparent sampleDigest sampleDigest_injective sharedEntry s hs).1⟩

end SupabaseLab.CorpusGraph
