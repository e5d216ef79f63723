/-
  EdgeResilience/CacheIsolation.lean --- whose answers the cache serves to whom.

  The cache key is made with the request's headers, but the Cache API looks at those
  only that the stored response's `Vary` names.  Callers are kept apart exactly when
  the origin's answers name enough of them.
-/
import SupabaseLab.EdgeResilience.Worker

set_option autoImplicit false

namespace SupabaseLab.EdgeResilience

open Library

/-! ## What is asked of the worker -/

/-- No standby is configured. -/
def CacheMode (w : Nat → Call) : Prop := ∀ k, (w k).env.failoverMode = false

/-- The origin has given the response to the call. -/
def Answered (w : Nat → Call) (s : Worker) (k : Nat) (r : Response) : Prop :=
  .primary ∈ (s.tasks k).settled ∧ (w k).originFetch .primary = .responded r

def FromCache (r : Response) : Prop :=
  r.headers.get "x-drill-cache" = some "HIT" ∨ r.headers.get "x-drill-cache" = some "STALE"

/-- The origin has produced the body for a request with the same URL and the same
`Authorization` and `apikey`. -/
def OwnAnswer (w : Nat → Call) (s : Worker) (req : Request) (body : String) : Prop :=
  ∃ j r, Answered w s j r ∧ (w j).request.SameUrl req ∧ (w j).request.caller = req.caller ∧
    r.body = body

/-- What comes from the cache is the caller's own. -/
def Isolated (w : Nat → Call) (s : Worker) : Prop :=
  ∀ k r, (s.tasks k).phase = .replied r → FromCache r → OwnAnswer w s (w k).request r.body

/-- Where a request agrees with another one in the URL and in all that the `Vary` of the
other one's answer names, both come from one caller. -/
def Discriminates (w : Nat → Call) : Prop :=
  ∀ i j r, (w i).originFetch .primary = .responded r → r.ok = true → r.Storable →
    (w i).request.SameUrl (w j).request →
    (∀ name ∈ r.vary, (w i).request.headers.get name = (w j).request.headers.get name) →
    (w i).request.caller = (w j).request.caller

/-! ## What the cache holds -/

/-- A copy of an ok answer to the call. -/
def CopyOf (w : Nat → Call) (s : Worker) (k : Nat) (copy : Response) : Prop :=
  ∃ r, Answered w s k r ∧ r.ok = true ∧ copy.status = r.status ∧ copy.body = r.body ∧
    copy.vary = r.vary

/-- In cache mode only the primary is asked, once, and no failure is recorded. -/
structure TaskInv (w : Nat → Call) (s : Worker) (k : Nat) (t : Task) : Prop where
  asking : ∀ o last, t.phase = .asking o last → o = .primary ∧ last = false
  copy : ∀ r, t.copy = some r → CopyOf w s k r
  failure : t.failure = none
  fromCache : ∀ r, t.phase = .replied r → FromCache r →
    ∃ j, (CopyOf w s j r ∧ (w j).request.SameUrl (w k).request ∧
      ∀ name ∈ r.vary, (w j).request.headers.get name = (w k).request.headers.get name) ∧ r.Storable

structure EntryInv (w : Nat → Call) (s : Worker) (e : Entry) : Prop where
  request : e.request = (w e.call).request
  storable : e.response.Storable
  copy : CopyOf w s e.call e.response

structure CacheInv (w : Nat → Call) (s : Worker) : Prop where
  tasks : ∀ k, TaskInv w s k (s.tasks k)
  cache : ∀ e ∈ s.cache, EntryInv w s e
  record : s.record = none

section Invariant

variable {w : Nat → Call} {s s' : Worker} {j k : Nat} {t : Task} {r r' : Response} {e : Entry}

/-- The answers that were given in `s` were given in `s'`. -/
def Later (s s' : Worker) : Prop := ∀ k o, o ∈ (s.tasks k).settled → o ∈ (s'.tasks k).settled

theorem later_setTask (h : ∀ o, o ∈ (s.tasks k).settled → o ∈ t.settled) :
    Later s (s.setTask k t) := by
  intro j o ho
  by_cases hj : j = k
  · subst hj
    rw [Worker.setTask_tasks_self]
    exact h o ho
  · rwa [Worker.setTask_tasks_of_ne _ _ hj]

theorem CopyOf.later (h : CopyOf w s k r) (hlater : Later s s') : CopyOf w s' k r := by
  obtain ⟨r', ⟨hsettled, hfetch⟩, hrest⟩ := h
  exact ⟨r', ⟨hlater _ _ hsettled, hfetch⟩, hrest⟩

theorem TaskInv.later (h : TaskInv w s k t) (hlater : Later s s') : TaskInv w s' k t where
  asking := h.asking
  copy r hr := (h.copy r hr).later hlater
  failure := h.failure
  fromCache r hr hfrom := by
    obtain ⟨j, ⟨hcopy, hrest⟩, hstorable⟩ := h.fromCache r hr hfrom
    exact ⟨j, ⟨hcopy.later hlater, hrest⟩, hstorable⟩

theorem EntryInv.later (h : EntryInv w s e) (hlater : Later s s') : EntryInv w s' e :=
  ⟨h.request, h.storable, h.copy.later hlater⟩

/-- A step of one call, which leaves the record and adds nothing to the cache. -/
theorem CacheInv.setTask (h : CacheInv w s) (htasks : s'.tasks = s.tasks)
    (hcache : s'.cache ⊆ s.cache) (hrecord : s'.record = s.record)
    (hsettled : ∀ o, o ∈ (s.tasks k).settled → o ∈ t.settled)
    (ht : Later s (s'.setTask k t) → TaskInv w (s'.setTask k t) k t) :
    CacheInv w (s'.setTask k t) := by
  have hlater : Later s (s'.setTask k t) := by
    intro j o ho
    refine later_setTask (s := s') ?_ j o (by rwa [htasks])
    rwa [htasks]
  refine ⟨fun j => ?_, fun e he => (h.cache e (hcache he)).later hlater, ?_⟩
  · by_cases hj : j = k
    · subst hj
      rw [Worker.setTask_tasks_self]
      exact ht hlater
    · rw [Worker.setTask_tasks_of_ne _ _ hj, htasks]
      exact (h.tasks j).later hlater
  · rw [Worker.setTask_record, hrecord, h.record]

/-- A response that is not tagged as from the cache. -/
theorem not_fromCache {tag : String} (h : r.headers.get "x-drill-cache" = some tag)
    (hhit : tag ≠ "HIT") (hstale : tag ≠ "STALE") : ¬ FromCache r := by
  rintro (hget | hget)
  · exact hhit (Option.some.inj (h.symm.trans hget))
  · exact hstale (Option.some.inj (h.symm.trans hget))

/-- Storing asks for the status and the `Vary` only. -/
theorem storable_congr (hstatus : r'.status = r.status) (hvary : r'.vary = r.vary) :
    r'.Storable ↔ r.Storable := by
  unfold Response.Storable
  rw [hstatus, hvary]

/-- What is served from an entry that matches the request. -/
theorem TaskInv.reply_entry {tag : String} (h : TaskInv w s k t) (hlater : Later s s')
    (he : EntryInv w s e) (hmatch : e.Matches (w k).request) :
    TaskInv w s' k (t.reply (withTag e.response tag none)) := by
  have hself := h.later hlater
  cases htag : withTag e.response tag none with
  | none => exact ⟨by simp [Task.reply], hself.copy, hself.failure, by simp [Task.reply]⟩
  | some r =>
    have htagged := tagged_of_withTag htag
    refine ⟨by simp [Task.reply], hself.copy, hself.failure, ?_⟩
    intro r' hr' _
    cases hr'
    obtain ⟨r₀, hanswered, hok, hstatus, hbody, hvary⟩ := he.copy.later hlater
    refine ⟨e.call, ⟨⟨r₀, hanswered, hok, htagged.status.trans hstatus, htagged.body.trans hbody,
      htagged.vary.trans hvary⟩, ?_, ?_⟩, ?_⟩
    · rw [← he.request]
      exact hmatch.1
    · rw [htagged.vary, ← he.request]
      exact hmatch.2
    · exact (storable_congr htagged.status htagged.vary).mpr he.storable

/-- What the handler makes of the origin's answer. -/
theorem taskInv_finish (h : TaskInv w s k t) (hanswered : Answered w s k r) (o : Origin) :
    TaskInv w s k (finish t r o) := by
  unfold finish
  split
  · next hok =>
    obtain ⟨tagged, htag⟩ := withTag_of_servable "MISS" (some o.name) (Response.servable_of_ok hok)
    have htagged := tagged_of_withTag htag
    dsimp only
    rw [htag]
    refine ⟨by simp [Task.reply], ?_, h.failure, ?_⟩
    · rintro copy ⟨⟩
      exact ⟨r, hanswered, hok, htagged.status, htagged.body,
        (vary_storedCopy tagged).trans htagged.vary⟩
    · rintro r' ⟨⟩ hfrom
      exact absurd hfrom (not_fromCache htagged.cacheTag (by decide) (by decide))
  · cases htag : withTag r "PASS" (some o.name) with
    | none => exact ⟨by simp [Task.reply], h.copy, h.failure, by simp [Task.reply]⟩
    | some tagged =>
      refine ⟨by simp [Task.reply], h.copy, h.failure, ?_⟩
      rintro r' ⟨⟩ hfrom
      exact absurd hfrom (not_fromCache (tagged_of_withTag htag).cacheTag (by decide) (by decide))

/-- A task in a phase in which nothing is asked and nothing served. -/
theorem TaskInv.move {phase : Phase} {chose : Option (Nat × Nat)} {asked settled : List Origin}
    (h : TaskInv w s k t) (hasking : ∀ o last, phase = .asking o last → o = .primary ∧ last = false)
    (hreplied : ∀ r, phase ≠ .replied r) :
    TaskInv w s k ⟨phase, t.copy, t.failure, asked, settled, chose⟩ :=
  ⟨hasking, h.copy, h.failure, fun r hr => absurd hr (hreplied r)⟩

theorem taskInv_settles {now : Nat} {t' : Task} (hmode : (w k).env.failoverMode = false)
    (h : TaskInv w s k t) (hsettled : .primary ∈ (s.tasks k).settled)
    (ht' : Settles (w k) t now .primary false t') : TaskInv w s k t' := by
  cases ht' with
  | finish hfetch hserve =>
    have hmoved : TaskInv w s k (t.settle .primary) :=
      ⟨h.asking, h.copy, h.failure, h.fromCache⟩
    exact taskInv_finish hmoved ⟨hsettled, hfetch⟩ _
  | reject hlast hfetch => cases hlast
  | toPrimary hlast ho hfailed => cases ho
  | toStandby hlast ho hfailed hfailover =>
    rw [hmode] at hfailover
    cases hfailover
  | reread hlast ho hfailed hmode => exact h.move (by simp) (by simp)

theorem settled_reply (o : Option Response) : (t.reply o).settled = t.settled := by
  cases o <;> rfl

theorem cacheInv_init : CacheInv w {} :=
  ⟨fun _ => ⟨by simp, by simp, rfl, by simp⟩, by simp, rfl⟩

theorem cacheInv_step {e : Event} (hmode : CacheMode w) (h : CacheInv w s)
    (hstep : workerStep w s e = some s') : CacheInv w s' := by
  cases workerStep_moves hstep with
  | @hit k e hphase hcache hmatch =>
    obtain ⟨hmem, hmatches⟩ := Worker.of_match? hmatch
    refine h.setTask rfl (List.Subset.refl _) rfl (fun o ho => by rwa [settled_reply]) fun hlater => ?_
    exact (h.tasks k).reply_entry hlater (h.cache e hmem) hmatches
  | @miss k hphase hmatch =>
    refine h.setTask rfl (List.Subset.refl _) rfl (fun _ ho => ho) fun hlater => ?_
    exact ((h.tasks k).later hlater).move (by simp) (by simp)
  | @look k hphase =>
    refine h.setTask rfl (List.Subset.refl _) rfl (fun _ ho => ho) fun hlater => ?_
    exact ((h.tasks k).later hlater).move (by simp) (by simp)
  | @decide k now last hclock hphase =>
    refine h.setTask rfl (List.Subset.refl _) rfl (fun _ ho => ho) fun hlater => ?_
    have hholds : (w k).env.holds now last = false := by
      unfold Env.holds
      rw [hmode k, Bool.false_and]
    rw [hholds, if_neg Bool.false_ne_true] at hlater ⊢
    refine ((h.tasks k).later hlater).move ?_ (by simp)
    rintro o last ⟨⟩
    exact ⟨rfl, rfl⟩
  | @settle k now o last hclock hphase =>
    obtain ⟨rfl, rfl⟩ := (h.tasks k).asking o last hphase
    refine h.setTask rfl (List.Subset.refl _) rfl ?_ fun hlater => ?_
    · intro o ho
      rw [(afterFetch_settles (w k) _ now _ _).settled]
      exact List.mem_append_left _ ho
    · refine taskInv_settles (hmode k) ((h.tasks k).later hlater) ?_ (afterFetch_settles _ _ now _ _)
      rw [Worker.setTask_tasks_self, (afterFetch_settles (w k) _ now _ _).settled]
      exact List.mem_append_right _ (List.mem_singleton.mpr rfl)
  | @stale k e hphase hmatch =>
    obtain ⟨hmem, hmatches⟩ := Worker.of_match? hmatch
    refine h.setTask rfl (List.Subset.refl _) rfl (fun o ho => by rwa [settled_reply]) fun hlater => ?_
    exact (h.tasks k).reply_entry hlater (h.cache e hmem) hmatches
  | @empty k hphase hmatch =>
    refine h.setTask rfl (List.Subset.refl _) rfl (fun _ ho => ho) fun hlater => ?_
    have hself := (h.tasks k).later hlater
    refine ⟨by simp [Task.reply], hself.copy, hself.failure, ?_⟩
    rintro r ⟨⟩ hfrom
    exact absurd hfrom (by unfold FromCache; decide)
  | @put k r hcopy =>
    have hcleared : CacheInv w (s.setTask k { s.tasks k with copy := none }) :=
      h.setTask rfl (List.Subset.refl _) rfl (fun _ ho => ho) fun hlater => by
        have hself := (h.tasks k).later hlater
        exact ⟨hself.asking, by simp, hself.failure, hself.fromCache⟩
    have hlater : Later s ((s.store ⟨k, (w k).request, r⟩).setTask k { s.tasks k with copy := none }) := by
      intro j o ho
      refine later_setTask ?_ j o (by rwa [Worker.store_tasks])
      rw [Worker.store_tasks]
      exact fun _ ho => ho
    refine ⟨fun j => ?_, fun e he => ?_, (Worker.store_record _ _).trans h.record⟩
    · have hj := hcleared.tasks j
      have hsame : ((s.store ⟨k, (w k).request, r⟩).setTask k { s.tasks k with copy := none }).tasks =
          (s.setTask k { s.tasks k with copy := none }).tasks := by
        unfold Worker.setTask
        rw [Worker.store_tasks]
      rw [hsame]
      exact hj.later fun i o ho => by rwa [hsame]
    · obtain hold | ⟨rfl, hstorable⟩ := Worker.mem_store he
      · exact (h.cache e hold).later hlater
      · exact ⟨rfl, hstorable, ((h.tasks k).copy r hcopy).later hlater⟩
  | @putFailure k time hfailure =>
    rw [(h.tasks k).failure] at hfailure
    cases hfailure
  | @evict k =>
    have hlater : Later s { s with cache := s.cache.filter fun e => e.call ≠ k } := fun _ _ ho => ho
    exact ⟨fun j => (h.tasks j).later hlater,
      fun e he => (h.cache e (List.mem_filter.mp he).1).later hlater, h.record⟩
  | evictFailure =>
    have hlater : Later s { s with record := none } := fun _ _ ho => ho
    exact ⟨fun j => (h.tasks j).later hlater, fun e he => (h.cache e he).later hlater, rfl⟩

theorem cacheInv_run (hmode : CacheMode w) (es : List Event)
    (hrun : runEvents (workerStep w) {} es = some s) : CacheInv w s :=
  runEvents_invariant (I := fun _ => CacheInv w) cacheInv_init
    (fun _ _ _ _ _ hinv hstep => cacheInv_step hmode hinv hstep) es s hrun

/-- A request that agrees with a copy's `Vary` comes from the caller whose copy it is. -/
theorem CopyOf.caller_eq (hdisc : Discriminates w) (h : CopyOf w s j r) (hstorable : r.Storable)
    (hurl : (w j).request.SameUrl (w k).request)
    (hvary : ∀ name ∈ r.vary, (w j).request.headers.get name = (w k).request.headers.get name) :
    (w j).request.caller = (w k).request.caller := by
  obtain ⟨r₀, ⟨-, hfetch⟩, hok, hstatus, -, heq⟩ := h
  refine hdisc j k r₀ hfetch hok ((storable_congr hstatus heq).mp hstorable) hurl ?_
  rwa [← heq]

theorem isolated_of_discriminates (hdisc : Discriminates w) (h : CacheInv w s) : Isolated w s := by
  intro k r hreplied hfrom
  obtain ⟨j, ⟨hcopy, hurl, hvary⟩, hstorable⟩ := (h.tasks k).fromCache r hreplied hfrom
  have hcaller := hcopy.caller_eq hdisc hstorable hurl hvary
  obtain ⟨r₀, hanswered, -, -, hbody, -⟩ := hcopy
  exact ⟨j, r₀, hanswered, hurl, hcaller, hbody.symm⟩

end Invariant

/-! ## A leak, where the answers do not discriminate -/

section Leak

variable {w : Nat → Call} {i j : Nat} {r : Response}

/-- One call is answered and its copy stored; then the other one comes. -/
def leak (i j : Nat) : List Event :=
  [.arrive i, .look i, .decide i 0, .settle i 0, .put i, .arrive j]

/-- The copy that the cache holds of an ok answer. -/
theorem exists_finish (t : Task) (o : Origin) (hok : r.ok = true) :
    ∃ tagged, withTag r "MISS" (some o.name) = some tagged ∧
      finish t r o = { t with phase := .replied tagged, copy := some (storedCopy tagged) } := by
  obtain ⟨tagged, htag⟩ := withTag_of_servable "MISS" (some o.name) (Response.servable_of_ok hok)
  refine ⟨tagged, htag, ?_⟩
  unfold finish
  rw [if_pos hok]
  dsimp only
  rw [htag]
  rfl

theorem isFailure_of_ok (env : Env) (hok : r.ok = true) : isFailure env r = false := by
  unfold isFailure
  rw [hok, Bool.not_true, Bool.and_false, Bool.or_false]
  unfold Response.ok at hok
  rw [Bool.and_eq_true, decide_eq_true_eq, decide_eq_true_eq] at hok
  simp only [Bool.or_eq_false_iff, decide_eq_false_iff_not]
  omega

/-- The second caller is served the first one's body. -/
theorem leak_serves (hmode : CacheMode w) (hne : i ≠ j)
    (hfetch : (w i).originFetch .primary = .responded r) (hok : r.ok = true) (hstorable : r.Storable)
    (hurl : (w i).request.SameUrl (w j).request)
    (hvary : ∀ name ∈ r.vary, (w i).request.headers.get name = (w j).request.headers.get name) :
    ∃ s served, runEvents (workerStep w) {} (leak i j) = some s ∧
      (s.tasks j).phase = .replied served ∧ FromCache served ∧ served.body = r.body ∧
      ∀ k, .primary ∈ (s.tasks k).settled → k = i := by
  obtain ⟨tagged, htag, hfinish⟩ := exists_finish
    ⟨.asking .primary false, none, none, [.primary], [.primary], some (0, 0)⟩ .primary hok
  have htagged := tagged_of_withTag htag
  have hcopyOk : (storedCopy tagged).Servable := by
    unfold Response.Servable storedCopy
    dsimp only
    rw [htagged.status]
    exact htagged.servable
  obtain ⟨served, hserved⟩ := withTag_of_servable "HIT" none hcopyOk
  have hservedTagged := tagged_of_withTag hserved
  have hcopyVary : (storedCopy tagged).vary = r.vary := (vary_storedCopy tagged).trans htagged.vary
  have hcopyStatus : (storedCopy tagged).status = r.status := htagged.status
  have hcopyStorable : (storedCopy tagged).Storable :=
    (storable_congr hcopyStatus hcopyVary).mpr hstorable
  have hmatches : (⟨i, (w i).request, storedCopy tagged⟩ : Entry).Matches (w j).request :=
    ⟨hurl, by rwa [hcopyVary]⟩
  have hholds : (w i).env.holds 0 0 = false := by
    unfold Env.holds
    rw [hmode i, Bool.false_and]
  have hfirst : runEvents (workerStep w) {} [.arrive i, .look i, .decide i 0, .settle i 0, .put i] =
      some { tasks := Function.update (fun _ => {}) i
               ⟨.replied tagged, none, none, [.primary], [.primary], some (0, 0)⟩
             cache := [⟨i, (w i).request, storedCopy tagged⟩] } := by
    simp [runEvents_cons, workerStep, Worker.setTask, hmode i, Worker.match?, hholds, afterFetch, hfetch,
      isFailure_of_ok _ hok, hfinish, Worker.store, Task.ask, hcopyStorable]
  refine ⟨_, served, runEvents_concat.mpr ⟨_, hfirst, Moves.step
    (.hit (e := ⟨i, (w i).request, storedCopy tagged⟩) ?_ (hmode j) ?_)⟩, ?_, .inl hservedTagged.cacheTag, hservedTagged.body.trans htagged.body, ?_⟩
  · simp [Function.update_of_ne hne.symm]
  · simp [Worker.match?, hmatches]
  · simp [hserved, Task.reply]
  · intro k hk
    by_contra hki
    by_cases hkj : k = j
    · subst hkj
      simp [settled_reply, Function.update_of_ne hki] at hk
    · simp [Worker.setTask_tasks_of_ne _ _ hkj, Function.update_of_ne hki] at hk

/-- Callers that are kept apart in every run have answers that discriminate. -/
theorem discriminates_of_isolated (hmode : CacheMode w)
    (h : ∀ es s, runEvents (workerStep w) {} es = some s → Isolated w s) : Discriminates w := by
  intro i j r hfetch hok hstorable hurl hvary
  by_cases hij : i = j
  · rw [hij]
  · obtain ⟨s, served, hrun, hreplied, hfrom, -, honly⟩ :=
      leak_serves hmode hij hfetch hok hstorable hurl hvary
    obtain ⟨k, r', ⟨hsettled, -⟩, -, hcaller, -⟩ := h _ s hrun j served hreplied hfrom
    rwa [honly k hsettled] at hcaller

end Leak

/-! ## Two runs -/

/-- Not of the caller. -/
def Off (w : Nat → Call) (b : Option String × Option String) (k : Nat) : Prop :=
  (w k).request.caller ≠ b

instance (w : Nat → Call) (b : Option String × Option String) (k : Nat) : Decidable (Off w b k) :=
  inferInstanceAs (Decidable (_ ≠ _))

/-- The events that are not of the caller's calls. -/
def offEvents (w : Nat → Call) (b : Option String × Option String) (es : List Event) : List Event :=
  es.filter fun e => e.call.all fun k => Off w b k

/-- `t` is `s` without what the caller's calls have left. -/
structure Without (w : Nat → Call) (b : Option String × Option String) (s t : Worker) : Prop where
  clock : t.clock ≤ s.clock
  tasks : ∀ k, Off w b k → t.tasks k = s.tasks k
  cache : t.cache = s.cache.filter fun e => Off w b e.call
  record : t.record = s.record

section Purge

variable {w w' : Nat → Call} {b : Option String × Option String} {s s' t : Worker} {k : Nat}
  {e : Entry} {x : Task} {ev : Event}

/-- Entries that match a request are of its caller. -/
theorem caller_of_matches (hdisc : Discriminates w) (hinv : CacheInv w s) (he : e ∈ s.cache)
    (hmatches : e.Matches (w k).request) : (w e.call).request.caller = (w k).request.caller := by
  obtain ⟨hurl, hvary⟩ := hmatches
  have hentry := hinv.cache e he
  rw [hentry.request] at hurl hvary
  exact hentry.copy.caller_eq hdisc hentry.storable hurl hvary

theorem Without.match? (hdisc : Discriminates w) (hinv : CacheInv w s) (h : Without w b s t)
    (hoff : Off w b k) : t.match? (w k).request = s.match? (w k).request := by
  unfold Worker.match?
  rw [h.cache, List.find?_filter]
  refine List.find?_congr fun e he => ?_
  by_cases hmatches : e.Matches (w k).request
  · have : Off w b e.call := by
      unfold Off
      rwa [caller_of_matches hdisc hinv he hmatches]
    simp [hmatches, this]
  · simp [hmatches]

/-- A step of a call that is not the caller's. -/
theorem Without.setTask (h : Without w b s t) : Without w b (s.setTask k x) (t.setTask k x) := by
  refine ⟨h.clock, fun j hj => ?_, h.cache, h.record⟩
  by_cases hjk : j = k
  · subst hjk
    rw [Worker.setTask_tasks_self, Worker.setTask_tasks_self]
  · rw [Worker.setTask_tasks_of_ne _ _ hjk, Worker.setTask_tasks_of_ne _ _ hjk, h.tasks j hj]

/-- A step of the caller's call. -/
theorem Without.setTask_caller (h : Without w b s t) (hk : ¬ Off w b k) :
    Without w b (s.setTask k x) t := by
  refine ⟨h.clock, fun j hj => ?_, h.cache, h.record⟩
  have hjk : j ≠ k := by
    rintro rfl
    exact hk hj
  rw [Worker.setTask_tasks_of_ne _ _ hjk, h.tasks j hj]

theorem Without.tick (h : Without w b s t) {now : Nat} :
    Without w b { s with clock := now } { t with clock := now } :=
  ⟨le_refl _, h.tasks, h.cache, h.record⟩

theorem Without.tick_caller (h : Without w b s t) {now : Nat} (hclock : s.clock ≤ now) :
    Without w b { s with clock := now } t :=
  ⟨h.clock.trans hclock, h.tasks, h.cache, h.record⟩

theorem Without.store (h : Without w b s t) (hoff : Off w b e.call) :
    Without w b (s.store e) (t.store e) := by
  unfold Worker.store
  split
  · refine ⟨h.clock, h.tasks, ?_, h.record⟩
    dsimp only
    rw [h.cache, List.filter_append, List.filter_cons_of_pos (by simpa using hoff), List.filter_nil,
      List.filter_filter, List.filter_filter]
    simp only [Bool.and_comm]
  · exact h

/-- The caller's copy replaces the caller's entries only. -/
theorem Without.store_caller (hdisc : Discriminates w) (hinv : CacheInv w s) (h : Without w b s t)
    (hcaller : ¬ Off w b e.call) (hrequest : e.request = (w e.call).request) :
    Without w b (s.store e) t := by
  unfold Worker.store
  split
  · refine ⟨h.clock, h.tasks, ?_, h.record⟩
    dsimp only
    rw [h.cache, List.filter_append, List.filter_cons_of_neg (by simpa using hcaller),
      List.filter_nil, List.append_nil, List.filter_filter]
    refine List.filter_congr fun old hold => ?_
    by_cases hmatches : old.Matches e.request
    · rw [hrequest] at hmatches
      have hsame := caller_of_matches hdisc hinv hold hmatches
      have hold : ¬ Off w b old.call := by
        unfold Off at hcaller ⊢
        rwa [hsame]
      simp [hold]
    · simp [hmatches]
  · exact h

/-- A step of another call is taken without the caller's calls just as well. -/
theorem Without.step_off (hdisc : Discriminates w) (hinv : CacheInv w s)
    (h : Without w b s t) (hoff : ∀ k, ev.call = some k → Off w b k)
    (hstep : workerStep w s ev = some s') :
    ∃ t', workerStep w t ev = some t' ∧ Without w b s' t' := by
  cases workerStep_moves hstep with
  | @hit k e hphase hcache hmatch =>
    have hk := hoff k rfl
    have htask := h.tasks k hk
    refine ⟨_, Moves.step (.hit (e := e) (by rwa [htask]) hcache ?_), ?_⟩
    · rwa [h.match? hdisc hinv hk]
    · rw [htask]
      exact h.setTask
  | @miss k hphase hmatch =>
    have hk := hoff k rfl
    have htask := h.tasks k hk
    refine ⟨_, Moves.step (.miss (by rwa [htask]) ?_), ?_⟩
    · rwa [h.match? hdisc hinv hk]
    · rw [htask]
      exact h.setTask
  | @look k hphase =>
    have htask := h.tasks k (hoff k rfl)
    refine ⟨_, Moves.step (.look (by rwa [htask])), ?_⟩
    rw [htask, h.record]
    exact h.setTask
  | @decide k now last hclock hphase =>
    have htask := h.tasks k (hoff k rfl)
    refine ⟨_, Moves.step (.decide (h.clock.trans hclock) (htask ▸ hphase)), ?_⟩
    rw [htask]
    exact h.tick.setTask
  | @settle k now o last hclock hphase =>
    have htask := h.tasks k (hoff k rfl)
    refine ⟨_, Moves.step (.settle (h.clock.trans hclock) (htask ▸ hphase)), ?_⟩
    rw [htask]
    exact h.tick.setTask
  | @stale k e hphase hmatch =>
    have hk := hoff k rfl
    have htask := h.tasks k hk
    refine ⟨_, Moves.step (.stale (e := e) (by rwa [htask]) ?_), ?_⟩
    · rwa [h.match? hdisc hinv hk]
    · rw [htask]
      exact h.setTask
  | @empty k hphase hmatch =>
    have hk := hoff k rfl
    have htask := h.tasks k hk
    refine ⟨_, Moves.step (.empty (by rwa [htask]) ?_), ?_⟩
    · rwa [h.match? hdisc hinv hk]
    · rw [htask]
      exact h.setTask
  | @put k r hcopy =>
    have hk := hoff k rfl
    have htask := h.tasks k hk
    refine ⟨_, Moves.step (.put (r := r) (by rwa [htask])), ?_⟩
    rw [htask]
    exact (h.store hk).setTask
  | @putFailure k time hfailure =>
    rw [(hinv.tasks k).failure] at hfailure
    cases hfailure
  | @evict k =>
    refine ⟨_, Moves.step .evict, ?_⟩
    refine ⟨h.clock, h.tasks, ?_, h.record⟩
    dsimp only
    rw [h.cache, List.filter_filter, List.filter_filter]
    simp only [Bool.and_comm]
  | evictFailure => exact ⟨_, Moves.step .evictFailure, h.clock, h.tasks, h.cache, rfl⟩

/-- A step of the caller's call leaves no trace outside. -/
theorem Without.step_caller (hdisc : Discriminates w) (hinv : CacheInv w s)
    (h : Without w b s t) (hk : ev.call = some k) (hcaller : ¬ Off w b k)
    (hstep : workerStep w s ev = some s') : Without w b s' t := by
  cases workerStep_moves hstep with
  | hit hphase hcache hmatch =>
    cases hk
    exact h.setTask_caller hcaller
  | miss hphase hmatch =>
    cases hk
    exact h.setTask_caller hcaller
  | look hphase =>
    cases hk
    exact h.setTask_caller hcaller
  | decide hclock hphase =>
    cases hk
    exact (h.tick_caller hclock).setTask_caller hcaller
  | settle hclock hphase =>
    cases hk
    exact (h.tick_caller hclock).setTask_caller hcaller
  | stale hphase hmatch =>
    cases hk
    exact h.setTask_caller hcaller
  | empty hphase hmatch =>
    cases hk
    exact h.setTask_caller hcaller
  | put hcopy =>
    cases hk
    exact (h.store_caller hdisc hinv hcaller rfl).setTask_caller hcaller
  | @putFailure j time hfailure =>
    rw [(hinv.tasks j).failure] at hfailure
    cases hfailure
  | evict =>
    cases hk
    refine ⟨h.clock, h.tasks, ?_, h.record⟩
    dsimp only
    rw [h.cache, List.filter_filter]
    refine List.filter_congr fun e _ => ?_
    by_cases he : e.call = k
    · subst he
      simp [hcaller]
    · simp [he]
  | evictFailure => cases hk

/-- The run without the caller's events. -/
theorem without_run (hmode : CacheMode w) (hdisc : Discriminates w) (es : List Event) (s : Worker)
    (hrun : runEvents (workerStep w) {} es = some s) :
    ∃ t, runEvents (workerStep w) {} (offEvents w b es) = some t ∧ Without w b s t := by
  induction es using List.reverseRecOn generalizing s with
  | nil =>
    cases hrun
    exact ⟨_, rfl, le_refl _, fun _ _ => rfl, rfl, rfl⟩
  | append_singleton es ev ih =>
    obtain ⟨m, hm, hlast⟩ := runEvents_concat.mp hrun
    have hinv := cacheInv_run hmode es hm
    obtain ⟨t, ht, hwithout⟩ := ih m hm
    by_cases hoff : ∀ k, ev.call = some k → Off w b k
    · have hevents : offEvents w b (es ++ [ev]) = offEvents w b es ++ [ev] := by
        unfold offEvents
        rw [List.filter_append, List.filter_cons_of_pos, List.filter_nil]
        simpa [Option.all_eq_true] using hoff
      obtain ⟨t', ht', hwithout'⟩ := hwithout.step_off hdisc hinv hoff hlast
      rw [hevents]
      exact ⟨t', runEvents_concat.mpr ⟨t, ht, ht'⟩, hwithout'⟩
    · obtain ⟨k, hk, hcaller⟩ : ∃ k, ev.call = some k ∧ ¬ Off w b k := by
        simpa only [not_forall, exists_prop] using hoff
      have hevents : offEvents w b (es ++ [ev]) = offEvents w b es := by
        unfold offEvents
        rw [List.filter_append, List.filter_cons_of_neg, List.filter_nil, List.append_nil]
        simp [hk, hcaller]
      rw [hevents]
      exact ⟨t, ht, hwithout.step_caller hdisc hinv hk hcaller hlast⟩

/-- Events of calls that are the same in both worlds do the same. -/
theorem runEvents_congr (hsame : ∀ k, Off w b k → w' k = w k) (es : List Event) (s : Worker) :
    runEvents (workerStep w') s (offEvents w b es) = runEvents (workerStep w) s (offEvents w b es) := by
  have hstep : ∀ ev, (∀ k, ev.call = some k → Off w b k) → ∀ s,
      workerStep w' s ev = workerStep w s ev := by
    intro ev hoff s
    cases ev with
    | evictFailure => rfl
    | _ => simp only [workerStep, hsame _ (hoff _ rfl)]
  unfold offEvents
  induction es generalizing s with
  | nil => rfl
  | cons ev es ih =>
    by_cases hoff : ∀ k, ev.call = some k → Off w b k
    · rw [List.filter_cons_of_pos (by simpa [Option.all_eq_true] using hoff), runEvents_cons,
        runEvents_cons, hstep ev hoff s]
      simp only [ih]
    · rw [List.filter_cons_of_neg (by simpa [Option.all_eq_true] using hoff), ih]

/-- Two worlds that differ only in what the origin answers to the caller. -/
structure SameBut (w w' : Nat → Call) (b : Option String × Option String) : Prop where
  off : ∀ k, Off w b k → w' k = w k
  request : ∀ k, (w' k).request = (w k).request

theorem SameBut.off_iff (h : SameBut w w' b) (k : Nat) : Off w' b k ↔ Off w b k := by
  unfold Off
  rw [h.request]

theorem noninterference (hmode : CacheMode w) (hmode' : CacheMode w') (hdisc : Discriminates w)
    (hdisc' : Discriminates w') (hsame : SameBut w w' b) {es es' : List Event}
    (hes : offEvents w b es = offEvents w b es')
    (hrun : runEvents (workerStep w) {} es = some s)
    (hrun' : runEvents (workerStep w') {} es' = some s') (hk : Off w b k) :
    (s.tasks k).phase = (s'.tasks k).phase := by
  obtain ⟨t, ht, hwithout⟩ := without_run (b := b) hmode hdisc es s hrun
  obtain ⟨t', ht', hwithout'⟩ := without_run (b := b) hmode' hdisc' es' s' hrun'
  have hoff : offEvents w' b es' = offEvents w b es' :=
    List.filter_congr fun ev _ => by
      cases ev.call with
      | none => rfl
      | some j => exact decide_eq_decide.mpr (hsame.off_iff j)
  rw [hoff, ← hes, runEvents_congr hsame.off, ht] at ht'
  cases ht'
  rw [← hwithout.tasks k hk, hwithout'.tasks k ((hsame.off_iff k).mpr hk)]

end Purge

/-! ## Isolation -/

/-- Callers are kept apart in every run exactly when the origin's answers discriminate, and
then no caller sees what the origin answers to another one. -/
theorem cache_isolation_iff (w : Nat → Call) (hmode : CacheMode w) :
    (Discriminates w ↔ ∀ es s, runEvents (workerStep w) {} es = some s → Isolated w s) ∧
      ∀ w' b, CacheMode w' → Discriminates w → Discriminates w' → SameBut w w' b →
        ∀ es es' s s', offEvents w b es = offEvents w b es' →
          runEvents (workerStep w) {} es = some s → runEvents (workerStep w') {} es' = some s' →
          ∀ k, Off w b k → (s.tasks k).phase = (s'.tasks k).phase := by
  refine ⟨⟨fun hdisc es s hrun => ?_, discriminates_of_isolated hmode⟩, ?_⟩
  · exact isolated_of_discriminates hdisc (cacheInv_run hmode es hrun)
  · intro w' b hmode' hdisc hdisc' hsame es es' s s' hes hrun hrun' k hk
    exact noninterference hmode hmode' hdisc hdisc' hsame hes hrun hrun' hk

/-- Two callers ask for one URL; the origin's answers name no header in `Vary`. -/
def sharedUrl (k : Nat) : Call where
  request :=
    { pathname := "/rest/v1/w_probe"
      search := "?select=id"
      headers := [("authorization", if k = 0 then "Bearer a" else "Bearer b"), ("apikey", "anon")]
      cacheable := List.prefix_refl _ }
  env := { upstream := "https://primary.example" }
  fetch _ _ := .responded ⟨200, [("content-type", "application/json")],
    if k = 0 then "[\x7b\"id\":1\x7d]" else "[\x7b\"id\":2\x7d]"⟩

/-- The second caller is served what the origin answered to the first one. -/
theorem served_another_callers_rows : CacheMode sharedUrl ∧
    ∃ s, runEvents (workerStep sharedUrl) {} (leak 0 1) = some s ∧ ¬ Isolated sharedUrl s := by
  have hmode : CacheMode sharedUrl := fun _ => rfl
  refine ⟨hmode, ?_⟩
  obtain ⟨s, served, hrun, hreplied, hfrom, -, honly⟩ :=
    leak_serves (w := sharedUrl) (i := 0) (j := 1) hmode (by decide) rfl (by decide) (by decide)
      (by decide) (by decide)
  refine ⟨s, hrun, fun hisolated => ?_⟩
  obtain ⟨k, r, ⟨hsettled, -⟩, -, hcaller, -⟩ := hisolated 1 served hreplied hfrom
  rw [honly k hsettled] at hcaller
  exact absurd hcaller (by decide)

/-- The same callers, where the origin names both headers. -/
def keptApart (k : Nat) : Call :=
  { sharedUrl k with
    fetch := fun _ _ => .responded ⟨200, [("vary", "Authorization, apikey")], toString k⟩ }

theorem keptApart_isolated : CacheMode keptApart ∧
    ∀ es s, runEvents (workerStep keptApart) {} es = some s → Isolated keptApart s := by
  have hmode : CacheMode keptApart := fun _ => rfl
  have hdisc : Discriminates keptApart := by
    rintro i j r ⟨⟩ _ _ _ hvary
    have hauth : "authorization" ∈ Response.vary ⟨200, [("vary", "Authorization, apikey")], ""⟩ := by
      decide
    have hapikey : "apikey" ∈ Response.vary ⟨200, [("vary", "Authorization, apikey")], ""⟩ := by
      decide
    exact Prod.ext (hvary _ hauth) (hvary _ hapikey)
  exact ⟨hmode, (cache_isolation_iff keptApart hmode).1.mp hdisc⟩

end SupabaseLab.EdgeResilience
