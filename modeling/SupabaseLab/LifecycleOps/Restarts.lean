/-
  LifecycleOps/Restarts.lean --- the restarts of many episodes.

  Episodes share one history.  Within an episode a POST is decided by a sample
  and sent later in the same round, so along a monotone clock the guard rails
  that held for the sample hold for the POST too.
-/
import SupabaseLab.Library.RateLimit
import SupabaseLab.LifecycleOps.Episode

set_option autoImplicit false

namespace SupabaseLab.LifecycleOps

open Library

/-! ## The clock -/

/-- When a sample was taken or a POST sent. -/
def Event.time? : Event → Option Int
  | .sample o => some o.atMs
  | .post atMs _ => some atMs
  | _ => none

def times (trace : List Event) : List Int := trace.filterMap Event.time?

@[simp] theorem times_append (tr tr' : List Event) : times (tr ++ tr') = times tr ++ times tr' :=
  List.filterMap_append

/-- The clock readings of a round, in the order they are taken. -/
def Round.clock (r : Round) : List Int :=
  [r.roundStart, r.obsAt, r.statusAt, r.gateAt, r.postAt, r.endAt]

/-- `s'` comes after `s` by calls made at some of the times `clock`. -/
def After (clock : List Int) (s s' : Loop) : Prop :=
  ∃ ts, times s'.trace = times s.trace ++ ts ∧ ts.Sublist clock

theorem After.same {s s' : Loop} (h : times s'.trace = times s.trace) (clock : List Int) :
    After clock s s' := ⟨[], by rw [h, List.append_nil], List.nil_sublist _⟩

theorem After.trans {clock clock' : List Int} {s s' s'' : Loop} (h : After clock s s')
    (h' : After clock' s' s'') : After (clock ++ clock') s s'' := by
  obtain ⟨ts, hts, hsub⟩ := h
  obtain ⟨ts', hts', hsub'⟩ := h'
  exact ⟨ts ++ ts', by rw [hts', hts, List.append_assoc], hsub.append hsub'⟩

theorem After.widen {clock clock' : List Int} {s s' : Loop} (h : After clock s s')
    (hsub : clock.Sublist clock') : After clock' s s' := by
  obtain ⟨ts, hts, hts'⟩ := h
  exact ⟨ts, hts, hts'.trans hsub⟩

/-- Every way a step can go comes after `s`. -/
def StepAfter (clock : List Int) (s : Loop) (step : Step) : Prop :=
  Meets step (After clock s) (fun x => After clock s x.1)

/-- A step from a later state. -/
theorem After.step {clock clock' : List Int} {s s' : Loop} {step : Step} (h : After clock s s')
    (hstep : StepAfter clock' s' step) : StepAfter (clock ++ clock') s step :=
  hstep.mono (fun _ hok => h.trans hok) (fun _ herr => h.trans herr)

theorem StepAfter.widen {clock clock' : List Int} {s : Loop} {step : Step}
    (h : StepAfter clock s step) (hsub : clock.Sublist clock') : StepAfter clock' s step :=
  h.mono (fun _ hok => hok.widen hsub) (fun _ herr => herr.widen hsub)

section Clock

variable {opts : SuperviseOpts} {s : Loop} {obs : Observation} {r : Round}

/-- Two steps in turn: the readings of both. -/
theorem StepAfter.bind {clock clock' : List Int} {step : Step} {next : Loop → Step}
    (h : StepAfter clock s step) (hnext : ∀ s', StepAfter clock' s' (next s')) :
    StepAfter (clock ++ clock') s (step >>= next) := by
  refine Meets.bind (h.mono (fun _ hok => hok)
    (fun _ herr => herr.widen (List.sublist_append_left _ _))) fun s' hs' => ?_
  exact (hnext s').mono (fun _ hok => hs'.trans hok) (fun _ herr => hs'.trans herr)

theorem pollStatus_after : StepAfter [] s (s.pollStatus opts obs r) := by
  rw [Loop.pollStatus]
  split
  · split
    · exact .same rfl _
    · exact .same (by simp [times, Event.time?]) _
  · exact .same rfl _

theorem pollGate_after : StepAfter [] s (s.pollGate opts obs r) := by
  rw [Loop.pollGate]
  split
  · split
    · exact .same rfl _
    · exact .same (by simp [times, Event.time?]) _
  · exact .same rfl _

theorem post_after : StepAfter [r.postAt] s (s.post r) := by
  have hposted : ∀ s' : Loop, s'.trace = s.trace ++ [.post r.postAt r.restart] →
      After [r.postAt] s s' := fun s' htrace => by
    refine ⟨[r.postAt], ?_, List.Sublist.refl _⟩
    rw [htrace, times_append]
    rfl
  rw [Loop.post]
  cases hanswer : r.restart with
  | none => exact hposted _ (by rw [hanswer]; rfl)
  | some http =>
      simp only
      split
      · exact hposted _ (by rw [hanswer]; rfl)
      · exact hposted _ (by rw [hanswer]; rfl)

/-- An early exit, or going on, without a further call. -/
theorem StepAfter.exit {clock : List Int} {s s' : Loop} {e : Ending}
    (h : times s'.trace = times s.trace) : StepAfter clock s (.error (s', e)) :=
  After.same h clock

theorem StepAfter.on {clock : List Int} {s s' : Loop} (h : times s'.trace = times s.trace) :
    StepAfter clock s (.ok s') := After.same h clock

theorem act_after {paths : List String} : StepAfter [r.postAt] s (s.act opts obs paths r) := by
  rw [Loop.act]
  have hstatus : StepAfter [] s ((s.dated obs).pollStatus opts obs r) := pollStatus_after
  refine hstatus.bind fun s₁ => ?_
  refine (pollGate_after (s := s₁)).bind fun s₂ => ?_
  cases hd : (s₂.decision opts obs paths).action with
  | escalate =>
      simp only [hd]
      exact .exit rfl
  | restart =>
      have hpost : StepAfter [r.postAt] s₂
          (Loop.post { s₂ with ep := noteDecision obs.atMs (s₂.decision opts obs paths) s₂.ep } r) :=
        post_after
      simp only [hd]
      exact hpost
  | hold | none =>
      simp only [hd]
      exact .on rfl

theorem watch_after : StepAfter [r.postAt] s (s.watch opts obs r) := by
  rw [Loop.watch]
  simp only
  split
  · exact act_after (s := s.watched opts obs)
  · split
    · exact .exit rfl
    · split
      · exact .exit rfl
      · exact .on rfl

theorem verify_after {t : Int} : StepAfter [] s (s.verify opts t obs r) := by
  rw [Loop.verify]
  have hpoll : StepAfter [] s
      (Loop.pollAfterPost opts { s with recovery := s.recovery.observe obs } obs r) := by
    rw [Loop.pollAfterPost]
    split
    · have hread : StepAfter [] s
          (Loop.pollStatus opts { s with recovery := s.recovery.observe obs } obs r) :=
        pollStatus_after
      exact hread.bind fun s' => .on rfl
    · exact .on rfl
  refine hpoll.bind fun s₁ => ?_
  split
  · exact .exit rfl
  · split
    · exact .exit rfl
    · exact .on rfl

/-- A round's calls are made at its own clock readings, in their order. -/
theorem round_after : StepAfter r.clock s (s.round opts r) := by
  rw [Loop.round]
  cases hobs : r.observation opts with
  | none => exact .exit rfl
  | some obs =>
      have hat : obs.atMs = r.obsAt := by
        rw [Round.observation] at hobs
        obtain ⟨outs, _, hobs⟩ := Option.bind_eq_some_iff.mp hobs
        cases hobs
        rfl
      have hsampled : After [r.obsAt] s (s.sampled obs) := by
        refine ⟨[r.obsAt], ?_, List.Sublist.refl _⟩
        rw [Loop.sampled, times_append, ← hat]
        rfl
      have hsub : ([r.obsAt] ++ [r.postAt]).Sublist r.clock :=
        .cons _ (.cons_cons _ (.cons _ (.cons _ (.cons_cons _ (.cons _ .slnil)))))
      have hslept : ∀ (s' : Loop) (ms : Int), StepAfter [] s' (.ok (s'.call (.sleep ms))) :=
        fun s' ms => .on (by simp [Loop.call, times, Event.time?])
      simp only
      refine (hsampled.step ?_).widen hsub
      split
      · exact .exit rfl
      · split
        · exact watch_after.bind fun s' => hslept s' _
        · exact (verify_after.bind fun s' => hslept s' _).widen (List.nil_sublist _)

/-- The calls of a run are in clock order. -/
theorem run_after (rounds : List Round) :
    After (rounds.flatMap Round.clock) s (s.run opts rounds).1 := by
  induction rounds generalizing s with
  | nil => exact .same rfl _
  | cons r rest ih =>
    rw [Loop.run, List.flatMap_cons]
    have hround : StepAfter r.clock s (s.round opts r) := round_after
    cases hr : s.round opts r with
    | error x =>
        rw [hr] at hround
        exact hround.widen (List.sublist_append_left _ _)
    | ok s' =>
        rw [hr] at hround
        exact hround.trans ih

end Clock

/-! ## Many episodes -/

/-- One call of `supervise`: its options but the shared policy, the clock at its
start, and what its rounds are given. -/
structure EpisodeCall where
  probes : List String
  createdAtMs : Option Int
  maxWatchMs : Int
  hardStopMs : Option Int
  start : Int
  rounds : List Round

def EpisodeCall.opts (policy : RunbookPolicy) (c : EpisodeCall) : SuperviseOpts where
  probes := c.probes
  policy := policy
  createdAtMs := c.createdAtMs
  maxWatchMs := c.maxWatchMs
  hardStopMs := c.hardStopMs

def EpisodeCall.clock (c : EpisodeCall) : List Int := c.start :: c.rounds.flatMap Round.clock

def EpisodeCall.run (policy : RunbookPolicy) (hist : List Int) (c : EpisodeCall) :
    Loop × Option Ending :=
  supervise (c.opts policy) hist c.start c.rounds

/-- Episodes one after another, over one history. -/
def campaign (policy : RunbookPolicy) : List Int → List EpisodeCall → List (Loop × Option Ending)
  | _, [] => []
  | hist, c :: rest =>
      let out := c.run policy hist
      out :: campaign policy out.1.restartsAtMs rest

/-- The clock never goes back, within an episode or between two. -/
def Monotone (calls : List EpisodeCall) : Prop :=
  (calls.flatMap EpisodeCall.clock).Pairwise (· ≤ ·)

instance (calls : List EpisodeCall) : Decidable (Monotone calls) :=
  inferInstanceAs (Decidable (List.Pairwise _ _))

/-- The times of the accepted POSTs among `trace`. -/
def acceptedPosts (trace : List Event) : List Int :=
  (posts trace).flatMap fun x => recorded x.1 x.2

/-! ## One episode -/

section Episode

variable {opts : SuperviseOpts} {hist : List Int} {s : Loop}

theorem Inv.postsOver (h : Inv opts hist s) : PostsOver opts hist s := by
  cases h with
  | watching h _ _ _ => exact .inl ⟨h.posts, h.history⟩
  | verifying t since h _ =>
      obtain ⟨http, hsent, haccepted⟩ := h.sent
      refine .inr ⟨t, some http, since, hsent, ?_⟩
      rw [recorded, if_pos haccepted]
      exact h.history

/-- However an episode goes, and however far: no POST, or one. -/
theorem supervise_posts (opts : SuperviseOpts) (hist : List Int) (start : Int)
    (rounds : List Round) : PostsOver opts hist (supervise opts hist start rounds).1 := by
  have hrun := run_spec (init_inv opts hist start) rounds
  rw [supervise]
  cases hres : (Loop.init opts hist start).run opts rounds with
  | mk s' e =>
      rw [hres] at hrun
      cases e with
      | none => exact hrun.postsOver
      | some e => exact hrun.posts

theorem Sent.posts_eq {t : Int} {http : Option Int} {since : List Event}
    (h : Sent opts hist s t http since) : posts s.trace = [(t, http)] := by
  obtain ⟨before, _, htrace, hbefore, hsince, _⟩ := h
  rw [htrace, List.append_cons, posts_append, posts_append, hbefore, hsince]
  rfl

/-- The history grows by the accepted POSTs. -/
theorem PostsOver.history (h : PostsOver opts hist s) :
    s.restartsAtMs = hist ++ acceptedPosts s.trace := by
  rcases h with ⟨hposts, hhist⟩ | ⟨t, http, since, hsent, hhist⟩
  · rw [hhist, acceptedPosts, hposts]
    exact (List.append_nil _).symm
  · rw [hhist, acceptedPosts, hsent.posts_eq, List.flatMap_singleton]

theorem PostsOver.one (h : PostsOver opts hist s) : (posts s.trace).length ≤ 1 := by
  rcases h with ⟨hposts, _⟩ | ⟨t, http, since, hsent, _⟩
  · rw [hposts]
    exact Nat.zero_le _
  · rw [hsent.posts_eq]
    exact Nat.le_refl _

/-- A trace with one POST splits at it in one way. -/
theorem split_at_post {before before' since since' : List Event} {t t' : Int}
    {http http' : Option Int} (h : before ++ .post t http :: since =
      before' ++ .post t' http' :: since') (hbefore : posts before = []) (hsince : posts since = []) :
    before' = before ∧ t' = t ∧ http' = http := by
  have hnone : ∀ (tr : List Event) (t : Int) (http : Option Int),
      posts tr = [] → Event.post t http ∉ tr := by
    intro tr t http hposts hmem
    have : (t, http) ∈ posts tr := List.mem_filterMap.mpr ⟨_, hmem, rfl⟩
    rw [hposts] at this
    cases this
  rcases List.append_eq_append_iff.mp h with ⟨mid, hb, hs⟩ | ⟨mid, hb, hs⟩
  · cases mid with
    | nil =>
        cases hs
        exact ⟨by rw [hb, List.append_nil], rfl, rfl⟩
    | cons e mid =>
        rw [List.cons_append] at hs
        injection hs with _ hs
        refine absurd ?_ (hnone since t' http' hsince)
        rw [hs]
        exact List.mem_append_right _ List.mem_cons_self
  · cases mid with
    | nil =>
        cases hs
        exact ⟨by rw [hb, List.append_nil], rfl, rfl⟩
    | cons e mid =>
        rw [List.cons_append] at hs
        injection hs with he _
        refine absurd ?_ (hnone before t' http' hbefore)
        rw [hb, ← he]
        exact List.mem_append_right _ List.mem_cons_self

/-- **Every POST of an episode is justified** by what comes before it, and is
sent no earlier than its deciding sample. -/
theorem PostsOver.justified (h : PostsOver opts hist s)
    (hclock : (times s.trace).Pairwise (· ≤ ·)) {before since : List Event} {t : Int}
    {http : Option Int} (htrace : s.trace = before ++ .post t http :: since) :
    ∃ obs, Justified opts hist before obs ∧ obs.atMs ≤ t := by
  rcases h with ⟨hposts, _⟩ | ⟨t₀, http₀, since₀, ⟨before₀, obs, htrace₀, hbefore₀, hsince₀, hjust⟩, _⟩
  · rw [htrace, posts_append] at hposts
    cases (List.append_eq_nil_iff.mp hposts).2
  · obtain ⟨rfl, rfl, rfl⟩ := split_at_post (htrace₀.symm.trans htrace) hbefore₀ hsince₀
    refine ⟨obs, hjust, ?_⟩
    rw [htrace, times_append, List.pairwise_append] at hclock
    refine hclock.2.2 obs.atMs ?_ t List.mem_cons_self
    have hmem := List.mem_of_getLast? hjust.sample
    obtain ⟨e, he, heq⟩ := List.mem_filterMap.mp hmem
    cases e <;> cases heq
    exact List.mem_filterMap.mpr ⟨_, he, rfl⟩

end Episode

/-! ## The guard rails over a campaign -/

section Campaign

variable {policy : RunbookPolicy}

theorem run_clock (policy : RunbookPolicy) (hist : List Int) (c : EpisodeCall) :
    (times (c.run policy hist).1.trace).Sublist c.clock := by
  obtain ⟨ts, hts, hsub⟩ : After _ (Loop.init (c.opts policy) hist c.start)
      ((Loop.init (c.opts policy) hist c.start).run (c.opts policy) c.rounds).1 :=
    run_after c.rounds
  rw [EpisodeCall.run, supervise, hts]
  exact hsub.trans (List.sublist_cons_self _ _)

theorem acceptedPosts_subset (trace : List Event) : acceptedPosts trace ⊆ times trace := by
  intro t ht
  obtain ⟨⟨t', http⟩, hmem, hrec⟩ := List.mem_flatMap.mp ht
  obtain ⟨e, he, heq⟩ := List.mem_filterMap.mp hmem
  cases e <;> cases heq
  refine List.mem_filterMap.mpr ⟨_, he, ?_⟩
  cases http with
  | none => cases hrec
  | some h =>
      rw [recorded] at hrec
      split at hrec
      · rw [List.mem_singleton.mp hrec]
        rfl
      · cases hrec

/-- The accepted POSTs of all episodes. -/
def allAccepted (outs : List (Loop × Option Ending)) : List Int :=
  outs.flatMap fun out => acceptedPosts out.1.trace

/-- One episode more: its accepted POST, if any, is admitted by the log so far. -/
theorem admitted_episode (recordedBefore : List Int) {log : List Int} {c : EpisodeCall}
    (hlog : Admitted policy.minIntervalMs policy.windowMs policy.maxRestartsPerWindow log)
    (hclock : c.clock.Pairwise (· ≤ ·)) (hafter : ∀ u ∈ log, ∀ t ∈ c.clock, u ≤ t) :
    Admitted policy.minIntervalMs policy.windowMs policy.maxRestartsPerWindow
      (log ++ acceptedPosts (c.run policy (recordedBefore ++ log)).1.trace) := by
  have hposts : PostsOver (c.opts policy) (recordedBefore ++ log)
      (c.run policy (recordedBefore ++ log)).1 := supervise_posts _ _ _ _
  have htimes := run_clock policy (recordedBefore ++ log) c
  generalize (c.run policy (recordedBefore ++ log)).1 = s at *
  have hjustified : ∀ {before since : List Event} {t : Int} {http : Option Int},
      s.trace = before ++ .post t http :: since →
        ∃ obs, Justified (c.opts policy) (recordedBefore ++ log) before obs ∧ obs.atMs ≤ t :=
    fun htrace => hposts.justified (hclock.sublist htimes) htrace
  rcases hposts with ⟨hposts, _⟩ | ⟨t, http, since, hsent, _⟩
  · rw [acceptedPosts, hposts]
    exact (List.append_nil log).symm ▸ hlog
  · have hsubset := acceptedPosts_subset s.trace
    rw [acceptedPosts, hsent.posts_eq, List.flatMap_singleton] at hsubset ⊢
    obtain ⟨before, _, htrace, _⟩ := hsent
    obtain ⟨obs, hjust, hle⟩ := hjustified htrace
    cases http with
    | none => exact (List.append_nil log).symm ▸ hlog
    | some h =>
        rw [recorded] at hsubset ⊢
        split
        · rename_i haccepted
          rw [if_pos haccepted] at hsubset
          refine .snoc hlog (.of_larger (List.sublist_append_right recordedBefore log) hjust.spaced
            hjust.room hle fun u hu => ?_)
          exact hafter u hu t (htimes.subset (hsubset List.mem_cons_self))
        · exact (List.append_nil log).symm ▸ hlog

/-- All accepted restarts of a campaign were admitted one by one. -/
theorem campaign_admitted (policy : RunbookPolicy) (calls : List EpisodeCall) :
    ∀ (recordedBefore log : List Int), Monotone calls →
      (∀ u ∈ log, ∀ t ∈ calls.flatMap EpisodeCall.clock, u ≤ t) →
      Admitted policy.minIntervalMs policy.windowMs policy.maxRestartsPerWindow log →
      Admitted policy.minIntervalMs policy.windowMs policy.maxRestartsPerWindow
        (log ++ allAccepted (campaign policy (recordedBefore ++ log) calls)) := by
  induction calls with
  | nil =>
    intro recordedBefore log _ _ hlog
    exact (List.append_nil log).symm ▸ hlog
  | cons c rest ih =>
    intro recordedBefore log hmono hafter hlog
    rw [Monotone, List.flatMap_cons, List.pairwise_append] at hmono
    obtain ⟨hclock, hrest, hcross⟩ := hmono
    rw [List.flatMap_cons] at hafter
    have hfirst := admitted_episode recordedBefore hlog hclock
      fun u hu t ht => hafter u hu t (List.mem_append_left _ ht)
    have hhist : (c.run policy (recordedBefore ++ log)).1.restartsAtMs =
        recordedBefore ++ log ++ acceptedPosts (c.run policy (recordedBefore ++ log)).1.trace :=
      (supervise_posts _ _ _ _).history
    rw [campaign, allAccepted, List.flatMap_cons, ← List.append_assoc, hhist,
      List.append_assoc recordedBefore]
    refine ih recordedBefore _ hrest ?_ hfirst
    intro u hu t ht
    rcases List.mem_append.mp hu with hu | hu
    · exact hafter u hu t (List.mem_append_right _ ht)
    · have hu' := (run_clock policy (recordedBefore ++ log) c).subset (acceptedPosts_subset _ hu)
      exact hcross u hu' t ht

/-- Every episode of a campaign is a run from some history. -/
theorem mem_campaign_zip {calls : List EpisodeCall} {hist : List Int}
    {x : EpisodeCall × (Loop × Option Ending)} (hx : x ∈ calls.zip (campaign policy hist calls)) :
    ∃ earlier, x.2 = x.1.run policy earlier := by
  induction calls generalizing hist with
  | nil => cases hx
  | cons c rest ih =>
    rw [campaign, List.zip_cons_cons] at hx
    rcases List.mem_cons.mp hx with rfl | hx
    · exact ⟨hist, rfl⟩
    · exact ih hx

theorem mem_campaign {calls : List EpisodeCall} {hist : List Int} {out : Loop × Option Ending}
    (hout : out ∈ campaign policy hist calls) :
    ∃ c earlier, out = EpisodeCall.run policy earlier c := by
  induction calls generalizing hist with
  | nil => cases hout
  | cons c rest ih =>
    rcases List.mem_cons.mp hout with rfl | hout
    · exact ⟨c, hist, rfl⟩
    · exact ih hout

theorem Monotone.clock {calls : List EpisodeCall} (h : Monotone calls) {c : EpisodeCall}
    (hc : c ∈ calls) : c.clock.Pairwise (· ≤ ·) :=
  (List.pairwise_flatMap.mp h).1 c hc

/-- **Restart safety.**  Over any episodes that share one history and a monotone
clock, whatever they are given: an episode sends at most one POST; accepted
restarts are `minIntervalMs` apart, and no window holds more than
`maxRestartsPerWindow`; and each POST is justified by the calls before it, and
sent no earlier than the sample that decides it. -/
theorem campaign_safe (policy : RunbookPolicy) (hist : List Int) (calls : List EpisodeCall)
    (hmono : Monotone calls) :
    (∀ out ∈ campaign policy hist calls, (posts out.1.trace).length ≤ 1) ∧
      (allAccepted (campaign policy hist calls)).Pairwise
        (fun u t => policy.minIntervalMs ≤ t - u) ∧
      (∀ x, ((allAccepted (campaign policy hist calls)).filter
        fun u => x < u ∧ u ≤ x + policy.windowMs).length ≤ policy.maxRestartsPerWindow) ∧
      ∀ x ∈ calls.zip (campaign policy hist calls), ∀ before t http since,
        x.2.1.trace = before ++ .post t http :: since →
          ∃ earlier obs, Justified (x.1.opts policy) earlier before obs ∧ obs.atMs ≤ t := by
  have hadmitted := campaign_admitted policy calls hist [] hmono
    (fun u hu => by cases hu) .nil
  rw [List.append_nil, List.nil_append] at hadmitted
  refine ⟨?_, hadmitted.spaced, hadmitted.window_le, ?_⟩
  · intro out hout
    obtain ⟨c, earlier, rfl⟩ := mem_campaign hout
    exact (supervise_posts _ _ _ _).one
  · intro x hx before t http since htrace
    obtain ⟨earlier, hrun⟩ := mem_campaign_zip hx
    have hclock := (hmono.clock (List.of_mem_zip hx).1).sublist (run_clock policy earlier x.1)
    rw [hrun] at htrace
    exact ⟨earlier, (supervise_posts _ _ _ _).justified hclock htrace⟩

end Campaign

/-! ## Inputs on which the guard rails show their edges -/

/-- A policy that acts on one failed sample. -/
def quickPolicy : RunbookPolicy :=
  { DEFAULT_RUNBOOK_POLICY with detectAfterMs := 0, detectMinSamples := 1 }

/-- A round in which the one probe fails and nothing stands against a restart;
the status page takes `gateMs` to answer. -/
def failingRound (startMs gateMs : Int) (restart : Option Int) : Round where
  roundStart := startMs
  runProbe _ := some false
  obsAt := startMs
  controlStatus := some "ACTIVE_HEALTHY"
  statusAt := startMs
  gate := some (.view { proceed := true, blockers := [], warnings := [] })
  gateAt := startMs + gateMs
  postAt := startMs + gateMs
  restart := restart
  endAt := startMs + gateMs

def oneRound (r : Round) : EpisodeCall where
  probes := ["rest_read"]
  createdAtMs := none
  maxWatchMs := 600000
  hardStopMs := none
  start := r.roundStart
  rounds := [r]

/-- Two accepted restarts, as far apart as the policy asks. -/
theorem campaign_safe_two :
    ([0, 900000] : List Int).Pairwise fun u t => quickPolicy.minIntervalMs ≤ t - u :=
  (campaign_safe quickPolicy []
    [oneRound (failingRound 0 0 (some 200)), oneRound (failingRound 900000 0 (some 200))]
    (by decide)).2.1

/-- What the guard rails do not give.  When the status page takes 20 s to
answer, the POST leaves with a control-plane status 20 s old, twice
`statusPollMs`.  And a window counts one of its two ends only: with one restart
allowed in 900 s, restarts at 0 s and at 900 s are both accepted. -/
theorem campaign_edges :
    (Monotone [oneRound (failingRound 0 20000 (some 200))] ∧
      ((campaign quickPolicy [] [oneRound (failingRound 0 20000 (some 200))]).map fun out =>
        (statusReads out.1.trace, posts out.1.trace)) =
          [([(0, 0, "ACTIVE_HEALTHY")], [(20000, some 200)])] ∧
      quickPolicy.statusPollMs < 20000 - 0) ∧
    (Monotone [oneRound (failingRound 0 0 (some 200)), oneRound (failingRound 900000 0 (some 200))] ∧
      ((allAccepted (campaign
          { quickPolicy with maxRestartsPerWindow := 1, windowMs := 900000 } []
          [oneRound (failingRound 0 0 (some 200)), oneRound (failingRound 900000 0 (some 200))])).filter
        fun u => (0 : Int) ≤ u ∧ u ≤ 0 + 900000).length = 2) := by
  decide

/-! ## What is remembered -/

theorem mem_recorded {t : Int} {http : Option Int} :
    t ∈ recorded t http ↔ ∃ h, http = some h ∧ Accepted h := by
  cases http with
  | none => simp [recorded]
  | some h =>
      rw [recorded]
      by_cases haccepted : Accepted h
      · rw [if_pos haccepted]
        exact ⟨fun _ => ⟨h, rfl, haccepted⟩, fun _ => List.mem_cons_self⟩
      · rw [if_neg haccepted]
        constructor
        · intro hmem
          cases hmem
        · rintro ⟨h', heq, haccepted'⟩
          cases heq
          exact absurd haccepted' haccepted

theorem PostsOver.mem_history {opts : SuperviseOpts} {hist : List Int} {s : Loop}
    (h : PostsOver opts hist s) {t : Int} {http : Option Int} (hpost : (t, http) ∈ posts s.trace) :
    t ∈ s.restartsAtMs ↔ (∃ h, http = some h ∧ Accepted h) ∨ t ∈ hist := by
  rcases h with ⟨hposts, _⟩ | ⟨t₀, http₀, since, hsent, hhist⟩
  · rw [hposts] at hpost
    cases hpost
  · rw [hsent.posts_eq, List.mem_singleton] at hpost
    cases hpost
    rw [hhist, List.mem_append, mem_recorded]
    exact or_comm

/-- Where every POST was accepted, the accepted POSTs are all of them. -/
theorem acceptedPosts_eq {trace : List Event}
    (h : ∀ x ∈ posts trace, ∃ h, x.2 = some h ∧ Accepted h) :
    acceptedPosts trace = (posts trace).map (·.1) := by
  rw [acceptedPosts, ← List.flatMap_pure_eq_map]
  apply List.flatMap_congr
  intro x hx
  obtain ⟨h, hanswer, haccepted⟩ := h x hx
  rw [hanswer, recorded, if_pos haccepted]
  rfl

/-- **When a POST is remembered.**  The time of a POST is in the history when
its episode ends exactly if the POST was accepted, or that time was recorded
before.  And over episodes all of whose POSTs were accepted, any two POSTs are
`minIntervalMs` apart. -/
theorem post_remembered (hist : List Int) :
    (∀ (opts : SuperviseOpts) (start : Int) (rounds : List Round) (t : Int)
        (http : Option Int), (t, http) ∈ posts (supervise opts hist start rounds).1.trace →
      (t ∈ (supervise opts hist start rounds).1.restartsAtMs ↔
        (∃ h, http = some h ∧ Accepted h) ∨ t ∈ hist)) ∧
    ∀ (policy : RunbookPolicy) (calls : List EpisodeCall), Monotone calls →
      (∀ out ∈ campaign policy hist calls, ∀ x ∈ posts out.1.trace,
        ∃ h, x.2 = some h ∧ Accepted h) →
      (∀ out ∈ campaign policy hist calls, ∀ x ∈ posts out.1.trace, x.1 ∈ out.1.restartsAtMs) ∧
      (((campaign policy hist calls).flatMap fun out => posts out.1.trace).map (·.1)).Pairwise
        fun u t => policy.minIntervalMs ≤ t - u := by
  refine ⟨fun opts start rounds t http hpost =>
    (supervise_posts opts hist start rounds).mem_history hpost, ?_⟩
  intro policy calls hmono hanswers
  have hadmitted := campaign_admitted policy calls hist [] hmono
    (fun u hu => by cases hu) .nil
  rw [List.append_nil, List.nil_append] at hadmitted
  refine ⟨?_, ?_⟩
  · intro out hout x hx
    have haccepted := hanswers out hout x hx
    obtain ⟨c, earlier, rfl⟩ := mem_campaign hout
    exact ((supervise_posts _ _ _ _).mem_history hx).mpr (.inl haccepted)
  · have hall : allAccepted (campaign policy hist calls) =
        ((campaign policy hist calls).flatMap fun out => posts out.1.trace).map (·.1) := by
      rw [allAccepted, List.map_flatMap]
      exact List.flatMap_congr fun out hout => acceptedPosts_eq (hanswers out hout)
    rw [← hall]
    exact hadmitted.spaced

/-- An accepted POST is remembered. -/
theorem post_remembered_once :
    (0 : Int) ∈ (supervise ((oneRound (failingRound 0 0 (some 200))).opts quickPolicy) [] 0
      [failingRound 0 0 (some 200)]).1.restartsAtMs :=
  ((post_remembered []).1 _ 0 [failingRound 0 0 (some 200)] 0 (some 200) (by decide)).mpr
    (.inl ⟨200, rfl, by decide⟩)

/-- A gateway answers the first POST 502, and the next episode sends another one
a second later. -/
theorem post_forgotten :
    Monotone [oneRound (failingRound 0 0 (some 502)), oneRound (failingRound 1000 0 (some 200))] ∧
      ((campaign quickPolicy []
          [oneRound (failingRound 0 0 (some 502)), oneRound (failingRound 1000 0 (some 200))]).map
        fun out => (posts out.1.trace, out.1.restartsAtMs)) =
        [([(0, some 502)], []), ([(1000, some 200)], [1000])] ∧
      (1000 : Int) - 0 < quickPolicy.minIntervalMs := by
  decide

end SupabaseLab.LifecycleOps
