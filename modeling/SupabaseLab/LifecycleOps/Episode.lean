/-
  LifecycleOps/Episode.lean --- what holds at every turn of an episode.

  The variables of `supervise` are read off the calls it has made: the detector
  from the samples, the two cached answers from the last reads, the phase from
  whether a POST was sent.  `Watching` says so before the POST and `Verifying`
  after it.  A POST is `Justified` by the calls that come before it.
-/
import SupabaseLab.LifecycleOps.Detection

set_option autoImplicit false

namespace SupabaseLab.LifecycleOps

open Library

/-! ## Reading the calls -/

def Event.sample? : Event → Option Observation
  | .sample o => some o
  | _ => none

def Event.post? : Event → Option (Int × Option Int)
  | .post atMs http => some (atMs, http)
  | _ => none

def Event.statusRead? : Event → Option (Int × Int × String)
  | .statusRead atMs answeredAt value => some (atMs, answeredAt, value)
  | _ => none

def Event.gateRead? : Event → Option (Int × Int × GateAnswer)
  | .gateRead atMs answeredAt value => some (atMs, answeredAt, value)
  | _ => none

def samples (trace : List Event) : List Observation := trace.filterMap Event.sample?

def posts (trace : List Event) : List (Int × Option Int) := trace.filterMap Event.post?

def statusReads (trace : List Event) : List (Int × Int × String) :=
  trace.filterMap Event.statusRead?

def gateReads (trace : List Event) : List (Int × Int × GateAnswer) :=
  trace.filterMap Event.gateRead?

@[simp] theorem samples_append (tr tr' : List Event) :
    samples (tr ++ tr') = samples tr ++ samples tr' := List.filterMap_append

@[simp] theorem posts_append (tr tr' : List Event) :
    posts (tr ++ tr') = posts tr ++ posts tr' := List.filterMap_append

@[simp] theorem statusReads_append (tr tr' : List Event) :
    statusReads (tr ++ tr') = statusReads tr ++ statusReads tr' := List.filterMap_append

@[simp] theorem gateReads_append (tr tr' : List Event) :
    gateReads (tr ++ tr') = gateReads tr ++ gateReads tr' := List.filterMap_append

/-- The cached answer, from the reads made. -/
def lastReading {α : Type} (unread : α) (reads : List (Int × Int × α)) : Reading α :=
  match reads.getLast? with
  | none => { atMs := none, value := unread }
  | some (atMs, _, value) => { atMs := some atMs, value := value }

@[simp] theorem lastReading_concat {α : Type} (unread : α) (reads : List (Int × Int × α))
    (atMs answeredAt : Int) (value : α) :
    lastReading unread (reads ++ [(atMs, answeredAt, value)]) =
      { atMs := some atMs, value := value } := by
  rw [lastReading, List.getLast?_concat]

/-- An answer is fresh at a sample: read for it, or not yet due again. -/
def Fresh (readFor now every : Int) : Prop := readFor = now ∨ now - readFor < every

/-! ## A justified POST -/

/-- The calls before a POST at `t` that allow it; `obs` is the deciding sample. -/
structure Justified (opts : SuperviseOpts) (hist : List Int) (before : List Event)
    (obs : Observation) : Prop where
  sample : (samples before).getLast? = some obs
  detected : PathDetected opts.policy (samples before) obs.atMs
  status : ∃ readFor answeredAt,
    (statusReads before).getLast? = some (readFor, answeredAt, "ACTIVE_HEALTHY") ∧
      Fresh readFor obs.atMs opts.policy.statusPollMs
  age : ∀ c ∈ opts.createdAtMs, RESTART_MIN_AGE_MS ≤ obs.atMs - c
  gate : ∃ readFor answeredAt value,
    (gateReads before).getLast? = some (readFor, answeredAt, value) ∧
      Fresh readFor obs.atMs opts.policy.gatePollMs ∧
      ((∃ v, value = .view v ∧ v.proceed = true) ∨
        (∃ why, value = .unreadable why) ∧ opts.policy.gateFailOpen = true)
  spaced : ∀ u ∈ hist, opts.policy.minIntervalMs ≤ obs.atMs - u
  room : (inWindow opts.policy obs.atMs hist).length < opts.policy.maxRestartsPerWindow

theorem le_lastRestart {ts : List Int} {t : Int} (h : lastRestart ts = some t) :
    ∀ u ∈ ts, u ≤ t := by
  cases ts with
  | nil => cases h
  | cons x ts =>
      cases h
      have hfold : ∀ (ts : List Int) (x : Int), x ≤ ts.foldl max x ∧ ∀ u ∈ ts, u ≤ ts.foldl max x := by
        intro ts
        induction ts with
        | nil => intro x; simp
        | cons y ts ih =>
          intro x
          obtain ⟨hhead, htail⟩ := ih (max x y)
          refine ⟨le_trans (le_max_left x y) hhead, ?_⟩
          intro u hu
          rcases List.mem_cons.mp hu with rfl | hu
          · exact le_trans (le_max_right x u) hhead
          · exact htail u hu
      intro u hu
      rcases List.mem_cons.mp hu with rfl | hu
      · exact (hfold ts u).1
      · exact (hfold ts x).2 u hu

/-- No restart is inside the cooldown when the last one is not. -/
theorem cooldown_over {ts : List Int} {nowMs gap : Int}
    (h : (lastRestart ts).filter (fun t => nowMs - t < gap) = none) :
    ∀ u ∈ ts, gap ≤ nowMs - u := by
  intro u hu
  cases hlast : lastRestart ts with
  | none =>
      cases ts with
      | nil => cases hu
      | cons x ts => cases hlast
  | some t =>
      have hle := le_lastRestart hlast u hu
      rw [hlast, Option.filter_some] at h
      split at h
      · cases h
      · rename_i hcool
        simp only [decide_eq_true_eq] at hcool
        omega

/-- **What `decide` requires of a restart**: every guard rail lets it pass. -/
theorem decide_restart {input : DecideInput} {policy : RunbookPolicy}
    (h : (decide input policy).action = .restart) :
    input.detectedPaths ≠ [] ∧
      (inWindow policy input.nowMs input.restartsAtMs).length < policy.maxRestartsPerWindow ∧
      input.controlStatus = "ACTIVE_HEALTHY" ∧
      (∀ u ∈ input.restartsAtMs, policy.minIntervalMs ≤ input.nowMs - u) ∧
      (∀ c ∈ input.createdAtMs, RESTART_MIN_AGE_MS ≤ input.nowMs - c) ∧
      ((∃ v, input.gate = .view v ∧ v.proceed = true) ∨
        (∃ why, input.gate = .unreadable why) ∧ policy.gateFailOpen = true) := by
  simp only [decide] at h
  have hpaths : input.detectedPaths ≠ [] := by
    intro hnil
    simp [hnil] at h
  rw [if_neg hpaths] at h
  have hroom : (inWindow policy input.nowMs input.restartsAtMs).length <
      policy.maxRestartsPerWindow := by
    by_contra hfull
    simp [Nat.not_lt.mp hfull] at h
  rw [if_neg (Nat.not_le.mpr hroom)] at h
  have hstatus : input.controlStatus = "ACTIVE_HEALTHY" := by
    by_contra hother
    simp [hother] at h
  rw [if_neg (not_not.mpr hstatus)] at h
  -- a cooldown or a young project holds
  cases hcool : (lastRestart input.restartsAtMs).filter
      fun t => input.nowMs - t < policy.minIntervalMs with
  | some t => simp [hcool] at h
  | none =>
      cases hage : input.createdAtMs.filter fun t => input.nowMs - t < RESTART_MIN_AGE_MS with
      | some t => simp [hcool, hage] at h
      | none =>
          simp only [hcool, hage] at h
          refine ⟨hpaths, hroom, hstatus, cooldown_over hcool, ?_, ?_⟩
          · intro c hc
            rw [Option.mem_def.mp hc, Option.filter_some] at hage
            split at hage
            · cases hage
            · rename_i hold
              simp only [decide_eq_true_eq] at hold
              omega
          · cases hgate : input.gate with
            | unreadable why =>
                rw [hgate] at h
                refine .inr ⟨⟨why, rfl⟩, ?_⟩
                by_contra hclosed
                simp [hclosed] at h
            | view v =>
                rw [hgate] at h
                refine .inl ⟨v, rfl, ?_⟩
                by_contra hblocked
                simp [hblocked] at h

/-! ## The invariant -/

/-- A round ends with a trigger path past the threshold. -/
def DetectedNow (policy : RunbookPolicy) (obs : List Observation) : Prop :=
  ∃ o, obs.getLast? = some o ∧ PathDetected policy obs o.atMs

/-- `part` ends with the first detection in `obs`. -/
structure FirstDetection (policy : RunbookPolicy) (part obs : List Observation) : Prop where
  part_of : part <+: obs
  detected : DetectedNow policy part
  first : ∀ part', part' <+: part → part' ≠ part → ¬ DetectedNow policy part'

/-- A dated detection: when it was made, and the stretch of failing rounds that
`firstFailAtMs` names. -/
def DetectionDated (policy : RunbookPolicy) (obs : List Observation) (ep : Episode) : Prop :=
  ∀ d, ep.detectedAtMs = some d → ∃ part last o,
    FirstDetection policy part obs ∧ part.getLast? = some last ∧ last.atMs = d ∧
      StretchFrom policy o part ∧ ep.firstFailAtMs = some o.atMs

/-- The same before any detection: `firstFailAtMs` follows the current stretch. -/
def Undetected (policy : RunbookPolicy) (obs : List Observation) (ep : Episode) : Prop :=
  ep.detectedAtMs = none ∧
    ((ep.firstFailAtMs = none ∧ ¬ AnyFailing policy obs) ∨
      ∃ o, ep.firstFailAtMs = some o.atMs ∧ StretchFrom policy o obs)

/-- No POST yet, and the variables are what the calls made them. -/
structure Watching (opts : SuperviseOpts) (hist : List Int) (s : Loop) : Prop where
  unposted : s.ep.postAtMs = none
  posts : posts s.trace = []
  history : s.restartsAtMs = hist
  det : s.det = detectorOf (samples s.trace)
  recovery : s.recovery = { okSince := none }
  status : s.status = lastReading "" (statusReads s.trace)
  gate : s.gate = lastReading (.unreadable "not read") (gateReads s.trace)

/-- The one POST of an episode: sent at `t`, answered `http`, followed by `since`. -/
def Sent (opts : SuperviseOpts) (hist : List Int) (s : Loop) (t : Int) (http : Option Int)
    (since : List Event) : Prop :=
  ∃ before obs, s.trace = before ++ .post t http :: since ∧ posts before = [] ∧
    posts since = [] ∧ Justified opts hist before obs

/-- What an answer to a POST at `t` adds to the history. -/
def recorded (t : Int) (http : Option Int) : List Int :=
  match http with
  | none => []
  | some h => if Accepted h then [t] else []

/-- An accepted POST, and the calls since. -/
structure Posted (opts : SuperviseOpts) (hist : List Int) (s : Loop) (t : Int)
    (since : List Event) : Prop where
  posted : s.ep.postAtMs = some t
  sent : ∃ h, Sent opts hist s t (some h) since ∧ Accepted h
  history : s.restartsAtMs = hist ++ [t]

/-- The tracker has seen the samples since the POST. -/
structure Verifying (opts : SuperviseOpts) (hist : List Int) (s : Loop) (t : Int)
    (since : List Event) : Prop extends Posted opts hist s t since where
  recovery : s.recovery = trackerOf (samples since)

/-- What holds at the top of the loop. -/
inductive Inv (opts : SuperviseOpts) (hist : List Int) (s : Loop) : Prop where
  | watching (h : Watching opts hist s) (cleared : s.cleared = trackerOf (samples s.trace))
      (dated : DetectionDated opts.policy (samples s.trace) s.ep)
      (undetected : s.ep.detectedAtMs = none →
        Undetected opts.policy (samples s.trace) s.ep ∧
          ∀ part, part <+: samples s.trace → ¬ DetectedNow opts.policy part)
  | verifying (t : Int) (since : List Event) (h : Verifying opts hist s t since)
      (dated : DetectionDated opts.policy (samples s.trace) s.ep)

/-- The POSTs of an episode that is over: none, or one. -/
def PostsOver (opts : SuperviseOpts) (hist : List Int) (s : Loop) : Prop :=
  (posts s.trace = [] ∧ s.restartsAtMs = hist) ∨
    ∃ t http since, Sent opts hist s t http since ∧ s.restartsAtMs = hist ++ recorded t http

/-- What holds when an episode ends. -/
structure Ended (opts : SuperviseOpts) (hist : List Int) (s : Loop) (e : Ending) : Prop where
  posts : PostsOver opts hist s
  dated : DetectionDated opts.policy (samples s.trace) s.ep
  /-- Only these endings are reached after a POST. -/
  quiet : e ∈ [.finished .noFault, .finished .selfCleared, .finished .escalated] →
    LifecycleOps.posts s.trace = []
  unposted : e ≠ .threw → s.ep.postAtMs = none → LifecycleOps.posts s.trace = []
  recovered : e = .finished .recovered → ∃ t h since at_,
    Sent opts hist s t (some h) since ∧ Accepted h ∧ s.ep.recoveredAtMs = some at_ ∧
      Settled opts.policy.settleMs (samples since) at_

/-! ## The steps -/

section Steps

variable {opts : SuperviseOpts} {hist : List Int} {s : Loop} {obs : Observation} {r : Round}

theorem DetectionDated.mono {policy : RunbookPolicy} {l l' : List Observation} {ep ep' : Episode}
    (h : DetectionDated policy l ep) (hl : l <+: l') (hd : ep'.detectedAtMs = ep.detectedAtMs)
    (hf : ep'.firstFailAtMs = ep.firstFailAtMs) : DetectionDated policy l' ep' := by
  intro d hdet
  obtain ⟨part, last, o, hfirst, hrest⟩ := h d (by rw [← hd, hdet])
  refine ⟨part, last, o, ⟨hfirst.part_of.trans hl, hfirst.detected, hfirst.first⟩, ?_⟩
  rw [hf]
  exact hrest

theorem Watching.sampled (h : Watching opts hist s) (obs : Observation) :
    Watching opts hist (s.sampled obs) where
  unposted := h.unposted
  posts := by
    rw [Loop.sampled, posts_append, h.posts]
    rfl
  history := h.history
  det := by
    simp only [Loop.sampled, samples_append, h.det]
    exact (detectorOf_concat _ _).symm
  recovery := h.recovery
  status := by
    rw [Loop.sampled, statusReads_append, h.status]
    exact congrArg _ (List.append_nil _).symm
  gate := by
    rw [Loop.sampled, gateReads_append, h.gate]
    exact congrArg _ (List.append_nil _).symm

/-- A change of episode fields other than the POST's leaves the watch as it is. -/
theorem Watching.frame (h : Watching opts hist s) (ep : Episode) (cleared : RecoveryTracker)
    (hep : ep.postAtMs = none) : Watching opts hist { s with ep := ep, cleared := cleared } :=
  ⟨hep, h.posts, h.history, h.det, h.recovery, h.status, h.gate⟩

theorem noteFirstFail_postAtMs (ff : Option Int) (ep : Episode) :
    (noteFirstFail ff ep).postAtMs = ep.postAtMs := by
  simp only [noteFirstFail]
  split <;> split <;> rfl

theorem noteFirstFail_detectedAtMs (ff : Option Int) (ep : Episode) :
    (noteFirstFail ff ep).detectedAtMs = ep.detectedAtMs := by
  simp only [noteFirstFail]
  split <;> split <;> rfl

/-- Once a detection is dated, the first failure stays as it is. -/
theorem noteFirstFail_of_detected {ff : Option Int} {ep : Episode} {d t : Int}
    (hd : ep.detectedAtMs = some d) (ht : ep.firstFailAtMs = some t) :
    noteFirstFail ff ep = ep := by
  have hfirst : ¬ (ff ≠ none ∧ ep.firstFailAtMs = none) := by
    rw [ht]
    simp
  simp [noteFirstFail, hfirst, hd]

/-- Before, it is the start of the current stretch of failing rounds. -/
theorem Undetected.note {policy : RunbookPolicy} {l : List Observation} {ep : Episode}
    (h : Undetected policy l ep) (obs : Observation) :
    Undetected policy (l ++ [obs])
      (noteFirstFail ((detectorOf (l ++ [obs])).firstFailAt policy) ep) := by
  obtain ⟨hd, hfirst⟩ := h
  refine ⟨by rw [noteFirstFail_detectedAtMs, hd], ?_⟩
  cases hff : (detectorOf (l ++ [obs])).firstFailAt policy with
  | none =>
      left
      exact ⟨by simp [noteFirstFail, hd], firstFailAt_eq_none.mp hff⟩
  | some t =>
      right
      have hfail : AnyFailing policy (l ++ [obs]) := by
        by_contra hquiet
        rw [firstFailAt_eq_none.mpr hquiet] at hff
        cases hff
      rcases hfirst with ⟨hnone, hquiet⟩ | ⟨o, hsome, hstretch⟩
      · refine ⟨obs, ?_, .begin hquiet hfail⟩
        simp [noteFirstFail, hnone, firstFailAt_concat hquiet hff]
      · refine ⟨o, ?_, hstretch.concat hfail⟩
        simp [noteFirstFail, hsome]

theorem PathDetected.anyFailing {policy : RunbookPolicy} {l : List Observation} {nowMs : Int}
    (h : PathDetected policy l nowMs) : AnyFailing policy l := by
  obtain ⟨p, hp, since, hrun, _⟩ := h
  refine ⟨p, hp, ?_⟩
  intro hnil
  rw [hnil] at hrun
  cases hrun

/-- A watch that acts on a detection it has dated. -/
structure Acting (opts : SuperviseOpts) (hist : List Int) (obs : Observation) (s : Loop) : Prop
    extends Watching opts hist s where
  sample : (samples s.trace).getLast? = some obs
  detected : PathDetected opts.policy (samples s.trace) obs.atMs
  cleared : s.cleared = trackerOf (samples s.trace)
  dated : DetectionDated opts.policy (samples s.trace) s.ep
  isDated : s.ep.detectedAtMs ≠ none

/-- The status in hand was read for this sample, or is not due again. -/
def StatusFresh (opts : SuperviseOpts) (obs : Observation) (s : Loop) : Prop :=
  ∃ readFor answeredAt, (statusReads s.trace).getLast? = some (readFor, answeredAt, s.status.value) ∧
    Fresh readFor obs.atMs opts.policy.statusPollMs

def GateFresh (opts : SuperviseOpts) (obs : Observation) (s : Loop) : Prop :=
  ∃ readFor answeredAt, (gateReads s.trace).getLast? = some (readFor, answeredAt, s.gate.value) ∧
    Fresh readFor obs.atMs opts.policy.gatePollMs

theorem Acting.inv (h : Acting opts hist obs s) : Inv opts hist s :=
  .watching h.toWatching h.cleared h.dated fun hnone => absurd hnone h.isDated

theorem Acting.ended (h : Acting opts hist obs s) {e : Ending} (he : e ≠ .finished .recovered) :
    Ended opts hist s e where
  posts := .inl ⟨h.posts, h.history⟩
  dated := h.dated
  quiet _ := h.posts
  unposted _ _ := h.posts
  recovered hrec := absurd hrec he

/-- An answer that is not due again was read before, and is fresh. -/
theorem lastReading_fresh {α : Type} {unread : α} {reads : List (Int × Int × α)} {now every : Int}
    (h : ¬ (lastReading unread reads).Due now every) :
    ∃ readFor answeredAt,
      reads.getLast? = some (readFor, answeredAt, (lastReading unread reads).value) ∧
        Fresh readFor now every := by
  rw [lastReading] at h ⊢
  cases hlast : reads.getLast? with
  | none =>
      rw [hlast] at h
      exact absurd (fun t ht => by cases ht) h
  | some x =>
      obtain ⟨readFor, answeredAt, value⟩ := x
      rw [hlast] at h
      refine ⟨readFor, answeredAt, rfl, .inr ?_⟩
      by_contra hold
      refine h fun t ht => ?_
      cases ht
      omega

theorem pollStatus_meets (h : Acting opts hist obs s) (r : Round) :
    Meets (s.pollStatus opts obs r)
      (fun s' => Acting opts hist obs s' ∧ StatusFresh opts obs s')
      (fun x => Ended opts hist x.1 x.2) := by
  rw [Loop.pollStatus]
  by_cases hdue : s.status.Due obs.atMs opts.policy.statusPollMs
  · rw [if_pos hdue]
    cases r.controlStatus with
    | none => exact h.ended (by simp)
    | some value =>
        have hsamples : samples (s.trace ++ [.statusRead obs.atMs r.statusAt value]) =
            samples s.trace := by simp [samples, Event.sample?]
        refine ⟨?_, obs.atMs, r.statusAt, ?_, .inl rfl⟩
        · exact
            { unposted := h.unposted
              posts := by rw [posts_append, h.posts]; rfl
              history := h.history
              det := by rw [hsamples]; exact h.det
              recovery := h.recovery
              status := (lastReading_concat ..).symm.trans (by
                rw [statusReads_append]
                rfl)
              gate := by rw [gateReads_append, h.gate]; exact congrArg _ (List.append_nil _).symm
              sample := by rw [hsamples]; exact h.sample
              detected := by rw [hsamples]; exact h.detected
              cleared := by rw [hsamples]; exact h.cleared
              dated := by rw [hsamples]; exact h.dated
              isDated := h.isDated }
        · rw [statusReads_append]
          exact List.getLast?_concat
  · rw [if_neg hdue]
    refine ⟨h, ?_⟩
    rw [h.status] at hdue
    rw [StatusFresh, h.status]
    exact lastReading_fresh hdue

theorem pollGate_meets (h : Acting opts hist obs s) (hfresh : StatusFresh opts obs s) (r : Round) :
    Meets (s.pollGate opts obs r)
      (fun s' => Acting opts hist obs s' ∧ StatusFresh opts obs s' ∧ GateFresh opts obs s')
      (fun x => Ended opts hist x.1 x.2) := by
  rw [Loop.pollGate]
  by_cases hdue : s.gate.Due obs.atMs opts.policy.gatePollMs
  · rw [if_pos hdue]
    cases r.gate with
    | none => exact h.ended (by simp)
    | some value =>
        have hsamples : samples (s.trace ++ [.gateRead obs.atMs r.gateAt value]) =
            samples s.trace := by simp [samples, Event.sample?]
        have hreads : statusReads (s.trace ++ [.gateRead obs.atMs r.gateAt value]) =
            statusReads s.trace := by simp [statusReads, Event.statusRead?]
        refine ⟨?_, by rw [StatusFresh, hreads]; exact hfresh, obs.atMs, r.gateAt, ?_, .inl rfl⟩
        · exact
            { unposted := h.unposted
              posts := by rw [posts_append, h.posts]; rfl
              history := h.history
              det := by rw [hsamples]; exact h.det
              recovery := h.recovery
              status := by rw [hreads]; exact h.status
              gate := (lastReading_concat ..).symm.trans (by
                rw [gateReads_append]
                rfl)
              sample := by rw [hsamples]; exact h.sample
              detected := by rw [hsamples]; exact h.detected
              cleared := by rw [hsamples]; exact h.cleared
              dated := by rw [hsamples]; exact h.dated
              isDated := h.isDated }
        · rw [gateReads_append]
          exact List.getLast?_concat
  · rw [if_neg hdue]
    refine ⟨h, hfresh, ?_⟩
    rw [h.gate] at hdue
    rw [GateFresh, h.gate]
    exact lastReading_fresh hdue

/-- **A decision to restart is justified by the calls made.** -/
theorem decision_justified (h : Acting opts hist obs s) (hstatus : StatusFresh opts obs s)
    (hgate : GateFresh opts obs s) {paths : List String}
    (hd : (s.decision opts obs paths).action = .restart) :
    Justified opts hist s.trace obs := by
  obtain ⟨_, hroom, hhealthy, hspaced, hage, hopen⟩ := decide_restart hd
  obtain ⟨readFor, answeredAt, hread, hfresh⟩ := hstatus
  obtain ⟨readFor', answeredAt', hread', hfresh'⟩ := hgate
  simp only at hroom hhealthy hspaced hage hopen
  rw [h.history] at hroom hspaced
  rw [hhealthy] at hread
  exact
    { sample := h.sample
      detected := h.detected
      status := ⟨readFor, answeredAt, hread, hfresh⟩
      age := hage
      gate := ⟨readFor', answeredAt', _, hread', hfresh', hopen⟩
      spaced := hspaced
      room := hroom }

theorem post_meets (h : Acting opts hist obs s) (hjust : Justified opts hist s.trace obs)
    (r : Round) :
    Meets (s.post r) (Inv opts hist) (fun x => Ended opts hist x.1 x.2) := by
  have hsent : ∀ s' : Loop, s'.trace = s.trace ++ [.post r.postAt r.restart] →
      Sent opts hist s' r.postAt r.restart [] := fun s' htrace =>
    ⟨s.trace, obs, htrace, h.posts, rfl, hjust⟩
  have hsamples : samples (s.trace ++ [.post r.postAt r.restart]) = samples s.trace := by
    simp [samples, Event.sample?]
  have hdated : DetectionDated opts.policy
      (samples (s.trace ++ [.post r.postAt r.restart])) s.ep := by
    rw [hsamples]
    exact h.dated
  rw [Loop.post]
  cases hanswer : r.restart with
  | none =>
      rw [hanswer] at hsent hdated
      exact
        { posts := .inr ⟨r.postAt, none, [], hsent _ rfl, by
            rw [recorded, List.append_nil]
            exact h.history⟩
          dated := hdated
          quiet := fun he => by simp at he
          unposted := fun he => absurd rfl he
          recovered := fun he => by cases he }
  | some http =>
      rw [hanswer] at hsent hdated
      by_cases hrefused : http < 200 ∨ 300 ≤ http
      · have hnot : ¬ Accepted http := by
          rw [Accepted]
          omega
        simp only [if_pos hrefused]
        exact
          { posts := .inr ⟨r.postAt, some http, [], hsent _ rfl, by
              rw [recorded, if_neg hnot, List.append_nil]
              exact h.history⟩
            dated := hdated
            quiet := fun he => by simp at he
            unposted := fun _ he => by cases he
            recovered := fun he => by cases he }
      · have haccepted : Accepted http := by
          rw [Accepted]
          omega
        simp only [if_neg hrefused]
        refine .verifying r.postAt [] ?_ hdated
        exact
          { posted := rfl
            sent := ⟨http, hsent _ rfl, haccepted⟩
            history := by
              show s.restartsAtMs ++ [r.postAt] = _
              rw [h.history]
            recovery := h.recovery }

/-- A new entry in the decision log changes nothing else. -/
theorem noteDecision_frame (atMs : Int) (d : Decision) (ep : Episode) :
    (noteDecision atMs d ep).postAtMs = ep.postAtMs ∧
      (noteDecision atMs d ep).detectedAtMs = ep.detectedAtMs ∧
      (noteDecision atMs d ep).firstFailAtMs = ep.firstFailAtMs := by
  refine ⟨?_, ?_, ?_⟩
  · simp only [noteDecision, apply_ite Episode.postAtMs, ite_self]
  · simp only [noteDecision, apply_ite Episode.detectedAtMs, ite_self]
  · simp only [noteDecision, apply_ite Episode.firstFailAtMs, ite_self]

theorem Acting.noteDecision (h : Acting opts hist obs s) (d : Decision) :
    Acting opts hist obs { s with ep := LifecycleOps.noteDecision obs.atMs d s.ep } := by
  obtain ⟨hpost, hdet, hff⟩ := noteDecision_frame obs.atMs d s.ep
  exact
    { toWatching := h.toWatching.frame _ _ (hpost.trans h.unposted)
      sample := h.sample
      detected := h.detected
      cleared := h.cleared
      dated := h.dated.mono (List.prefix_refl _) hdet hff
      isDated := fun hnone => h.isDated (hdet.symm.trans hnone) }

/-- The first detection is dated by the round it is made in. -/
theorem act_dated (h : Watching opts hist s) (hcleared : s.cleared = trackerOf (samples s.trace))
    (hdated : DetectionDated opts.policy (samples s.trace) s.ep)
    (hsample : (samples s.trace).getLast? = some obs)
    (hdet : PathDetected opts.policy (samples s.trace) obs.atMs)
    (hfirst : s.ep.detectedAtMs = none → Undetected opts.policy (samples s.trace) s.ep ∧
      ∀ part, part <+: samples s.trace → part ≠ samples s.trace →
        ¬ DetectedNow opts.policy part) :
    Acting opts hist obs (s.dated obs) := by
  have hnew : DetectionDated opts.policy (samples s.trace) (s.dated obs).ep := by
    cases hd : s.ep.detectedAtMs with
    | some d =>
        refine hdated.mono (List.prefix_refl _) ?_ rfl
        simp [Loop.dated, hd]
    | none =>
        obtain ⟨⟨_, hff⟩, hearlier⟩ := hfirst hd
        intro d hd'
        have hdobs : obs.atMs = d := by simpa [Loop.dated, hd] using hd'
        rcases hff with ⟨_, hquiet⟩ | ⟨o, hsome, hstretch⟩
        · exact absurd hdet.anyFailing hquiet
        · exact ⟨samples s.trace, obs, o,
            ⟨List.prefix_refl _, ⟨obs, hsample, hdet⟩, hearlier⟩, hsample, hdobs, hstretch, hsome⟩
  exact
    { toWatching := h.frame _ _ h.unposted
      sample := hsample
      detected := hdet
      cleared := hcleared
      dated := hnew
      isDated := by simp [Loop.dated] }

theorem act_meets (h : Acting opts hist obs (s.dated obs)) (paths : List String) (r : Round) :
    Meets (s.act opts obs paths r) (Inv opts hist) (fun x => Ended opts hist x.1 x.2) := by
  rw [Loop.act]
  refine (pollStatus_meets h r).bind fun s₁ ⟨h₁, hstatus₁⟩ => ?_
  refine (pollGate_meets h₁ hstatus₁ r).bind fun s₂ ⟨h₂, hstatus₂, hgate₂⟩ => ?_
  have h₃ := h₂.noteDecision (s₂.decision opts obs paths)
  cases hd : (s₂.decision opts obs paths).action with
  | escalate =>
      simp only [hd]
      exact h₃.ended (by simp)
  | restart =>
      have hjust := decision_justified h₂ hstatus₂ hgate₂ hd
      simp only [hd]
      exact post_meets h₃ hjust r
  | hold | none =>
      simp only [hd]
      exact h₃.inv

theorem Watching.ended (h : Watching opts hist s)
    (hdated : DetectionDated opts.policy (samples s.trace) s.ep) {e : Ending}
    (he : e ≠ .finished .recovered) : Ended opts hist s e where
  posts := .inl ⟨h.posts, h.history⟩
  dated := hdated
  quiet _ := h.posts
  unposted _ _ := h.posts
  recovered hrec := absurd hrec he

theorem samples_sampled (s : Loop) (obs : Observation) :
    samples (s.sampled obs).trace = samples s.trace ++ [obs] := samples_append _ _

/-- The watch's bookkeeping, before it looks for a detection. -/
theorem watched_spec (h : Watching opts hist s)
    (hcleared : s.cleared = trackerOf (samples s.trace))
    (hdated : DetectionDated opts.policy (samples s.trace) s.ep)
    (hfirst : s.ep.detectedAtMs = none → Undetected opts.policy (samples s.trace) s.ep ∧
      ∀ part, part <+: samples s.trace → ¬ DetectedNow opts.policy part) (obs : Observation) :
    let s' := (s.sampled obs).watched opts obs
    Watching opts hist s' ∧ s'.cleared = trackerOf (samples s'.trace) ∧
      DetectionDated opts.policy (samples s'.trace) s'.ep ∧
      (s'.ep.detectedAtMs = none → Undetected opts.policy (samples s'.trace) s'.ep ∧
        ∀ part, part <+: samples s'.trace → part ≠ samples s'.trace →
          ¬ DetectedNow opts.policy part) := by
  intro s'
  have hsampled := h.sampled obs
  have hsamples : samples s'.trace = samples s.trace ++ [obs] := samples_sampled s obs
  have hep : s'.ep = noteFirstFail ((detectorOf (samples s.trace ++ [obs])).firstFailAt opts.policy)
      (s.sampled obs).ep := by
    rw [← samples_sampled s obs, ← hsampled.det]
    rfl
  refine ⟨hsampled.frame _ _ ?_, ?_, ?_, ?_⟩
  · rw [noteFirstFail_postAtMs]
    exact h.unposted
  · rw [hsamples, trackerOf_concat, ← hcleared]
    rfl
  · rw [hsamples, hep]
    intro d hd'
    rw [noteFirstFail_detectedAtMs] at hd'
    have hd : s.ep.detectedAtMs = some d := hd'
    obtain ⟨_, _, o, _, _, _, _, hfail⟩ := hdated d hd
    have hfail' : (s.sampled obs).ep.firstFailAtMs = some o.atMs := hfail
    have hmono : DetectionDated opts.policy (samples s.trace ++ [obs]) (s.sampled obs).ep :=
      hdated.mono (List.prefix_append _ _) rfl rfl
    rw [noteFirstFail_of_detected hd' hfail']
    exact hmono d hd
  · intro hnone
    rw [hsamples, hep]
    rw [hep, noteFirstFail_detectedAtMs] at hnone
    obtain ⟨hund, hearlier⟩ := hfirst hnone
    have hund' : Undetected opts.policy (samples s.trace) (s.sampled obs).ep := hund
    refine ⟨hund'.note obs, fun part hpart hne => ?_⟩
    rcases List.prefix_concat_iff.mp hpart with rfl | hpart
    · exact absurd rfl hne
    · exact hearlier part hpart

theorem watch_meets (h : Watching opts hist s)
    (hcleared : s.cleared = trackerOf (samples s.trace))
    (hdated : DetectionDated opts.policy (samples s.trace) s.ep)
    (hfirst : s.ep.detectedAtMs = none → Undetected opts.policy (samples s.trace) s.ep ∧
      ∀ part, part <+: samples s.trace → ¬ DetectedNow opts.policy part) (obs : Observation)
    (r : Round) :
    Meets ((s.sampled obs).watch opts obs r) (Inv opts hist)
      (fun x => Ended opts hist x.1 x.2) := by
  obtain ⟨hwatch, hcleared', hdated', hfirst'⟩ := watched_spec h hcleared hdated hfirst obs
  have hsample : (samples ((s.sampled obs).watched opts obs).trace).getLast? = some obs := by
    rw [show ((s.sampled obs).watched opts obs).trace = (s.sampled obs).trace from rfl,
      samples_sampled, List.getLast?_concat]
  rw [Loop.watch]
  generalize (s.sampled obs).watched opts obs = s₁ at *
  by_cases hpaths : s₁.det.detected opts.policy obs.atMs ≠ []
  · simp only [if_pos hpaths]
    rw [hwatch.det, detected_ne_nil] at hpaths
    exact act_meets (act_dated hwatch hcleared' hdated' hsample hpaths hfirst') _ r
  · simp only [if_neg hpaths]
    rw [hwatch.det, detected_ne_nil] at hpaths
    split
    · have hcleared₁ := hwatch.frame
        { s₁.ep with recoveredAtMs := (s.sampled obs).cleared.settled opts.policy.settleMs obs }
        s₁.cleared hwatch.unposted
      exact hcleared₁.ended (e := .finished .selfCleared)
        (hdated'.mono (List.prefix_refl _) rfl rfl) (by simp)
    · split
      · exact hwatch.ended (e := .finished .noFault) hdated' (by simp)
      · refine .watching hwatch hcleared' hdated' fun hnone => ?_
        obtain ⟨hund, hearlier⟩ := hfirst' hnone
        refine ⟨hund, fun part hpart => ?_⟩
        by_cases hall : part = samples s₁.trace
        · -- this round itself detects nothing
          rintro ⟨o, hlast, hdet⟩
          rw [hall, hsample] at hlast
          cases hlast
          rw [hall] at hdet
          exact hpaths hdet
        · exact hearlier part hpart hall

theorem Sent.call {s' : Loop} {t : Int} {http : Option Int} {since : List Event}
    (h : Sent opts hist s t http since) {e : Event} (htrace : s'.trace = s.trace ++ [e])
    (he : e.post? = none) : Sent opts hist s' t http (since ++ [e]) := by
  obtain ⟨before, obs, hsplit, hbefore, hsince, hjust⟩ := h
  refine ⟨before, obs, by rw [htrace, hsplit]; simp, hbefore, ?_, hjust⟩
  rw [posts_append, hsince]
  simp [posts, he]

theorem Posted.call {s' : Loop} {t : Int} {since : List Event} (h : Posted opts hist s t since)
    {e : Event} (htrace : s'.trace = s.trace ++ [e]) (he : e.post? = none)
    (hep : s'.ep.postAtMs = s.ep.postAtMs) (hhist : s'.restartsAtMs = s.restartsAtMs) :
    Posted opts hist s' t (since ++ [e]) where
  posted := hep.trans h.posted
  sent := by
    obtain ⟨http, hsent, haccepted⟩ := h.sent
    exact ⟨http, hsent.call htrace he, haccepted⟩
  history := hhist.trans h.history

theorem Posted.ended {t : Int} {since : List Event} (h : Posted opts hist s t since)
    (hdated : DetectionDated opts.policy (samples s.trace) s.ep) {e : Ending}
    (he : e ∈ [.threw, .finished .hardStop, .finished .unrecovered]) : Ended opts hist s e where
  posts := by
    obtain ⟨http, hsent, haccepted⟩ := h.sent
    refine .inr ⟨t, some http, since, hsent, ?_⟩
    rw [recorded, if_pos haccepted]
    exact h.history
  dated := hdated
  quiet hquiet := by
    simp only [List.mem_cons, List.not_mem_nil, or_false] at he hquiet
    rcases he with rfl | rfl | rfl <;> simp at hquiet
  unposted _ hnone := by
    rw [h.posted] at hnone
    cases hnone
  recovered hrec := by
    subst hrec
    simp at he

/-- After the POST every sample feeds the recovery tracker. -/
theorem Verifying.observed {t : Int} {since : List Event} (h : Verifying opts hist s t since)
    (obs : Observation) :
    Verifying opts hist
      { s.sampled obs with recovery := (s.sampled obs).recovery.observe obs } t
      (since ++ [.sample obs]) where
  toPosted := h.toPosted.call rfl rfl rfl rfl
  recovery := by
    rw [samples_append]
    show s.recovery.observe obs = trackerOf (samples since ++ [obs])
    rw [trackerOf_concat, h.recovery]

theorem pollAfterPost_meets {t : Int} {since : List Event} (h : Verifying opts hist s t since)
    (hdated : DetectionDated opts.policy (samples s.trace) s.ep) (obs : Observation) (r : Round) :
    Meets (s.pollAfterPost opts obs r)
      (fun s' => ∃ since', Verifying opts hist s' t since' ∧ samples since' = samples since ∧
        DetectionDated opts.policy (samples s'.trace) s'.ep)
      (fun x => Ended opts hist x.1 x.2) := by
  rw [Loop.pollAfterPost]
  by_cases hdue : s.status.Due obs.atMs opts.policy.statusPollMs
  · rw [if_pos hdue, Loop.pollStatus, if_pos hdue]
    cases r.controlStatus with
    | none => exact h.ended hdated (by simp)
    | some value =>
        refine ⟨since ++ [.statusRead obs.atMs r.statusAt value], ?_, ?_, ?_⟩
        · exact
            { toPosted := h.toPosted.call rfl rfl rfl rfl
              recovery := by
                rw [samples_append]
                exact h.recovery.trans (congrArg _ (List.append_nil _).symm) }
        · rw [samples_append]
          exact List.append_nil _
        · exact hdated.mono (by
            show _ <+: samples (s.trace ++ [_])
            rw [samples_append]
            exact List.prefix_append _ _) rfl rfl
  · rw [if_neg hdue]
    exact ⟨since, h, rfl, hdated⟩

theorem verify_meets {t : Int} {since : List Event} (h : Verifying opts hist s t since)
    (hdated : DetectionDated opts.policy (samples s.trace) s.ep) (obs : Observation) (r : Round) :
    Meets ((s.sampled obs).verify opts t obs r) (Inv opts hist)
      (fun x => Ended opts hist x.1 x.2) := by
  have hdated' : DetectionDated opts.policy (samples (s.sampled obs).trace) (s.sampled obs).ep :=
    hdated.mono (by rw [samples_sampled]; exact List.prefix_append _ _) rfl rfl
  rw [Loop.verify]
  refine (pollAfterPost_meets (h.observed obs) hdated' obs r).bind
    fun s₁ ⟨since', h₁, hsince, hdated₁⟩ => ?_
  rw [samples_append] at hsince
  split
  · -- every probe has been ok for long enough
    rename_i hback
    obtain ⟨at_, hat⟩ := Option.ne_none_iff_exists'.mp hback
    have hsettled : Settled opts.policy.settleMs (samples since') at_ := by
      rw [hsince]
      apply settled_trackerOf
      rw [← h.recovery]
      exact hat
    obtain ⟨http, ⟨before, o, hsent⟩, haccepted⟩ := h₁.sent
    exact
      { posts := .inr ⟨t, some http, since', ⟨before, o, hsent⟩, by
          rw [recorded, if_pos haccepted]
          exact h₁.history⟩
        dated := hdated₁.mono (List.prefix_refl _) rfl rfl
        quiet := fun hquiet => by simp at hquiet
        unposted := fun _ hnone => by
          rw [show _ = some t from h₁.posted] at hnone
          cases hnone
        recovered := fun _ =>
          ⟨t, http, since', at_, ⟨before, o, hsent⟩, haccepted, hat, hsettled⟩ }
  · split
    · exact h₁.ended hdated₁ (by simp)
    · exact .verifying t since' h₁ hdated₁

/-- Sleeping changes nothing that the invariant speaks of. -/
theorem Inv.slept (h : Inv opts hist s) (ms : Int) : Inv opts hist (s.call (.sleep ms)) := by
  have hsamples : samples (s.trace ++ [.sleep ms]) = samples s.trace := by
    simp [samples, Event.sample?]
  cases h with
  | watching h hcleared hdated hfirst =>
      refine .watching ?_ (by rw [Loop.call, hsamples]; exact hcleared)
        (by rw [Loop.call, hsamples]; exact hdated) (by rw [Loop.call, hsamples]; exact hfirst)
      exact
        { unposted := h.unposted
          posts := by rw [Loop.call, posts_append, h.posts]; rfl
          history := h.history
          det := by rw [Loop.call, hsamples]; exact h.det
          recovery := h.recovery
          status := by
            rw [Loop.call, statusReads_append, h.status]
            exact congrArg _ (List.append_nil _).symm
          gate := by
            rw [Loop.call, gateReads_append, h.gate]
            exact congrArg _ (List.append_nil _).symm }
  | verifying t since h hdated =>
      refine .verifying t (since ++ [.sleep ms]) ?_ (by rw [Loop.call, hsamples]; exact hdated)
      exact
        { toPosted := h.toPosted.call rfl rfl rfl rfl
          recovery := by
            rw [samples_append]
            exact h.recovery.trans (congrArg _ (List.append_nil _).symm) }

/-- An episode may be cut off at the top of the loop: the process dies, or a
call throws. -/
theorem Inv.ended_threw (h : Inv opts hist s) : Ended opts hist s .threw := by
  cases h with
  | watching h _ hdated _ => exact h.ended hdated (by simp)
  | verifying t since h hdated => exact h.ended hdated (by simp)

/-- **One turn of the loop** keeps the invariant or ends the episode well. -/
theorem round_meets (h : Inv opts hist s) (r : Round) :
    Meets (s.round opts r) (Inv opts hist) (fun x => Ended opts hist x.1 x.2) := by
  rw [Loop.round]
  cases r.observation opts with
  | none => exact h.ended_threw
  | some obs =>
      simp only
      cases h with
      | watching h hcleared hdated hfirst =>
          have hsampled := h.sampled obs
          split
          · exact hsampled.ended (e := .finished .hardStop)
              (hdated.mono (by rw [samples_sampled]; exact List.prefix_append _ _) rfl rfl)
              (by simp)
          · rw [hsampled.unposted]
            exact (watch_meets h hcleared hdated hfirst obs r).bind fun s' hs' => hs'.slept _
      | verifying t since h hdated =>
          split
          · have hobserved : Posted opts hist (s.sampled obs) t (since ++ [.sample obs]) :=
              h.toPosted.call rfl rfl rfl rfl
            exact hobserved.ended
              (hdated.mono (by rw [samples_sampled]; exact List.prefix_append _ _) rfl rfl)
              (by simp)
          · rw [show (s.sampled obs).ep.postAtMs = some t from h.posted]
            exact (verify_meets h hdated obs r).bind fun s' hs' => hs'.slept _

theorem init_inv (opts : SuperviseOpts) (hist : List Int) (start : Int) :
    Inv opts hist (Loop.init opts hist start) := by
  refine .watching ⟨rfl, rfl, rfl, rfl, rfl, rfl, rfl⟩ rfl (fun d hd => by cases hd) fun _ => ?_
  refine ⟨⟨rfl, .inl ⟨rfl, ?_⟩⟩, ?_⟩
  · rintro ⟨p, _, hfail⟩
    exact hfail rfl
  · intro part hpart
    rw [List.prefix_nil.mp hpart]
    rintro ⟨o, hlast, _⟩
    cases hlast

/-- **Every run** is at the top of the loop with the invariant, or has ended well. -/
theorem run_spec (h : Inv opts hist s) (rounds : List Round) :
    match s.run opts rounds with
    | (s', none) => Inv opts hist s'
    | (s', some e) => Ended opts hist s' e := by
  induction rounds generalizing s with
  | nil => exact h
  | cons r rest ih =>
    rw [Loop.run]
    have hround := round_meets h r
    cases hr : s.round opts r with
    | error x =>
        rw [hr] at hround
        exact hround
    | ok s' =>
        rw [hr] at hround
        exact ih hround

end Steps

end SupabaseLab.LifecycleOps
