/-
  LifecycleOps/Detection.lean --- what the trackers know about the samples.

  The `Detector` keeps two numbers for a path and the `RecoveryTracker` one.
  Both are functions of the samples seen so far: of the run of failures a path's
  samples end with, and of the run of all-ok rounds the samples end with.
-/
import SupabaseLab.LifecycleOps.Runbook

set_option autoImplicit false

namespace SupabaseLab.LifecycleOps

open Library

/-! ## Failure runs -/

/-- The results of every probe, in order, with the time of their round. -/
def results (obs : List Observation) : List (Int × PathOutcome) :=
  obs.flatMap fun o => o.outcomes.map fun r => (o.atMs, r)

/-- The results of one path. -/
def pathSamples (p : String) (rs : List (Int × PathOutcome)) : List (Int × PathOutcome) :=
  rs.filter fun x => x.2.name = p

/-- The failures a path's samples end with: its current failure run. -/
def failures (p : String) (obs : List Observation) : List (Int × PathOutcome) :=
  (pathSamples p (results obs)).rtakeWhile fun x => !x.2.ok

/-- A run of failures by its first sample and its length. -/
def FailRun.of : List (Int × PathOutcome) → Option FailRun
  | [] => none
  | x :: rest => some { atMs := x.1, samples := rest.length + 1 }

theorem FailRun.of_eq_none {l : List (Int × PathOutcome)} : FailRun.of l = none ↔ l = [] := by
  cases l with
  | nil => simp [FailRun.of]
  | cons x rest => simp [FailRun.of]

theorem FailRun.of_eq_some {l : List (Int × PathOutcome)} {f : FailRun}
    (h : FailRun.of l = some f) : l.head?.map (·.1) = some f.atMs ∧ f.samples = l.length := by
  cases l with
  | nil => cases h
  | cons x rest =>
      cases h
      exact ⟨rfl, rfl⟩

theorem FailRun.of_concat (l : List (Int × PathOutcome)) (x : Int × PathOutcome) :
    FailRun.of (l ++ [x]) = some (match FailRun.of l with
      | some cur => { atMs := cur.atMs, samples := cur.samples + 1 }
      | none => { atMs := x.1, samples := 1 }) := by
  cases l with
  | nil => rfl
  | cons y rest => simp [FailRun.of]

/-- The detector after all of `obs`. -/
def detectorOf (obs : List Observation) : Detector :=
  obs.foldl Detector.observe { failSince := [] }

theorem detectorOf_concat (obs : List Observation) (o : Observation) :
    detectorOf (obs ++ [o]) = (detectorOf obs).observe o := by
  rw [detectorOf, List.foldl_append]
  rfl

/-- A result of another path changes nothing; one of this path extends or ends
its run. -/
theorem observeOne_get? (d : Detector) (atMs : Int) (r : PathOutcome) (p : String) :
    (d.observeOne atMs r).failSince.get? p =
      if r.name = p then
        if r.ok then none
        else some (match d.failSince.get? p with
          | some cur => { atMs := cur.atMs, samples := cur.samples + 1 }
          | none => { atMs := atMs, samples := 1 })
      else d.failSince.get? p := by
  rw [Detector.observeOne]
  by_cases hp : r.name = p
  · subst hp
    rw [if_pos rfl]
    split
    · rw [JsMap.get?_delete, if_pos rfl]
    · cases d.failSince.get? r.name with
      | none => rw [JsMap.get?_set, if_pos rfl]
      | some cur => rw [JsMap.get?_set, if_pos rfl]
  · have hp' : ¬ p = r.name := fun h => hp h.symm
    rw [if_neg hp]
    split
    · rw [JsMap.get?_delete, if_neg hp']
    · rw [JsMap.get?_set, if_neg hp']

theorem foldl_observeOne_get? (rs : List (Int × PathOutcome)) (p : String) :
    (rs.foldl (fun d x => Detector.observeOne d x.1 x.2) { failSince := [] }).failSince.get? p =
      FailRun.of ((pathSamples p rs).rtakeWhile fun x => !x.2.ok) := by
  induction rs using List.reverseRecOn with
  | nil => rfl
  | append_singleton rs x ih =>
    rw [List.foldl_append, List.foldl_cons, List.foldl_nil, observeOne_get?, ih, pathSamples,
      pathSamples, List.filter_append]
    by_cases hp : x.2.name = p
    · rw [if_pos hp, List.filter_cons_of_pos (by simpa using hp), List.filter_nil,
        List.rtakeWhile_concat]
      by_cases hok : x.2.ok
      · simp [hok, FailRun.of]
      · simp only [hok, Bool.not_false, if_true, FailRun.of_concat]
        rfl
    · rw [if_neg hp, List.filter_cons_of_neg (by simpa using hp), List.filter_nil,
        List.append_nil]

theorem foldl_observe (obs : List Observation) (d : Detector) :
    obs.foldl Detector.observe d =
      (results obs).foldl (fun d x => Detector.observeOne d x.1 x.2) d := by
  induction obs generalizing d with
  | nil => rfl
  | cons o obs ih =>
    have hcons : results (o :: obs) = o.outcomes.map (fun r => (o.atMs, r)) ++ results obs := rfl
    rw [List.foldl_cons, ih, hcons, List.foldl_append, List.foldl_map]
    rfl

/-- **The detector holds each path's current failure run**, and nothing else. -/
theorem detectorOf_get? (obs : List Observation) (p : String) :
    (detectorOf obs).failSince.get? p = FailRun.of (failures p obs) := by
  rw [detectorOf, foldl_observe, foldl_observeOne_get?]
  rfl

/-! ## Detection -/

/-- A trigger path has failed on every sample for long enough. -/
def PathDetected (policy : RunbookPolicy) (obs : List Observation) (nowMs : Int) : Prop :=
  ∃ p ∈ policy.triggerPaths, ∃ since, (failures p obs).head?.map (·.1) = some since ∧
    policy.detectAfterMs ≤ nowMs - since ∧ policy.detectMinSamples ≤ (failures p obs).length

theorem mem_detected {policy : RunbookPolicy} {obs : List Observation} {nowMs : Int} {p : String} :
    p ∈ (detectorOf obs).detected policy nowMs ↔
      p ∈ policy.triggerPaths ∧ ∃ since, (failures p obs).head?.map (·.1) = some since ∧
        policy.detectAfterMs ≤ nowMs - since ∧
          policy.detectMinSamples ≤ (failures p obs).length := by
  rw [Detector.detected, List.mem_filter, detectorOf_get?]
  cases hrun : failures p obs with
  | nil => simp [FailRun.of]
  | cons x rest =>
      simp only [FailRun.of, decide_eq_true_eq]
      simp [FailRun.Detected]

theorem detected_ne_nil {policy : RunbookPolicy} {obs : List Observation} {nowMs : Int} :
    (detectorOf obs).detected policy nowMs ≠ [] ↔ PathDetected policy obs nowMs := by
  constructor
  · intro h
    obtain ⟨p, hp⟩ := List.exists_mem_of_ne_nil _ h
    obtain ⟨hmem, since, hrun⟩ := mem_detected.mp hp
    exact ⟨p, hmem, since, hrun⟩
  · rintro ⟨p, hmem, since, hrun⟩
    exact List.ne_nil_of_mem (mem_detected.mpr ⟨hmem, since, hrun⟩)

/-! ## The first failure -/

/-- Some trigger path is failing after `obs`. -/
def AnyFailing (policy : RunbookPolicy) (obs : List Observation) : Prop :=
  ∃ p ∈ policy.triggerPaths, failures p obs ≠ []

/-- What `firstFailAt` answers is the start of a trigger path's run. -/
theorem firstFailAt_spec (policy : RunbookPolicy) (obs : List Observation) :
    match (detectorOf obs).firstFailAt policy with
    | none => ¬ AnyFailing policy obs
    | some t => ∃ p ∈ policy.triggerPaths, (failures p obs).head?.map (·.1) = some t := by
  rw [Detector.firstFailAt, AnyFailing]
  induction policy.triggerPaths using List.reverseRecOn with
  | nil => simp
  | append_singleton ps p ih =>
    rw [List.foldl_append, List.foldl_cons, List.foldl_nil]
    split at ih
    · -- no path before `p` is failing
      rename_i hnone
      rw [hnone, detectorOf_get?]
      cases hrun : FailRun.of (failures p obs) with
      | none =>
          rintro ⟨q, hq, hfail⟩
          rcases List.mem_append.mp hq with hq | hq
          · exact ih ⟨q, hq, hfail⟩
          · rw [List.mem_singleton.mp hq] at hfail
            exact hfail (FailRun.of_eq_none.mp hrun)
      | some f => exact ⟨p, by simp, (FailRun.of_eq_some hrun).1⟩
    · rename_i t hsome
      obtain ⟨q, hq, hstart⟩ := ih
      have hq' : q ∈ ps ++ [p] := List.mem_append_left _ hq
      rw [hsome, detectorOf_get?]
      cases hrun : FailRun.of (failures p obs) with
      | none => exact ⟨q, hq', hstart⟩
      | some f =>
          by_cases hlt : f.atMs < t
          · simp only [if_pos hlt]
            exact ⟨p, by simp, (FailRun.of_eq_some hrun).1⟩
          · simp only [if_neg hlt]
            exact ⟨q, hq', hstart⟩

theorem firstFailAt_eq_none {policy : RunbookPolicy} {obs : List Observation} :
    (detectorOf obs).firstFailAt policy = none ↔ ¬ AnyFailing policy obs := by
  have hspec := firstFailAt_spec policy obs
  constructor
  · intro h
    rw [h] at hspec
    exact hspec
  · intro h
    cases ht : (detectorOf obs).firstFailAt policy with
    | none => rfl
    | some t =>
        rw [ht] at hspec
        obtain ⟨p, hp, hstart⟩ := hspec
        refine absurd ⟨p, hp, ?_⟩ h
        intro hnil
        rw [hnil] at hstart
        cases hstart

/-- A run that starts from nothing lies in what was added. -/
theorem rtakeWhile_append_of_left_nil {α : Type} {q : α → Bool} {front : List α}
    (h : front.rtakeWhile q = []) (tail : List α) :
    (front ++ tail).rtakeWhile q = tail.rtakeWhile q := by
  induction tail using List.reverseRecOn with
  | nil => rw [List.append_nil, h, List.rtakeWhile_nil]
  | append_singleton tail x ih =>
    rw [← List.append_assoc, List.rtakeWhile_concat, List.rtakeWhile_concat, ih]

theorem rtakeWhile_append_of_all {α : Type} {q : α → Bool} {tail : List α}
    (h : ∀ x ∈ tail, q x = true) (front : List α) :
    (front ++ tail).rtakeWhile q = front.rtakeWhile q ++ tail := by
  induction tail using List.reverseRecOn with
  | nil => rw [List.append_nil, List.append_nil]
  | append_singleton tail x ih =>
    rw [← List.append_assoc, List.rtakeWhile_concat_pos _ _ _ (h x (by simp)),
      ih fun y hy => h y (List.mem_append_left _ hy), List.append_assoc]

/-- A run that does not fill the tail does not reach beyond it. -/
theorem rtakeWhile_append_of_not_all {α : Type} {q : α → Bool} {tail : List α}
    (h : ¬ ∀ x ∈ tail, q x = true) (front : List α) :
    (front ++ tail).rtakeWhile q = tail.rtakeWhile q := by
  induction tail using List.reverseRecOn with
  | nil => exact absurd (fun x hx => by cases hx) h
  | append_singleton tail x ih =>
    rw [← List.append_assoc, List.rtakeWhile_concat, List.rtakeWhile_concat]
    split
    · rename_i hx
      rw [ih]
      intro hall
      refine h fun y hy => ?_
      rcases List.mem_append.mp hy with hy | hy
      · exact hall y hy
      · rw [List.mem_singleton.mp hy]
        exact hx
    · rfl

theorem pathSamples_append (p : String) (obs obs' : List Observation) :
    pathSamples p (results (obs ++ obs')) =
      pathSamples p (results obs) ++ pathSamples p (results obs') := by
  rw [results, List.flatMap_append, pathSamples, List.filter_append]
  rfl

theorem mem_results {obs : List Observation} {x : Int × PathOutcome} (h : x ∈ results obs) :
    ∃ o ∈ obs, x.1 = o.atMs := by
  obtain ⟨o, ho, hx⟩ := List.mem_flatMap.mp h
  obtain ⟨r, _, rfl⟩ := List.mem_map.mp hx
  exact ⟨o, ho, rfl⟩

theorem failures_concat_of_nil {p : String} {obs : List Observation} {o : Observation}
    (h : failures p obs = []) : ∀ x ∈ failures p (obs ++ [o]), x.1 = o.atMs := by
  intro x hx
  rw [failures, pathSamples_append, rtakeWhile_append_of_left_nil h] at hx
  have hmem := List.mem_of_mem_filter ((List.rtakeWhile_suffix ..).subset hx)
  obtain ⟨o', ho', hat⟩ := mem_results hmem
  rw [hat, List.mem_singleton.mp ho']

/-- After rounds without a failing trigger path, `firstFailAt` is this round. -/
theorem firstFailAt_concat {policy : RunbookPolicy} {obs : List Observation} {o : Observation}
    (h : ¬ AnyFailing policy obs) {t : Int}
    (ht : (detectorOf (obs ++ [o])).firstFailAt policy = some t) : t = o.atMs := by
  have hspec := firstFailAt_spec policy (obs ++ [o])
  rw [ht] at hspec
  obtain ⟨p, hp, hstart⟩ := hspec
  have hquiet : failures p obs = [] := by
    by_contra hne
    exact h ⟨p, hp, hne⟩
  obtain ⟨x, hx, rfl⟩ := Option.map_eq_some_iff.mp hstart
  exact failures_concat_of_nil hquiet x (List.mem_of_head? hx)

/-- Some trigger path was failing after round `o` and has failed on every sample
since. -/
def FailedThroughout (policy : RunbookPolicy) (before : List Observation) (o : Observation)
    (since : List Observation) : Prop :=
  ∃ p ∈ policy.triggerPaths, failures p (before ++ [o]) ≠ [] ∧
    ∀ x ∈ pathSamples p (results since), x.2.ok = false

/-- Such a path's run is the one it had after round `o`, and all its samples since. -/
theorem failures_append_of_failing {p : String} {since : List Observation}
    (h : ∀ x ∈ pathSamples p (results since), x.2.ok = false) (obs : List Observation) :
    failures p (obs ++ since) = failures p obs ++ pathSamples p (results since) := by
  rw [failures, pathSamples_append, rtakeWhile_append_of_all]
  · rfl
  · intro x hx
    rw [h x hx]
    rfl

/-- A run that begins at the time of round `o` began with it, when no later
round has that time. -/
theorem failing_of_began {p : String} {before since : List Observation} {o : Observation}
    (hlater : ∀ o' ∈ since, o.atMs < o'.atMs)
    (h : (failures p (before ++ o :: since)).head?.map (·.1) = some o.atMs) :
    failures p (before ++ [o]) ≠ [] ∧ ∀ x ∈ pathSamples p (results since), x.2.ok = false := by
  obtain ⟨x, hx, hat⟩ := Option.map_eq_some_iff.mp h
  have hnot : x ∉ pathSamples p (results since) := by
    intro hmem
    obtain ⟨o', ho', hx'⟩ := mem_results (List.mem_of_mem_filter hmem)
    have := hlater o' ho'
    omega
  rw [List.append_cons, failures, pathSamples_append] at hx
  by_cases hall : ∀ x ∈ pathSamples p (results since), (!x.2.ok) = true
  · refine ⟨?_, fun y hy => by simpa using hall y hy⟩
    intro hnil
    rw [rtakeWhile_append_of_all hall] at hx
    have hfront : (pathSamples p (results (before ++ [o]))).rtakeWhile (fun x => !x.2.ok) = [] := hnil
    rw [hfront, List.nil_append] at hx
    exact hnot (List.mem_of_head? hx)
  · rw [rtakeWhile_append_of_not_all hall] at hx
    exact absurd ((List.rtakeWhile_suffix ..).subset (List.mem_of_head? hx)) hnot

/-- Round `o` begins the stretch of rounds, unbroken to the end of `obs`, at
which some trigger path is failing. -/
def StretchFrom (policy : RunbookPolicy) (o : Observation) (obs : List Observation) : Prop :=
  ∃ before since, obs = before ++ o :: since ∧ ¬ AnyFailing policy before ∧
    ∀ part, part <+: since → AnyFailing policy (before ++ o :: part)

theorem StretchFrom.concat {policy : RunbookPolicy} {o o' : Observation} {obs : List Observation}
    (h : StretchFrom policy o obs) (hfail : AnyFailing policy (obs ++ [o'])) :
    StretchFrom policy o (obs ++ [o']) := by
  obtain ⟨before, since, rfl, hquiet, hparts⟩ := h
  refine ⟨before, since ++ [o'], by simp, hquiet, fun part hpart => ?_⟩
  rcases List.prefix_concat_iff.mp hpart with rfl | hpart
  · simpa using hfail
  · exact hparts part hpart

theorem StretchFrom.begin {policy : RunbookPolicy} {o : Observation} {obs : List Observation}
    (hquiet : ¬ AnyFailing policy obs) (hfail : AnyFailing policy (obs ++ [o])) :
    StretchFrom policy o (obs ++ [o]) :=
  ⟨obs, [], rfl, hquiet, fun part hpart => by rwa [List.prefix_nil.mp hpart]⟩

/-! ## Recovery -/

/-- The all-ok rounds the samples end with. -/
def okRun (obs : List Observation) : List Observation := obs.rtakeWhile (·.allOk)

/-- The tracker after all of `obs`. -/
def trackerOf (obs : List Observation) : RecoveryTracker :=
  obs.foldl RecoveryTracker.observe { okSince := none }

theorem trackerOf_concat (obs : List Observation) (o : Observation) :
    trackerOf (obs ++ [o]) = (trackerOf obs).observe o := by
  rw [trackerOf, List.foldl_append]
  rfl

/-- **The tracker holds the start of the current all-ok run.** -/
theorem trackerOf_okSince (obs : List Observation) :
    (trackerOf obs).okSince = (okRun obs).head?.map (·.atMs) := by
  induction obs using List.reverseRecOn with
  | nil => rfl
  | append_singleton obs o ih =>
    rw [trackerOf_concat, RecoveryTracker.observe, okRun, List.rtakeWhile_concat, ih]
    by_cases hok : o.allOk
    · rw [if_pos hok, if_pos hok, okRun]
      cases obs.rtakeWhile (·.allOk) <;> rfl
    · rw [if_neg hok, if_neg hok]
      rfl

/-- Every probe was ok on every sample from `since` on, for `settleMs`. -/
def Settled (settleMs : Int) (obs : List Observation) (since : Int) : Prop :=
  ∃ before run first last, obs = before ++ run ∧ run.head? = some first ∧
    run.getLast? = some last ∧ first.atMs = since ∧ settleMs ≤ last.atMs - since ∧
    ∀ o ∈ run, ∀ r ∈ o.outcomes, r.ok = true

theorem settled_trackerOf {settleMs since : Int} {obs : List Observation} {o : Observation}
    (h : (trackerOf obs).settled settleMs o = some since) :
    Settled settleMs (obs ++ [o]) since := by
  rw [RecoveryTracker.settled, ← trackerOf_concat, trackerOf_okSince] at h
  cases hhead : (okRun (obs ++ [o])).head? with
  | none => simp [hhead] at h
  | some first =>
      simp only [hhead, Option.map_some] at h
      split at h
      · rename_i hlong
        cases h
        have hlast : (okRun (obs ++ [o])).getLast? = some o := by
          rw [okRun, List.rtakeWhile_concat] at hhead ⊢
          split at hhead
          · rename_i hok
            rw [if_pos hok, List.getLast?_concat]
          · cases hhead
        refine ⟨(obs ++ [o]).rdropWhile (·.allOk), okRun (obs ++ [o]), first, o,
          (List.rdropWhile_append_rtakeWhile ..).symm, hhead, hlast, rfl, hlong, ?_⟩
        intro o' ho' r hr
        have hall := List.mem_rtakeWhile_imp ho'
        exact List.all_eq_true.mp hall r hr
      · cases h

end SupabaseLab.LifecycleOps
