/-
  LifecycleOps/Replay.lean --- the replay of the incident feed, and the gate it replays.

  Source: the replay of experiments/lifecycle-ops/tests/lo01-status-gate.ts, over
  `replayInterval`, `unionMs` and `decide` of experiments/lifecycle-ops/lib/gate.ts.

  At an instant the page shows the incidents that had been created, open until they were
  resolved, with the texts that it has for them now.  What the replay reports for a region
  is how long the gate, shown that, would have said no.
-/
import SupabaseLab.LifecycleOps.Gate
import SupabaseLab.LifecycleOps.UnionMs

set_option autoImplicit false

namespace SupabaseLab.LifecycleOps.Gate

open Library MeasureTheory

/-! ## The replay -/

/-- What is pushed; `"bad-interval"` is not. -/
def Interval.pushed? : Interval → Option MsInterval
  | .closed startMs endMs => some ⟨startMs, endMs⟩
  | .badInterval => none

/-- `ivs`, of one region. -/
def replayed (parse : String → Option Int) (now : Int) (region : String) (op : Op)
    (incidents : List StatusIncident) : List MsInterval :=
  incidents.filterMap fun inc =>
    (replayInterval parse now inc region op DEFAULT_POLICY).bind Interval.pushed?

/-- What `perRegion` is rounded from, in milliseconds. -/
def refusedMs (parse : String → Option Int) (now : Int) (region : String) (op : Op)
    (incidents : List StatusIncident) : ℚ := unionMs (replayed parse now region op incidents)

/-! ## The feed of an instant -/

/-- The end of an incident, as the replay takes it. -/
def endOf (parse : String → Option Int) (now : Int) (inc : StatusIncident) : Int :=
  parsedOrNow now (parse (inc.resolvedAt.getD ""))

/-- The incident as it stood at an instant, if it had been created. -/
noncomputable def shownAt (parse : String → Option Int) (now : Int) (t : ℝ)
    (inc : StatusIncident) : Option StatusIncident :=
  (parse inc.createdAt).bind fun startMs =>
    if (startMs : ℝ) ≤ t then
      some { inc with
        status := if t ≤ (endOf parse now inc : ℝ) then "investigating" else "resolved" }
    else none

noncomputable def feedAt (parse : String → Option Int) (now : Int) (incidents : List StatusIncident)
    (t : ℝ) : List StatusIncident := incidents.filterMap (shownAt parse now t)

section Replay

variable {parse : String → Option Int} {now : Int} {region : String} {op : Op}
  {inc shown : StatusIncident} {incidents : List StatusIncident} {t : ℝ} {i : MsInterval}

theorem shownAt_eq_some : shownAt parse now t inc = some shown ↔
    ∃ startMs, parse inc.createdAt = some startMs ∧ (startMs : ℝ) ≤ t ∧ shown = { inc with
      status := if t ≤ (endOf parse now inc : ℝ) then "investigating" else "resolved" } := by
  unfold shownAt
  rw [Option.bind_eq_some_iff]
  refine exists_congr fun startMs => and_congr_right fun _ => ?_
  split
  · next hle => simp [hle, eq_comm]
  · next hlt => simp [hlt]

/-- An incident is open between its ends, and what it blocks does not change. -/
theorem refuses_at_iff : (∃ shown, shownAt parse now t inc = some shown ∧ isOpen shown = true ∧
    Blocks region op DEFAULT_POLICY shown) ↔
      ∃ startMs, parse inc.createdAt = some startMs ∧ (startMs : ℝ) ≤ t ∧
        t ≤ (endOf parse now inc : ℝ) ∧ Blocks region op DEFAULT_POLICY inc := by
  constructor
  · rintro ⟨shown, hshown, hopen, hblocks⟩
    obtain ⟨startMs, hparse, hstart, rfl⟩ := shownAt_eq_some.mp hshown
    refine ⟨startMs, hparse, hstart, not_lt.mp fun hover => ?_, blocks_withStatus.mp hblocks⟩
    rw [if_neg hover.not_ge] at hopen
    exact absurd hopen Bool.false_ne_true
  · rintro ⟨startMs, hparse, hstart, hend, hblocks⟩
    refine ⟨_, shownAt_eq_some.mpr ⟨startMs, hparse, hstart, rfl⟩, ?_, blocks_withStatus.mpr hblocks⟩
    rw [if_pos hend]
    rfl

theorem replayInterval_eq_closed {startMs endMs : Int} :
    replayInterval parse now inc region op DEFAULT_POLICY = some (.closed startMs endMs) ↔
      Blocks region op DEFAULT_POLICY inc ∧ parse inc.createdAt = some startMs ∧
        endMs = endOf parse now inc ∧ startMs ≤ endMs := by
  rw [blocks_iff]
  unfold replayInterval endOf
  dsimp only
  split
  · next hnot => exact iff_of_false (fun h => by cases h) fun h => hnot h.1
  · next hblocks =>
    rw [and_iff_right (not_not.mp hblocks)]
    cases parse inc.createdAt with
    | none => simp
    | some startMs' =>
      dsimp only
      split
      · next hle =>
        simp only [Option.some.injEq, Interval.closed.injEq]
        constructor
        · rintro ⟨rfl, rfl⟩
          exact ⟨rfl, rfl, hle⟩
        · rintro ⟨rfl, rfl, -⟩
          exact ⟨rfl, rfl⟩
      · next hlt =>
        simp only [Option.some.injEq, reduceCtorEq, false_iff]
        rintro ⟨rfl, rfl, hle⟩
        exact hlt hle

/-- The intervals of the replay. -/
theorem mem_replayed : i ∈ replayed parse now region op incidents ↔ ∃ inc ∈ incidents,
    ∃ startMs, Blocks region op DEFAULT_POLICY inc ∧ parse inc.createdAt = some startMs ∧
      startMs ≤ endOf parse now inc ∧ i = ⟨startMs, endOf parse now inc⟩ := by
  unfold replayed
  rw [List.mem_filterMap]
  refine exists_congr fun inc => and_congr_right fun _ => ?_
  rw [Option.bind_eq_some_iff]
  constructor
  · rintro ⟨interval, hreplay, hpushed⟩
    cases interval with
    | closed startMs endMs =>
      obtain ⟨hblocks, hparse, rfl, hle⟩ := replayInterval_eq_closed.mp hreplay
      exact ⟨startMs, hblocks, hparse, hle, (Option.some.inj hpushed).symm⟩
    | badInterval => cases hpushed
  · rintro ⟨startMs, hblocks, hparse, hle, rfl⟩
    exact ⟨_, replayInterval_eq_closed.mpr ⟨hblocks, hparse, rfl, hle⟩, rfl⟩

theorem ordered_replayed : ∀ i ∈ replayed parse now region op incidents, i.startMs ≤ i.endMs := by
  intro i hi
  obtain ⟨inc, -, startMs, -, -, hle, rfl⟩ := mem_replayed.mp hi
  exact Int.cast_le.mpr hle

/-- Some incident that blocks was open at the instant. -/
theorem mem_unionOf_replayed : t ∈ unionOf (replayed parse now region op incidents) ↔
    ∃ inc ∈ feedAt parse now incidents t, isOpen inc = true ∧ Blocks region op DEFAULT_POLICY inc := by
  have hspan : t ∈ unionOf (replayed parse now region op incidents) ↔
      ∃ i ∈ replayed parse now region op incidents, (i.startMs : ℝ) ≤ t ∧ t ≤ (i.endMs : ℝ) := by
    constructor
    · rintro ⟨s, hs, hle, hge⟩
      obtain ⟨i, hi, rfl⟩ := List.mem_map.mp hs
      exact ⟨i, hi, hle, hge⟩
    · rintro ⟨i, hi, hle, hge⟩
      exact ⟨i.span, List.mem_map_of_mem hi, hle, hge⟩
  rw [hspan]
  constructor
  · rintro ⟨i, hi, hstart, hend⟩
    obtain ⟨inc, hinc, startMs, hblocks, hparse, -, rfl⟩ := mem_replayed.mp hi
    simp only [Rat.cast_intCast] at hstart hend
    obtain ⟨shown, hshown, hopen, hrefuses⟩ :=
      refuses_at_iff.mpr ⟨startMs, hparse, hstart, hend, hblocks⟩
    exact ⟨shown, List.mem_filterMap.mpr ⟨inc, hinc, hshown⟩, hopen, hrefuses⟩
  · rintro ⟨shown, hfeed, hopen, hrefuses⟩
    obtain ⟨inc, hinc, hshown⟩ := List.mem_filterMap.mp hfeed
    obtain ⟨startMs, hparse, hstart, hend, hblocks⟩ :=
      refuses_at_iff.mp ⟨shown, hshown, hopen, hrefuses⟩
    have hle : startMs ≤ endOf parse now inc := Int.cast_le.mp (hstart.trans hend)
    refine ⟨_, mem_replayed.mpr ⟨inc, hinc, startMs, hblocks, hparse, hle, rfl⟩, ?_, ?_⟩
    · simpa using hstart
    · simpa using hend

/-- The replay measures the instants at which the gate would have refused: while the region's
components are operational, those are the instants of the intervals, and their measure is what
`unionMs` reports. -/
theorem replay_measures_refusals (parse : String → Option Int) (now : Int) (region : String)
    (op : Op) (components : List StatusComponent) (incidents : List StatusIncident)
    (hregion : (Gate.regionStatus components region).status = "operational") :
    {t : ℝ | (gateDecide region op components (feedAt parse now incidents t)
        DEFAULT_POLICY).proceed = false} = unionOf (replayed parse now region op incidents) ∧
      0 ≤ refusedMs parse now region op incidents ∧
      volume {t : ℝ | (gateDecide region op components (feedAt parse now incidents t)
        DEFAULT_POLICY).proceed = false} =
          ENNReal.ofReal ((refusedMs parse now region op incidents : ℚ) : ℝ) := by
  have hrefuses : {t : ℝ | (gateDecide region op components (feedAt parse now incidents t)
      DEFAULT_POLICY).proceed = false} = unionOf (replayed parse now region op incidents) := by
    ext t
    obtain ⟨hsome, hstatuses⟩ := regionStatus_eq_operational.mp hregion
    rw [mem_unionOf_replayed, Set.mem_ofPred_eq, ← Bool.not_eq_true, proceed_iff,
      and_iff_right hsome, and_iff_right hstatuses]
    push Not
    rfl
  have hordered : ∀ i ∈ replayed parse now region op incidents, i.startMs ≤ i.endMs :=
    ordered_replayed
  obtain ⟨hnonneg, hmeasure⟩ := unionMs_spec hordered
  exact ⟨hrefuses, hnonneg, hrefuses ▸ hmeasure⟩

end Replay

/-- Two hours without capacity. -/
def capacityIncident : StatusIncident :=
  ⟨"i1", "Capacity", "resolved", "none", "1970-01-01T01:00:00Z", some "1970-01-01T03:00:00Z", []⟩

/-- `Date.parse`, of those two instants. -/
def parseCapacity (text : String) : Option Int :=
  if text = "1970-01-01T01:00:00Z" then some 3600000
  else if text = "1970-01-01T03:00:00Z" then some 10800000
  else none

theorem replay_measures_refusals_capacity :
    refusedMs parseCapacity 20000000 "eu-west-1" .restart [capacityIncident] = 7200000 ∧
      volume {t : ℝ | (gateDecide "eu-west-1" .restart [⟨"c1", "eu-west-1", "operational"⟩]
        (feedAt parseCapacity 20000000 [capacityIncident] t) DEFAULT_POLICY).proceed = false} =
          ENNReal.ofReal ((refusedMs parseCapacity 20000000 "eu-west-1" .restart
            [capacityIncident] : ℚ) : ℝ) :=
  ⟨by with_unfolding_all decide, (replay_measures_refusals parseCapacity 20000000 "eu-west-1" .restart
    [⟨"c1", "eu-west-1", "operational"⟩] [capacityIncident] (by decide)).2.2⟩

end SupabaseLab.LifecycleOps.Gate
