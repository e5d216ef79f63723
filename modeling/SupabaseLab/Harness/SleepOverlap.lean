/-
  Harness/SleepOverlap.lean --- a run's modules placed on the wall clock, across the
  host's sleeps.

  Source: harness/scripts/sleep-overlap.ts, without `--trim` and the printed texts.

  A module's duration is read off a clock that stands still while the host sleeps.  The
  walk goes forward from the start of the run and jumps over every sleep it meets.  One
  sleep interval is made of each Sleep line, so two Sleep lines before one wake make two
  intervals with the same end: the walk takes the first of them only, the total both.
  Seconds are rational numbers and are added exactly, where the script has doubles.
-/
import SupabaseLab.Harness.Artifact
import SupabaseLab.Library.Spans

set_option autoImplicit false

namespace SupabaseLab.Harness

open Library MeasureTheory

/-! ## Sleeps -/

inductive PmKind where
  | sleep
  | wake
  | darkWake
  deriving DecidableEq

/-- A line of the events file, its time parsed. -/
structure PmEvent where
  t : ℚ
  kind : PmKind
  deriving DecidableEq

structure SleepSpan where
  s : ℚ
  e : ℚ
  deriving DecidableEq

def PmEvent.wakes (x : PmEvent) : Bool := decide (x.kind ≠ .sleep)

/-- One interval for each Sleep line that a wake follows, up to the first such wake. -/
def sleeps : List PmEvent → List SleepSpan
  | [] => []
  | x :: rest =>
    if x.kind = .sleep then
      match rest.find? PmEvent.wakes with
      | some y => ⟨x.t, y.t⟩ :: sleeps rest
      | none => sleeps rest
    else sleeps rest

/-! ## The total -/

def sleepsInside (sl : List SleepSpan) (w wallEnd : ℚ) : List SleepSpan :=
  sl.filter fun x => decide (w < x.e) && decide (x.s < wallEnd)

/-- The seconds asleep that are printed, before they are rounded. -/
def totalMs (sl : List SleepSpan) (w wallEnd : ℚ) : ℚ :=
  (sleepsInside sl w wallEnd).foldl (fun n x => n + min x.e wallEnd - max x.s w) 0

/-! ## The placement -/

structure ModuleRun where
  ids : List String
  durationMs : Nat
  deriving DecidableEq

def sameModule : Option Nat → Option Nat → Bool
  | some a, some b => decide (a ≤ b + 5) && decide (b ≤ a + 5)
  | _, _ => false

/-- One result joins the last module or begins another one. -/
def addResult (runs : List ModuleRun) (r : TestResult) : List ModuleRun :=
  match runs.getLast? with
  | some last =>
    if sameModule (some last.durationMs) r.durationMs then
      runs.dropLast ++ [{ last with ids := last.ids ++ [r.id] }]
    else runs ++ [⟨[r.id], r.durationMs.getD 0⟩]
  | none => [⟨[r.id], r.durationMs.getD 0⟩]

def moduleRuns (results : List TestResult) : List ModuleRun := results.foldl addResult []

/-- A sleep that a module spans, and how far into it the module met the sleep. -/
structure Hit where
  sleep : SleepSpan
  atMs : ℚ
  deriving DecidableEq

/-- `sleeps.find((x) => x.e > w && x.s < w + rem)`. -/
def nextSleep (sl : List SleepSpan) (w rem : ℚ) : Option SleepSpan :=
  sl.find? fun x => decide (w < x.e) && decide (x.s < w + rem)

/-- The `while` loop, `fuel` rounds of it at most: where the module ends, and its hits. -/
def placeLoop (sl : List SleepSpan) (start : ℚ) : Nat → ℚ → ℚ → List Hit → Option (ℚ × List Hit)
  | 0, _, _, _ => none
  | fuel + 1, w, rem, hit =>
    if 0 < rem then
      match nextSleep sl w rem with
      | none => some (w + rem, hit)
      | some x =>
        placeLoop sl start fuel x.e (if w < x.s then rem - (x.s - w) else rem)
          (hit ++ [⟨x, max x.s start - start⟩])
    else some (w, hit)

structure Placement where
  ids : List String
  startMs : ℚ
  endMs : ℚ
  durationMs : Nat
  hit : List Hit
  deriving DecidableEq

def placeModules (sl : List SleepSpan) (fuel : Nat) : ℚ → List ModuleRun → Option (List Placement)
  | _, [] => some []
  | w, r :: runs =>
    match placeLoop sl w fuel w r.durationMs [] with
    | none => none
    | some (e, hit) => (placeModules sl fuel e runs).map (⟨r.ids, w, e, r.durationMs, hit⟩ :: ·)

structure SleepReport where
  inside : Nat
  totalMs : ℚ
  placements : List Placement
  deriving DecidableEq

/-- The report on one artifact. -/
def sleepReport (fuel : Nat) (ev : List PmEvent) (startedAt finishedAt : ℚ)
    (results : List TestResult) : Option SleepReport :=
  let sl := sleeps ev
  let inside := sleepsInside sl startedAt finishedAt
  let total := totalMs sl startedAt finishedAt
  if inside = [] then some ⟨0, total, []⟩
  else (placeModules sl fuel startedAt (moduleRuns results)).map (⟨inside.length, total, ·⟩)

/-! ## Time asleep -/

/-- The instants between a Sleep line and the wake line that ends the sleep. -/
def asleep (ev : List PmEvent) : Set ℝ :=
  {t | ∃ (pre : List PmEvent) (x : PmEvent) (mid : List PmEvent) (y : PmEvent) (post : List PmEvent),
    ev = pre ++ x :: mid ++ y :: post ∧ x.kind = .sleep ∧
      (∀ z ∈ mid, z.kind = .sleep) ∧ y.kind ≠ .sleep ∧ (x.t : ℝ) ≤ t ∧ t < (y.t : ℚ)}

/-- How long the host slept in a window. -/
noncomputable def asleepMs (ev : List PmEvent) (fromMs toMs : ℚ) : ℝ :=
  volume.real (asleep ev ∩ Set.Ico (fromMs : ℝ) toMs)

/-- Lines in the order of time. -/
def TimeOrdered (ev : List PmEvent) : Prop := ev.Pairwise fun x y => x.t ≤ y.t

instance (ev : List PmEvent) : Decidable (TimeOrdered ev) := inferInstanceAs (Decidable (List.Pairwise _ _))

/-- Wall time is the module's own time and the time asleep. -/
def Placement.Conserves (ev : List PmEvent) (p : Placement) : Prop :=
  (p.endMs - p.startMs : ℝ) = p.durationMs + asleepMs ev p.startMs p.endMs

/-- What the report promises of an artifact. -/
structure SleepAccounted (ev : List PmEvent) (startedAt finishedAt : ℚ) (results : List TestResult) :
    Prop where
  /-- The walk ends, and places every module if there is a sleep to place. -/
  ends : ∃ fuel r, sleepReport fuel ev startedAt finishedAt results = some r ∧
    (0 < r.inside → r.placements.map (fun p => (⟨p.ids, p.durationMs⟩ : ModuleRun)) =
      moduleRuns results)
  conserves : ∀ fuel r, sleepReport fuel ev startedAt finishedAt results = some r →
    ∀ p ∈ r.placements, p.Conserves ev
  total : (totalMs (sleeps ev) startedAt finishedAt : ℝ) = asleepMs ev startedAt finishedAt

/-- Time between a Sleep line that directly follows another one and its wake is inside the
window. -/
def RepeatsInside (ev : List PmEvent) (fromMs toMs : ℚ) : Prop :=
  ∃ (pre : List PmEvent) (x z : PmEvent) (mid : List PmEvent) (y : PmEvent) (post : List PmEvent),
    ev = pre ++ x :: z :: mid ++ y :: post ∧ x.kind = .sleep ∧
      z.kind = .sleep ∧ (∀ u ∈ mid, u.kind = .sleep) ∧ y.kind ≠ .sleep ∧
      max z.t fromMs < min y.t toMs

section Lemmas

variable {ev rest : List PmEvent} {x z : PmEvent} {sl : List SleepSpan} {v : SleepSpan}
  {w rem start e fromMs toMs : ℚ} {hit hits : List Hit} {fuel : Nat} {t : ℝ}

/-- The spans as spans of real instants. -/
def realSpans (sl : List SleepSpan) : List (ℝ × ℝ) := sl.map fun v => ((v.s : ℝ), (v.e : ℝ))

theorem not_wakes : x.wakes = false ↔ x.kind = .sleep := by
  rw [PmEvent.wakes, decide_eq_false_iff_not, not_not]

theorem wakes_iff : x.wakes = true ↔ x.kind ≠ .sleep := decide_eq_true_iff

theorem find_wakes_eq_some_iff {y : PmEvent} : rest.find? PmEvent.wakes = some y ↔
    ∃ mid post, rest = mid ++ y :: post ∧ (∀ u ∈ mid, u.kind = .sleep) ∧ y.kind ≠ .sleep := by
  rw [List.find?_eq_some_iff_append]
  simp only [Bool.not_eq_true', not_wakes, wakes_iff]
  constructor
  · rintro ⟨hy, mid, post, heq, hmid⟩
    exact ⟨mid, post, heq, hmid, hy⟩
  · rintro ⟨mid, post, heq, hmid, hy⟩
    exact ⟨hy, mid, post, heq, hmid⟩

/-! ## What is asleep -/

theorem mem_sleeps_cons : v ∈ sleeps (x :: rest) ↔
    (x.kind = .sleep ∧ ∃ y, rest.find? PmEvent.wakes = some y ∧ v = ⟨x.t, y.t⟩) ∨ v ∈ sleeps rest := by
  rw [sleeps]
  by_cases hx : x.kind = .sleep
  · rw [if_pos hx]
    cases rest.find? PmEvent.wakes with
    | none => simp
    | some y => simp [hx]
  · rw [if_neg hx]
    simp [hx]

theorem mem_sleeps_iff : v ∈ sleeps ev ↔
    ∃ (pre : List PmEvent) (x : PmEvent) (mid : List PmEvent) (y : PmEvent) (post : List PmEvent),
      ev = pre ++ x :: mid ++ y :: post ∧ x.kind = .sleep ∧
        (∀ z ∈ mid, z.kind = .sleep) ∧ y.kind ≠ .sleep ∧ v = ⟨x.t, y.t⟩ := by
  induction ev with
  | nil =>
    refine iff_of_false List.not_mem_nil ?_
    rintro ⟨pre, x, mid, y, post, heq, -⟩
    simp at heq
  | cons a rest ih =>
    rw [mem_sleeps_cons, ih]
    constructor
    · rintro (⟨ha, y, hy, hv⟩ | ⟨pre, x, mid, y, post, rfl, h⟩)
      · obtain ⟨mid, post, rfl, hmid, hy⟩ := find_wakes_eq_some_iff.mp hy
        exact ⟨[], a, mid, y, post, rfl, ha, hmid, hy, hv⟩
      · exact ⟨a :: pre, x, mid, y, post, rfl, h⟩
    · rintro ⟨pre, x, mid, y, post, heq, hx, hmid, hy, hv⟩
      cases pre with
      | nil =>
        obtain ⟨rfl, rfl⟩ := List.cons.inj heq
        exact .inl ⟨hx, y, find_wakes_eq_some_iff.mpr ⟨mid, post, rfl, hmid, hy⟩, hv⟩
      | cons b pre =>
        obtain ⟨rfl, rfl⟩ := List.cons.inj heq
        exact .inr ⟨pre, x, mid, y, post, rfl, hx, hmid, hy, hv⟩

theorem asleep_inter : asleep ev ∩ Set.Ico (fromMs : ℝ) toMs = covered (realSpans (sleeps ev)) fromMs toMs := by
  ext t
  simp only [asleep, covered, realSpans, Set.mem_inter_iff, Set.mem_ofPred_eq]
  constructor
  · rintro ⟨⟨pre, x, mid, y, post, heq, hx, hmid, hy, hst, hte⟩, hwindow⟩
    exact ⟨hwindow, _, List.mem_map_of_mem
      (mem_sleeps_iff.mpr ⟨pre, x, mid, y, post, heq, hx, hmid, hy, rfl⟩), hst, hte⟩
  · rintro ⟨hwindow, _, hs, hst, hte⟩
    obtain ⟨v, hv, rfl⟩ := List.mem_map.mp hs
    obtain ⟨pre, x, mid, y, post, heq, hx, hmid, hy, rfl⟩ := mem_sleeps_iff.mp hv
    exact ⟨⟨pre, x, mid, y, post, heq, hx, hmid, hy, hst, hte⟩, hwindow⟩

theorem start_of_mem_sleeps (hv : v ∈ sleeps ev) : ∃ x ∈ ev, v.s = x.t := by
  obtain ⟨pre, x, mid, y, post, rfl, -, -, -, rfl⟩ := mem_sleeps_iff.mp hv
  exact ⟨x, by simp, rfl⟩

theorem le_of_mem_sleeps (hordered : TimeOrdered ev) (hv : v ∈ sleeps ev) : v.s ≤ v.e := by
  obtain ⟨pre, x, mid, y, post, rfl, -, -, -, rfl⟩ := mem_sleeps_iff.mp hv
  rw [List.append_assoc] at hordered
  have hfrom := (List.pairwise_append.mp hordered).2.1
  exact (List.pairwise_cons.mp hfrom).1 y (by simp)

theorem sleeps_sorted (hordered : TimeOrdered ev) : (sleeps ev).Pairwise fun u v => u.s ≤ v.s := by
  induction ev with
  | nil => exact List.Pairwise.nil
  | cons x rest ih =>
    obtain ⟨hfirst, hrest⟩ := List.pairwise_cons.mp hordered
    have hlater : ∀ v ∈ sleeps rest, x.t ≤ v.s := fun v hv => by
      obtain ⟨z, hz, heq⟩ := start_of_mem_sleeps hv
      exact heq ▸ hfirst z hz
    rw [sleeps]
    split
    · split
      · exact List.pairwise_cons.mpr ⟨hlater, ih hrest⟩
      · exact ih hrest
    · exact ih hrest

/-! ## The walk -/

/-- Each round leaves one sleep more behind. -/
theorem placeLoop_ends (h : (sl.countP fun x => decide (w < x.e)) < fuel) :
    ∃ e hits, placeLoop sl start fuel w rem hit = some (e, hits) := by
  induction fuel generalizing w rem hit with
  | zero => exact absurd h (Nat.not_lt_zero _)
  | succ fuel ih =>
    rw [placeLoop]
    by_cases hrem : 0 < rem
    · rw [if_pos hrem]
      cases hfind : nextSleep sl w rem with
      | none => exact ⟨_, _, rfl⟩
      | some x =>
        obtain ⟨hx, pre, post, rfl, -⟩ := List.find?_eq_some_iff_append.mp hfind
        have hwx : w < x.e := of_decide_eq_true (Bool.and_eq_true_iff.mp hx).1
        have hfewer : ∀ l : List SleepSpan, (l.countP fun y => decide (x.e < y.e)) ≤
            l.countP fun y => decide (w < y.e) := fun l =>
          List.countP_mono_left fun y _ hy => decide_eq_true (hwx.trans (of_decide_eq_true hy))
        have hpre := hfewer pre
        have hpost := hfewer post
        refine ih ?_
        rw [List.countP_append, List.countP_cons_of_neg (by simp)]
        rw [List.countP_append, List.countP_cons_of_pos (by simpa using hwx)] at h
        omega
    · rw [if_neg hrem]
      exact ⟨_, _, rfl⟩

/-- Up to the end of the next sleep, the host is asleep from where the walk meets it on. -/
theorem volume_to_next (hsorted : sl.Pairwise fun u v => u.s ≤ v.s) (hself : ∀ v ∈ sl, v.s ≤ v.e)
    (hfind : nextSleep sl w rem = some v) :
    volume (covered (realSpans sl) w v.e) = ENNReal.ofReal ((v.e - max v.s w : ℚ) : ℝ) := by
  obtain ⟨hmeets, pre, post, rfl, hpre⟩ := List.find?_eq_some_iff_append.mp hfind
  obtain ⟨hwe, hreach⟩ := Bool.and_eq_true_iff.mp hmeets
  have hwe : w < v.e := of_decide_eq_true hwe
  have hreach : v.s < w + rem := of_decide_eq_true hreach
  have hmem : ((v.s : ℝ), (v.e : ℝ)) ∈ realSpans (pre ++ v :: post) :=
    List.mem_map_of_mem (List.mem_append_right pre List.mem_cons_self)
  rcases le_or_gt v.s w with hin | hout
  · rw [covered_of_mem hmem (Rat.cast_le.mpr hin) (le_refl _), Real.volume_Ico, max_eq_right hin,
      Rat.cast_sub]
  · have hself := hself v (List.mem_append_right pre List.mem_cons_self)
    have hawake : covered (realSpans (pre ++ v :: post)) w v.s = ∅ := by
      refine covered_of_apart fun s hs => ?_
      obtain ⟨u, hu, rfl⟩ := List.mem_map.mp hs
      simp only [Rat.cast_le]
      rcases List.mem_append.mp hu with hu | hu
      · -- a sleep ahead of it in the list is over, or begins after the module's time
        by_contra hno
        obtain ⟨hlate, hearly⟩ := not_or.mp hno
        have hskipped := hpre u hu
        simp only [Bool.not_eq_true', Bool.and_eq_false_iff, decide_eq_false_iff_not, not_lt]
          at hskipped
        rcases hskipped with hover | hafter
        · exact hlate hover
        · exact hearly (hreach.le.trans hafter)
      · rcases List.mem_cons.mp hu with rfl | hu
        · exact .inr (le_refl _)
        · exact .inr ((List.pairwise_cons.mp (List.pairwise_append.mp hsorted).2.1).1 u hu)
    rw [volume_covered_split (Rat.cast_le.mpr hout.le) (Rat.cast_le.mpr hself), hawake,
      measure_empty, zero_add, covered_of_mem hmem (le_refl _) (le_refl _), Real.volume_Ico,
      max_eq_left hout.le, Rat.cast_sub]

theorem placeLoop_conserves (hsorted : sl.Pairwise fun u v => u.s ≤ v.s)
    (hself : ∀ v ∈ sl, v.s ≤ v.e) (hrem : 0 ≤ rem)
    (h : placeLoop sl start fuel w rem hit = some (e, hits)) :
    w + rem ≤ e ∧ volume (covered (realSpans sl) w e) = ENNReal.ofReal ((e - w - rem : ℚ) : ℝ) := by
  induction fuel generalizing w rem hit with
  | zero => cases h
  | succ fuel ih =>
    rw [placeLoop] at h
    by_cases hpos : 0 < rem
    · rw [if_pos hpos] at h
      cases hfind : nextSleep sl w rem with
      | none =>
        rw [hfind] at h
        obtain ⟨rfl, -⟩ := Prod.mk.inj (Option.some.inj h)
        refine ⟨le_refl _, ?_⟩
        have hawake : covered (realSpans sl) w (w + rem : ℚ) = ∅ := by
          refine covered_of_apart fun s hs => ?_
          obtain ⟨u, hu, rfl⟩ := List.mem_map.mp hs
          have hnone := List.find?_eq_none.mp hfind u hu
          simp only [Rat.cast_le]
          simpa only [Bool.and_eq_true, decide_eq_true_eq, not_and_or, not_lt] using hnone
        rw [hawake, measure_empty, add_sub_cancel_left, sub_self, Rat.cast_zero, ENNReal.ofReal_zero]
      | some v =>
        rw [hfind] at h
        have hnext := volume_to_next hsorted hself hfind
        obtain ⟨hmeets, -⟩ := List.find?_eq_some_iff_append.mp hfind
        obtain ⟨hwe, hreach⟩ := Bool.and_eq_true_iff.mp hmeets
        have hwe : w < v.e := of_decide_eq_true hwe
        have hreach : v.s < w + rem := of_decide_eq_true hreach
        have hself := hself v (List.mem_of_find?_eq_some hfind)
        have hleft : (if w < v.s then rem - (v.s - w) else rem) = w + rem - max v.s w := by
          split
          · rename_i hlt
            rw [max_eq_left hlt.le]
            ring
          · rename_i hge
            rw [max_eq_right (not_lt.mp hge)]
            ring
        have hmeet : max v.s w ≤ v.e := max_le hself hwe.le
        have hbefore : max v.s w < w + rem := max_lt hreach (lt_add_of_pos_right w hpos)
        dsimp only at h
        rw [hleft] at h
        obtain ⟨hend, hvolume⟩ := ih (sub_pos.mpr hbefore).le h
        refine ⟨by linarith, ?_⟩
        rw [volume_covered_split (Rat.cast_le.mpr hwe.le) (Rat.cast_le.mpr (by linarith)), hnext,
          hvolume, ← ENNReal.ofReal_add (Rat.cast_nonneg.mpr (sub_nonneg.mpr hmeet))
            (Rat.cast_nonneg.mpr (by linarith)), ← Rat.cast_add]
        congr 2
        ring
    · rw [if_neg hpos] at h
      obtain ⟨rfl, -⟩ := Prod.mk.inj (Option.some.inj h)
      have hzero : rem = 0 := le_antisymm (not_lt.mp hpos) hrem
      refine ⟨by linarith, ?_⟩
      have hempty : covered (realSpans sl) w w = ∅ :=
        Set.eq_empty_of_forall_notMem fun t ht => absurd ht.1.2 (not_lt_of_ge ht.1.1)
      rw [hempty, measure_empty, hzero, sub_self, sub_zero, Rat.cast_zero, ENNReal.ofReal_zero]

/-! ## The total -/

/-- From each Sleep line that a wake follows to the line after it. -/
def stretches : List PmEvent → List SleepSpan
  | x :: z :: rest =>
    if x.kind = .sleep ∧ ((z :: rest).find? PmEvent.wakes).isSome then
      ⟨x.t, z.t⟩ :: stretches (z :: rest)
    else stretches (z :: rest)
  | _ => []

/-- The intervals of the Sleep lines that directly follow another one. -/
def repeatedSleeps : List PmEvent → List SleepSpan
  | x :: z :: rest =>
    if x.kind = .sleep ∧ z.kind = .sleep then
      match rest.find? PmEvent.wakes with
      | some y => ⟨z.t, y.t⟩ :: repeatedSleeps (z :: rest)
      | none => repeatedSleeps (z :: rest)
    else repeatedSleeps (z :: rest)
  | _ => []

/-- How much of the window the intervals take, added up. -/
def overlapSum (sl : List SleepSpan) (fromMs toMs : ℚ) : ℚ :=
  ((sl.map fun v => (v.s, v.e)).map fun s => overlapOf s fromMs toMs).sum

theorem overlapSum_cons : overlapSum (v :: sl) fromMs toMs =
    overlapOf (v.s, v.e) fromMs toMs + overlapSum sl fromMs toMs :=
  List.sum_cons

theorem overlapSum_nonneg : 0 ≤ overlapSum sl fromMs toMs := by
  refine List.sum_nonneg fun x hx => ?_
  obtain ⟨s, -, rfl⟩ := List.mem_map.mp hx
  exact le_max_left _ _

/-- No wake line ends a list of Sleep lines alone. -/
theorem find_wakes_of_sleep (hz : z.kind = .sleep) :
    (z :: rest).find? PmEvent.wakes = rest.find? PmEvent.wakes :=
  List.find?_cons_of_neg (by rw [not_wakes.mpr hz]; exact Bool.false_ne_true)

theorem find_wakes_of_wake (hz : z.kind ≠ .sleep) : (z :: rest).find? PmEvent.wakes = some z :=
  List.find?_cons_of_pos (wakes_iff.mpr hz)

/-- The intervals of the sleeps, taken apart at the next line. -/
theorem overlapSum_sleeps (hordered : TimeOrdered ev) (hwindow : fromMs ≤ toMs) :
    overlapSum (sleeps ev) fromMs toMs =
      overlapSum (stretches ev) fromMs toMs + overlapSum (repeatedSleeps ev) fromMs toMs := by
  induction ev with
  | nil => exact (add_zero (0 : ℚ)).symm
  | cons x rest ih =>
    obtain ⟨hfirst, hrest⟩ := List.pairwise_cons.mp hordered
    have ih := ih hrest
    cases rest with
    | nil =>
      rw [sleeps]
      split <;> exact (add_zero (0 : ℚ)).symm
    | cons z rest =>
      rw [sleeps, stretches, repeatedSleeps]
      by_cases hx : x.kind = .sleep
      · by_cases hz : z.kind = .sleep
        · rw [find_wakes_of_sleep hz]
          cases hfind : rest.find? PmEvent.wakes with
          | none => simpa [hx, hz] using ih
          | some y =>
            have hxz : x.t ≤ z.t := hfirst z List.mem_cons_self
            have hzy : z.t ≤ y.t :=
              (List.pairwise_cons.mp hrest).1 y (List.mem_of_find?_eq_some hfind)
            simp only [hx, hz, Option.isSome_some, and_self, if_true, overlapSum_cons, ih,
              overlapOf_split hxz hzy hwindow]
            ring
        · rw [find_wakes_of_wake hz]
          simp only [hx, hz, Option.isSome_some, and_true, and_false, if_true, if_false,
            overlapSum_cons, ih]
          ring
      · simpa only [hx, if_false, false_and] using ih

theorem start_of_mem_stretches (hv : v ∈ stretches ev) : ∃ x ∈ ev, v.s = x.t := by
  induction ev with
  | nil => exact absurd hv List.not_mem_nil
  | cons x rest ih =>
    cases rest with
    | nil => exact absurd hv List.not_mem_nil
    | cons z rest =>
      have hrest : v ∈ stretches (z :: rest) → ∃ y ∈ x :: z :: rest, v.s = y.t := fun hv => by
        obtain ⟨y, hy, heq⟩ := ih hv
        exact ⟨y, List.mem_cons_of_mem x hy, heq⟩
      rw [stretches] at hv
      split at hv
      · rcases List.mem_cons.mp hv with rfl | hv
        · exact ⟨x, List.mem_cons_self, rfl⟩
        · exact hrest hv
      · exact hrest hv

theorem stretches_apart (hordered : TimeOrdered ev) :
    (stretches ev).Pairwise fun u v => u.e ≤ v.s := by
  induction ev with
  | nil => exact List.Pairwise.nil
  | cons x rest ih =>
    obtain ⟨hfirst, hrest⟩ := List.pairwise_cons.mp hordered
    have ih := ih hrest
    cases rest with
    | nil => exact List.Pairwise.nil
    | cons z rest =>
      rw [stretches]
      split
      · refine List.pairwise_cons.mpr ⟨fun v hv => ?_, ih⟩
        obtain ⟨y, hy, heq⟩ := start_of_mem_stretches hv
        rcases List.mem_cons.mp hy with rfl | hy
        · exact heq.ge
        · exact heq ▸ (List.pairwise_cons.mp hrest).1 y hy
      · exact ih

/-- The stretches cover what the sleeps cover. -/
theorem exists_stretch_iff (hordered : TimeOrdered ev) :
    (∃ v ∈ sleeps ev, (v.s : ℝ) ≤ t ∧ t < (v.e : ℚ)) ↔
      ∃ v ∈ stretches ev, (v.s : ℝ) ≤ t ∧ t < (v.e : ℚ) := by
  induction ev with
  | nil => rfl
  | cons x rest ih =>
    obtain ⟨hfirst, hrest⟩ := List.pairwise_cons.mp hordered
    have ih := ih hrest
    cases rest with
    | nil =>
      rw [sleeps]
      split <;> rfl
    | cons z rest =>
      rw [sleeps, stretches]
      by_cases hx : x.kind = .sleep
      · by_cases hz : z.kind = .sleep
        · rw [find_wakes_of_sleep hz]
          cases hfind : rest.find? PmEvent.wakes with
          | none => simpa [hx] using ih
          | some y =>
            have hxz : x.t ≤ z.t := hfirst z List.mem_cons_self
            have hmem : (⟨z.t, y.t⟩ : SleepSpan) ∈ sleeps (z :: rest) :=
              mem_sleeps_cons.mpr (.inl ⟨hz, y, hfind, rfl⟩)
            have hzy := le_of_mem_sleeps hrest hmem
            have hxz : (x.t : ℝ) ≤ z.t := Rat.cast_le.mpr hxz
            have hzy : (z.t : ℝ) ≤ y.t := Rat.cast_le.mpr hzy
            simp only [hx, Option.isSome_some, and_self, if_true, List.mem_cons, exists_eq_or_imp,
              ← ih]
            constructor
            · rintro (⟨hxt, hty⟩ | h)
              · rcases lt_or_ge t (z.t : ℝ) with htz | hzt
                · exact .inl ⟨hxt, htz⟩
                · exact .inr ⟨_, hmem, hzt, hty⟩
              · exact .inr h
            · rintro (⟨hxt, htz⟩ | h)
              · exact .inl ⟨hxt, htz.trans_le hzy⟩
              · exact .inr h
        · rw [find_wakes_of_wake hz]
          simp only [hx, Option.isSome_some, and_self, if_true, List.mem_cons, exists_eq_or_imp, ih]
      · simpa only [hx, if_false, false_and] using ih

/-- The time asleep is what the stretches take of the window. -/
theorem asleepMs_eq (hordered : TimeOrdered ev) :
    asleepMs ev fromMs toMs = (overlapSum (stretches ev) fromMs toMs : ℝ) := by
  have hsame : asleep ev ∩ Set.Ico (fromMs : ℝ) toMs =
      covered (realSpans (stretches ev)) fromMs toMs := by
    rw [asleep_inter]
    ext t
    have hiff := exists_stretch_iff (t := t) hordered
    simpa only [covered, realSpans, Set.mem_ofPred_eq, List.mem_map, exists_exists_and_eq_and,
      Set.mem_Ico, and_congr_right_iff] using fun _ => hiff
  have hapart : (realSpans (stretches ev)).Pairwise fun s t => s.2 ≤ t.1 :=
    List.pairwise_map.mpr ((stretches_apart hordered).imp fun h => Rat.cast_le.mpr h)
  have hsum : ((realSpans (stretches ev)).map fun s => overlapOf s (fromMs : ℝ) toMs).sum =
      ((overlapSum (stretches ev) fromMs toMs : ℚ) : ℝ) := by
    rw [overlapSum, cast_sum_overlapOf, realSpans, List.map_map, List.map_map, List.map_map]
    rfl
  rw [asleepMs, hsame, Measure.real, volume_covered hapart, hsum,
    ENNReal.toReal_ofReal (Rat.cast_nonneg.mpr overlapSum_nonneg)]

theorem foldl_total (n : ℚ) :
    sl.foldl (fun n x => n + min x.e toMs - max x.s fromMs) n =
      n + (sl.map fun x => min x.e toMs - max x.s fromMs).sum := by
  induction sl generalizing n with
  | nil => exact (add_zero n).symm
  | cons v sl ih =>
    rw [List.foldl_cons, ih, List.map_cons, List.sum_cons]
    ring

/-- What an interval takes of the window is nothing when the filter drops it. -/
theorem overlapSum_eq_total (hself : ∀ v ∈ sl, v.s ≤ v.e) (hwindow : fromMs ≤ toMs) :
    totalMs sl fromMs toMs = overlapSum sl fromMs toMs := by
  rw [totalMs, foldl_total, zero_add, sleepsInside]
  induction sl with
  | nil => rfl
  | cons v sl ih =>
    have ih := ih fun u hu => hself u (List.mem_cons_of_mem v hu)
    have hv := hself v List.mem_cons_self
    rw [overlapSum_cons, List.filter_cons, ← ih]
    by_cases hin : (decide (fromMs < v.e) && decide (v.s < toMs)) = true
    · obtain ⟨hend, hstart⟩ := Bool.and_eq_true_iff.mp hin
      have hend : fromMs < v.e := of_decide_eq_true hend
      have hstart : v.s < toMs := of_decide_eq_true hstart
      have hreach : max v.s fromMs ≤ min v.e toMs :=
        max_le (le_min hv hstart.le) (le_min hend.le hwindow)
      rw [if_pos hin, List.map_cons, List.sum_cons, overlapOf, max_eq_right (sub_nonneg.mpr hreach)]
    · rw [if_neg hin]
      simp only [Bool.and_eq_true, decide_eq_true_eq, not_and_or, not_lt] at hin
      have hgone : min v.e toMs - max v.s fromMs ≤ 0 := by
        rw [sub_nonpos]
        rcases hin with hend | hstart
        · exact (min_le_left _ _).trans (hend.trans (le_max_right _ _))
        · exact (min_le_right _ _).trans (hstart.trans (le_max_left _ _))
      rw [overlapOf, max_eq_left hgone, zero_add]

theorem mem_repeatedSleeps_iff : v ∈ repeatedSleeps ev ↔
    ∃ (pre : List PmEvent) (x z : PmEvent) (mid : List PmEvent) (y : PmEvent) (post : List PmEvent),
      ev = pre ++ x :: z :: mid ++ y :: post ∧ x.kind = .sleep ∧
        z.kind = .sleep ∧ (∀ u ∈ mid, u.kind = .sleep) ∧ y.kind ≠ .sleep ∧ v = ⟨z.t, y.t⟩ := by
  induction ev with
  | nil =>
    refine iff_of_false List.not_mem_nil ?_
    rintro ⟨pre, x, z, mid, y, post, heq, -⟩
    simp at heq
  | cons a rest ih =>
    cases rest with
    | nil =>
      refine iff_of_false List.not_mem_nil ?_
      rintro ⟨pre, x, z, mid, y, post, heq, -⟩
      have hlength := congrArg List.length heq
      simp only [List.length_append, List.length_cons, List.length_nil] at hlength
      omega
    | cons b rest =>
      have hcons : v ∈ repeatedSleeps (a :: b :: rest) ↔
          (a.kind = .sleep ∧ b.kind = .sleep ∧ ∃ y, rest.find? PmEvent.wakes = some y ∧
            v = ⟨b.t, y.t⟩) ∨ v ∈ repeatedSleeps (b :: rest) := by
        rw [repeatedSleeps]
        by_cases hboth : a.kind = .sleep ∧ b.kind = .sleep
        · rw [if_pos hboth]
          cases rest.find? PmEvent.wakes with
          | none => simp
          | some y => simp [hboth]
        · rw [if_neg hboth]
          simp only [← and_assoc, hboth, false_and, false_or]
      rw [hcons, ih]
      constructor
      · rintro (⟨ha, hb, y, hy, hv⟩ | ⟨pre, x, z, mid, y, post, heq, h⟩)
        · obtain ⟨mid, post, rfl, hmid, hy⟩ := find_wakes_eq_some_iff.mp hy
          exact ⟨[], a, b, mid, y, post, rfl, ha, hb, hmid, hy, hv⟩
        · exact ⟨a :: pre, x, z, mid, y, post, congrArg (a :: ·) heq, h⟩
      · rintro ⟨pre, x, z, mid, y, post, heq, hx, hz, hmid, hy, hv⟩
        cases pre with
        | nil =>
          obtain ⟨rfl, htail⟩ := List.cons.inj heq
          obtain ⟨rfl, rfl⟩ := List.cons.inj htail
          exact .inl ⟨hx, hz, y, find_wakes_eq_some_iff.mpr ⟨mid, post, rfl, hmid, hy⟩, hv⟩
        | cons c pre =>
          obtain ⟨rfl, htail⟩ := List.cons.inj heq
          exact .inr ⟨pre, x, z, mid, y, post, htail, hx, hz, hmid, hy, hv⟩

theorem overlapSum_eq_zero_iff : overlapSum sl fromMs toMs = 0 ↔
    ∀ v ∈ sl, ¬ max v.s fromMs < min v.e toMs := by
  induction sl with
  | nil => exact iff_of_true rfl fun v hv => absurd hv List.not_mem_nil
  | cons v sl ih =>
    have hhead : overlapOf (v.s, v.e) fromMs toMs = 0 ↔ ¬ max v.s fromMs < min v.e toMs := by
      rw [overlapOf, max_eq_left_iff, sub_nonpos, not_lt]
    have hnonneg : 0 ≤ overlapOf (v.s, v.e) fromMs toMs := le_max_left _ _
    rw [overlapSum_cons, add_eq_zero_iff_of_nonneg hnonneg overlapSum_nonneg, ih, hhead,
      List.forall_mem_cons]

theorem overlapSum_repeated_eq_zero_iff :
    overlapSum (repeatedSleeps ev) fromMs toMs = 0 ↔ ¬ RepeatsInside ev fromMs toMs := by
  rw [overlapSum_eq_zero_iff]
  constructor
  · rintro h ⟨pre, x, z, mid, y, post, heq, hx, hz, hmid, hy, hlt⟩
    exact h ⟨z.t, y.t⟩
      (mem_repeatedSleeps_iff.mpr ⟨pre, x, z, mid, y, post, heq, hx, hz, hmid, hy, rfl⟩) hlt
  · intro h v hv hlt
    obtain ⟨pre, x, z, mid, y, post, heq, hx, hz, hmid, hy, rfl⟩ := mem_repeatedSleeps_iff.mp hv
    exact h ⟨pre, x, z, mid, y, post, heq, hx, hz, hmid, hy, hlt⟩

/-- A window that ends before it begins holds no time, and every interval across it counts as
less than none. -/
theorem total_of_reversed (hreversed : toMs < fromMs) :
    totalMs sl fromMs toMs = 0 ↔ sleepsInside sl fromMs toMs = [] := by
  have hterm : ∀ v ∈ sleepsInside sl fromMs toMs, min v.e toMs - max v.s fromMs = toMs - fromMs := by
    intro v hv
    obtain ⟨hend, hstart⟩ := Bool.and_eq_true_iff.mp (List.mem_filter.mp hv).2
    have hend : fromMs < v.e := of_decide_eq_true hend
    have hstart : v.s < toMs := of_decide_eq_true hstart
    rw [min_eq_right (hreversed.trans hend).le, max_eq_right (hstart.trans hreversed).le]
  rw [totalMs, foldl_total, zero_add, List.map_congr_left hterm, List.map_const', List.sum_replicate,
    smul_eq_zero, List.length_eq_zero_iff]
  exact or_iff_left (sub_neg.mpr hreversed).ne

theorem not_repeatsInside_of_reversed (hreversed : toMs < fromMs) :
    ¬ RepeatsInside ev fromMs toMs := by
  rintro ⟨pre, x, z, mid, y, post, -, -, -, -, -, hlt⟩
  exact absurd ((le_max_right _ _).trans_lt (hlt.trans_le (min_le_right _ _))) (not_lt_of_gt hreversed)

/-- The total is the time asleep unless a repeated Sleep line adds to it. -/
theorem total_iff (hordered : TimeOrdered ev) :
    (totalMs (sleeps ev) fromMs toMs : ℝ) = asleepMs ev fromMs toMs ↔
      ¬ RepeatsInside ev fromMs toMs ∧
        (toMs < fromMs → sleepsInside (sleeps ev) fromMs toMs = []) := by
  rcases le_or_gt fromMs toMs with hwindow | hreversed
  · rw [overlapSum_eq_total (fun v hv => le_of_mem_sleeps hordered hv) hwindow,
      overlapSum_sleeps hordered hwindow, asleepMs_eq hordered, Rat.cast_inj, add_eq_left,
      overlapSum_repeated_eq_zero_iff]
    exact (and_iff_left fun h => absurd h (not_lt.mpr hwindow)).symm
  · have hnone : asleepMs ev fromMs toMs = 0 := by
      rw [asleepMs, Set.Ico_eq_empty (not_lt.mpr (Rat.cast_le.mpr hreversed.le)), Set.inter_empty,
        measureReal_empty]
    rw [hnone, Rat.cast_eq_zero, total_of_reversed hreversed]
    constructor
    · exact fun h => ⟨not_repeatsInside_of_reversed hreversed, fun _ => h⟩
    · exact fun h => h.2 hreversed

/-! ## The report -/

/-- The walk over the modules ends, whatever they are. -/
theorem placeModules_ends (sl : List SleepSpan) (w : ℚ) (runs : List ModuleRun) :
    ∃ placements, placeModules sl (sl.length + 1) w runs = some placements := by
  induction runs generalizing w with
  | nil => exact ⟨_, rfl⟩
  | cons r runs ih =>
    have hends : ∃ e hits, placeLoop sl w (sl.length + 1) w r.durationMs [] = some (e, hits) :=
      placeLoop_ends (Nat.lt_succ_of_le List.countP_le_length)
    obtain ⟨e, hits, hloop⟩ := hends
    obtain ⟨placements, hrest⟩ := ih e
    rw [placeModules, hloop]
    exact ⟨_, congrArg (Option.map _) hrest⟩

theorem placeModules_spec (hordered : TimeOrdered ev) {runs : List ModuleRun}
    {placements : List Placement} (h : placeModules (sleeps ev) fuel w runs = some placements) :
    placements.map (fun p => (⟨p.ids, p.durationMs⟩ : ModuleRun)) = runs ∧
      ∀ p ∈ placements, p.Conserves ev := by
  induction runs generalizing w placements with
  | nil =>
    cases h
    exact ⟨rfl, fun p hp => absurd hp List.not_mem_nil⟩
  | cons r runs ih =>
    rw [placeModules] at h
    cases hloop : placeLoop (sleeps ev) w fuel w r.durationMs [] with
    | none =>
      rw [hloop] at h
      cases h
    | some found =>
      obtain ⟨e, hits⟩ := found
      rw [hloop] at h
      obtain ⟨rest, hrest, rfl⟩ := Option.map_eq_some_iff.mp h
      obtain ⟨hmodules, hconserves⟩ := ih hrest
      refine ⟨congrArg _ hmodules, List.forall_mem_cons.mpr ⟨?_, hconserves⟩⟩
      obtain ⟨hle, hvolume⟩ := placeLoop_conserves (sleeps_sorted hordered)
        (fun v hv => le_of_mem_sleeps hordered hv) (Nat.cast_nonneg _) hloop
      have hleft : (0 : ℝ) ≤ ((e - w - r.durationMs : ℚ) : ℝ) :=
        Rat.cast_nonneg.mpr (by linarith)
      simp only [Placement.Conserves, asleepMs, Measure.real]
      rw [asleep_inter, hvolume, ENNReal.toReal_ofReal hleft]
      push_cast
      ring

/-- **The walk ends and conserves time for every artifact; the total does when no repeated
Sleep line reaches into the window.** -/
theorem sleepAccounted_iff (hordered : TimeOrdered ev) (startedAt finishedAt : ℚ)
    (results : List TestResult) : SleepAccounted ev startedAt finishedAt results ↔
      ¬ RepeatsInside ev startedAt finishedAt ∧
        (finishedAt < startedAt → sleepsInside (sleeps ev) startedAt finishedAt = []) := by
  rw [← total_iff hordered]
  refine ⟨SleepAccounted.total, fun htotal => ⟨?_, ?_, htotal⟩⟩
  · by_cases hinside : sleepsInside (sleeps ev) startedAt finishedAt = []
    · exact ⟨0, _, if_pos hinside, fun h => absurd h (lt_irrefl 0)⟩
    · obtain ⟨placements, hplaced⟩ := placeModules_ends (sleeps ev) startedAt (moduleRuns results)
      refine ⟨(sleeps ev).length + 1, _, (if_neg hinside).trans (congrArg _ hplaced), fun _ => ?_⟩
      exact (placeModules_spec hordered hplaced).1
  · intro fuel r hr p hp
    by_cases hinside : sleepsInside (sleeps ev) startedAt finishedAt = []
    · cases (if_pos hinside).symm.trans hr
      exact absurd hp List.not_mem_nil
    · obtain ⟨placements, hplaced, rfl⟩ := Option.map_eq_some_iff.mp ((if_neg hinside).symm.trans hr)
      exact (placeModules_spec hordered hplaced).2 p hp

end Lemmas

/-! ## Two runs -/

/-- A sleep, a dark wake out of it, and a second sleep to the wake. -/
def oneNight : List PmEvent := [⟨1000, .sleep⟩, ⟨5000, .darkWake⟩, ⟨6000, .sleep⟩, ⟨9000, .wake⟩]

theorem sleepAccounted_iff_oneNight :
    sleepReport 3 oneNight 0 10000 [⟨"D13a", "", .pass, none, none, none, some 3000⟩] =
        some ⟨2, 7000, [⟨["D13a"], 0, 10000, 3000, [⟨⟨1000, 5000⟩, 1000⟩, ⟨⟨6000, 9000⟩, 6000⟩]⟩]⟩ ∧
      (SleepAccounted oneNight 0 10000 [] ↔ ¬ RepeatsInside oneNight 0 10000 ∧
        ((10000 : ℚ) < 0 → sleepsInside (sleeps oneNight) 0 10000 = [])) :=
  ⟨by with_unfolding_all decide, sleepAccounted_iff (by decide) 0 10000 []⟩

/-- Two Sleep lines before one wake. -/
def sleptTwice : List PmEvent := [⟨1000, .sleep⟩, ⟨4000, .sleep⟩, ⟨9000, .wake⟩]

/-- The host is asleep for eight seconds of the ten, and thirteen are reported. -/
theorem sleptTwice_counted_twice : TimeOrdered sleptTwice ∧
    totalMs (sleeps sleptTwice) 0 10000 = 13000 ∧ asleepMs sleptTwice 0 10000 = 8000 ∧
    ¬ SleepAccounted sleptTwice 0 10000 [] := by
  have hordered : TimeOrdered sleptTwice := by decide
  have htotal : totalMs (sleeps sleptTwice) 0 10000 = 13000 := by with_unfolding_all decide
  have hasleep : asleepMs sleptTwice 0 10000 = 8000 := by
    rw [asleepMs_eq hordered]
    have : overlapSum (stretches sleptTwice) 0 10000 = 8000 := by with_unfolding_all decide
    rw [this]
    norm_num
  refine ⟨hordered, htotal, hasleep, fun h => ?_⟩
  have hequal := h.total
  rw [htotal, hasleep] at hequal
  norm_num at hequal

end SupabaseLab.Harness
