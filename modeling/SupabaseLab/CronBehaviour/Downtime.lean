/-
  CronBehaviour/Downtime.lean --- whether `pg_cron` makes up for the runs a restart cost.

  Source: `observeEvent` of experiments/cron-behaviour/lib/downtime.ts, from its final reads
  to the verdict of the every-minute job.

  Times are whole milliseconds, as the queries read them.  The clock is read first and the
  ticks after it, so the boundaries are counted up to a time that the ticks may be past.
  What a tick does not tell, the instant its run executes, belongs to the trace alone.
-/
import SupabaseLab.Library.Period

set_option autoImplicit false

namespace SupabaseLab.CronBehaviour

open Library.Period

/-- `MIN`. -/
def minMs : ℤ := 60000

def lateMs : ℤ := 5000

theorem minMs_pos : 0 < minMs := by decide

theorem lateMs_lt_minMs : lateMs < minMs := by decide

/-! ## What is read -/

structure Tick where
  job : String
  atMs : ℤ
  pm : ℤ
  deriving DecidableEq

/-- The two starts of the postmaster, the clock, and the ticks in the order of their times. -/
structure Reads where
  pm0 : ℤ
  pm1 : ℤ
  readMs : ℤ
  ticks : List Tick
  deriving DecidableEq

namespace Reads

variable (rd : Reads)

def before (job : String) : List Tick :=
  rd.ticks.filter fun t => decide (t.job = job) && decide (t.pm = rd.pm0)

def after (job : String) : List Tick :=
  rd.ticks.filter fun t => decide (t.job = job) && decide (t.pm ≠ rd.pm0)

end Reads

/-! ## The every-minute job -/

/-- The time of a tick that may be missing. -/
def timeOf (t : Option Tick) : ℤ := (t.map Tick.atMs).getD (-1)

/-- The boundaries between the last run before and the first run after. -/
def missedInstants (mb mFirst : ℤ) : List ℤ :=
  if 0 < mb ∧ 0 < mFirst then
    instantsFrom minMs ((mb / minMs + 1) * minMs) (mFirst / minMs * minMs)
  else []

def lateRuns (ma : List Tick) : List Tick :=
  ma.filter fun t => decide (lateMs < t.atMs % minMs)

/-- The minutes that hold the runs. -/
def minutesOf (ma : List Tick) : List ℤ := ma.map fun t => t.atMs / minMs

def dupMinutes (ma : List Tick) : ℤ := ma.length - (minutesOf ma).dedup.length

def boundariesAfter (readMs pm1 : ℤ) : ℤ := readMs / minMs - pm1 / minMs

/-- What is measured of the every-minute job. -/
structure EveryMinute where
  lastBefore : ℤ
  firstAfter : ℤ
  missed : List ℤ
  runsAfter : ℕ
  boundaries : ℤ
  runsLate : ℕ
  sameMinuteDups : ℤ
  catchUp : Bool
  deriving DecidableEq

def EveryMinute.verdict (m : EveryMinute) : String :=
  if m.catchUp then "CATCH-UP seen" else "no catch-up"

def Reads.everyMinute (rd : Reads) : EveryMinute :=
  let mb := timeOf (rd.before "min").getLast?
  let ma := rd.after "min"
  let mFirst := timeOf ma.head?
  let late := lateRuns ma
  let boundaries := boundariesAfter rd.readMs rd.pm1
  let dups := dupMinutes ma
  { lastBefore := mb
    firstAfter := mFirst
    missed := missedInstants mb mFirst
    runsAfter := ma.length
    boundaries := boundaries
    runsLate := late.length
    sameMinuteDups := dups
    catchUp := decide (0 < late.length) || decide (0 < dups) || decide (boundaries < ma.length) }

/-! ## A restart, as it was -/

/-- A run, with the instant it executes. -/
structure Run where
  job : String
  due : ℤ
  atMs : ℤ
  pm : ℤ
  deriving DecidableEq

def Run.tick (r : Run) : Tick := ⟨r.job, r.atMs, r.pm⟩

/-- The runs around a restart and the times of the two final reads. -/
structure Trace where
  pm0 : ℤ
  pm1 : ℤ
  tPost : ℤ
  readMs : ℤ
  ticksMs : ℤ
  runs : List Run
  restarted : pm0 < pm1
  observed : pm1 ≤ readMs
  clockFirst : readMs ≤ ticksMs
  inOrder : runs.Pairwise fun r s => r.atMs ≤ s.atMs
  postmaster : ∀ r ∈ runs, r.pm = pm0 ∧ r.atMs < pm1 ∨ r.pm = pm1 ∧ pm1 ≤ r.atMs
  due : ∀ r ∈ runs, 0 < r.due ∧ r.due ≤ r.atMs
  onMinute : ∀ r ∈ runs, r.job = "min" → minMs ∣ r.due

namespace Trace

variable (tr : Trace)

/-- The runs the tick read shows: those made by then, from five minutes before the request. -/
def seen : List Run :=
  tr.runs.filter fun r => decide (tr.tPost - 300000 ≤ r.atMs) && decide (r.atMs ≤ tr.ticksMs)

def toReads : Reads := ⟨tr.pm0, tr.pm1, tr.readMs, tr.seen.map Run.tick⟩

def summary : EveryMinute := tr.toReads.everyMinute

/-- The every-minute runs under the old postmaster. -/
def oldRuns : List Run :=
  tr.seen.filter fun r => decide (r.job = "min") && decide (r.pm = tr.pm0)

/-- The every-minute runs under the new postmaster. -/
def newRuns : List Run :=
  tr.seen.filter fun r => decide (r.job = "min") && decide (r.pm = tr.pm1)

/-! ## What the verdict should say -/

/-- Every run under the new postmaster belongs to a boundary of its own after the restart. -/
def OnTime : Prop :=
  (∀ r ∈ tr.newRuns, tr.pm1 < r.due ∧ r.atMs ≤ r.due + lateMs) ∧ (tr.newRuns.map Run.due).Nodup

/-- Some run under the new postmaster executes an instant missed before the restart. -/
def CatchesUp : Prop :=
  ∃ r ∈ tr.newRuns, r.due < tr.pm1 ∧ ∀ s ∈ tr.oldRuns, s.due ≠ r.due

/-- A boundary between the last run before and the first run after, and no run made for it. -/
def Unserved (b : ℤ) : Prop :=
  (∃ last ∈ tr.oldRuns.getLast?, ∃ first ∈ tr.newRuns.head?,
    minMs ∣ b ∧ last.atMs < b ∧ b < first.atMs) ∧
  (∀ r ∈ tr.oldRuns, r.due ≠ b) ∧ ∀ r ∈ tr.newRuns, r.due ≠ b

structure VerdictSound : Prop where
  onTime : tr.OnTime → tr.summary.verdict = "no catch-up"
  catchUp : tr.CatchesUp → tr.summary.verdict = "CATCH-UP seen"
  missed : ∀ b, b ∈ tr.summary.missed ↔ tr.Unserved b
  ascending : tr.summary.missed.Pairwise (· < ·)

instance : Decidable tr.OnTime := inferInstanceAs (Decidable (_ ∧ _))

/-! ## When it does -/

/-- The minutes that hold a run of the new postmaster. -/
def minutes : Finset ℤ := (tr.newRuns.map fun r => r.atMs / minMs).toFinset

/-- The minutes with a run that are not counted: that of the restart itself, and those that
began after the clock was read. -/
def uncounted : Finset ℤ := tr.minutes \ begun minMs tr.pm1 tr.readMs

/-- The minutes counted, without a run. -/
def idle : Finset ℤ := begun minMs tr.pm1 tr.readMs \ tr.minutes

/-- Every run looks as if it were on time: soon after the start of a minute, alone in it. -/
def InPlace : Prop :=
  (∀ r ∈ tr.newRuns, r.atMs ≤ startOf minMs r.atMs + lateMs) ∧
  (tr.newRuns.map fun r => r.atMs / minMs).Nodup

/-- No instant before the minute of the first run after is executed later, and that minute's
own instant is executed. -/
def FirstInPlace (last first : Run) : Prop :=
  (∀ r ∈ tr.newRuns, last.atMs < r.due → startOf minMs first.atMs ≤ r.due) ∧
  (last.atMs < startOf minMs first.atMs → startOf minMs first.atMs < first.atMs →
    ∃ r ∈ tr.newRuns, r.due = startOf minMs first.atMs)

structure Legible : Prop where
  onTime : tr.OnTime → tr.uncounted.card ≤ tr.idle.card
  catchUp : tr.CatchesUp → tr.InPlace → tr.idle.card < tr.uncounted.card
  missed : ∀ last ∈ tr.oldRuns.getLast?, ∀ first ∈ tr.newRuns.head?, tr.FirstInPlace last first

/-! ## The ticks of the runs -/

theorem mem_newRuns {r : Run} : r ∈ tr.newRuns ↔ r ∈ tr.seen ∧ r.job = "min" ∧ r.pm = tr.pm1 := by
  simp [newRuns]

theorem mem_runs_of_mem_newRuns {r : Run} (hr : r ∈ tr.newRuns) : r ∈ tr.runs :=
  List.mem_of_mem_filter (List.mem_of_mem_filter hr)

theorem mem_runs_of_mem_oldRuns {r : Run} (hr : r ∈ tr.oldRuns) : r ∈ tr.runs :=
  List.mem_of_mem_filter (List.mem_of_mem_filter hr)

theorem pos_of_mem_runs {r : Run} (hr : r ∈ tr.runs) : 0 < r.atMs :=
  (tr.due r hr).1.trans_le (tr.due r hr).2

theorem dvd_due_of_mem_newRuns {r : Run} (hr : r ∈ tr.newRuns) : minMs ∣ r.due :=
  tr.onMinute r (tr.mem_runs_of_mem_newRuns hr) (tr.mem_newRuns.mp hr).2.1

theorem before_min : tr.toReads.before "min" = tr.oldRuns.map Run.tick := by
  rw [Reads.before, toReads, List.filter_map]
  rfl

/-- There are two postmasters, so a tick that is not of the old one is of the new one. -/
theorem after_min : tr.toReads.after "min" = tr.newRuns.map Run.tick := by
  rw [Reads.after, toReads, List.filter_map]
  refine congrArg (List.map Run.tick) (List.filter_congr fun r hr => ?_)
  have hne := ne_of_lt tr.restarted
  rcases tr.postmaster r (List.mem_of_mem_filter hr) with ⟨hpm, -⟩ | ⟨hpm, -⟩
  · simp [Run.tick, hpm, hne]
  · simp [Run.tick, hpm, hne.symm]

theorem getLast?_before :
    timeOf (tr.toReads.before "min").getLast? = ((tr.oldRuns.getLast?).map Run.atMs).getD (-1) := by
  rw [before_min, List.getLast?_map, timeOf, Option.map_map]
  rfl

theorem head?_after :
    timeOf (tr.toReads.after "min").head? = ((tr.newRuns.head?).map Run.atMs).getD (-1) := by
  rw [after_min, List.head?_map, timeOf, Option.map_map]
  rfl

/-! ## The three tests of the verdict -/

theorem lateRuns_after_eq_nil :
    lateRuns (tr.toReads.after "min") = [] ↔
      ∀ r ∈ tr.newRuns, r.atMs ≤ startOf minMs r.atMs + lateMs := by
  rw [after_min, lateRuns, List.filter_eq_nil_iff, List.forall_mem_map]
  refine forall₂_congr fun r _ => ?_
  rw [decide_eq_true_iff, Run.tick, emod_eq_sub_startOf, not_lt, sub_le_iff_le_add, add_comm]

theorem dedup_length_eq_iff {l : List ℤ} : l.dedup.length = l.length ↔ l.Nodup := by
  constructor
  · intro h
    exact List.dedup_eq_self.mp ((List.dedup_sublist l).eq_of_length h)
  · intro h
    rw [h.dedup]

theorem dupMinutes_pos {ma : List Tick} : 0 < dupMinutes ma ↔ ¬ (minutesOf ma).Nodup := by
  have hle := (List.dedup_sublist (minutesOf ma)).length_le
  have hlen : (minutesOf ma).length = ma.length := List.length_map _
  rw [← dedup_length_eq_iff, dupMinutes]
  omega

theorem minutesOf_after :
    minutesOf (tr.toReads.after "min") = tr.newRuns.map fun r => r.atMs / minMs := by
  rw [after_min, minutesOf, List.map_map]
  rfl

/-- With the runs in minutes of their own, there are more of them than boundaries counted
exactly when more minutes with a run are uncounted than counted minutes are idle. -/
theorem boundariesAfter_lt_iff (hown : (tr.newRuns.map fun r => r.atMs / minMs).Nodup) :
    boundariesAfter tr.readMs tr.pm1 < (tr.newRuns.length : ℤ) ↔
      tr.idle.card < tr.uncounted.card := by
  have hruns : tr.newRuns.length = tr.minutes.card := by
    rw [minutes, List.toFinset_card_of_nodup hown, List.length_map]
  rw [idle, uncounted, Finset.card_sdiff_lt_card_sdiff_iff, hruns, boundariesAfter,
    ← card_begun minMs_pos tr.observed, Nat.cast_lt]

theorem catchUp_iff :
    tr.summary.catchUp = true ↔ (tr.InPlace → tr.idle.card < tr.uncounted.card) := by
  have hshape : tr.summary.catchUp = true ↔
      lateRuns (tr.toReads.after "min") ≠ [] ∨ 0 < dupMinutes (tr.toReads.after "min") ∨
        boundariesAfter tr.readMs tr.pm1 < (tr.newRuns.length : ℤ) := by
    have hlen : (tr.toReads.after "min").length = tr.newRuns.length := by
      rw [after_min, List.length_map]
    rw [← hlen, ← List.length_pos_iff]
    change (decide _ || decide _ || decide _) = true ↔ _
    rw [Bool.or_eq_true, Bool.or_eq_true, decide_eq_true_iff, decide_eq_true_iff,
      decide_eq_true_iff, or_assoc]
    rfl
  rw [hshape, Ne, lateRuns_after_eq_nil, dupMinutes_pos, minutesOf_after]
  constructor
  · rintro (hlate | hdup | hmore) ⟨hsoon, hown⟩
    · exact absurd hsoon hlate
    · exact absurd hown hdup
    · exact (tr.boundariesAfter_lt_iff hown).mp hmore
  · intro h
    by_cases hsoon : ∀ r ∈ tr.newRuns, r.atMs ≤ startOf minMs r.atMs + lateMs
    · by_cases hown : (tr.newRuns.map fun r => r.atMs / minMs).Nodup
      · exact Or.inr (Or.inr ((tr.boundariesAfter_lt_iff hown).mpr (h ⟨hsoon, hown⟩)))
      · exact Or.inr (Or.inl hown)
    · exact Or.inl hsoon

theorem verdict_eq_seen : tr.summary.verdict = "CATCH-UP seen" ↔ tr.summary.catchUp = true := by
  rw [EveryMinute.verdict]
  cases tr.summary.catchUp <;> simp

theorem verdict_eq_none : tr.summary.verdict = "no catch-up" ↔ ¬ tr.summary.catchUp = true := by
  rw [EveryMinute.verdict]
  cases tr.summary.catchUp <;> simp

/-- A run on time is made in the minute of the instant it executes. -/
theorem startOf_eq_due {r : Run} (hr : r ∈ tr.newRuns) (hsoon : r.atMs ≤ r.due + lateMs) :
    startOf minMs r.atMs = r.due := by
  have hbound := lateMs_lt_minMs
  exact startOf_eq minMs_pos (tr.dvd_due_of_mem_newRuns hr)
    (tr.due r (tr.mem_runs_of_mem_newRuns hr)).2 (by omega)

theorem OnTime.inPlace {tr : Trace} (h : tr.OnTime) : tr.InPlace := by
  obtain ⟨hsoon, hown⟩ := h
  have hstart : ∀ r ∈ tr.newRuns, startOf minMs r.atMs = r.due := fun r hr =>
    tr.startOf_eq_due hr (hsoon r hr).2
  refine ⟨fun r hr => ?_, ?_⟩
  · rw [hstart r hr]
    exact (hsoon r hr).2
  · have hmap : tr.newRuns.map Run.due = (tr.newRuns.map fun r => r.atMs / minMs).map (· * minMs) := by
      rw [List.map_map]
      exact List.map_congr_left fun r hr => (hstart r hr).symm
    rw [hmap] at hown
    exact hown.of_map _

theorem verdict_of_onTime (h : tr.OnTime) :
    tr.summary.verdict = "no catch-up" ↔ tr.uncounted.card ≤ tr.idle.card := by
  rw [verdict_eq_none, catchUp_iff, ← not_lt]
  exact not_congr ⟨fun hlt => hlt h.inPlace, fun hlt _ => hlt⟩

/-! ## The instants missed -/

theorem mem_missed {b : ℤ} :
    b ∈ tr.summary.missed ↔ ∃ last ∈ tr.oldRuns.getLast?, ∃ first ∈ tr.newRuns.head?,
      minMs ∣ b ∧ last.atMs < b ∧ b < startOf minMs first.atMs := by
  have hfield : tr.summary.missed = missedInstants
      (((tr.oldRuns.getLast?).map Run.atMs).getD (-1))
      (((tr.newRuns.head?).map Run.atMs).getD (-1)) := by
    rw [← getLast?_before, ← head?_after]
    rfl
  rw [hfield, missedInstants]
  cases hlast : tr.oldRuns.getLast? with
  | none => simp
  | some last =>
      cases hfirst : tr.newRuns.head? with
      | none => simp
      | some first =>
          have hold := tr.pos_of_mem_runs
            (tr.mem_runs_of_mem_oldRuns (List.mem_of_getLast? hlast))
          have hnew := tr.pos_of_mem_runs
            (tr.mem_runs_of_mem_newRuns (List.mem_of_mem_head? hfirst))
          simp [hold, hnew, mem_instantsFrom_next minMs_pos, startOf]

theorem pairwise_missed : tr.summary.missed.Pairwise (· < ·) := by
  change (missedInstants _ _).Pairwise _
  rw [missedInstants]
  split
  · exact pairwise_instantsFrom minMs_pos (Dvd.intro_left _ rfl)
  · exact List.Pairwise.nil

/-- The last run before comes after every run of the old postmaster. -/
theorem due_le_last {last r : Run} (hlast : last ∈ tr.oldRuns.getLast?) (hr : r ∈ tr.oldRuns) :
    r.due ≤ last.atMs := by
  have hsorted : tr.oldRuns.Pairwise fun r s => r.atMs ≤ s.atMs :=
    (tr.inOrder.filter _).filter _
  obtain ⟨init, hinit⟩ := List.getLast?_eq_some_iff.mp hlast
  have hle : r.atMs ≤ last.atMs := by
    rw [hinit] at hr hsorted
    rcases List.mem_append.mp hr with hr | hr
    · exact (List.pairwise_append.mp hsorted).2.2 r hr last (List.mem_singleton_self last)
    · rw [List.mem_singleton.mp hr]
  exact (tr.due r (tr.mem_runs_of_mem_oldRuns hr)).2.trans hle

theorem missed_iff :
    (∀ b, b ∈ tr.summary.missed ↔ tr.Unserved b) ↔
      ∀ last ∈ tr.oldRuns.getLast?, ∀ first ∈ tr.newRuns.head?, tr.FirstInPlace last first := by
  constructor
  · intro h last hlast first hfirst
    refine ⟨fun r hr hafter => ?_, fun hold hstart => ?_⟩
    · by_contra hlt
      have hlisted := tr.mem_missed.mpr
        ⟨last, hlast, first, hfirst, tr.dvd_due_of_mem_newRuns hr, hafter, not_le.mp hlt⟩
      exact ((h r.due).mp hlisted).2.2 r hr rfl
    · by_contra hno
      have hnone : ∀ r ∈ tr.newRuns, r.due ≠ startOf minMs first.atMs :=
        fun r hr hdue => hno ⟨r, hr, hdue⟩
      have hunserved : tr.Unserved (startOf minMs first.atMs) := by
        refine ⟨⟨last, hlast, first, hfirst, dvd_startOf _ _, hold, hstart⟩, fun r hr => ?_, hnone⟩
        exact ne_of_lt ((tr.due_le_last hlast hr).trans_lt hold)
      obtain ⟨last', hlast', first', hfirst', -, -, hlt⟩ := tr.mem_missed.mp ((h _).mpr hunserved)
      rw [Option.mem_unique hfirst hfirst'] at hlt
      exact lt_irrefl _ hlt
  · intro h b
    rw [mem_missed]
    constructor
    · rintro ⟨last, hlast, first, hfirst, hb, hold, hlt⟩
      refine ⟨⟨last, hlast, first, hfirst, hb, hold, hlt.trans_le (startOf_le minMs_pos _)⟩, ?_, ?_⟩
      · intro r hr
        exact ne_of_lt ((tr.due_le_last hlast hr).trans_lt hold)
      · rintro r hr rfl
        exact absurd ((h last hlast first hfirst).1 r hr hold) (not_le.mpr hlt)
    · rintro ⟨⟨last, hlast, first, hfirst, hb, hold, hlt⟩, -, hnone⟩
      refine ⟨last, hlast, first, hfirst, hb, hold, ?_⟩
      have hle : b ≤ startOf minMs first.atMs := (le_startOf_iff minMs_pos hb).mpr hlt.le
      refine lt_of_le_of_ne hle ?_
      rintro rfl
      obtain ⟨r, hr, hdue⟩ := (h last hlast first hfirst).2 hold hlt
      exact hnone r hr hdue

/-! ## The verdict -/

/-- Runs on time are told as such unless more of them belong to boundaries between the two
reads than boundaries by the clock read have none; a catch-up is told unless its runs look as
if they were on time, and fill no more than the boundaries left idle; the instants listed are
those without a run unless one of them is executed later, or the first run after is a catch-up
in a minute that has no run of its own. -/
theorem verdictSound_iff : tr.VerdictSound ↔ tr.Legible := by
  constructor
  · intro h
    refine ⟨fun hon => ?_, fun hcatch => ?_, tr.missed_iff.mp h.missed⟩
    · exact (tr.verdict_of_onTime hon).mp (h.onTime hon)
    · exact tr.catchUp_iff.mp (tr.verdict_eq_seen.mp (h.catchUp hcatch))
  · intro h
    refine ⟨fun hon => ?_, fun hcatch => ?_, tr.missed_iff.mpr h.missed, tr.pairwise_missed⟩
    · exact (tr.verdict_of_onTime hon).mpr (h.onTime hon)
    · exact tr.verdict_eq_seen.mpr (tr.catchUp_iff.mpr (h.catchUp hcatch))

/-- With no boundary between the two reads, runs on time are never taken for a catch-up. -/
theorem verdict_of_reads_in_one_minute (hon : tr.OnTime)
    (hsame : tr.readMs / minMs = tr.ticksMs / minMs) : tr.summary.verdict = "no catch-up" := by
  refine (tr.verdict_of_onTime hon).mpr ?_
  have hnone : tr.uncounted = ∅ := by
    refine Finset.sdiff_eq_empty_iff_subset.mpr fun k hk => ?_
    obtain ⟨r, hr, rfl⟩ := List.mem_map.mp (List.mem_toFinset.mp hk)
    obtain ⟨hafter, hsoon⟩ := hon.1 r hr
    have hstart := tr.startOf_eq_due hr hsoon
    have hmade : r.atMs ≤ tr.ticksMs := by
      have hseen := (tr.mem_newRuns.mp hr).1
      simp only [seen, List.mem_filter, Bool.and_eq_true, decide_eq_true_eq] at hseen
      exact hseen.2.2
    refine (mem_begun minMs_pos).mpr ⟨hstart ▸ hafter, ?_⟩
    calc startOf minMs r.atMs
        ≤ startOf minMs tr.ticksMs :=
          (le_startOf_iff minMs_pos (dvd_startOf _ _)).mpr ((startOf_le minMs_pos _).trans hmade)
      _ = startOf minMs tr.readMs := by rw [startOf, startOf, hsame]
      _ ≤ tr.readMs := startOf_le minMs_pos _
  rw [hnone, Finset.card_empty]
  exact Nat.zero_le _

/-- Where every boundary counted has its own run, no catch-up goes unseen. -/
theorem verdict_of_no_idle_boundary (hcatch : tr.CatchesUp)
    (hrun : ∀ k ∈ begun minMs tr.pm1 tr.readMs,
      ∃ r ∈ tr.newRuns, r.atMs / minMs = k ∧ tr.pm1 < r.due) :
    tr.summary.verdict = "CATCH-UP seen" := by
  refine tr.verdict_eq_seen.mpr (tr.catchUp_iff.mpr fun hplace => ?_)
  obtain ⟨r, hr, hmissed, -⟩ := hcatch
  have hidle : tr.idle = ∅ := by
    refine Finset.sdiff_eq_empty_iff_subset.mpr fun k hk => ?_
    obtain ⟨s, hs, hminute, -⟩ := hrun k hk
    exact List.mem_toFinset.mpr (List.mem_map.mpr ⟨s, hs, hminute⟩)
  -- the run that catches up shares no minute, so it is in none of the minutes counted
  have hmem : r.atMs / minMs ∈ tr.uncounted := by
    refine Finset.mem_sdiff.mpr ⟨List.mem_toFinset.mpr (List.mem_map_of_mem hr), fun hcounted => ?_⟩
    obtain ⟨s, hs, hminute, hafter⟩ := hrun _ hcounted
    have hsame : s = r := List.inj_on_of_nodup_map hplace.2 hs hr hminute
    rw [hsame] at hafter
    exact lt_asymm hafter hmissed
  rw [hidle, Finset.card_empty]
  exact Finset.card_pos.mpr ⟨_, hmem⟩

end Trace

/-- Every run is on time; the clock is read 10 ms before a boundary, the ticks 410 ms later. -/
def boundaryBetweenReads : Trace where
  pm0 := 1000
  pm1 := 630000
  tPost := 605000
  readMs := 899990
  ticksMs := 900400
  runs := [⟨"min", 540000, 540120, 1000⟩, ⟨"min", 600000, 600110, 1000⟩,
    ⟨"min", 660000, 660130, 630000⟩, ⟨"min", 720000, 720090, 630000⟩,
    ⟨"min", 780000, 780100, 630000⟩, ⟨"min", 840000, 840120, 630000⟩,
    ⟨"min", 900000, 900080, 630000⟩]
  restarted := by decide
  observed := by decide
  clockFirst := by decide
  inOrder := by decide
  postmaster := by decide
  due := by decide
  onMinute := by decide

/-- Five runs for the four boundaries counted: runs on time are published as a catch-up. -/
theorem boundaryBetweenReads_not_sound : ¬ boundaryBetweenReads.VerdictSound := by
  intro h
  have hon : boundaryBetweenReads.OnTime := by decide
  have hseen : boundaryBetweenReads.summary.verdict = "CATCH-UP seen" := by decide
  exact absurd (h.onTime hon) (by rw [hseen]; decide)

end SupabaseLab.CronBehaviour
