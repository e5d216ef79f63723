/-
  LifecycleOps/UnionMs.lean --- how long the replayed gate would have said no.

  Source: `unionMs` of experiments/lifecycle-ops/lib/gate.ts.

  The sweep goes through the intervals in the order of their starts and keeps one
  current interval, which it extends or closes.  What it has still to count is the
  measure of the current interval and the intervals ahead of it.  Times are rational
  numbers and differences are exact; the whole milliseconds that the code has for them
  are doubles without a rounding error.
-/
import SupabaseLab.Library.Spans

set_option autoImplicit false

namespace SupabaseLab.LifecycleOps

open Library MeasureTheory

/-! ## The sweep -/

structure MsInterval where
  startMs : ℚ
  endMs : ℚ
  deriving DecidableEq

def MsInterval.length (i : MsInterval) : ℚ := i.endMs - i.startMs

/-- The variables of the loop.  `cur` is `curStart` and `curEnd`; it is `none` while
`curEnd` is `-Infinity`. -/
structure Sweep where
  total : ℚ
  cur : Option MsInterval

def sweepStep (st : Sweep) (i : MsInterval) : Sweep :=
  match st.cur with
  | none => { st with cur := some i }
  | some c =>
    if c.endMs < i.startMs then { total := st.total + (c.endMs - c.startMs), cur := some i }
    else if c.endMs < i.endMs then { st with cur := some { c with endMs := i.endMs } }
    else st

/-- What the function returns after its loop. -/
def Sweep.result (st : Sweep) : ℚ :=
  match st.cur with
  | none => st.total
  | some c => st.total + (c.endMs - c.startMs)

/-- The comparator of the sort. -/
def StartsFirst (i j : MsInterval) : Prop := i.startMs ≤ j.startMs

instance : DecidableRel StartsFirst := fun i j => inferInstanceAs (Decidable (i.startMs ≤ j.startMs))

instance : Std.Total StartsFirst := ⟨fun i j => le_total i.startMs j.startMs⟩

instance : IsTrans MsInterval StartsFirst := ⟨fun _ _ _ => le_trans⟩

def unionMs (intervals : List MsInterval) : ℚ :=
  ((intervals.insertionSort StartsFirst).foldl sweepStep ⟨0, none⟩).result

/-! ## The measure -/

/-- The interval as a span of real instants. -/
def MsInterval.span (i : MsInterval) : ℝ × ℝ := (i.startMs, i.endMs)

/-- The instants that lie in one of the intervals. -/
def unionOf (intervals : List MsInterval) : Set ℝ := reached (intervals.map MsInterval.span)

section Lemmas

variable {intervals intervals' l : List MsInterval} {c i : MsInterval} {total : ℚ}

theorem unionOf_congr (h : ∀ i, i ∈ intervals ↔ i ∈ intervals') :
    unionOf intervals = unionOf intervals' := by
  refine reached_congr fun s => ?_
  simp only [List.mem_map, h]

theorem ofReal_length (c : MsInterval) :
    ENNReal.ofReal (c.span.2 - c.span.1) = ENNReal.ofReal ((c.length : ℚ) : ℝ) := by
  rw [MsInterval.length, Rat.cast_sub]
  rfl

theorem volume_closing (hi : c.endMs < i.startMs) (hl : ∀ j ∈ l, i.startMs ≤ j.startMs) :
    volume (unionOf (c :: i :: l)) =
      ENNReal.ofReal ((c.length : ℚ) : ℝ) + volume (unionOf (i :: l)) := by
  rw [← ofReal_length]
  refine volume_reached_cons fun u hu => ?_
  obtain ⟨j, hj, rfl⟩ := List.mem_map.mp hu
  have hstart : c.endMs < j.startMs := by
    rcases List.mem_cons.mp hj with rfl | hj
    · exact hi
    · exact hi.trans_le (hl j hj)
  exact Rat.cast_lt.mpr hstart

theorem unionOf_join (hc : c.startMs ≤ i.startMs) (hi : i.startMs ≤ c.endMs)
    (hself : i.startMs ≤ i.endMs) :
    unionOf (c :: i :: l) = unionOf ({ c with endMs := max c.endMs i.endMs } :: l) := by
  have hjoin : reached (c.span :: i.span :: l.map MsInterval.span) =
      reached ((c.span.1, max c.span.2 i.span.2) :: l.map MsInterval.span) :=
    reached_join (Rat.cast_le.mpr hc) (Rat.cast_le.mpr hi) (Rat.cast_le.mpr hself)
  simp only [unionOf, List.map_cons, hjoin]
  rw [MsInterval.span, MsInterval.span, MsInterval.span, Rat.cast_max]

/-- What remains to be counted is the measure of the current interval and those ahead. -/
theorem result_eq (htotal : 0 ≤ total) (hc : c.startMs ≤ c.endMs)
    (hself : ∀ j ∈ l, j.startMs ≤ j.endMs) (hsorted : (c :: l).Pairwise StartsFirst) :
    total ≤ (l.foldl sweepStep ⟨total, some c⟩).result ∧
      ENNReal.ofReal ((l.foldl sweepStep ⟨total, some c⟩).result : ℚ) =
        ENNReal.ofReal total + volume (unionOf (c :: l)) := by
  induction l generalizing total c with
  | nil =>
    have hlength : 0 ≤ c.length := sub_nonneg.mpr hc
    refine ⟨le_add_of_nonneg_right hlength, ?_⟩
    have hone : volume (unionOf [c]) = ENNReal.ofReal ((c.length : ℚ) : ℝ) := by
      rw [← ofReal_length, unionOf, List.map_singleton, reached_cons, reached_nil, Set.union_empty,
        Real.volume_Icc]
    rw [hone, ← ENNReal.ofReal_add (by exact_mod_cast htotal) (by exact_mod_cast hlength)]
    norm_cast
  | cons i l ih =>
    obtain ⟨hfirst, htail⟩ := List.pairwise_cons.mp hsorted
    obtain ⟨hlater, hrest⟩ := List.pairwise_cons.mp htail
    have hi := hself i List.mem_cons_self
    have hself := fun j hj => hself j (List.mem_cons_of_mem i hj)
    have hci := hfirst i List.mem_cons_self
    rw [List.foldl_cons]
    by_cases hgap : c.endMs < i.startMs
    · have hstep : sweepStep ⟨total, some c⟩ i = ⟨total + c.length, some i⟩ := if_pos hgap
      have hlength : 0 ≤ c.length := sub_nonneg.mpr hc
      obtain ⟨hle, heq⟩ := ih (add_nonneg htotal hlength) hi hself htail
      rw [hstep, heq, volume_closing hgap hlater, ← add_assoc, Rat.cast_add,
        ENNReal.ofReal_add (by exact_mod_cast htotal) (by exact_mod_cast hlength)]
      exact ⟨(le_add_of_nonneg_right hlength).trans hle, rfl⟩
    · have hstep : sweepStep ⟨total, some c⟩ i =
          ⟨total, some { c with endMs := max c.endMs i.endMs }⟩ := by
        simp only [sweepStep, if_neg hgap]
        split
        · rename_i hlonger
          rw [max_eq_right hlonger.le]
        · rename_i hshorter
          rw [max_eq_left (not_lt.mp hshorter)]
      have hsorted : ({ c with endMs := max c.endMs i.endMs } :: l).Pairwise StartsFirst :=
        List.pairwise_cons.mpr ⟨fun j hj => hfirst j (List.mem_cons_of_mem i hj), hrest⟩
      obtain ⟨hle, heq⟩ := ih (c := { c with endMs := max c.endMs i.endMs }) htotal
        (hc.trans (le_max_left _ _)) hself hsorted
      rw [hstep, unionOf_join hci (not_lt.mp hgap) hi]
      exact ⟨hle, heq⟩

theorem unionMs_spec (h : ∀ i ∈ intervals, i.startMs ≤ i.endMs) :
    0 ≤ unionMs intervals ∧
      volume (unionOf intervals) = ENNReal.ofReal ((unionMs intervals : ℚ) : ℝ) := by
  have hmem : ∀ i, i ∈ intervals ↔ i ∈ intervals.insertionSort StartsFirst := fun i =>
    (List.mem_insertionSort StartsFirst).symm
  have hsorted := List.pairwise_insertionSort StartsFirst intervals
  rw [unionOf_congr hmem, unionMs]
  have hself : ∀ i ∈ intervals.insertionSort StartsFirst, i.startMs ≤ i.endMs := fun i hi =>
    h i ((hmem i).mpr hi)
  generalize intervals.insertionSort StartsFirst = l at hsorted hself
  cases l with
  | nil => exact ⟨le_refl 0, by simp [unionOf, reached_nil, Sweep.result]⟩
  | cons c l =>
    obtain ⟨hle, heq⟩ := result_eq (le_refl (0 : ℚ)) (hself c List.mem_cons_self)
      (fun j hj => hself j (List.mem_cons_of_mem c hj)) hsorted
    refine ⟨hle, ?_⟩
    rw [Rat.cast_zero, ENNReal.ofReal_zero, zero_add] at heq
    exact heq.symm

theorem volume_unionOf_le (h : ∀ i ∈ intervals, i.startMs ≤ i.endMs) :
    volume (unionOf intervals) ≤
      ENNReal.ofReal (((intervals.map MsInterval.length).sum : ℚ) : ℝ) := by
  have hordered : ∀ s ∈ intervals.map MsInterval.span, s.1 ≤ s.2 := fun s hs => by
    obtain ⟨i, hi, rfl⟩ := List.mem_map.mp hs
    exact Rat.cast_le.mpr (h i hi)
  have hle := volume_reached_le hordered
  have hsum : ((intervals.map MsInterval.span).map fun s => s.2 - s.1).sum =
      (((intervals.map MsInterval.length).sum : ℚ) : ℝ) := by
    rw [List.map_map, Rat.cast_list_sum, List.map_map]
    congr 1
    refine List.map_congr_left fun i _ => ?_
    exact (Rat.cast_sub i.endMs i.startMs).symm
  rw [hsum] at hle
  exact hle

/-- The length of the union; it depends on no more than which intervals there are. -/
theorem unionMs_measures (h : ∀ i ∈ intervals, i.startMs ≤ i.endMs) :
    0 ≤ unionMs intervals ∧
      volume (unionOf intervals) = ENNReal.ofReal ((unionMs intervals : ℚ) : ℝ) ∧
      (∀ intervals' : List MsInterval, (∀ i, i ∈ intervals' ↔ i ∈ intervals) →
        unionMs intervals' = unionMs intervals) ∧
      unionMs intervals ≤ (intervals.map MsInterval.length).sum := by
  obtain ⟨hnonneg, hmeasure⟩ := unionMs_spec h
  refine ⟨hnonneg, hmeasure, fun intervals' hsame => ?_, ?_⟩
  · obtain ⟨hnonneg', hmeasure'⟩ := unionMs_spec fun i hi => h i ((hsame i).mp hi)
    rw [unionOf_congr hsame, hmeasure] at hmeasure'
    have heq := (ENNReal.ofReal_eq_ofReal_iff (by exact_mod_cast hnonneg)
      (by exact_mod_cast hnonneg')).mp hmeasure'
    exact_mod_cast heq.symm
  · have hlength : 0 ≤ (intervals.map MsInterval.length).sum := by
      refine List.sum_nonneg fun x hx => ?_
      obtain ⟨i, hi, rfl⟩ := List.mem_map.mp hx
      exact sub_nonneg.mpr (h i hi)
    have hle := volume_unionOf_le h
    rw [hmeasure, ENNReal.ofReal_le_ofReal_iff (by exact_mod_cast hlength)] at hle
    exact_mod_cast hle

end Lemmas

/-- Nested, touching, apart, and one of them twice. -/
def mixedIntervals : List MsInterval := [⟨10, 20⟩, ⟨0, 4⟩, ⟨1, 2⟩, ⟨20, 25⟩, ⟨0, 4⟩]

theorem unionMs_measures_mixedIntervals :
    unionMs mixedIntervals = 19 ∧
      volume (unionOf mixedIntervals) = ENNReal.ofReal ((unionMs mixedIntervals : ℚ) : ℝ) :=
  ⟨by with_unfolding_all decide, (unionMs_measures (by decide)).2.1⟩

end SupabaseLab.LifecycleOps
