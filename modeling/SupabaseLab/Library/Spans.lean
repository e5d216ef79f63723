/-
  Library/Spans.lean --- the time that spans take of a window.

  Spans that lie apart from each other take of a window the sum of their overlaps
  with it: the length of the set of instants, in the sense of measure theory.  Spans
  that overlap reach no further together than the sum of their lengths.
-/
import Mathlib

set_option autoImplicit false

namespace SupabaseLab.Library

open MeasureTheory

/-- How much of the window from `a` to `b` the span takes, ends in either order. -/
def overlapOf {𝕜 : Type} [Zero 𝕜] [Sub 𝕜] [LinearOrder 𝕜] (s : 𝕜 × 𝕜) (a b : 𝕜) : 𝕜 :=
  max 0 (min s.2 b - max s.1 a)

/-- The instants of the window that lie in one of the spans. -/
def covered (spans : List (ℝ × ℝ)) (a b : ℝ) : Set ℝ :=
  {t | t ∈ Set.Ico a b ∧ ∃ s ∈ spans, t ∈ Set.Ico s.1 s.2}

variable {s : ℝ × ℝ} {spans : List (ℝ × ℝ)} {a b : ℝ}

theorem covered_nil : covered [] a b = ∅ :=
  Set.eq_empty_of_forall_notMem fun _ h => by
    obtain ⟨_, s, hs, _⟩ := h
    exact List.not_mem_nil hs

theorem covered_cons :
    covered (s :: spans) a b = Set.Ico (max s.1 a) (min s.2 b) ∪ covered spans a b := by
  ext t
  simp only [covered, Set.mem_ofPred_eq, Set.mem_union, Set.mem_Ico, max_le_iff, lt_min_iff,
    List.mem_cons, exists_eq_or_imp]
  tauto

theorem measurableSet_covered : MeasurableSet (covered spans a b) := by
  induction spans with
  | nil =>
    rw [covered_nil]
    exact MeasurableSet.empty
  | cons s spans ih =>
    rw [covered_cons]
    exact measurableSet_Ico.union ih

theorem overlapOf_nonneg : 0 ≤ overlapOf s a b := le_max_left _ _

theorem sum_overlapOf_nonneg : 0 ≤ (spans.map fun s => overlapOf s a b).sum := by
  refine List.sum_nonneg fun x hx => ?_
  obtain ⟨s, -, rfl⟩ := List.mem_map.mp hx
  exact overlapOf_nonneg

theorem volume_covered (hapart : spans.Pairwise fun s t => s.2 ≤ t.1) :
    volume (covered spans a b) = ENNReal.ofReal (spans.map fun s => overlapOf s a b).sum := by
  induction spans with
  | nil => rw [covered_nil, measure_empty, List.map_nil, List.sum_nil, ENNReal.ofReal_zero]
  | cons s spans ih =>
    obtain ⟨hhead, htail⟩ := List.pairwise_cons.mp hapart
    have hdisjoint : Disjoint (Set.Ico (max s.1 a) (min s.2 b)) (covered spans a b) := by
      refine Set.disjoint_left.mpr fun t ht hcovered => ?_
      obtain ⟨-, u, hu, hin⟩ := hcovered
      exact absurd (lt_of_lt_of_le ht.2 (min_le_left _ _))
        (not_lt_of_ge (le_trans (hhead u hu) hin.1))
    have hspan : volume (Set.Ico (max s.1 a) (min s.2 b)) = ENNReal.ofReal (overlapOf s a b) := by
      rw [Real.volume_Ico, overlapOf]
      rcases le_total (min s.2 b - max s.1 a) 0 with hneg | hpos
      · rw [max_eq_left hneg, ENNReal.ofReal_of_nonpos hneg, ENNReal.ofReal_zero]
      · rw [max_eq_right hpos]
    rw [covered_cons, measure_union hdisjoint measurableSet_covered, hspan, ih htail,
      List.map_cons, List.sum_cons, ENNReal.ofReal_add overlapOf_nonneg sum_overlapOf_nonneg]

/-- What a span takes of a window is told by where the window cuts its ends off. -/
theorem overlapOf_eq_sub {𝕜 : Type} [Field 𝕜] [LinearOrder 𝕜] [IsStrictOrderedRing 𝕜]
    {x y a b : 𝕜} (hxy : x ≤ y) (hab : a ≤ b) :
    overlapOf (x, y) a b = max a (min y b) - max a (min x b) := by
  rw [overlapOf]
  rcases le_total y a with hy | hy
  · have hx : min x b ≤ a := (min_le_left x b).trans (hxy.trans hy)
    have hgone : min y b - max x a ≤ 0 :=
      sub_nonpos.mpr (((min_le_left y b).trans hy).trans (le_max_right x a))
    rw [max_eq_left hgone, max_eq_left ((min_le_left y b).trans hy), max_eq_left hx, sub_self]
  · rcases le_total b x with hx | hx
    · have hgone : min y b - max x a ≤ 0 :=
        sub_nonpos.mpr (((min_le_right y b).trans hx).trans (le_max_left x a))
      rw [max_eq_left hgone, min_eq_right hx, min_eq_right (hx.trans hxy), sub_self]
    · have hreach : max x a ≤ min y b := max_le (le_min hxy hx) (le_min hy hab)
      rw [max_eq_right (sub_nonneg.mpr hreach), max_eq_right (le_min hy hab), min_eq_left hx,
        max_comm x a]

/-- A span is taken apart at an instant of it. -/
theorem overlapOf_split {𝕜 : Type} [Field 𝕜] [LinearOrder 𝕜] [IsStrictOrderedRing 𝕜]
    {x y z a b : 𝕜} (hxy : x ≤ y) (hyz : y ≤ z) (hab : a ≤ b) :
    overlapOf (x, z) a b = overlapOf (x, y) a b + overlapOf (y, z) a b := by
  rw [overlapOf_eq_sub (hxy.trans hyz) hab, overlapOf_eq_sub hxy hab, overlapOf_eq_sub hyz hab]
  ring

theorem cast_sum_overlapOf (spans : List (ℚ × ℚ)) (a b : ℚ) :
    (((spans.map fun s => overlapOf s a b).sum : ℚ) : ℝ) =
      ((spans.map fun s => ((s.1 : ℝ), (s.2 : ℝ))).map fun s => overlapOf s (a : ℝ) (b : ℝ)).sum := by
  rw [Rat.cast_list_sum, List.map_map, List.map_map]
  refine congrArg List.sum (List.map_congr_left fun s _ => ?_)
  simp only [Function.comp_apply, overlapOf, Rat.cast_max, Rat.cast_min, Rat.cast_sub,
    Rat.cast_zero]

/-- A window is taken apart at an instant of it. -/
theorem volume_covered_split {c : ℝ} (hab : a ≤ b) (hbc : b ≤ c) :
    volume (covered spans a c) = volume (covered spans a b) + volume (covered spans b c) := by
  have hunion : covered spans a c = covered spans a b ∪ covered spans b c := by
    ext t
    simp only [covered, Set.mem_ofPred_eq, Set.mem_union, Set.mem_Ico]
    constructor
    · rintro ⟨⟨hat, htc⟩, hin⟩
      exact (lt_or_ge t b).imp (fun htb => ⟨⟨hat, htb⟩, hin⟩) fun hbt => ⟨⟨hbt, htc⟩, hin⟩
    · rintro (⟨⟨hat, htb⟩, hin⟩ | ⟨⟨hbt, htc⟩, hin⟩)
      · exact ⟨⟨hat, htb.trans_le hbc⟩, hin⟩
      · exact ⟨⟨hab.trans hbt, htc⟩, hin⟩
  have hdisjoint : Disjoint (covered spans a b) (covered spans b c) :=
    Set.disjoint_left.mpr fun t hfirst hsecond => absurd hfirst.1.2 (not_lt_of_ge hsecond.1.1)
  rw [hunion, measure_union hdisjoint measurableSet_covered]

/-- A window that no span reaches. -/
theorem covered_of_apart (h : ∀ s ∈ spans, s.2 ≤ a ∨ b ≤ s.1) : covered spans a b = ∅ := by
  refine Set.eq_empty_of_forall_notMem fun t ht => ?_
  obtain ⟨⟨hat, htb⟩, s, hs, hst, hts⟩ := ht
  rcases h s hs with hend | hstart
  · exact absurd hts (not_lt_of_ge (hend.trans hat))
  · exact absurd htb (not_lt_of_ge (hstart.trans hst))

/-- A window inside one span. -/
theorem covered_of_mem (hs : s ∈ spans) (hstart : s.1 ≤ a) (hend : b ≤ s.2) :
    covered spans a b = Set.Ico a b :=
  Set.Subset.antisymm (fun _ ht => ht.1) fun _ ht =>
    ⟨ht, s, hs, hstart.trans ht.1, ht.2.trans_le hend⟩

/-! ## The union -/

/-- The instants that lie in one of the spans, ends included. -/
def reached (spans : List (ℝ × ℝ)) : Set ℝ := {t | ∃ s ∈ spans, t ∈ Set.Icc s.1 s.2}

theorem reached_nil : reached [] = ∅ :=
  Set.eq_empty_of_forall_notMem fun _ ⟨_, hs, _⟩ => List.not_mem_nil hs

theorem reached_cons : reached (s :: spans) = Set.Icc s.1 s.2 ∪ reached spans := by
  ext t
  simp only [reached, Set.mem_ofPred_eq, Set.mem_union, List.mem_cons, exists_eq_or_imp]

theorem reached_congr {spans' : List (ℝ × ℝ)} (h : ∀ s, s ∈ spans ↔ s ∈ spans') :
    reached spans = reached spans' := by
  ext t
  simp only [reached, Set.mem_ofPred_eq, h]

theorem measurableSet_reached : MeasurableSet (reached spans) := by
  induction spans with
  | nil =>
    rw [reached_nil]
    exact MeasurableSet.empty
  | cons s spans ih =>
    rw [reached_cons]
    exact measurableSet_Icc.union ih

theorem lt_of_mem_reached {t : ℝ} (hafter : ∀ s ∈ spans, a < s.1) (ht : t ∈ reached spans) :
    a < t := by
  obtain ⟨s, hs, hin⟩ := ht
  exact (hafter s hs).trans_le hin.1

/-- Two spans that touch are one. -/
theorem reached_join {u : ℝ × ℝ} (hfirst : s.1 ≤ u.1) (htouch : u.1 ≤ s.2) (hu : u.1 ≤ u.2) :
    reached (s :: u :: spans) = reached ((s.1, max s.2 u.2) :: spans) := by
  have hjoin : Set.Icc s.1 s.2 ∪ Set.Icc u.1 u.2 = Set.Icc s.1 (max s.2 u.2) := by
    rw [Set.Icc_union_Icc' htouch (hfirst.trans hu), min_eq_left hfirst]
  rw [reached_cons, reached_cons, reached_cons, ← Set.union_assoc, hjoin]

/-- A span that ends before all others begin adds its whole length. -/
theorem volume_reached_cons (hafter : ∀ u ∈ spans, s.2 < u.1) :
    volume (reached (s :: spans)) = ENNReal.ofReal (s.2 - s.1) + volume (reached spans) := by
  have hdisjoint : Disjoint (Set.Icc s.1 s.2) (reached spans) :=
    Set.disjoint_left.mpr fun _ ht hreached =>
      absurd (lt_of_mem_reached hafter hreached) (not_lt_of_ge ht.2)
  rw [reached_cons, measure_union hdisjoint measurableSet_reached, Real.volume_Icc]

theorem volume_reached_le (hs : ∀ s ∈ spans, s.1 ≤ s.2) :
    volume (reached spans) ≤ ENNReal.ofReal (spans.map fun s => s.2 - s.1).sum := by
  induction spans with
  | nil =>
    rw [reached_nil, measure_empty]
    exact zero_le
  | cons s spans ih =>
    have hhead : 0 ≤ s.2 - s.1 := sub_nonneg.mpr (hs s List.mem_cons_self)
    have htail : 0 ≤ (spans.map fun s => s.2 - s.1).sum := by
      refine List.sum_nonneg fun x hx => ?_
      obtain ⟨u, hu, rfl⟩ := List.mem_map.mp hx
      exact sub_nonneg.mpr (hs u (List.mem_cons_of_mem s hu))
    rw [reached_cons, List.map_cons, List.sum_cons, ENNReal.ofReal_add hhead htail,
      ← Real.volume_Icc]
    refine (measure_union_le _ _).trans ?_
    gcongr
    exact ih fun u hu => hs u (List.mem_cons_of_mem s hu)

end SupabaseLab.Library
