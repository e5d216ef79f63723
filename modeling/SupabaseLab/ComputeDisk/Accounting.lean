/-
  ComputeDisk/Accounting.lean --- every outage is counted once, whole, where it starts.

  The runs of failures are the specification: maximal stretches of the samples in
  the order of time, each from its first failure to the success after it, or to the
  end of the stream.  `attributeMs` is held against them: what a phase owns, what the
  phases own together, and the time a phase spends in runs of earlier ones, which is
  the measure of a set of instants.
-/
import SupabaseLab.ComputeDisk.Outage

set_option autoImplicit false

namespace SupabaseLab.ComputeDisk

open Library MeasureTheory

/-! ## The specification -/

/-- When a run is over: at the success after it, or with the stream. -/
def runEnd (l : List Sample) (endMs : ℚ) (r : Nat × Nat) : ℚ :=
  match l[r.2]? with
  | some s => s.atMs
  | none => endMs

def runLength (l : List Sample) (endMs : ℚ) (r : Nat × Nat) : ℚ := runEnd l endMs r - timeAt l r.1

/-- The instant is not before the first phase. -/
def AfterStart (phases : List PhaseMark) (t : ℚ) : Prop := ∃ m ∈ phases.head?, m.startMs ≤ t

instance (phases : List PhaseMark) (t : ℚ) : Decidable (AfterStart phases t) :=
  inferInstanceAs (Decidable (∃ m ∈ phases.head?, m.startMs ≤ t))

/-- The instants of phase `p` inside runs that started in an earlier phase. -/
def carriedInstants (l : List Sample) (phases : List PhaseMark) (endMs : ℚ) (m : PhaseMark)
    (p : Nat) : Set ℝ :=
  {t | (m.startMs : ℝ) ≤ t ∧ t < (phaseEnd phases endMs p : ℚ) ∧
    ∃ i j, IsRun failing l i j ∧ (∃ k < p, InPhase phases k (timeAt l i)) ∧
      (timeAt l i : ℝ) ≤ t ∧ t < (runEnd l endMs (i, j) : ℚ)}

/-- The outages that start in the phases, summed over the phases. -/
def totalOfPhases (samples : List Sample) (phases : List PhaseMark) (endMs : ℚ) : ℚ :=
  ((attributeMs samples phases endMs).map PhaseOutageStats.totalOutage).sum

/-- What the accounting promises of a stream of samples. -/
structure CountedOnce (samples : List Sample) (phases : List PhaseMark) (endMs : ℚ) : Prop where
  /-- A phase owns the runs whose first failure it contains, each once and in full. -/
  whole : ∀ p, ownOutages (outagesOf samples phases endMs) p =
    ((runs failing (inTimeOrder samples)).filter fun r =>
      InPhase phases p (timeAt (inTimeOrder samples) r.1)).map fun r =>
        { startMs := timeAt (inTimeOrder samples) r.1
          endMs := runEnd (inTimeOrder samples) endMs r
          phase := some p
          isOpen := (inTimeOrder samples)[r.2]?.isNone
          failures := r.2 - r.1 }
  /-- A run that starts after the first phase has begun starts in exactly one phase. -/
  onePhase : ∀ i j, IsRun failing (inTimeOrder samples) i j →
    AfterStart phases (timeAt (inTimeOrder samples) i) →
    ∃! p, InPhase phases p (timeAt (inTimeOrder samples) i)
  /-- The lengths of the phases add up to the lengths of these runs. -/
  total : totalOfPhases samples phases endMs =
    (((runs failing (inTimeOrder samples)).filter fun r =>
      AfterStart phases (timeAt (inTimeOrder samples) r.1)).map
        (runLength (inTimeOrder samples) endMs)).sum
  /-- What is carried into a phase is the time it spends inside earlier runs. -/
  carried : ∀ p m, phases[p]? = some m →
    volume (carriedInstants (inTimeOrder samples) phases endMs m p) =
      ENNReal.ofReal (statsOf samples phases endMs m p).carriedIn
  /-- A further boundary changes no outage but for its phase, nor the total when it
  is not before the first phase. -/
  inserted : ∀ before q after, phases = before ++ after → Ordered (before ++ q :: after) →
    ((outagesOf samples (before ++ q :: after) endMs).map fun o => { o with phase := none }) =
        ((outagesOf samples phases endMs).map fun o => { o with phase := none }) ∧
      (AfterStart phases q.startMs →
        totalOfPhases samples (before ++ q :: after) endMs = totalOfPhases samples phases endMs)

/-! ## Sums -/

section Sums

variable {outages : List Outage} {startMs endsAt : ℚ} {n i : Nat}

theorem foldl_add_length (a : ℚ) : outages.foldl (fun a o => a + (o.endMs - o.startMs)) a =
    a + (outages.map Outage.length).sum := by
  induction outages generalizing a with
  | nil => rw [List.foldl_nil, List.map_nil, List.sum_nil, add_zero]
  | cons o outages ih =>
    rw [List.foldl_cons, ih, List.map_cons, List.sum_cons, ← add_assoc]
    rfl

theorem carriedInto_eq : carriedInto outages startMs endsAt i =
    ((outages.filter fun o => o.startedBefore i).map fun o =>
      overlapOf (o.startMs, o.endMs) startMs endsAt).sum := by
  have hfrom : ∀ a : ℚ, outages.foldl (fun carried o =>
      if o.startedBefore i then
        let fromMs := max o.startMs startMs
        let toMs := min o.endMs endsAt
        if fromMs < toMs then carried + (toMs - fromMs) else carried
      else carried) a =
      a + ((outages.filter fun o => o.startedBefore i).map fun o =>
        overlapOf (o.startMs, o.endMs) startMs endsAt).sum := by
    induction outages with
    | nil => exact fun a => (add_zero a).symm
    | cons o outages ih =>
      intro a
      rw [List.foldl_cons, ih, List.filter_cons]
      cases o.startedBefore i with
      | false => rfl
      | true =>
        simp only [if_true, List.map_cons, List.sum_cons, overlapOf]
        rw [← add_assoc]
        congr 1
        split
        · rename_i hlt
          rw [max_eq_right (sub_nonneg.mpr hlt.le)]
        · rename_i hle
          rw [max_eq_left (sub_nonpos.mpr (not_lt.mp hle)), add_zero]
  exact (hfrom 0).trans (zero_add _)

/-- Outages whose phases are below `n`, gathered by phase. -/
theorem sum_ownOutages (hphase : ∀ o ∈ outages, ∀ k, o.phase = some k → k < n) :
    ((List.range n).map fun i => ((ownOutages outages i).map Outage.length).sum).sum =
      ((outages.filter fun o => o.phase.isSome).map Outage.length).sum := by
  induction outages with
  | nil => simp [ownOutages]
  | cons o outages ih =>
    have hrest := ih fun x hx => hphase x (List.mem_cons_of_mem _ hx)
    have hsplit : ∀ i, ((ownOutages (o :: outages) i).map Outage.length).sum =
        (if o.phase = some i then o.length else 0) +
          ((ownOutages outages i).map Outage.length).sum := by
      intro i
      unfold ownOutages
      rw [List.filter_cons]
      split <;> simp_all
    rw [List.map_congr_left fun i _ => hsplit i, List.sum_map_add, hrest, List.filter_cons]
    cases hk : o.phase with
    | none => simp
    | some k =>
      have hlt := hphase o List.mem_cons_self k hk
      simp only [Option.some_inj, Option.isSome_some, if_true, List.map_cons, List.sum_cons]
      congr 1
      rw [List.sum_map_eq_nsmul_single k _ fun i hi _ => if_neg (Ne.symm hi),
        List.count_eq_one_of_mem List.nodup_range (List.mem_range.mpr hlt), one_nsmul, if_pos rfl]

end Sums

/-! ## The accounting meets it -/

section Accounting

variable {samples : List Sample} {phases : List PhaseMark} {endMs : ℚ} {p : Nat} {m : PhaseMark}
  {r : Nat × Nat}

theorem inTimeOrder_sorted (samples : List Sample) :
    (inTimeOrder samples).Pairwise fun a b => a.atMs ≤ b.atMs := by
  have h := @List.pairwise_mergeSort _ (fun a b : Sample => decide (a.atMs ≤ b.atMs))
    (fun a b c hab hbc => decide_eq_true
      ((of_decide_eq_true hab).trans (of_decide_eq_true hbc)))
    (fun a b => by
      rcases le_total a.atMs b.atMs with h | h
      · rw [decide_eq_true h, Bool.true_or]
      · rw [decide_eq_true h, Bool.or_true]) samples
  exact h.imp of_decide_eq_true

theorem timeAt_mono {i j : Nat} {s : Sample} (hij : i ≤ j)
    (hj : (inTimeOrder samples)[j]? = some s) :
    timeAt (inTimeOrder samples) i ≤ timeAt (inTimeOrder samples) j := by
  obtain ⟨hlt, hs⟩ := List.getElem?_eq_some_iff.mp hj
  have hi : (inTimeOrder samples)[i]? = some ((inTimeOrder samples)[i]) :=
    List.getElem?_eq_getElem (Nat.lt_of_le_of_lt hij hlt)
  rw [timeAt_of_getElem? hi, timeAt_of_getElem? hj, ← hs]
  obtain heq | hlt' := Nat.eq_or_lt_of_le hij
  · subst heq
    exact le_refl _
  · exact List.pairwise_iff_getElem.mp (inTimeOrder_sorted samples) i j _ hlt hlt'

theorem timeAt_le_end (hend : ∀ s ∈ samples, s.atMs ≤ endMs) {i j : Nat}
    (h : IsRun failing (inTimeOrder samples) i j) : timeAt (inTimeOrder samples) i ≤ endMs := by
  have hi := List.getElem?_eq_getElem (Nat.lt_of_lt_of_le h.lt h.le)
  rw [timeAt_of_getElem? hi]
  exact hend _ (List.mem_mergeSort.mp (List.mem_of_getElem? hi))

theorem outageOfRun_eq (hend : ∀ s ∈ samples, s.atMs ≤ endMs)
    (hr : r ∈ runs failing (inTimeOrder samples)) :
    outageOfRun (inTimeOrder samples) phases endMs r =
      { startMs := timeAt (inTimeOrder samples) r.1
        endMs := runEnd (inTimeOrder samples) endMs r
        phase := phaseOf (timeAt (inTimeOrder samples) r.1) phases
        isOpen := (inTimeOrder samples)[r.2]?.isNone
        failures := r.2 - r.1 } := by
  rw [outageOfRun, max_eq_left (timeAt_le_end hend (mem_runs.mp hr))]
  rfl

/-- One run is over before the next begins. -/
theorem runs_apart : (runs failing (inTimeOrder samples)).Pairwise fun r r' =>
    runEnd (inTimeOrder samples) endMs r ≤ timeAt (inTimeOrder samples) r'.1 := by
  refine List.Pairwise.imp_of_mem (fun {r r'} hr hr' hlt => ?_) runs_pairwise
  have hrun' := mem_runs.mp hr'
  have hstart := List.getElem?_eq_getElem (Nat.lt_of_lt_of_le hrun'.lt hrun'.le)
  have hafter := List.getElem?_eq_getElem
    (Nat.lt_of_lt_of_le (Nat.lt_trans hlt hrun'.lt) hrun'.le)
  have hmono := timeAt_mono (Nat.le_of_lt hlt) hstart
  rw [timeAt_of_getElem? hafter] at hmono
  unfold runEnd
  rw [hafter]
  exact hmono

theorem ownOutages_eq (hordered : Ordered phases) (hend : ∀ s ∈ samples, s.atMs ≤ endMs) :
    ownOutages (outagesOf samples phases endMs) p =
      ((runs failing (inTimeOrder samples)).filter fun r =>
        InPhase phases p (timeAt (inTimeOrder samples) r.1)).map fun r =>
          { startMs := timeAt (inTimeOrder samples) r.1
            endMs := runEnd (inTimeOrder samples) endMs r
            phase := some p
            isOpen := (inTimeOrder samples)[r.2]?.isNone
            failures := r.2 - r.1 } := by
  have hkeep : ((fun o : Outage => decide (o.phase = some p)) ∘
      outageOfRun (inTimeOrder samples) phases endMs) =
      fun r => decide (InPhase phases p (timeAt (inTimeOrder samples) r.1)) := by
    funext r
    exact decide_eq_decide.mpr (phaseOf_eq_some hordered)
  rw [ownOutages, outagesOf_eq, List.filter_map, hkeep]
  refine List.map_congr_left fun r hr => ?_
  obtain ⟨hmem, hin⟩ := List.mem_filter.mp hr
  rw [outageOfRun_eq hend hmem, (phaseOf_eq_some hordered).mpr (of_decide_eq_true hin)]

theorem afterStart_iff (hordered : Ordered phases) {t : ℚ} :
    AfterStart phases t ↔ (phaseOf t phases).isSome := by
  cases phases with
  | nil =>
    refine ⟨fun ⟨m, hm, _⟩ => ?_, fun h => ?_⟩
    · cases hm
    · cases h
  | cons m phases =>
    rw [phaseOf_isSome hordered]
    exact ⟨fun ⟨_, hm, hle⟩ => Option.some.inj hm ▸ hle, fun h => ⟨m, rfl, h⟩⟩

theorem existsUnique_phase (hordered : Ordered phases) {t : ℚ} (h : AfterStart phases t) :
    ∃! p, InPhase phases p t := by
  obtain ⟨p, hp⟩ := Option.isSome_iff_exists.mp ((afterStart_iff hordered).mp h)
  refine ⟨p, (phaseOf_eq_some hordered).mp hp, fun q hq => ?_⟩
  exact Option.some.inj (((phaseOf_eq_some hordered).mpr hq).symm.trans hp)

theorem totalOfPhases_eq (hordered : Ordered phases) (hend : ∀ s ∈ samples, s.atMs ≤ endMs) :
    totalOfPhases samples phases endMs =
      (((runs failing (inTimeOrder samples)).filter fun r =>
        AfterStart phases (timeAt (inTimeOrder samples) r.1)).map
          (runLength (inTimeOrder samples) endMs)).sum := by
  have hmap : (attributeMs samples phases endMs).map PhaseOutageStats.totalOutage =
      (List.range phases.length).map fun i =>
        ((ownOutages (outagesOf samples phases endMs) i).map Outage.length).sum := by
    have hsnd : List.range phases.length = phases.zipIdx.map Prod.snd := by
      rw [List.zipIdx_map_snd, List.range_eq_range']
    rw [attributeMs, hsnd, List.map_map, List.map_map]
    refine List.map_congr_left fun q _ => ?_
    exact (foldl_add_length 0).trans (zero_add _)
  have hphase : ∀ o ∈ outagesOf samples phases endMs, ∀ k, o.phase = some k → k < phases.length := by
    intro o ho k hk
    rw [outagesOf_eq] at ho
    obtain ⟨r, -, rfl⟩ := List.mem_map.mp ho
    obtain ⟨⟨n, hn, -⟩, -⟩ := (phaseOf_eq_some hordered).mp hk
    exact (List.getElem?_eq_some_iff.mp hn).1
  rw [totalOfPhases, hmap, sum_ownOutages hphase, outagesOf_eq, List.filter_map, List.map_map]
  have hkeep : ((fun o : Outage => o.phase.isSome) ∘
      outageOfRun (inTimeOrder samples) phases endMs) =
      fun r => decide (AfterStart phases (timeAt (inTimeOrder samples) r.1)) := by
    funext r
    rw [Bool.eq_iff_iff, decide_eq_true_iff]
    exact (afterStart_iff hordered).symm
  rw [hkeep]
  refine congrArg List.sum (List.map_congr_left fun r hr => ?_)
  rw [Function.comp_apply, outageOfRun_eq hend (List.mem_filter.mp hr).1]
  rfl

/-- The spans of the runs that started before phase `p`. -/
def earlierSpans (l : List Sample) (phases : List PhaseMark) (endMs : ℚ) (p : Nat) :
    List (ℚ × ℚ) :=
  ((runs failing l).filter fun r => ∃ k < p, InPhase phases k (timeAt l r.1)).map fun r =>
    (timeAt l r.1, runEnd l endMs r)

theorem startedBefore_iff {o : Outage} :
    o.startedBefore p = true ↔ ∃ k < p, o.phase = some k := by
  unfold Outage.startedBefore
  cases o.phase with
  | none =>
    constructor
    · intro h
      cases h
    · rintro ⟨k, _, h⟩
      cases h
  | some k =>
    constructor
    · intro h
      exact ⟨k, of_decide_eq_true h, rfl⟩
    · rintro ⟨_, hlt, h⟩
      cases h
      exact decide_eq_true hlt

theorem carriedIn_eq (hordered : Ordered phases) (hend : ∀ s ∈ samples, s.atMs ≤ endMs) :
    (statsOf samples phases endMs m p).carriedIn =
      ((earlierSpans (inTimeOrder samples) phases endMs p).map fun s =>
        overlapOf s m.startMs (phaseEnd phases endMs p)).sum := by
  have hkeep : ((fun o : Outage => o.startedBefore p) ∘
      outageOfRun (inTimeOrder samples) phases endMs) =
      fun r => decide (∃ k < p, InPhase phases k (timeAt (inTimeOrder samples) r.1)) := by
    funext r
    rw [Bool.eq_iff_iff, decide_eq_true_iff, Function.comp_apply, startedBefore_iff]
    constructor
    · rintro ⟨k, hlt, hphase⟩
      exact ⟨k, hlt, (phaseOf_eq_some hordered).mp hphase⟩
    · rintro ⟨k, hlt, hin⟩
      exact ⟨k, hlt, (phaseOf_eq_some hordered).mpr hin⟩
  show carriedInto (outagesOf samples phases endMs) m.startMs (phaseEnd phases endMs p) p = _
  rw [carriedInto_eq, outagesOf_eq, List.filter_map, hkeep, earlierSpans, List.map_map, List.map_map]
  refine congrArg List.sum (List.map_congr_left fun r hr => ?_)
  rw [Function.comp_apply, Function.comp_apply, outageOfRun_eq hend (List.mem_filter.mp hr).1]

theorem carriedInstants_eq : carriedInstants (inTimeOrder samples) phases endMs m p =
    covered ((earlierSpans (inTimeOrder samples) phases endMs p).map fun s =>
      ((s.1 : ℝ), (s.2 : ℝ))) m.startMs (phaseEnd phases endMs p) := by
  ext t
  constructor
  · rintro ⟨hstart, hlt, i, j, hrun, hearlier, hfrom, hto⟩
    refine ⟨⟨hstart, hlt⟩, _, List.mem_map_of_mem (List.mem_map_of_mem (List.mem_filter.mpr
      ⟨mem_runs.mpr hrun, decide_eq_true hearlier⟩)), hfrom, hto⟩
  · rintro ⟨⟨hstart, hlt⟩, s, hs, hfrom, hto⟩
    obtain ⟨span, hspan, rfl⟩ := List.mem_map.mp hs
    obtain ⟨r, hr, rfl⟩ := List.mem_map.mp hspan
    obtain ⟨hrun, hearlier⟩ := List.mem_filter.mp hr
    exact ⟨hstart, hlt, r.1, r.2, mem_runs.mp hrun, of_decide_eq_true hearlier, hfrom, hto⟩

theorem volume_carriedInstants (hordered : Ordered phases) (hend : ∀ s ∈ samples, s.atMs ≤ endMs) :
    volume (carriedInstants (inTimeOrder samples) phases endMs m p) =
      ENNReal.ofReal (statsOf samples phases endMs m p).carriedIn := by
  have hapart : ((earlierSpans (inTimeOrder samples) phases endMs p).map fun s =>
      ((s.1 : ℝ), (s.2 : ℝ))).Pairwise fun s t => s.2 ≤ t.1 := by
    refine List.pairwise_map.mpr (List.pairwise_map.mpr ?_)
    have hruns : (runs failing (inTimeOrder samples)).Pairwise fun r r' =>
        runEnd (inTimeOrder samples) endMs r ≤ timeAt (inTimeOrder samples) r'.1 := runs_apart
    exact (hruns.filter _).imp fun hle => Rat.cast_le.mpr hle
  rw [carriedInstants_eq, volume_covered hapart, carriedIn_eq hordered hend]
  refine congrArg ENNReal.ofReal ?_
  rw [cast_sum_overlapOf]

/-- Outages but for their phases do not depend on the phases. -/
theorem outagesOf_phases (phases' : List PhaseMark) :
    ((outagesOf samples phases' endMs).map fun o => { o with phase := none }) =
      ((outagesOf samples phases endMs).map fun o => { o with phase := none }) := by
  rw [outagesOf_eq, outagesOf_eq, List.map_map, List.map_map]
  rfl

/-- A boundary that is not before the first phase leaves the start where it is. -/
theorem afterStart_inserted {before after : List PhaseMark} {q : PhaseMark} {t : ℚ}
    (hordered : Ordered (before ++ q :: after)) (hq : AfterStart (before ++ after) q.startMs) :
    AfterStart (before ++ q :: after) t ↔ AfterStart (before ++ after) t := by
  cases before with
  | cons b before => exact Iff.rfl
  | nil =>
    obtain ⟨m, hm, hle⟩ := hq
    rw [List.nil_append] at hordered hm ⊢
    cases after with
    | nil => cases hm
    | cons a after =>
      cases hm
      have heq : q.startMs = m.startMs :=
        le_antisymm ((List.pairwise_cons.mp hordered).1 m List.mem_cons_self) hle
      refine ⟨fun ⟨n, hn, hnt⟩ => ⟨m, rfl, ?_⟩, fun ⟨n, hn, hnt⟩ => ⟨q, rfl, ?_⟩⟩
      · cases hn
        exact heq ▸ hnt
      · cases hn
        exact heq ▸ hnt

theorem total_inserted {before after : List PhaseMark} {q : PhaseMark}
    (hend : ∀ s ∈ samples, s.atMs ≤ endMs) (hordered : Ordered (before ++ after))
    (hordered' : Ordered (before ++ q :: after)) (hq : AfterStart (before ++ after) q.startMs) :
    totalOfPhases samples (before ++ q :: after) endMs =
      totalOfPhases samples (before ++ after) endMs := by
  rw [totalOfPhases_eq hordered' hend, totalOfPhases_eq hordered hend]
  congr 3
  funext r
  exact decide_eq_decide.mpr (afterStart_inserted hordered' hq)

/-- Outages are counted once, whole, in the phase they start in. -/
theorem outages_counted_once (samples : List Sample) (phases : List PhaseMark) (endMs : ℚ)
    (hordered : Ordered phases) (hend : ∀ s ∈ samples, s.atMs ≤ endMs) :
    CountedOnce samples phases endMs where
  whole := fun p => ownOutages_eq hordered hend
  onePhase := fun i j _ h => existsUnique_phase hordered h
  total := totalOfPhases_eq hordered hend
  carried := fun p m _ => volume_carriedInstants hordered hend
  inserted := by
    rintro before q after rfl hordered'
    exact ⟨outagesOf_phases _, total_inserted hend hordered hordered'⟩

/-- The stream of a resize: one outage over the boundary, one that is open at the end. -/
def resizeStream : List Sample :=
  [⟨9, false⟩, ⟨1, true⟩, ⟨2, false⟩, ⟨5, false⟩, ⟨6, true⟩]

theorem outages_counted_once_resize :
    CountedOnce resizeStream [⟨"micro->small", 0⟩, ⟨"small->large", 4⟩] 12 :=
  outages_counted_once resizeStream [⟨"micro->small", 0⟩, ⟨"small->large", 4⟩] 12
    (by simp [Ordered]) (by simp [resizeStream]; norm_num)

/-- A boundary put before the first phase takes in a run that no phase owned. -/
theorem total_changes_before_start :
    Ordered [⟨"a", 0⟩, ⟨"b", 10⟩] ∧
    totalOfPhases [⟨0, false⟩, ⟨5, true⟩] [⟨"b", 10⟩] 20 = 0 ∧
    totalOfPhases [⟨0, false⟩, ⟨5, true⟩] [⟨"a", 0⟩, ⟨"b", 10⟩] 20 = 5 := by
  have hsort : inTimeOrder [⟨0, false⟩, ⟨5, true⟩] = [⟨0, false⟩, ⟨5, true⟩] :=
    List.mergeSort_of_pairwise (by simp)
  refine ⟨by simp [Ordered], ?_, ?_⟩
  · simp [totalOfPhases, attributeMs, statsOf, outagesOf, hsort, scanSample, closeAtEnd, phaseOf,
      ownOutages]
  · simp [totalOfPhases, attributeMs, statsOf, outagesOf, hsort, scanSample, closeAtEnd, phaseOf,
      ownOutages]

end Accounting

end SupabaseLab.ComputeDisk
