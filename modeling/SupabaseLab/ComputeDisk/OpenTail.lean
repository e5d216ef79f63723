/-
  ComputeDisk/OpenTail.lean --- what the old aggregates of a phase still prove.

  Source: `openTailLowerBound` of experiments/compute-disk/lib/outage.ts, and the old
  accumulator, `legacyPhase`, that lib/outage.test.ts keeps.

  The old accounting kept three numbers of a phase: its samples, the ones that were OK,
  and the longest outage that a success closed.  Each closed outage ends on a success of
  its own and holds no more failures than fit into the longest; the failures beyond that
  were still open when the phase ended.  As in `Outage` times are exact rationals.
-/
import SupabaseLab.ComputeDisk.Outage
import Mathlib.Data.List.DropRight

set_option autoImplicit false

namespace SupabaseLab.ComputeDisk

/-! ## The old accounting -/

/-- What is kept of a phase. -/
structure PhaseAggregate where
  ok : Nat
  tot : Nat
  maxClosedOutageS : ℚ
  deriving DecidableEq

/-- The variables of the old loop; its `-1` is `none`. -/
structure LegacyState where
  ok : Nat
  maxOutageS : ℚ
  runStart : Option ℚ

def legacySample (st : LegacyState) (s : Sample) : LegacyState :=
  if s.ok then
    match st.runStart with
    | some t => ⟨st.ok + 1, max st.maxOutageS ((s.atMs - t) / 1000), none⟩
    | none => { st with ok := st.ok + 1 }
  else
    match st.runStart with
    | some _ => st
    | none => { st with runStart := some s.atMs }

def legacyPhase (samples : List Sample) : PhaseAggregate :=
  let st := samples.foldl legacySample ⟨0, 0, none⟩
  ⟨st.ok, samples.length, st.maxOutageS⟩

/-! ## The bound -/

structure TailBound where
  tailFailures : ℤ
  tailMinS : ℚ
  deriving DecidableEq

/-- The failures that the longest closed outage can hold. -/
def perClosed (agg : PhaseAggregate) (intervalMs : ℚ) : ℤ :=
  ⌊(agg.maxClosedOutageS * 1000 + 1 / 1000000) / intervalMs⌋

def openTailLowerBound (agg : PhaseAggregate) (intervalMs : ℚ) : TailBound :=
  let closedMax : ℤ := if 0 < agg.maxClosedOutageS then agg.ok * perClosed agg intervalMs else 0
  let tailFailures : ℤ := max 0 (agg.tot - agg.ok - closedMax)
  { tailFailures := tailFailures
    tailMinS := if 0 < tailFailures then (tailFailures - 1) * intervalMs / 1000 else 0 }

/-! ## The phase itself -/

/-- The failures after the last success of a phase. -/
def openTail (samples : List Sample) : List Sample := samples.rtakeWhile failing

/-- The time from the first to the last of some samples. -/
def spanS (samples : List Sample) : ℚ :=
  match samples.head?, samples.getLast? with
  | some a, some b => (b.atMs - a.atMs) / 1000
  | _, _ => 0

/-- Samples start at least one interval apart. -/
def Spaced (intervalMs : ℚ) (samples : List Sample) : Prop :=
  samples.IsChain fun a b => a.atMs + intervalMs ≤ b.atMs

instance (intervalMs : ℚ) (samples : List Sample) : Decidable (Spaced intervalMs samples) :=
  inferInstanceAs (Decidable (List.IsChain _ _))

section Lemmas

variable {samples pre xs : List Sample} {a s : Sample} {intervalMs : ℚ} {st : LegacyState}
  {agg : PhaseAggregate}

theorem Spaced.span (h : Spaced intervalMs (a :: xs)) :
    a.atMs + xs.length * intervalMs ≤ ((a :: xs).getLast (List.cons_ne_nil a xs)).atMs := by
  induction xs generalizing a with
  | nil => simp
  | cons b xs ih =>
    obtain ⟨hab, hrest⟩ := List.isChain_cons_cons.mp h
    have hlast := ih hrest
    rw [List.getLast_cons_cons, List.length_cons]
    push_cast
    linarith

theorem Spaced.openTail (h : Spaced intervalMs samples) : Spaced intervalMs (openTail samples) :=
  List.IsChain.suffix h (List.rtakeWhile_suffix _ _)

theorem openTail_concat_failing (hs : s.ok = false) :
    openTail (pre ++ [s]) = openTail pre ++ [s] :=
  List.rtakeWhile_concat_pos _ _ _ (by rw [failing, hs]; rfl)

theorem openTail_concat_ok (hs : s.ok = true) : openTail (pre ++ [s]) = [] :=
  List.rtakeWhile_concat_neg _ _ _ (by rw [failing, hs]; exact Bool.false_ne_true)

/-- The failures after the last success and one more sample are spaced as well. -/
theorem Spaced.openTail_concat (h : Spaced intervalMs (pre ++ [s])) :
    Spaced intervalMs (ComputeDisk.openTail pre ++ [s]) := by
  obtain ⟨front, hfront⟩ := List.rtakeWhile_suffix failing pre
  refine List.IsChain.suffix h ⟨front, ?_⟩
  rw [← List.append_assoc]
  exact congrArg (· ++ [s]) hfront

theorem legacySample_idle (hs : s.ok = true) (hrun : st.runStart = none) :
    legacySample st s = ⟨st.ok + 1, st.maxOutageS, none⟩ := by
  rw [legacySample, if_pos hs, hrun]

theorem legacySample_closing {t : ℚ} (hs : s.ok = true) (hrun : st.runStart = some t) :
    legacySample st s = ⟨st.ok + 1, max st.maxOutageS ((s.atMs - t) / 1000), none⟩ := by
  rw [legacySample, if_pos hs, hrun]

/-! ## The invariant of the old loop -/

/-- The failures that may be in the closed outages of the samples so far. -/
def closedRoom (st : LegacyState) (intervalMs : ℚ) : ℤ :=
  st.ok * ⌊st.maxOutageS * 1000 / intervalMs⌋

/-- What the loop knows of the samples so far. -/
structure Kept (intervalMs : ℚ) (pre : List Sample) (st : LegacyState) : Prop where
  nonneg : 0 ≤ st.maxOutageS
  running : st.runStart = (openTail pre).head?.map Sample.atMs
  /-- All samples are OK, in a closed outage, or after the last success. -/
  parts : ∃ closed : Nat, pre.length = st.ok + closed + (openTail pre).length ∧
    (closed : ℤ) ≤ closedRoom st intervalMs ∧ (0 < closed → 0 < st.maxOutageS)

theorem kept_nil : Kept intervalMs [] ⟨0, 0, none⟩ where
  nonneg := le_refl 0
  running := rfl
  parts := ⟨0, rfl, by rw [closedRoom, Nat.cast_zero, zero_mul], fun h => absurd h (lt_irrefl 0)⟩

theorem Kept.failing_sample (h : Kept intervalMs pre st) (hs : s.ok = false) :
    Kept intervalMs (pre ++ [s]) (legacySample st s) := by
  obtain ⟨closed, hlen, hroom, hpos⟩ := h.parts
  have hrunning := h.running
  have hsame : (legacySample st s).ok = st.ok ∧ (legacySample st s).maxOutageS = st.maxOutageS := by
    rw [legacySample, if_neg (by rw [hs]; exact Bool.false_ne_true)]
    cases st.runStart <;> exact ⟨rfl, rfl⟩
  refine ⟨hsame.2 ▸ h.nonneg, ?_, closed, ?_, ?_, hsame.2 ▸ hpos⟩
  · rw [legacySample, if_neg (by rw [hs]; exact Bool.false_ne_true), openTail_concat_failing hs]
    cases htail : openTail pre with
    | nil =>
      rw [htail] at hrunning
      rw [hrunning]
      rfl
    | cons a xs =>
      rw [htail] at hrunning
      rw [hrunning]
      exact hrunning
  · rw [openTail_concat_failing hs, hsame.1, List.length_append, List.length_append, hlen]
    omega
  · rw [closedRoom, hsame.1, hsame.2]
    exact hroom

/-- The failures that a success closes fit into every outage that is at least as long. -/
theorem Spaced.fits (hinterval : 0 < intervalMs) (h : Spaced intervalMs (a :: (xs ++ [s])))
    {longest : ℚ} (hlongest : (s.atMs - a.atMs) / 1000 ≤ longest) :
    0 < longest ∧ ((xs.length + 1 : ℕ) : ℤ) ≤ ⌊longest * 1000 / intervalMs⌋ := by
  have hspan : a.atMs + (xs.length + 1 : ℕ) * intervalMs ≤ s.atMs := by
    have := h.span
    rw [List.length_append, List.length_singleton] at this
    simpa using this
  have hsince : ((xs.length + 1 : ℕ) : ℚ) * intervalMs ≤ longest * 1000 := by
    rw [div_le_iff₀ (by norm_num)] at hlongest
    linarith
  have htime : (0 : ℚ) < (xs.length + 1 : ℕ) * intervalMs := by positivity
  refine ⟨by linarith, ?_⟩
  rw [Int.le_floor, le_div_iff₀ hinterval]
  exact_mod_cast hsince

/-- One more success makes room for the failures of one more outage. -/
theorem closedRoom_succ (hinterval : 0 < intervalMs) {longest : ℚ} (hlongest : st.maxOutageS ≤ longest) :
    closedRoom st intervalMs + ⌊longest * 1000 / intervalMs⌋ ≤
      closedRoom ⟨st.ok + 1, longest, none⟩ intervalMs := by
  have hgrown : ⌊st.maxOutageS * 1000 / intervalMs⌋ ≤ ⌊longest * 1000 / intervalMs⌋ :=
    Int.floor_le_floor (div_le_div_of_nonneg_right
      (mul_le_mul_of_nonneg_right hlongest (by norm_num)) hinterval.le)
  calc st.ok * ⌊st.maxOutageS * 1000 / intervalMs⌋ + ⌊longest * 1000 / intervalMs⌋
    _ ≤ st.ok * ⌊longest * 1000 / intervalMs⌋ + ⌊longest * 1000 / intervalMs⌋ :=
      add_le_add_left (mul_le_mul_of_nonneg_left hgrown (by positivity)) _
    _ = ((st.ok + 1 : ℕ) : ℤ) * ⌊longest * 1000 / intervalMs⌋ := by push_cast; ring

/-- A success closes the outage that runs, and that outage fits into the longest. -/
theorem Kept.ok_sample (hinterval : 0 < intervalMs) (h : Kept intervalMs pre st)
    (hspaced : Spaced intervalMs (pre ++ [s])) (hs : s.ok = true) :
    Kept intervalMs (pre ++ [s]) (legacySample st s) := by
  obtain ⟨closed, hlen, hroom, hpos⟩ := h.parts
  have hrunning := h.running
  cases htail : openTail pre with
  | nil =>
    rw [htail] at hrunning hlen
    rw [legacySample_idle hs hrunning]
    have hfloor : 0 ≤ ⌊st.maxOutageS * 1000 / intervalMs⌋ :=
      Int.floor_nonneg.mpr (div_nonneg (mul_nonneg h.nonneg (by norm_num)) hinterval.le)
    have hmore := closedRoom_succ hinterval (le_refl st.maxOutageS)
    refine ⟨h.nonneg, ?_, closed, ?_, by linarith, hpos⟩
    · rw [openTail_concat_ok hs]
      rfl
    · rw [openTail_concat_ok hs, List.length_append, hlen]
      simp only [List.length_singleton, List.length_nil]
      omega
  | cons a xs =>
    have hchain : Spaced intervalMs (ComputeDisk.openTail pre ++ [s]) := hspaced.openTail_concat
    rw [htail] at hrunning hlen hchain
    rw [legacySample_closing hs hrunning]
    obtain ⟨hlongest, hfits⟩ := Spaced.fits hinterval hchain
      (le_max_right st.maxOutageS ((s.atMs - a.atMs) / 1000))
    have hmore := closedRoom_succ hinterval (le_max_left st.maxOutageS ((s.atMs - a.atMs) / 1000))
    refine ⟨hlongest.le, ?_, closed + (xs.length + 1), ?_, ?_, fun _ => hlongest⟩
    · rw [openTail_concat_ok hs]
      rfl
    · rw [openTail_concat_ok hs, List.length_append, hlen]
      simp only [List.length_nil, List.length_cons]
      omega
    · rw [Nat.cast_add]
      exact (add_le_add hroom hfits).trans hmore

theorem kept_legacy (hinterval : 0 < intervalMs) (hspaced : Spaced intervalMs samples) :
    Kept intervalMs samples (samples.foldl legacySample ⟨0, 0, none⟩) := by
  induction samples using List.reverseRecOn with
  | nil => exact kept_nil
  | append_singleton pre s ih =>
    have hpre := ih (List.IsChain.left_of_append hspaced)
    rw [List.foldl_concat]
    cases hs : s.ok with
    | true => exact hpre.ok_sample hinterval hspaced hs
    | false => exact hpre.failing_sample hs

/-! ## Soundness -/

/-- The bound stays below the failures that were open even when the longest closed outage
is known only up to the slack the code adds, as long as it does not read as zero. -/
theorem tailFailures_le (hinterval : 0 < intervalMs) (hspaced : Spaced intervalMs samples)
    (hok : agg.ok = (legacyPhase samples).ok) (htot : agg.tot = samples.length)
    (hmax : (legacyPhase samples).maxClosedOutageS * 1000 ≤
      agg.maxClosedOutageS * 1000 + 1 / 1000000)
    (hpos : 0 < (legacyPhase samples).maxClosedOutageS → 0 < agg.maxClosedOutageS) :
    (openTailLowerBound agg intervalMs).tailFailures ≤ (openTail samples).length := by
  have hkept := kept_legacy hinterval hspaced
  obtain ⟨closed, hlen, hroom, hclosed⟩ := hkept.parts
  refine max_le (Int.natCast_nonneg _) ?_
  have hbelow : (closed : ℤ) ≤
      if 0 < agg.maxClosedOutageS then agg.ok * perClosed agg intervalMs else 0 := by
    rcases Nat.eq_zero_or_pos closed with hzero | hsome
    · rw [hzero, Nat.cast_zero]
      split
      · rename_i h
        exact mul_nonneg (Int.natCast_nonneg _)
          (Int.floor_nonneg.mpr (div_nonneg (by linarith) hinterval.le))
      · exact le_refl 0
    · rw [if_pos (hpos (hclosed hsome)), hok]
      refine hroom.trans (mul_le_mul_of_nonneg_left ?_ (Int.natCast_nonneg _))
      exact Int.floor_le_floor (div_le_div_of_nonneg_right hmax hinterval.le)
  have hcount : (agg.tot : ℤ) = agg.ok + closed + (openTail samples).length := by
    rw [htot, hlen, hok]
    push_cast
    rfl
  linarith

/-- A number of failures takes the time of the intervals between them. -/
theorem spanS_ge (hspaced : Spaced intervalMs samples) (hne : samples ≠ []) :
    (samples.length - 1) * intervalMs / 1000 ≤ spanS samples := by
  cases samples with
  | nil => exact absurd rfl hne
  | cons a xs =>
    have hspan := hspaced.span
    rw [spanS, List.head?_cons, List.getLast?_eq_some_getLast (List.cons_ne_nil a xs), List.length_cons]
    push_cast
    refine div_le_div_of_nonneg_right ?_ (by norm_num)
    linarith

/-- Neither bound exceeds what the phase really had open at its end. -/
theorem openTailLowerBound_sound (hinterval : 0 < intervalMs) (hspaced : Spaced intervalMs samples) :
    (openTailLowerBound (legacyPhase samples) intervalMs).tailFailures ≤ (openTail samples).length ∧
      (openTailLowerBound (legacyPhase samples) intervalMs).tailMinS ≤ spanS (openTail samples) := by
  have hfailures := tailFailures_le hinterval hspaced rfl rfl (by linarith) id
  refine ⟨hfailures, ?_⟩
  have htime : (openTailLowerBound (legacyPhase samples) intervalMs).tailMinS =
      if 0 < (openTailLowerBound (legacyPhase samples) intervalMs).tailFailures then
        ((openTailLowerBound (legacyPhase samples) intervalMs).tailFailures - 1) * intervalMs / 1000
      else 0 := rfl
  rw [htime]
  generalize (openTailLowerBound (legacyPhase samples) intervalMs).tailFailures = n at hfailures
  have hnil : openTail samples = [] → ¬ 0 < n := fun h hn => by
    rw [h] at hfailures
    exact absurd hfailures (not_le.mpr hn)
  split
  · rename_i hn
    have hne : openTail samples ≠ [] := fun h => hnil h hn
    refine le_trans ?_ (spanS_ge hspaced.openTail hne)
    refine div_le_div_of_nonneg_right (mul_le_mul_of_nonneg_right ?_ hinterval.le) (by norm_num)
    exact sub_le_sub_right (by exact_mod_cast hfailures) 1
  · rcases eq_or_ne (openTail samples) [] with hempty | hne
    · rw [hempty]
      exact le_refl 0
    · refine le_trans ?_ (spanS_ge hspaced.openTail hne)
      have hone : 1 ≤ (openTail samples).length := List.length_pos_iff.mpr hne
      have : (1 : ℚ) ≤ (openTail samples).length := by exact_mod_cast hone
      exact div_nonneg (mul_nonneg (by linarith) hinterval.le) (by norm_num)

end Lemmas

/-- Two failures that a success closed, a second success, and five failures to the end. -/
def openAtEnd : List Sample :=
  [⟨0, false⟩, ⟨250, false⟩, ⟨500, true⟩, ⟨1000, true⟩, ⟨1250, false⟩, ⟨1500, false⟩, ⟨1750, false⟩,
    ⟨2000, false⟩, ⟨2250, false⟩]

theorem openTailLowerBound_sound_openAtEnd :
    openTailLowerBound (legacyPhase openAtEnd) 250 = ⟨3, 1 / 2⟩ ∧
      (openTailLowerBound (legacyPhase openAtEnd) 250).tailFailures ≤ (openTail openAtEnd).length ∧
      (openTailLowerBound (legacyPhase openAtEnd) 250).tailMinS ≤ spanS (openTail openAtEnd) :=
  ⟨by with_unfolding_all decide, openTailLowerBound_sound (by norm_num) (by with_unfolding_all decide)⟩

end SupabaseLab.ComputeDisk
