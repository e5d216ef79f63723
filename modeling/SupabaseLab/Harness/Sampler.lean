/-
  Harness/Sampler.lean --- the window of one sampled path.

  Source: harness/src/sampler.ts, the body of the probe loop, `finalise` and
  `allSettled`.  What a path's variables are after its samples is described by
  the samples alone: the first failure, the run of good samples that is still
  pending, and the earliest such run that lasted long enough.  Times are whole
  milliseconds, errors are texts of UTF-16 code units.  Log lines decide nothing and
  are left out.
-/
import SupabaseLab.Library.JsString
import SupabaseLab.Library.Octets

set_option autoImplicit false

namespace SupabaseLab.Harness

open Library

/-! ## Probes and paths -/

structure ProbeOutcome where
  ok : Bool
  error : Option JsText := none
  deriving DecidableEq, Repr

structure PathWindow where
  name : String
  healthyAtStart : Bool
  samples : Nat
  failures : Nat
  firstFailMs : Option Int
  recoveredMs : Option Int
  windowMs : Option Int
  modes : List JsText
  pausedMs : Int
  deriving DecidableEq, Repr

structure PathState where
  name : String
  healthyAtStart : Option Bool := none
  samples : Nat := 0
  failures : Nat := 0
  firstFailMs : Option Int := none
  pendingRecoveryMs : Option Int := none
  recoveredMs : Option Int := none
  modes : List JsText := []
  deriving DecidableEq, Repr

structure Pause where
  fromMs : Int
  toMs : Int
  deriving DecidableEq, Repr

/-- The mode a failure is recorded under: `.slice(0, 80)` counts code units, and may leave
half of a character. -/
def failureMode (o : ProbeOutcome) : JsText := (o.error.getD (units "unknown")).take 80

/-- What one sample, taken at `atMs`, does to the variables of its path. -/
def PathState.observe (settleMs : Int) (s : PathState) (atMs : Int) (o : ProbeOutcome) :
    PathState :=
  let s := { s with
    samples := s.samples + 1
    healthyAtStart := s.healthyAtStart.or (some o.ok) }
  if o.ok = false then
    { s with
      failures := s.failures + 1
      pendingRecoveryMs := none
      firstFailMs := s.firstFailMs.or (some atMs)
      modes := if failureMode o ∈ s.modes then s.modes else s.modes ++ [failureMode o] }
  else if s.firstFailMs.isSome && s.recoveredMs.isNone then
    match s.pendingRecoveryMs with
    | none => { s with pendingRecoveryMs := some atMs }
    | some pending =>
        if settleMs ≤ atMs - pending then { s with recoveredMs := some pending } else s
  else s

def overlap (p : Pause) (fromMs toMs : Int) : Int :=
  max 0 (min p.toMs toMs - max p.fromMs fromMs)

def finalise (s : PathState) (pauses : List Pause) (endMs : Int) : PathWindow where
  name := s.name
  healthyAtStart := s.healthyAtStart.getD false
  samples := s.samples
  failures := s.failures
  firstFailMs := s.firstFailMs
  recoveredMs := s.recoveredMs
  windowMs := match s.firstFailMs, s.recoveredMs with
    | some first, some recovered => some (recovered - first)
    | _, _ => none
  modes := s.modes
  pausedMs := (pauses.map fun p => overlap p 0 (s.recoveredMs.getD endMs)).sum

/-- A path that failed has recovered and settled. -/
def PathState.settled (s : PathState) : Bool := s.firstFailMs.isNone || s.recoveredMs.isSome

def allSettled (states : List PathState) : Bool := states.all PathState.settled

/-! ## What the samples say -/

/-- A sample: when it was taken, and how it ended. -/
abbrev Sample : Type := Int × ProbeOutcome

/-- The variables of a path after its samples. -/
def pathAfter (settleMs : Int) (name : String) (l : List Sample) : PathState :=
  l.foldl (fun s x => s.observe settleMs x.1 x.2) { name := name }

def okAt (l : List Sample) (i : Nat) : Prop := ∃ x, l[i]? = some x ∧ x.2.ok = true

def failsAt (l : List Sample) (i : Nat) : Prop := ∃ x, l[i]? = some x ∧ x.2.ok = false

/-- Sample `i` is the first good one after a failure, and it and all samples up to
`j` are good. -/
structure OkRun (l : List Sample) (i j : Nat) : Prop where
  pos : 0 < i
  after : failsAt l (i - 1)
  ok : ∀ n, i ≤ n → n ≤ j → okAt l n

/-- The run that starts at `i` lasts at least `settleMs`, to a later good sample. -/
def Lasts (settleMs : Int) (l : List Sample) (i : Nat) : Prop :=
  ∃ j x y, i < j ∧ OkRun l i j ∧ l[i]? = some x ∧ l[j]? = some y ∧ settleMs ≤ y.1 - x.1

/-- The earliest run that lasts starts at `t`. -/
def RecoversAt (settleMs : Int) (l : List Sample) (t : Int) : Prop :=
  ∃ i x, Lasts settleMs l i ∧ (∀ i' < i, ¬ Lasts settleMs l i') ∧ l[i]? = some x ∧ x.1 = t

section Samples

variable {settleMs : Int} {name : String} {l : List Sample} {x : Sample} {i j : Nat}

theorem pathAfter_concat : pathAfter settleMs name (l ++ [x]) =
    (pathAfter settleMs name l).observe settleMs x.1 x.2 := by
  rw [pathAfter, List.foldl_append]
  rfl

theorem lt_of_getElem? {n : Nat} {y : Sample} (h : l[n]? = some y) : n < l.length :=
  (List.getElem?_eq_some_iff.mp h).1

theorem okAt_concat {n : Nat} (h : n < l.length) : okAt (l ++ [x]) n ↔ okAt l n := by
  unfold okAt
  rw [List.getElem?_append_left h]

theorem failsAt_concat {n : Nat} (h : n < l.length) : failsAt (l ++ [x]) n ↔ failsAt l n := by
  unfold failsAt
  rw [List.getElem?_append_left h]

theorem not_okAt_of_failsAt {n : Nat} (h : failsAt l n) : ¬ okAt l n := by
  rintro ⟨y, hy, hok⟩
  obtain ⟨z, hz, hfail⟩ := h
  rw [hy] at hz
  rw [← Option.some.inj hz, hok] at hfail
  cases hfail

/-- Runs inside the samples so far are the same after one more. -/
theorem OkRun.concat_iff (hj : j < l.length) (hij : i ≤ j) : OkRun (l ++ [x]) i j ↔ OkRun l i j := by
  constructor
  · rintro ⟨hpos, hafter, hok⟩
    exact ⟨hpos, (failsAt_concat (by omega)).mp hafter,
      fun n h₁ h₂ => (okAt_concat (by omega)).mp (hok n h₁ h₂)⟩
  · rintro ⟨hpos, hafter, hok⟩
    exact ⟨hpos, (failsAt_concat (by omega)).mpr hafter,
      fun n h₁ h₂ => (okAt_concat (by omega)).mpr (hok n h₁ h₂)⟩

/-- The run that is still going on: it starts at `i` and ends with the last sample. -/
def Pending (l : List Sample) (i : Nat) : Prop := i < l.length ∧ OkRun l i (l.length - 1)

/-- Only one run can be going on. -/
theorem Pending.unique (hi : Pending l i) (hj : Pending l j) : i = j := by
  obtain ⟨hilt, hipos, hiafter, hiok⟩ := hi
  obtain ⟨hjlt, hjpos, hjafter, hjok⟩ := hj
  rcases Nat.lt_trichotomy i j with hlt | heq | hlt
  · exact absurd (hiok (j - 1) (by omega) (by omega)) (not_okAt_of_failsAt hjafter)
  · exact heq
  · exact absurd (hjok (i - 1) (by omega) (by omega)) (not_okAt_of_failsAt hiafter)

/-- A good sample goes on with the pending run, or starts one after a failure. -/
theorem pending_concat_ok (hok : x.2.ok = true) : Pending (l ++ [x]) i ↔
    Pending l i ∨ i = l.length ∧ 0 < i ∧ failsAt l (i - 1) := by
  unfold Pending
  rw [List.length_append, List.length_singleton, Nat.add_sub_cancel]
  constructor
  · rintro ⟨hlt, hpos, hafter, hrun⟩
    by_cases hi : i = l.length
    · exact .inr ⟨hi, hpos, (failsAt_concat (by omega)).mp hafter⟩
    · refine .inl ⟨by omega, hpos, (failsAt_concat (by omega)).mp hafter, fun n h₁ h₂ => ?_⟩
      exact (okAt_concat (by omega)).mp (hrun n h₁ (by omega))
  · rintro (⟨hlt, hpos, hafter, hrun⟩ | ⟨rfl, hpos, hafter⟩)
    · refine ⟨by omega, hpos, (failsAt_concat (by omega)).mpr hafter, fun n h₁ h₂ => ?_⟩
      by_cases hn : n = l.length
      · rw [hn]
        exact ⟨x, List.getElem?_concat_length, hok⟩
      · exact (okAt_concat (by omega)).mpr (hrun n h₁ (by omega))
    · refine ⟨by omega, hpos, (failsAt_concat (by omega)).mpr hafter, fun n h₁ h₂ => ?_⟩
      rw [show n = l.length by omega]
      exact ⟨x, List.getElem?_concat_length, hok⟩

theorem not_pending_concat_fail (hfail : x.2.ok = false) : ¬ Pending (l ++ [x]) i := by
  rintro ⟨hlt, -, -, hrun⟩
  rw [List.length_append, List.length_singleton] at hlt hrun
  obtain ⟨y, hy, hok⟩ := hrun l.length (by omega) (by omega)
  rw [List.getElem?_concat_length] at hy
  rw [← Option.some.inj hy, hfail] at hok
  cases hok

/-- A run lasts after one more sample if it did before, or if the new sample is
the one that makes the pending run long enough. -/
theorem lasts_concat : Lasts settleMs (l ++ [x]) i ↔
    Lasts settleMs l i ∨
      x.2.ok = true ∧ Pending l i ∧ ∃ y, l[i]? = some y ∧ settleMs ≤ x.1 - y.1 := by
  constructor
  · rintro ⟨j, y, z, hij, hrun, hy, hz, hlong⟩
    have hj : j < l.length + 1 := by
      have := lt_of_getElem? hz
      rwa [List.length_append, List.length_singleton] at this
    by_cases hlast : j = l.length
    · rw [hlast, List.getElem?_concat_length] at hz
      cases hz
      rw [List.getElem?_append_left (by omega)] at hy
      obtain ⟨w, hw, hok⟩ := hrun.ok j (by omega) (Nat.le_refl _)
      rw [hlast, List.getElem?_concat_length] at hw
      cases hw
      refine .inr ⟨hok, ⟨by omega, hrun.pos, (failsAt_concat (by omega)).mp hrun.after,
        fun n h₁ h₂ => ?_⟩, y, hy, hlong⟩
      exact (okAt_concat (by omega)).mp (hrun.ok n h₁ (by omega))
    · rw [List.getElem?_append_left (by omega)] at hy hz
      exact .inl ⟨j, y, z, hij, (OkRun.concat_iff (by omega) (by omega)).mp hrun, hy, hz, hlong⟩
  · rintro (⟨j, y, z, hij, hrun, hy, hz, hlong⟩ | ⟨hok, hpending, y, hy, hlong⟩)
    · have hj := lt_of_getElem? hz
      refine ⟨j, y, z, hij, (OkRun.concat_iff hj (by omega)).mpr hrun, ?_, ?_, hlong⟩
      · rw [List.getElem?_append_left (by omega)]
        exact hy
      · rw [List.getElem?_append_left hj]
        exact hz
    · have hrun := ((pending_concat_ok hok).mpr (.inl hpending)).2
      rw [List.length_append, List.length_singleton, Nat.add_sub_cancel] at hrun
      refine ⟨l.length, y, x, hpending.1, hrun, ?_, List.getElem?_concat_length, hlong⟩
      rw [List.getElem?_append_left hpending.1]
      exact hy

/-- After a failure the last sample failed, or a run is going on. -/
theorem fails_or_pending (h : ∃ y ∈ l, y.2.ok = false) :
    failsAt l (l.length - 1) ∨ ∃ i, Pending l i := by
  induction l using List.reverseRecOn with
  | nil =>
    obtain ⟨y, hy, -⟩ := h
    exact absurd hy List.not_mem_nil
  | append_singleton l x ih =>
    rw [List.length_append, List.length_singleton, Nat.add_sub_cancel]
    cases hx : x.2.ok with
    | false => exact .inl ⟨x, List.getElem?_concat_length, hx⟩
    | true =>
      obtain ⟨y, hy, hfail⟩ := h
      have hmem : y ∈ l := by
        rcases List.mem_append.mp hy with hy | hy
        · exact hy
        · rw [List.mem_singleton.mp hy, hx] at hfail
          cases hfail
      rcases ih ⟨y, hmem, hfail⟩ with hlast | ⟨i, hpending⟩
      · refine .inr ⟨l.length, (pending_concat_ok hx).mpr (.inr ⟨rfl, ?_, hlast⟩)⟩
        exact List.length_pos_of_mem hmem
      · exact .inr ⟨i, (pending_concat_ok hx).mpr (.inl hpending)⟩

/-- The pending run starts after every run that is over. -/
theorem Pending.le_of_lasts (hi : Pending l i) (hj : Lasts settleMs l j) : j ≤ i := by
  obtain ⟨n, y, z, -, hrun, hy, -, -⟩ := hj
  by_contra hlt
  have hjlt := lt_of_getElem? hy
  exact not_okAt_of_failsAt hrun.after (hi.2.ok (j - 1) (by omega) (by omega))

theorem exists_recoversAt_iff : (∃ t, RecoversAt settleMs l t) ↔ ∃ i, Lasts settleMs l i := by
  constructor
  · rintro ⟨t, i, y, hlasts, -⟩
    exact ⟨i, hlasts⟩
  · intro h
    classical
    obtain ⟨j, y, z, hij, hrun, hy, hz, hlong⟩ := Nat.find_spec h
    exact ⟨y.1, Nat.find h, y, ⟨j, y, z, hij, hrun, hy, hz, hlong⟩,
      fun i' hi' => Nat.find_min h hi', hy, rfl⟩

/-- Once a run has lasted, later samples do not change which one was the earliest. -/
theorem recoversAt_concat_of_lasts (h : ∃ i, Lasts settleMs l i) (t : Int) :
    RecoversAt settleMs (l ++ [x]) t ↔ RecoversAt settleMs l t := by
  classical
  obtain ⟨i₀, hi₀, hmin⟩ : ∃ i, Lasts settleMs l i ∧ ∀ i' < i, ¬ Lasts settleMs l i' :=
    ⟨Nat.find h, Nat.find_spec h, fun i' hi' => Nat.find_min h hi'⟩
  obtain ⟨j, y, z, -, -, hy, -, -⟩ := id hi₀
  have hget : (l ++ [x])[i₀]? = l[i₀]? := List.getElem?_append_left (lt_of_getElem? hy)
  have hmin' : ∀ i' < i₀, ¬ Lasts settleMs (l ++ [x]) i' := by
    intro i' hi' hlasts
    rcases lasts_concat.mp hlasts with hold | ⟨-, hpending, -⟩
    · exact hmin i' hi' hold
    · exact absurd (hpending.le_of_lasts hi₀) (by omega)
  have heq : ∀ {l' : List Sample} {i : Nat} (_ : Lasts settleMs l' i₀)
      (_ : ∀ i' < i₀, ¬ Lasts settleMs l' i') (_ : Lasts settleMs l' i)
      (_ : ∀ i' < i, ¬ Lasts settleMs l' i'), i = i₀ := by
    intro l' i h₁ h₂ h₃ h₄
    rcases Nat.lt_trichotomy i i₀ with hlt | hsame | hlt
    · exact absurd h₃ (h₂ i hlt)
    · exact hsame
    · exact absurd h₁ (h₄ i₀ hlt)
  constructor
  · rintro ⟨i, w, hlasts, hleast, hw, rfl⟩
    have hi := heq (lasts_concat.mpr (.inl hi₀)) hmin' hlasts hleast
    rw [hi, hget] at hw
    exact ⟨i₀, w, hi₀, hmin, hw, rfl⟩
  · rintro ⟨i, w, hlasts, hleast, hw, rfl⟩
    have hi := heq hi₀ hmin hlasts hleast
    rw [hi] at hw
    exact ⟨i₀, w, lasts_concat.mpr (.inl hi₀), hmin', hget.trans hw, rfl⟩

/-- Before any run has lasted, only the pending one can be the first to. -/
theorem recoversAt_concat_of_none (h : ¬ ∃ i, Lasts settleMs l i) (t : Int) :
    RecoversAt settleMs (l ++ [x]) t ↔
      x.2.ok = true ∧ ∃ i y, Pending l i ∧ l[i]? = some y ∧ settleMs ≤ x.1 - y.1 ∧ y.1 = t := by
  constructor
  · rintro ⟨i, w, hlasts, -, hw, rfl⟩
    rcases lasts_concat.mp hlasts with hold | ⟨hok, hpending, y, hy, hlong⟩
    · exact absurd ⟨i, hold⟩ h
    · rw [List.getElem?_append_left hpending.1, hy] at hw
      cases hw
      exact ⟨hok, i, w, hpending, hy, hlong, rfl⟩
  · rintro ⟨hok, i, y, hpending, hy, hlong, rfl⟩
    refine ⟨i, y, lasts_concat.mpr (.inr ⟨hok, hpending, y, hy, hlong⟩), fun i' hi' hlasts => ?_,
      (List.getElem?_append_left hpending.1).trans hy, rfl⟩
    rcases lasts_concat.mp hlasts with hold | ⟨-, hpending', -⟩
    · exact h ⟨i', hold⟩
    · exact absurd (hpending'.unique hpending) (by omega)

end Samples

/-! ## The variables, from the samples -/

/-- What the variables of a path are, in terms of its samples. -/
structure PathInv (settleMs : Int) (l : List Sample) (s : PathState) : Prop where
  samples : s.samples = l.length
  failures : s.failures = (l.filter fun x => x.2.ok = false).length
  healthyAtStart : s.healthyAtStart = l.head?.map (·.2.ok)
  firstFailMs : s.firstFailMs = (l.find? fun x => x.2.ok = false).map Prod.fst
  modes : s.modes = distinct ((l.filter fun x => x.2.ok = false).map fun x => failureMode x.2)
  recovered : ∀ t, s.recoveredMs = some t ↔ RecoversAt settleMs l t
  pending : s.recoveredMs = none →
    ∀ t, s.pendingRecoveryMs = some t ↔ ∃ i y, Pending l i ∧ l[i]? = some y ∧ y.1 = t

section Inv

variable {settleMs : Int} {l : List Sample} {s : PathState} {x : Sample}

theorem pathInv_nil (settleMs : Int) (name : String) :
    PathInv settleMs [] { name := name } where
  samples := rfl
  failures := rfl
  healthyAtStart := rfl
  firstFailMs := rfl
  modes := rfl
  recovered := by
    intro t
    constructor
    · intro h
      cases h
    · rintro ⟨i, y, -, -, hy, -⟩
      cases hy
  pending := by
    intro _ t
    constructor
    · intro h
      cases h
    · rintro ⟨i, y, hpending, -⟩
      exact absurd hpending.1 (Nat.not_lt_zero _)

theorem PathInv.lasts_iff (h : PathInv settleMs l s) :
    (∃ i, Lasts settleMs l i) ↔ s.recoveredMs.isSome = true := by
  rw [← exists_recoversAt_iff, Option.isSome_iff_exists]
  exact exists_congr fun t => (h.recovered t).symm

theorem PathInv.failed_iff (h : PathInv settleMs l s) :
    s.firstFailMs.isSome = true ↔ ∃ y ∈ l, y.2.ok = false := by
  rw [h.firstFailMs, Option.isSome_map, List.find?_isSome]
  simp only [decide_eq_true_eq]

/-- A path without a failure has no pending run. -/
theorem PathInv.not_pending (h : PathInv settleMs l s) (hfirst : s.firstFailMs = none) (i : Nat) :
    ¬ Pending l i := by
  rintro ⟨hlt, hpos, ⟨y, hy, hfail⟩, -⟩
  have hsome := h.failed_iff.mpr ⟨y, List.mem_of_getElem? hy, hfail⟩
  rw [hfirst] at hsome
  cases hsome

/-- The recovery found so far does not move. -/
theorem PathInv.recovered_concat (h : PathInv settleMs l s) (hsome : s.recoveredMs.isSome = true)
    (t : Int) : s.recoveredMs = some t ↔ RecoversAt settleMs (l ++ [x]) t :=
  (h.recovered t).trans (recoversAt_concat_of_lasts (h.lasts_iff.mpr hsome) t).symm

theorem PathInv.observe_fail (h : PathInv settleMs l s) (hfail : x.2.ok = false) :
    PathInv settleMs (l ++ [x]) (s.observe settleMs x.1 x.2) := by
  have hstate : s.observe settleMs x.1 x.2 =
      { s with
        samples := s.samples + 1
        healthyAtStart := s.healthyAtStart.or (some x.2.ok)
        failures := s.failures + 1
        pendingRecoveryMs := none
        firstFailMs := s.firstFailMs.or (some x.1)
        modes := if failureMode x.2 ∈ s.modes then s.modes else s.modes ++ [failureMode x.2] } := by
    unfold PathState.observe
    exact if_pos hfail
  have hfilter : (l ++ [x]).filter (fun y => y.2.ok = false) =
      l.filter (fun y => y.2.ok = false) ++ [x] := by
    rw [List.filter_append]
    simp [hfail]
  rw [hstate]
  refine ⟨?_, ?_, ?_, ?_, ?_, fun t => ?_, fun hnone t => ?_⟩
  · show s.samples + 1 = (l ++ [x]).length
    rw [h.samples, List.length_append]
    rfl
  · show s.failures + 1 = _
    rw [h.failures, hfilter, List.length_append]
    rfl
  · show s.healthyAtStart.or (some x.2.ok) = _
    rw [h.healthyAtStart]
    cases l <;> rfl
  · show s.firstFailMs.or (some x.1) = _
    rw [h.firstFailMs, List.find?_append]
    cases l.find? fun y => y.2.ok = false with
    | none => simp [hfail]
    | some y => rfl
  · show (if failureMode x.2 ∈ s.modes then s.modes else s.modes ++ [failureMode x.2]) = _
    rw [hfilter, List.map_append, List.map_singleton, distinct_concat, h.modes]
    by_cases hseen : failureMode x.2 ∈ (l.filter fun y => y.2.ok = false).map fun x => failureMode x.2
    · rw [if_pos hseen, if_pos (mem_distinct.mpr hseen)]
    · rw [if_neg hseen, if_neg (mt mem_distinct.mp hseen)]
  · show s.recoveredMs = some t ↔ _
    cases hrec : s.recoveredMs with
    | some r =>
      rw [← hrec]
      exact h.recovered_concat (by rw [hrec]; rfl) t
    | none =>
      have hnot : ¬ ∃ i, Lasts settleMs l i := by
        rw [h.lasts_iff, hrec]
        decide
      rw [recoversAt_concat_of_none hnot, hfail]
      simp
  · constructor
    · intro hsome
      cases hsome
    · rintro ⟨i, y, hpending, -⟩
      exact absurd hpending (not_pending_concat_fail hfail)

/-- What a good sample leaves as a bad one would, whatever it does to the window. -/
theorem PathInv.observe_ok (h : PathInv settleMs l s) (hok : x.2.ok = true) {s' : PathState}
    (hsamples : s'.samples = s.samples + 1) (hfailures : s'.failures = s.failures)
    (hhealthy : s'.healthyAtStart = s.healthyAtStart.or (some x.2.ok))
    (hfirst : s'.firstFailMs = s.firstFailMs) (hmodes : s'.modes = s.modes)
    (hrecovered : ∀ t, s'.recoveredMs = some t ↔ RecoversAt settleMs (l ++ [x]) t)
    (hpending : s'.recoveredMs = none → ∀ t, s'.pendingRecoveryMs = some t ↔
      ∃ i y, Pending (l ++ [x]) i ∧ (l ++ [x])[i]? = some y ∧ y.1 = t) :
    PathInv settleMs (l ++ [x]) s' := by
  have hfilter : (l ++ [x]).filter (fun y => y.2.ok = false) = l.filter fun y => y.2.ok = false := by
    rw [List.filter_append]
    simp [hok]
  refine ⟨?_, ?_, ?_, ?_, ?_, hrecovered, hpending⟩
  · rw [hsamples, h.samples, List.length_append]
    rfl
  · rw [hfailures, h.failures, hfilter]
  · rw [hhealthy, h.healthyAtStart]
    cases l <;> rfl
  · rw [hfirst, h.firstFailMs, List.find?_append]
    cases l.find? fun y => y.2.ok = false with
    | none => simp [hok]
    | some y => rfl
  · rw [hmodes, h.modes, hfilter]

/-- A good sample goes on with the pending run. -/
theorem pending_going_on {i : Nat} {y : Sample} (hok : x.2.ok = true) (hi : Pending l i)
    (hy : l[i]? = some y) (t : Int) : y.1 = t ↔
      ∃ i' y', Pending (l ++ [x]) i' ∧ (l ++ [x])[i']? = some y' ∧ y'.1 = t := by
  have hi' : Pending (l ++ [x]) i := (pending_concat_ok hok).mpr (.inl hi)
  have hy' : (l ++ [x])[i]? = some y := (List.getElem?_append_left hi.1).trans hy
  constructor
  · exact fun ht => ⟨i, y, hi', hy', ht⟩
  · rintro ⟨j, z, hj, hz, ht⟩
    rw [hj.unique hi', hy'] at hz
    rw [Option.some.inj hz]
    exact ht

/-- No failure so far: there is nothing to recover from. -/
theorem PathInv.observe_ok_first (h : PathInv settleMs l s) (hok : x.2.ok = true)
    (hfirst : s.firstFailMs = none) : PathInv settleMs (l ++ [x]) (s.observe settleMs x.1 x.2) := by
  have hnorun : ¬ ∃ i, Lasts settleMs l i := by
    rintro ⟨i, j, y, z, -, ⟨-, ⟨w, hw, hfail⟩, -⟩, -⟩
    have hsome := h.failed_iff.mpr ⟨w, List.mem_of_getElem? hw, hfail⟩
    rw [hfirst] at hsome
    cases hsome
  have hnone : s.recoveredMs = none := by
    cases hrec : s.recoveredMs with
    | none => rfl
    | some t => exact absurd (h.lasts_iff.mpr (by rw [hrec]; rfl)) hnorun
  unfold PathState.observe
  dsimp only
  rw [if_neg (by rw [hok]; decide), hfirst, if_neg (by simp)]
  refine h.observe_ok hok rfl rfl rfl hfirst.symm rfl (fun t => ?_) fun _ t => ?_
  · show s.recoveredMs = some t ↔ _
    rw [hnone, recoversAt_concat_of_none hnorun]
    constructor
    · intro hsome
      cases hsome
    · rintro ⟨-, i, y, hpending, -⟩
      exact absurd hpending (h.not_pending hfirst i)
  · show s.pendingRecoveryMs = some t ↔ _
    constructor
    · intro hsome
      obtain ⟨i, y, hpending, -⟩ := (h.pending hnone t).mp hsome
      exact absurd hpending (h.not_pending hfirst i)
    · rintro ⟨i, y, hpending, -⟩
      rcases (pending_concat_ok hok).mp hpending with hold | ⟨-, -, w, hw, hfail⟩
      · exact absurd hold (h.not_pending hfirst i)
      · have hsome := h.failed_iff.mpr ⟨w, List.mem_of_getElem? hw, hfail⟩
        rw [hfirst] at hsome
        cases hsome

/-- The first good sample after a failure opens a run. -/
theorem PathInv.observe_ok_opens {first : Int} (h : PathInv settleMs l s) (hok : x.2.ok = true)
    (hfirst : s.firstFailMs = some first) (hrec : s.recoveredMs = none)
    (hp : s.pendingRecoveryMs = none) :
    PathInv settleMs (l ++ [x]) (s.observe settleMs x.1 x.2) := by
  have hnorun : ¬ ∃ i, Lasts settleMs l i := by
    rw [h.lasts_iff, hrec]
    decide
  have hnopending : ∀ i, ¬ Pending l i := by
    intro i hi
    obtain ⟨y, hy⟩ : ∃ y, l[i]? = some y := ⟨_, List.getElem?_eq_getElem hi.1⟩
    have hsome := (h.pending hrec y.1).mpr ⟨i, y, hi, hy, rfl⟩
    rw [hp] at hsome
    cases hsome
  have hmem := h.failed_iff.mp (by rw [hfirst]; rfl)
  have hlast : failsAt l (l.length - 1) := by
    rcases fails_or_pending hmem with hlast | ⟨i, hi⟩
    · exact hlast
    · exact absurd hi (hnopending i)
  have hpos : 0 < l.length := by
    obtain ⟨y, hy, -⟩ := hmem
    exact List.length_pos_of_mem hy
  unfold PathState.observe
  dsimp only
  rw [if_neg (by rw [hok]; decide), hfirst, hrec, hp, if_pos (by simp)]
  refine h.observe_ok hok rfl rfl rfl hfirst.symm rfl (fun t => ?_) fun _ t => ?_
  · show none = some t ↔ _
    rw [recoversAt_concat_of_none hnorun]
    constructor
    · intro hsome
      cases hsome
    · rintro ⟨-, i, y, hpending, -⟩
      exact absurd hpending (hnopending i)
  · show some x.1 = some t ↔ _
    constructor
    · rintro ⟨⟩
      exact ⟨l.length, x, (pending_concat_ok hok).mpr (.inr ⟨rfl, hpos, hlast⟩),
        List.getElem?_concat_length, rfl⟩
    · rintro ⟨i, y, hpending, hy, rfl⟩
      rcases (pending_concat_ok hok).mp hpending with hold | ⟨rfl, -, -⟩
      · exact absurd hold (hnopending i)
      · rw [List.getElem?_concat_length] at hy
        rw [Option.some.inj hy]

/-- A good sample of the pending run ends the window when the run lasts. -/
theorem PathInv.observe_ok_pending {first pending : Int} (h : PathInv settleMs l s)
    (hok : x.2.ok = true) (hfirst : s.firstFailMs = some first) (hrec : s.recoveredMs = none)
    (hp : s.pendingRecoveryMs = some pending) :
    PathInv settleMs (l ++ [x]) (s.observe settleMs x.1 x.2) := by
  have hnorun : ¬ ∃ i, Lasts settleMs l i := by
    rw [h.lasts_iff, hrec]
    decide
  obtain ⟨i, y, hi, hy, rfl⟩ := (h.pending hrec pending).mp hp
  have hrecovers : ∀ t, RecoversAt settleMs (l ++ [x]) t ↔ settleMs ≤ x.1 - y.1 ∧ y.1 = t := by
    intro t
    rw [recoversAt_concat_of_none hnorun]
    constructor
    · rintro ⟨-, j, z, hj, hz, hlong, ht⟩
      rw [hj.unique hi, hy] at hz
      cases hz
      exact ⟨hlong, ht⟩
    · rintro ⟨hlong, ht⟩
      exact ⟨hok, i, y, hi, hy, hlong, ht⟩
  unfold PathState.observe
  dsimp only
  rw [if_neg (by rw [hok]; decide), hfirst, hrec, hp, if_pos (by simp)]
  dsimp only
  by_cases hlong : settleMs ≤ x.1 - y.1
  · rw [if_pos hlong]
    refine h.observe_ok hok rfl rfl rfl hfirst.symm rfl (fun t => ?_) fun hnone => ?_
    · show some y.1 = some t ↔ _
      rw [hrecovers t, Option.some.injEq]
      exact ⟨fun ht => ⟨hlong, ht⟩, fun ht => ht.2⟩
    · cases hnone
  · rw [if_neg hlong]
    refine h.observe_ok hok rfl rfl rfl hfirst.symm rfl (fun t => ?_) fun _ t => ?_
    · show none = some t ↔ _
      rw [hrecovers t]
      constructor
      · intro hsome
        cases hsome
      · exact fun ht => absurd ht.1 hlong
    · show some y.1 = some t ↔ _
      rw [Option.some.injEq]
      exact pending_going_on hok hi hy t

theorem PathInv.observe (h : PathInv settleMs l s) (x : Sample) :
    PathInv settleMs (l ++ [x]) (s.observe settleMs x.1 x.2) := by
  cases hok : x.2.ok with
  | false => exact h.observe_fail hok
  | true =>
    cases hfirst : s.firstFailMs with
    | none => exact h.observe_ok_first hok hfirst
    | some first =>
      cases hrec : s.recoveredMs with
      | none =>
        cases hp : s.pendingRecoveryMs with
        | none => exact h.observe_ok_opens hok hfirst hrec hp
        | some pending => exact h.observe_ok_pending hok hfirst hrec hp
      | some r =>
        -- the window is closed already
        unfold PathState.observe
        dsimp only
        rw [if_neg (by rw [hok]; decide), hfirst, hrec, if_neg (by simp)]
        refine h.observe_ok hok rfl rfl rfl hfirst.symm rfl (fun t => ?_) fun hnone => ?_
        · show some r = some t ↔ _
          rw [← hrec]
          exact h.recovered_concat (by rw [hrec]; rfl) t
        · cases hnone

/-- The variables of a path say of its samples what they should. -/
theorem pathInv_after (settleMs : Int) (name : String) (l : List Sample) :
    PathInv settleMs l (pathAfter settleMs name l) := by
  induction l using List.reverseRecOn with
  | nil => exact pathInv_nil settleMs name
  | append_singleton l x ih =>
    rw [pathAfter_concat]
    exact ih.observe x

end Inv

/-! ## The window -/

/-- Of samples whose times do not go back, the run that recovers starts no earlier
than the first failure. -/
theorem RecoversAt.firstFail_le {settleMs : Int} {l : List Sample} {t first : Int}
    (hmono : l.Pairwise fun x y => x.1 ≤ y.1) (h : RecoversAt settleMs l t)
    (hfirst : (l.find? fun x => x.2.ok = false).map Prod.fst = some first) : first ≤ t := by
  obtain ⟨i, x, ⟨j, y, z, -, ⟨hpos, ⟨w, hw, hfail⟩, -⟩, -⟩, -, hx, rfl⟩ := h
  obtain ⟨v, hv, rfl⟩ := Option.map_eq_some_iff.mp hfirst
  have hvw : v.1 ≤ w.1 := by
    obtain ⟨hvfail, before, after, hsplit, hbefore⟩ := List.find?_eq_some_iff_append.mp hv
    rw [hsplit] at hw hmono
    rcases List.mem_append.mp (List.mem_of_getElem? hw) with hmem | hmem
    · have := hbefore w hmem
      rw [hfail] at this
      simp at this
    · rcases List.mem_cons.mp hmem with rfl | hmem
      · exact Int.le_refl _
      · exact (List.pairwise_cons.mp (List.pairwise_append.mp hmono).2.1).1 w hmem
  refine Int.le_trans hvw ?_
  have hwx := List.pairwise_iff_getElem.mp hmono (i - 1) i (lt_of_getElem? hw) (lt_of_getElem? hx)
    (by omega)
  rw [(List.getElem?_eq_some_iff.mp hw).2, (List.getElem?_eq_some_iff.mp hx).2] at hwx
  exact hwx

/-- For every trace of one path, taken at times that do not go back: the first
failure is the first failing sample; the recovery is the start of the earliest
run of good samples after a failure that lasts `settleMs`, and there is none when
no run does; the counts are those of the samples; the modes are the distinct ones
seen; and the window is never negative. -/
theorem window_of_trace (settleMs endMs : Int) (name : String) (pauses : List Pause)
    (l : List Sample) (hmono : l.Pairwise fun x y => x.1 ≤ y.1) :
    let w := finalise (pathAfter settleMs name l) pauses endMs
    w.firstFailMs = (l.find? fun x => x.2.ok = false).map Prod.fst ∧
      (∀ t, w.recoveredMs = some t ↔ RecoversAt settleMs l t) ∧
      (w.recoveredMs = none ↔ ¬ ∃ i, Lasts settleMs l i) ∧
      w.samples = l.length ∧
      w.failures = (l.filter fun x => x.2.ok = false).length ∧
      w.modes = distinct ((l.filter fun x => x.2.ok = false).map fun x => failureMode x.2) ∧
      ∀ ms, w.windowMs = some ms → 0 ≤ ms ∧
        ∃ first t, w.firstFailMs = some first ∧ w.recoveredMs = some t ∧ ms = t - first := by
  intro w
  have h := pathInv_after settleMs name l
  refine ⟨h.firstFailMs, h.recovered, ?_, h.samples, h.failures, h.modes, fun ms hms => ?_⟩
  · rw [h.lasts_iff, Option.not_isSome_iff_eq_none]
    rfl
  · have hwindow : (match (pathAfter settleMs name l).firstFailMs,
        (pathAfter settleMs name l).recoveredMs with
      | some first, some recovered => some (recovered - first)
      | _, _ => none) = some ms := hms
    cases hfirst : (pathAfter settleMs name l).firstFailMs with
    | none =>
      rw [hfirst] at hwindow
      cases hwindow
    | some first =>
      cases hrec : (pathAfter settleMs name l).recoveredMs with
      | none =>
        rw [hfirst, hrec] at hwindow
        cases hwindow
      | some t =>
        rw [hfirst, hrec] at hwindow
        have hle : first ≤ t := by
          refine RecoversAt.firstFail_le hmono ((h.recovered t).mp hrec) ?_
          rw [← h.firstFailMs]
          exact hfirst
        have hms' : t - first = ms := Option.some.inj hwindow
        exact ⟨by omega, first, t, hfirst, hrec, hms'.symm⟩

/-- A path that is down for one sample and up for two. -/
theorem window_of_trace_flap :
    (finalise (pathAfter 20 "rest" [(0, ⟨true, none⟩), (10, ⟨false, some (units "timeout expired")⟩),
      (20, ⟨true, none⟩), (45, ⟨true, none⟩)]) [] 50).firstFailMs = some 10 ∧
    (finalise (pathAfter 20 "rest" [(0, ⟨true, none⟩), (10, ⟨false, some (units "timeout expired")⟩),
      (20, ⟨true, none⟩), (45, ⟨true, none⟩)]) [] 50).windowMs = some 10 :=
  ⟨(window_of_trace 20 50 "rest" [] _ (by decide)).1, by decide⟩

end SupabaseLab.Harness
