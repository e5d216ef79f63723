/-
  ClientRetries/Deadline.lean --- what the deadline of a call ends.

  Source: `hedgedGet` of experiments/client-retries/lib/policy.ts, and the doc of
  `HedgeOpts.timeoutMs`: the deadline is for the whole call, all attempts included.

  The retry of a failed attempt asks `deadline.aborted` before it launches; the hedge
  timer does not.  When the timer is the later of the two and the first attempt has
  not reacted to its abort by then, the timer starts a second attempt, and the
  listener that is to abort its signal is attached to a signal that has fired already.
-/
import SupabaseLab.ClientRetries.Hedge

set_option autoImplicit false

namespace SupabaseLab.ClientRetries

open Library

variable {α : Type}

/-! ## What is promised, and when it is kept -/

/-- The step starts no attempt when the deadline has passed. -/
def StartsInTime (s : HedgedCall α) (e : HedgeEvent α) : Prop :=
  s.deadlineAborted = true → ∀ s', hedgeStep s e = some s' → s'.started = s.started

/-- Once the deadline has passed, the signals of all attempts there are are aborted. -/
def SignalsAborted (s : HedgedCall α) : Prop :=
  s.deadlineAborted = true → ∀ aborted ∈ s.controllers, aborted = true

/-- No attempt is started after the deadline, and from the deadline on every signal is
aborted, at every moment of the run. -/
structure DeadlineKept (es : List (HedgeEvent α)) : Prop where
  starts : AlongRun hedgeStep StartsInTime hedgedGet es
  aborted : ∀ before after s, es = before ++ after → runEvents hedgeStep hedgedGet before = some s →
    SignalsAborted s

/-- When the hedge timer fires after the deadline, the first attempt has settled before it. -/
def HedgesInTime (es : List (HedgeEvent α)) : Prop :=
  ∀ before after, es = before ++ .hedgeTimer :: after → .deadline ∈ before →
    ∃ settlement, .settles 1 settlement ∈ before

theorem HedgesInTime.init {es es' : List (HedgeEvent α)} (h : HedgesInTime (es ++ es')) :
    HedgesInTime es := by
  intro before after hsplit hdeadline
  refine h before (after ++ es') ?_ hdeadline
  rw [hsplit, List.append_assoc, List.cons_append]

/-! ## The call and what has happened to it -/

/-- What the events so far say of a call. -/
structure Told (es : List (HedgeEvent α)) (s : HedgedCall α) : Prop where
  deadline : s.deadlineAborted = true ↔ .deadline ∈ es
  /-- the first attempt is over: the call is, or the extra attempt has been started -/
  settled : (∃ settlement, .settles 1 settlement ∈ es) → s.done = true ∨ 2 ≤ s.started
  /-- neither the first attempt nor the timer has come -/
  waiting : (∀ settlement, .settles 1 settlement ∉ es) → s.hedgeTimer = true →
    s.done = false ∧ s.started = 1 ∧ s.last = none

section Told

variable {s s' : HedgedCall α} {w : Attempt α} {e : HedgeEvent α} {es : List (HedgeEvent α)}

@[simp] theorem finish_deadlineAborted : (finish w s).deadlineAborted = s.deadlineAborted := by
  unfold finish
  split
  · rfl
  · rfl

@[simp] theorem finish_started : (finish w s).started = s.started := by
  unfold finish
  split
  · rfl
  · rfl

@[simp] theorem launch_deadlineAborted : (launch s).deadlineAborted = s.deadlineAborted := by
  unfold launch
  split
  · rfl
  · rfl

theorem finish_done : (finish w s).done = true := by
  unfold finish
  split
  · assumption
  · rfl

theorem le_launch_started : s.started ≤ (launch s).started := by
  unfold launch
  split
  · exact Nat.le_refl _
  · exact Nat.le_succ _

@[simp] theorem launch_done : (launch s).done = s.done := by
  unfold launch
  split
  · rfl
  · rfl

@[simp] theorem onSettled_deadlineAborted :
    (onSettled w s).deadlineAborted = s.deadlineAborted := by
  obtain ⟨heq, -⟩ | ⟨heq, -⟩ | ⟨heq, -⟩ := onSettled_cases w s
  · rw [heq, finish_deadlineAborted]
    rfl
  · rw [heq, launch_deadlineAborted]
    rfl
  · rw [heq]
    rfl

/-- An attempt that settles after the deadline starts no other. -/
theorem onSettled_started (h : s.deadlineAborted = true) : (onSettled w s).started = s.started := by
  obtain ⟨heq, -⟩ | ⟨-, -, -, hbefore⟩ | ⟨heq, -⟩ := onSettled_cases w s
  · rw [heq, finish_started]
    rfl
  · rw [h] at hbefore
    cases hbefore
  · rw [heq]
    rfl

theorem onSettled_keeps (h : s.done = true ∨ 2 ≤ s.started) :
    (onSettled w s).done = true ∨ 2 ≤ (onSettled w s).started := by
  rcases h with hdone | hboth
  · rw [onSettled_of_done hdone]
    exact .inl hdone
  · obtain ⟨heq, -⟩ | ⟨-, -, hfew, -⟩ | ⟨heq, -⟩ := onSettled_cases w s
    · rw [heq]
      exact .inl finish_done
    · omega
    · rw [heq]
      exact .inr hboth

/-- After the first attempt the call is over, or the extra attempt has been started. -/
theorem onSettled_first (h : HedgeInv s) (hn : w.n = 1) (hfresh : w.n ∉ s.answers.map (·.n)) :
    (onSettled w s).done = true ∨ 2 ≤ (onSettled w s).started := by
  by_cases hdone : s.done = true
  · exact onSettled_keeps (.inl hdone)
  · by_cases hboth : 2 ≤ s.started
    · exact onSettled_keeps (.inr hboth)
    · -- the first attempt is the only one, so nothing has settled yet
      have hone : s.started = 1 := by
        have := h.low
        omega
      have hnone : s.answers = [] := by
        refine List.eq_nil_iff_forall_not_mem.mpr fun x hx => hfresh ?_
        have := h.answered x hx
        rw [hn]
        exact List.mem_map.mpr ⟨x, hx, by omega⟩
      have hsettled : s.settled + 1 = s.started := by
        rw [h.settled, hnone, hone]
        rfl
      obtain ⟨heq, -⟩ | ⟨heq, -, hfew, -⟩ | ⟨-, -, -, hout⟩ := onSettled_cases w s
      · rw [heq]
        exact .inl finish_done
      · have hopen : (s.count w).done = false := Bool.eq_false_of_not_eq_true hdone
        rw [heq, launch_eq hopen hfew]
        refine .inr ?_
        show 2 ≤ s.started + 1
        omega
      · exact absurd hsettled hout

theorem finish_hedgeTimer (h : (finish w s).hedgeTimer = true) : s.hedgeTimer = true := by
  unfold finish at h
  split at h
  · exact h
  · cases h

@[simp] theorem launch_hedgeTimer : (launch s).hedgeTimer = s.hedgeTimer := by
  unfold launch
  split
  · rfl
  · rfl

theorem onSettled_hedgeTimer (h : (onSettled w s).hedgeTimer = true) : s.hedgeTimer = true := by
  obtain ⟨heq, -⟩ | ⟨heq, -⟩ | ⟨heq, -⟩ := onSettled_cases w s
  · rw [heq] at h
    exact finish_hedgeTimer (s := s.count w) h
  · rw [heq, launch_hedgeTimer] at h
    exact h
  · rw [heq] at h
    exact h

theorem told_hedgedGet : Told [] (hedgedGet : HedgedCall α) where
  deadline := ⟨fun h => Bool.noConfusion h, fun h => absurd h List.not_mem_nil⟩
  settled := fun ⟨_, h⟩ => absurd h List.not_mem_nil
  waiting := fun _ _ => ⟨rfl, rfl, rfl⟩

theorem Told.step (h : Told es s) (hinv : HedgeInv s) (hstep : hedgeStep s e = some s') :
    Told (es ++ [e]) s' := by
  have hbefore : (∀ settlement, HedgeEvent.settles 1 settlement ∉ es ++ [e]) →
      ∀ settlement, HedgeEvent.settles 1 settlement ∉ es := fun hnone settlement hmem =>
    hnone settlement (List.mem_append_left _ hmem)
  obtain ⟨n, settlement, rfl, hmay, rfl⟩ | ⟨rfl, -, rfl⟩ | ⟨rfl, -, rfl⟩ | ⟨rfl, -, hlate⟩ :=
    hedgeStep_cases hstep
  · refine ⟨?_, fun hsettled => ?_, fun hnone htimer => ?_⟩
    · rw [onSettled_deadlineAborted, h.deadline]
      simp
    · obtain ⟨settlement', hmem⟩ := hsettled
      rcases List.mem_append.mp hmem with hold | hnew
      · exact onSettled_keeps (h.settled ⟨settlement', hold⟩)
      · cases List.mem_singleton.mp hnew
        exact onSettled_first hinv rfl hmay.2.2
    · -- an attempt other than the first has settled, but the first is the only one
      have hwaiting := h.waiting (hbefore hnone) (onSettled_hedgeTimer htimer)
      have hhigh := hmay.2.1
      rw [hinv.controllers, hwaiting.2.1] at hhigh
      have hone : n = 1 := by
        have := hmay.1
        omega
      rw [hone] at hnone
      exact absurd (List.mem_append_right _ List.mem_cons_self) (hnone settlement)
  · refine ⟨?_, fun hsettled => ?_, fun _ htimer => ?_⟩
    · rw [launch_deadlineAborted, h.deadline]
      simp
    · obtain ⟨settlement, hmem⟩ := hsettled
      have hold : HedgeEvent.settles 1 settlement ∈ es := by simpa using hmem
      rcases h.settled ⟨settlement, hold⟩ with hdone | hboth
      · exact .inl (launch_done.trans hdone)
      · exact .inr (Nat.le_trans hboth (le_launch_started (s := { s with hedgeTimer := false })))
    · rw [launch_hedgeTimer] at htimer
      cases htimer
  · refine ⟨by simp, fun hsettled => ?_, fun hnone htimer => h.waiting (hbefore hnone) htimer⟩
    obtain ⟨settlement, hmem⟩ := hsettled
    have hold : HedgeEvent.settles 1 settlement ∈ es := by simpa using hmem
    exact h.settled ⟨settlement, hold⟩
  · have hmem : (∃ settlement, HedgeEvent.settles 1 settlement ∈ es ++ [.lateTimer]) →
        s.done = true ∨ 2 ≤ s.started := by
      rintro ⟨settlement, hmem⟩
      exact h.settled ⟨settlement, by simpa using hmem⟩
    rcases hlate with rfl | ⟨w, hlast, rfl⟩
    · refine ⟨?_, hmem, fun hnone htimer => h.waiting (hbefore hnone) htimer⟩
      rw [h.deadline]
      simp
    · refine ⟨?_, fun _ => .inl finish_done, fun hnone htimer => ?_⟩
      · rw [finish_deadlineAborted, h.deadline]
        simp
      · have htimer' := finish_hedgeTimer (s := { s with lateTimer := false }) htimer
        rw [(h.waiting (hbefore hnone) htimer').2.2] at hlast
        cases hlast

theorem told_run (hrun : runEvents hedgeStep hedgedGet es = some s) : Told es s := by
  have hboth := runEvents_invariant (I := fun es m => Told es m ∧ HedgeInv m)
    ⟨told_hedgedGet, hedgedGet_inv⟩
    (fun es m e m' _ hm hstep => ⟨hm.1.step hm.2 hstep, hedgeStep_inv hm.2 hstep⟩) es s hrun
  exact hboth.1

/-- A timer that comes after the deadline and before the first attempt starts another. -/
theorem late_hedge_starts (h : Told es s) (hdeadline : .deadline ∈ es)
    (hnone : ∀ settlement, .settles 1 settlement ∉ es)
    (hstep : hedgeStep s .hedgeTimer = some s') : ¬ StartsInTime s .hedgeTimer := by
  intro hstarts
  have hsame := hstarts (h.deadline.mpr hdeadline) s' hstep
  obtain ⟨_, _, hevent, -⟩ | ⟨-, htimer, rfl⟩ | ⟨hevent, -⟩ | ⟨hevent, -⟩ := hedgeStep_cases hstep
  · cases hevent
  · obtain ⟨hopen, hone, -⟩ := h.waiting hnone htimer
    have hlaunch := launch_eq (s := { s with hedgeTimer := false }) hopen (by show s.started < 2; omega)
    rw [hlaunch] at hsame
    change s.started + 1 = s.started at hsame
    omega
  · cases hevent
  · cases hevent

/-- A step of a run whose timer is in time. -/
theorem startsInTime_of (h : Told es s) (hhedges : HedgesInTime (es ++ [e])) : StartsInTime s e := by
  intro hdeadline s' hstep
  obtain ⟨n, settlement, rfl, -, rfl⟩ | ⟨rfl, -, rfl⟩ | ⟨-, hbefore, -⟩ | ⟨rfl, -, rfl | ⟨w, -, rfl⟩⟩ :=
    hedgeStep_cases hstep
  · exact onSettled_started hdeadline
  · have hover := h.settled (hhedges es [] rfl (h.deadline.mp hdeadline))
    have hlaunch : launch { s with hedgeTimer := false } = { s with hedgeTimer := false } :=
      launch_of_stop hover
    rw [hlaunch]
  · rw [hdeadline] at hbefore
    cases hbefore
  · rfl
  · exact finish_started

theorem forall_mem_abortOthers {winner : Nat} {controllers : List Bool}
    (h : ∀ aborted ∈ controllers, aborted = true) :
    ∀ aborted ∈ abortOthers winner controllers, aborted = true := by
  intro aborted hmem
  obtain ⟨i, hi, rfl⟩ := List.mem_mapIdx.mp hmem
  split
  · rfl
  · exact h _ (List.getElem_mem hi)

theorem SignalsAborted.finish (h : SignalsAborted s) : SignalsAborted (finish w s) := by
  intro hdeadline
  rw [finish_deadlineAborted] at hdeadline
  unfold ClientRetries.finish
  split
  · exact h hdeadline
  · exact forall_mem_abortOthers (h hdeadline)

/-- A step that starts no attempt after the deadline leaves no signal behind. -/
theorem SignalsAborted.step (h : SignalsAborted s) (hstarts : StartsInTime s e)
    (hstep : hedgeStep s e = some s') : SignalsAborted s' := by
  have hsame := fun hdeadline => hstarts hdeadline s' hstep
  have hlaunch : ∀ m : HedgedCall α, SignalsAborted m →
      (m.deadlineAborted = true → (launch m).started = m.started) → SignalsAborted (launch m) := by
    intro m hm hnot hdeadline
    rw [launch_deadlineAborted] at hdeadline
    have hkept := hnot hdeadline
    unfold launch at hkept ⊢
    split at hkept
    · rename_i hstop
      rw [if_pos hstop]
      exact hm hdeadline
    · change m.started + 1 = m.started at hkept
      omega
  obtain ⟨n, settlement, rfl, -, rfl⟩ | ⟨rfl, -, rfl⟩ | ⟨rfl, -, rfl⟩ | ⟨rfl, -, rfl | ⟨w, -, rfl⟩⟩ :=
    hedgeStep_cases hstep
  · have hcount : SignalsAborted (s.count ⟨n, settlement.resp⟩) := h
    obtain ⟨heq, -⟩ | ⟨heq, -⟩ | ⟨heq, -⟩ := onSettled_cases ⟨n, settlement.resp⟩ s
    · rw [heq]
      exact hcount.finish
    · rw [heq] at hsame ⊢
      exact hlaunch _ hcount hsame
    · rw [heq]
      exact hcount
  · exact hlaunch { s with hedgeTimer := false } h hsame
  · intro _ aborted hmem
    obtain ⟨_, -, rfl⟩ := List.mem_map.mp hmem
    rfl
  · exact h
  · exact SignalsAborted.finish (s := { s with lateTimer := false }) h

end Told

/-- In every order of the events, the deadline is kept exactly when the hedge timer does not
fire after it while the first attempt is still out. -/
theorem deadline_kept_iff (es : List (HedgeEvent α)) (s : HedgedCall α)
    (hrun : runEvents hedgeStep hedgedGet es = some s) : DeadlineKept es ↔ HedgesInTime es := by
  constructor
  · intro hkept before after hsplit hdeadline
    by_contra hnone
    rw [hsplit, runEvents_append] at hrun
    obtain ⟨m, hm, hafter⟩ := Option.bind_eq_some_iff.mp hrun
    obtain ⟨m', hstep, -⟩ := Option.bind_eq_some_iff.mp hafter
    exact late_hedge_starts (told_run hm) hdeadline (not_exists.mp hnone) hstep
      (hkept.starts before .hedgeTimer after m hsplit hm)
  · intro hhedges
    have hstarts : AlongRun hedgeStep StartsInTime hedgedGet es := by
      intro before e after m hsplit hm
      have hrest : HedgesInTime ((before ++ [e]) ++ after) := by
        rw [List.append_assoc, List.singleton_append, ← hsplit]
        exact hhedges
      exact startsInTime_of (told_run hm) hrest.init
    refine ⟨hstarts, fun before after m hsplit hm => ?_⟩
    have halong : AlongRun hedgeStep StartsInTime hedgedGet before := by
      intro before' e after' m' hsplit' hm'
      refine hstarts before' e (after' ++ after) m' ?_ hm'
      rw [hsplit, hsplit', List.append_assoc, List.cons_append]
    refine AlongRun.invariant (I := SignalsAborted) (fun hdeadline => ?_)
      (fun _ _ _ hstep hm => hm.step hstep) before m halong hm
    cases hdeadline

/-- The first attempt fails and is retried; the timer fires after the deadline. -/
def retriedInTimeEvents : List (HedgeEvent Nat) :=
  [.settles 1 (.rejected none "network"), .deadline, .hedgeTimer]

theorem deadline_kept_iff_retried : DeadlineKept retriedInTimeEvents := by
  refine (deadline_kept_iff retriedInTimeEvents _ rfl).mpr fun before after hsplit _ => ?_
  cases before with
  | nil => cases hsplit
  | cons e before =>
    rw [(List.cons.inj hsplit).1.symm]
    exact ⟨_, List.mem_cons_self⟩

/-- A deadline before the hedge, and a first attempt that does not react to its abort. -/
def lateHedgeEvents : List (HedgeEvent Nat) := [.deadline, .lateTimer, .hedgeTimer]

/-- The second attempt is started after the deadline, and nothing aborts it. -/
theorem deadline_not_kept : ∃ s : HedgedCall Nat,
    runEvents hedgeStep hedgedGet lateHedgeEvents = some s ∧ s.started = 2 ∧
      s.controllers = [true, false] ∧ ¬ DeadlineKept lateHedgeEvents := by
  refine ⟨_, rfl, rfl, rfl, fun hkept => ?_⟩
  have habort := hkept.aborted lateHedgeEvents [] _ (List.append_nil _).symm rfl rfl false
  exact Bool.noConfusion (habort (List.mem_cons_of_mem _ List.mem_cons_self))

end SupabaseLab.ClientRetries
