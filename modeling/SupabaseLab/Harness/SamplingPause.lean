/-
  Harness/SamplingPause.lean --- the pauses a window reports.

  The watchdog reports a jump of the clock when it wakes up late from its sleep.
  A jump before it has started, or after it has ended, while the operation goes on and
  the probes with it, is in no pause; nor is one between its last awakening and the check
  that ends it.  `UnwatchedJump` is that step.
-/
import SupabaseLab.Harness.SamplingEnd

set_option autoImplicit false

namespace SupabaseLab.Harness

open Library

/-! ## Overlaps -/

/-- One span lies inside another. -/
def Pause.Within (j p : Pause) : Prop := p.fromMs ≤ j.fromMs ∧ j.toMs ≤ p.toMs

instance (j p : Pause) : Decidable (j.Within p) := inferInstanceAs (Decidable (_ ∧ _))

/-- Spans in the order of time that do not overlap. -/
def Apart (l : List Pause) : Prop := l.Pairwise fun a b => a.toMs ≤ b.fromMs

section Overlap

variable {j p : Pause} {js ps : List Pause} {endMs : Int}

theorem overlap_nonneg : 0 ≤ overlap p 0 endMs := Int.le_max_left _ _

theorem overlap_of_le (h : endMs ≤ j.fromMs) : overlap j 0 endMs = 0 := by
  unfold overlap
  omega

/-- Spans apart from each other inside one span take no more of a window than it. -/
theorem sum_overlap_within (hapart : Apart js) (hspan : ∀ j ∈ js, j.fromMs ≤ j.toMs)
    (hwithin : ∀ j ∈ js, j.Within p) : (js.map fun j => overlap j 0 endMs).sum ≤ overlap p 0 endMs := by
  induction js generalizing p with
  | nil => exact overlap_nonneg
  | cons j js ih =>
    obtain ⟨hhead, htail⟩ := List.pairwise_cons.mp hapart
    obtain ⟨hfrom, hto⟩ := hwithin j List.mem_cons_self
    have hj := hspan j List.mem_cons_self
    have hrest : (js.map fun j => overlap j 0 endMs).sum ≤ overlap ⟨j.toMs, p.toMs⟩ 0 endMs :=
      ih htail (fun x hx => hspan x (List.mem_cons_of_mem _ hx)) fun x hx =>
        ⟨hhead x hx, (hwithin x (List.mem_cons_of_mem _ hx)).2⟩
    rw [List.map_cons, List.sum_cons]
    have hsplit : overlap j 0 endMs + overlap ⟨j.toMs, p.toMs⟩ 0 endMs ≤ overlap p 0 endMs := by
      unfold overlap
      dsimp only
      omega
    omega

/-- A span is counted with every span it lies in. -/
theorem le_sum_filter (hjs : ∀ j ∈ js, (∃ p ∈ ps, j.Within p) ∨ overlap j 0 endMs = 0) :
    (js.map fun j => overlap j 0 endMs).sum ≤
      (ps.map fun p => ((js.filter fun j => j.Within p).map fun j => overlap j 0 endMs).sum).sum := by
  induction js with
  | nil => simp
  | cons j js ih =>
    have hrest := ih fun x hx => hjs x (List.mem_cons_of_mem _ hx)
    have hadd : (ps.map fun p => (((j :: js).filter fun j => j.Within p).map fun j =>
        overlap j 0 endMs).sum).sum =
        (ps.map fun p => if j.Within p then overlap j 0 endMs else 0).sum +
        (ps.map fun p => ((js.filter fun j => j.Within p).map fun j => overlap j 0 endMs).sum).sum := by
      rw [← List.sum_map_add]
      congr 1
      refine List.map_congr_left fun p _ => ?_
      by_cases h : j.Within p
      · simp [h]
      · simp [h]
    have hterm : overlap j 0 endMs ≤ (ps.map fun p => if j.Within p then overlap j 0 endMs else 0).sum := by
      have hnonneg : ∀ x ∈ ps.map (fun p => if j.Within p then overlap j 0 endMs else 0), 0 ≤ x := by
        intro x hx
        obtain ⟨p, -, rfl⟩ := List.mem_map.mp hx
        split
        · exact overlap_nonneg
        · exact Int.le_refl _
      rcases hjs j List.mem_cons_self with ⟨p, hp, hwithin⟩ | hzero
      · refine List.single_le_sum hnonneg _ (List.mem_map.mpr ⟨p, hp, if_pos hwithin⟩)
      · have hsum := List.sum_nonneg hnonneg
        rw [hzero] at hsum ⊢
        exact hsum
    rw [List.map_cons, List.sum_cons, hadd]
    omega

/-- Jumps that the pauses cover, or that are outside the window, take no more of
it than the pauses. -/
theorem sum_overlap_le (hapart : Apart js) (hspan : ∀ j ∈ js, j.fromMs ≤ j.toMs)
    (hjs : ∀ j ∈ js, (∃ p ∈ ps, j.Within p) ∨ overlap j 0 endMs = 0) :
    (js.map fun j => overlap j 0 endMs).sum ≤ (ps.map fun p => overlap p 0 endMs).sum := by
  refine Int.le_trans (le_sum_filter hjs) (List.sum_le_sum fun p _ => ?_)
  refine sum_overlap_within (hapart.filter _) (fun j hj => hspan j (List.mem_filter.mp hj).1)
    fun j hj => ?_
  exact of_decide_eq_true (List.mem_filter.mp hj).2

end Overlap

namespace Sampling

/-! ## Times do not run ahead -/

/-- Everything a path remembers was before `now`. -/
structure PathBefore (now : Int) (p : PathState) : Prop where
  recovered : ∀ r, p.recoveredMs = some r → r ≤ now
  pending : ∀ r, p.pendingRecoveryMs = some r → r ≤ now

section Before

variable {opts : SampleOptions} {s : State} {e : Event} {now settleMs atMs : Int} {p : PathState}
  {o : ProbeOutcome}

theorem PathBefore.mono {now' : Int} (h : PathBefore now p) (hle : now ≤ now') : PathBefore now' p :=
  ⟨fun r hr => Int.le_trans (h.recovered r hr) hle, fun r hr => Int.le_trans (h.pending r hr) hle⟩

theorem PathBefore.observe (h : PathBefore now p) (hat : atMs ≤ now) :
    PathBefore now (p.observe settleMs atMs o) := by
  obtain ⟨hrecovered, hpending⟩ := h
  unfold PathState.observe
  dsimp only
  split
  · exact ⟨hrecovered, fun r hr => nomatch hr⟩
  · split
    · split
      · refine ⟨hrecovered, fun r hr => ?_⟩
        cases hr
        exact hat
      · rename_i pending hp
        split
        · refine ⟨fun r hr => ?_, hpending⟩
          cases hr
          exact hpending _ hp
        · exact ⟨hrecovered, hpending⟩
    · exact ⟨hrecovered, hpending⟩

/-- A recovery that was believed stays. -/
theorem recovered_observe {r : Int} (h : p.recoveredMs = some r) :
    (p.observe settleMs atMs o).recoveredMs = some r := by
  unfold PathState.observe
  dsimp only
  split
  · exact h
  · split
    · rename_i hcond
      rw [h] at hcond
      simp at hcond
    · exact h

/-- Every path had recovered by then. -/
def State.RecoveredBy (s : State) (t : Int) : Prop :=
  ∀ p ∈ s.paths, ∃ r, p.recoveredMs = some r ∧ r ≤ t

theorem recoveredBy_setLoop {i : Nat} {loop loop' : Loop} {t : Int}
    (hget : s.loops[i]? = some loop) (hloop : loopStep opts s loop e = some loop')
    (h : s.RecoveredBy t) : (s.setLoop i loop').RecoveredBy t := by
  intro p hp
  rw [paths_setLoop] at hp
  rcases List.mem_or_eq_of_mem_set hp with hold | rfl
  · exact h p hold
  · obtain ⟨r, hr, hle⟩ := h _ (List.mem_of_getElem? (paths_getElem? hget))
    refine ⟨r, ?_, hle⟩
    rcases loopStep_path hloop with heq | ⟨n, j, o, -, -, heq⟩
    · rw [heq]
      exact hr
    · rw [heq]
      exact recovered_observe hr

end Before

/-! ## Jumps the watchdog does not see -/

/-- The watchdog has woken up at `lastWall`, or sleeps since. -/
def Watch.WatchesFrom (w : Watch) (lastWall : Int) : Prop :=
  w = .checking lastWall ∨ w = .sleeping lastWall

/-- While some path has not recovered and the windows are still to come, a jump longer than
the slack that the watchdog will not see: it has not started, or has ended, or it ends with
the jump after its last awakening. -/
def UnwatchedJump (opts : SampleOptions) (s : State) (e : Event) : Prop :=
  (∀ n ws, s.main ≠ .returned n ws) ∧ ¬ s.main.threw ∧
    ((∃ ms, e = .advance ms ∧ PAUSE_SLACK_MS + opts.intervalMs < ms ∧
        (∀ lastWall, ¬ s.watch.WatchesFrom lastWall) ∧ ¬ s.RecoveredBy s.atMs) ∨
      ∃ lastWall, e = .watchCheck ∧ s.watch = .checking lastWall ∧
        (s.goesOn opts && !s.downAndBack) = false ∧
        ∃ j ∈ s.jumps, lastWall - s.t0 ≤ j.fromMs ∧ ¬ s.RecoveredBy j.fromMs)

/-- No step of the run is one. -/
def NoUnwatchedJump (opts : SampleOptions) (t0 : Int) (names : List String) (events : List Event) :
    Prop :=
  ∀ before e after m, events = before ++ e :: after → run opts t0 names before = some m →
    ¬ UnwatchedJump opts m e

/-- Where a jump is accounted for. -/
inductive Accounted (opts : SampleOptions) (s : State) (j : Pause) : Prop where
  | reported (p : Pause) (hp : p ∈ s.pauses) (hwithin : j.Within p)
  /-- The watchdog has not looked at the clock since, and reports it if it goes on. -/
  | watched (lastWall : Int) (hwatch : s.watch.WatchesFrom lastWall)
      (hfrom : lastWall - s.t0 ≤ j.fromMs) (hto : j.toMs ≤ s.atMs)
      (hlong : PAUSE_SLACK_MS + opts.intervalMs < j.toMs - j.fromMs)
  | recovered (h : s.RecoveredBy j.fromMs)
  | outside (n : Int) (ws : List PathWindow) (hmain : s.main = .returned n ws)
      (hws : ∀ w ∈ ws, w.recoveredMs.getD n ≤ j.fromMs)
  | threw (h : s.main.threw)

structure PauseInv (opts : SampleOptions) (s : State) : Prop where
  clock : s.t0 ≤ s.now
  before : ∀ p ∈ s.paths, PathBefore s.atMs p
  probing : ∀ loop ∈ s.loops, ∀ atMs, loop.phase = .probing atMs → atMs ≤ s.atMs
  lastWall : ∀ lastWall, s.watch.WatchesFrom lastWall →
    s.t0 ≤ lastWall ∧ lastWall ≤ s.now ∧ ∀ p ∈ s.pauses, p.toMs ≤ lastWall - s.t0
  unstarted : s.watch = .unstarted → s.pauses = []
  starting : s.main = .starting → s.watch = .unstarted
  pauses : Apart s.pauses
  apart : Apart s.jumps
  span : ∀ j ∈ s.jumps, j.fromMs ≤ j.toMs ∧ j.toMs ≤ s.atMs
  accounted : ∀ j ∈ s.jumps, Accounted opts s j

section Invariant

variable {opts : SampleOptions} {s s' : State} {e : Event} {events : List Event} {t0 : Int}
  {names : List String}

theorem pauseInv_init (t0 : Int) (names : List String) : PauseInv opts (init t0 names) where
  clock := Int.le_refl _
  before := by
    intro p hp
    obtain ⟨loop, hloop, rfl⟩ := List.mem_map.mp hp
    obtain ⟨name, -, rfl⟩ := List.mem_map.mp hloop
    refine ⟨fun r hr => ?_, fun r hr => ?_⟩
    · cases hr
    · cases hr
  probing := by
    intro loop hloop atMs hphase
    obtain ⟨name, -, rfl⟩ := List.mem_map.mp hloop
    cases hphase
  lastWall := by
    rintro lastWall (h | h)
    · cases h
    · cases h
  unstarted := fun _ => rfl
  starting := fun _ => rfl
  pauses := List.Pairwise.nil
  apart := List.Pairwise.nil
  span := fun j hj => absurd hj List.not_mem_nil
  accounted := fun j hj => absurd hj List.not_mem_nil

/-- A jump stays accounted for when nothing it rests on changes. -/
theorem Accounted.frame {j : Pause} (h : Accounted opts s j) (hpauses : ∀ p ∈ s.pauses, p ∈ s'.pauses)
    (hwatch : ∀ lastWall, s.watch.WatchesFrom lastWall → s'.watch.WatchesFrom lastWall)
    (ht0 : s'.t0 = s.t0) (hat : s.atMs ≤ s'.atMs) (hrecovered : ∀ t, s.RecoveredBy t → s'.RecoveredBy t)
    (hmain : ∀ n ws, s.main = .returned n ws → s'.main = .returned n ws)
    (hthrew : s.main.threw → s'.main.threw) : Accounted opts s' j := by
  cases h with
  | reported p hp hwithin => exact .reported p (hpauses p hp) hwithin
  | watched lastWall hw hfrom hto hlong =>
    exact .watched lastWall (hwatch _ hw) (ht0 ▸ hfrom) (Int.le_trans hto hat) hlong
  | recovered hr => exact .recovered (hrecovered _ hr)
  | outside n ws hm hws => exact .outside n ws (hmain n ws hm) hws
  | threw ht => exact .threw (hthrew ht)

/-- Time goes by. -/
theorem PauseInv.later (h : PauseInv opts s) (ms : Nat) :
    PauseInv opts { s with now := s.now + ms } := by
  have hat : s.atMs ≤ s.now + ms - s.t0 := by
    unfold State.atMs
    omega
  refine ⟨?_, fun p hp => (h.before p hp).mono hat,
    fun loop hloop n hphase => Int.le_trans (h.probing loop hloop n hphase) hat,
    fun lastWall hw => ?_, h.unstarted, h.starting, h.pauses, h.apart,
    fun j hj => ⟨(h.span j hj).1, Int.le_trans (h.span j hj).2 hat⟩, fun j hj => ?_⟩
  · have := h.clock
    show s.t0 ≤ s.now + ms
    omega
  · obtain ⟨hlow, hhigh, hpauses⟩ := h.lastWall lastWall hw
    refine ⟨hlow, ?_, hpauses⟩
    show lastWall ≤ s.now + ms
    omega
  · exact (h.accounted j hj).frame (fun p hp => hp) (fun _ hw => hw) rfl hat (fun _ hr => hr)
      (fun _ _ hm => hm) fun ht => ht

/-- A jump that is accounted for is noted. -/
theorem PauseInv.jump (h : PauseInv opts s) {j : Pause} (hafter : ∀ x ∈ s.jumps, x.toMs ≤ j.fromMs)
    (hspan : j.fromMs ≤ j.toMs) (hnow : j.toMs ≤ s.atMs) (hj : Accounted opts s j) :
    PauseInv opts { s with jumps := s.jumps ++ [j] } := by
  have hkeep : ∀ x, Accounted opts s x → Accounted opts { s with jumps := s.jumps ++ [j] } x :=
    fun x hx => hx.frame (fun p hp => hp) (fun _ hw => hw) rfl (Int.le_refl _) (fun _ hr => hr)
      (fun _ _ hm => hm) fun ht => ht
  refine ⟨h.clock, h.before, h.probing, h.lastWall, h.unstarted, h.starting, h.pauses, ?_, fun x hx => ?_,
    fun x hx => ?_⟩
  · refine List.pairwise_append.mpr ⟨h.apart, List.pairwise_singleton _ _, fun x hx b hb => ?_⟩
    rw [List.mem_singleton.mp hb]
    exact hafter x hx
  · rcases List.mem_append.mp hx with hx | hx
    · exact h.span x hx
    · rw [List.mem_singleton.mp hx]
      exact ⟨hspan, hnow⟩
  · rcases List.mem_append.mp hx with hx | hx
    · exact hkeep x (h.accounted x hx)
    · rw [List.mem_singleton.mp hx]
      exact hkeep j hj

theorem PauseInv.advance (h : PauseInv opts s) (hend : EndInv opts events s) (ms : Nat)
    (hwatched : ¬ UnwatchedJump opts s (.advance ms)) :
    PauseInv opts { s with
      now := s.now + ms
      jumps := if PAUSE_SLACK_MS + opts.intervalMs < ms then
          s.jumps ++ [⟨s.atMs, s.atMs + ms⟩]
        else s.jumps } := by
  have hlater := h.later ms
  by_cases hlong : PAUSE_SLACK_MS + opts.intervalMs < ms
  · rw [if_pos hlong]
    refine hlater.jump (j := ⟨s.atMs, s.atMs + ms⟩) (fun x hx => (h.span x hx).2) ?_ ?_ ?_
    · dsimp only
      omega
    · show s.now - s.t0 + ms ≤ s.now + ms - s.t0
      omega
    · -- the watchdog is there, or no window reaches the jump
      by_cases hwatches : ∃ lastWall, s.watch.WatchesFrom lastWall
      · obtain ⟨lastWall, hw⟩ := hwatches
        obtain ⟨-, hhigh, -⟩ := h.lastWall lastWall hw
        refine .watched lastWall hw ?_ ?_ ?_
        · show lastWall - s.t0 ≤ s.now - s.t0
          omega
        · show s.now - s.t0 + ms ≤ s.now + ms - s.t0
          omega
        · show PAUSE_SLACK_MS + opts.intervalMs < s.atMs + ms - s.atMs
          omega
      · by_cases hrecovered : s.RecoveredBy s.atMs
        · exact .recovered hrecovered
        · by_cases hthrew : s.main.threw
          · exact .threw hthrew
          · by_cases hreturned : ∃ n ws, s.main = .returned n ws
            · obtain ⟨n, ws, hm⟩ := hreturned
              obtain ⟨-, hn, rfl, -, -⟩ := hend.returned n ws hm
              refine .outside n _ hm fun w hw => ?_
              obtain ⟨p, hp, rfl⟩ := List.mem_map.mp hw
              show p.recoveredMs.getD n ≤ s.atMs
              cases hrec : p.recoveredMs with
              | none => exact hn
              | some r => exact (h.before p hp).recovered r hrec
            · exact absurd ⟨fun n ws hm => hreturned ⟨n, ws, hm⟩, hthrew,
                .inl ⟨ms, rfl, hlong, fun lw hw => hwatches ⟨lw, hw⟩, hrecovered⟩⟩ hwatched
  · rw [if_neg hlong]
    exact hlater

/-- A step of a probe loop. -/
theorem PauseInv.loop (h : PauseInv opts s) {i : Nat} {loop loop' : Loop}
    (hget : s.loops[i]? = some loop) (hloop : loopStep opts s loop e = some loop') :
    PauseInv opts (s.setLoop i loop') := by
  have hmem := List.mem_of_getElem? hget
  refine ⟨h.clock, fun p hp => ?_, fun x hx n hphase => ?_, h.lastWall, h.unstarted, h.starting, h.pauses,
    h.apart, h.span, fun j hj => ?_⟩
  · rw [paths_setLoop] at hp
    rcases List.mem_or_eq_of_mem_set hp with hold | rfl
    · exact h.before p hold
    · have hpath := h.before _ (List.mem_of_getElem? (paths_getElem? hget))
      rcases loopStep_path hloop with heq | ⟨atMs, j, o, -, hphase, heq⟩
      · rw [heq]
        exact hpath
      · rw [heq]
        exact hpath.observe (h.probing loop hmem atMs hphase)
  · rcases List.mem_or_eq_of_mem_set hx with hold | rfl
    · exact h.probing x hold n hphase
    · exact le_of_eq (loopStep_probing hloop hphase)
  · exact (h.accounted j hj).frame (fun p hp => hp) (fun _ hw => hw) rfl (Int.le_refl _)
      (fun t hr => recoveredBy_setLoop hget hloop hr) (fun _ _ hm => hm) fun ht => ht

/-- The watchdog wakes up: what it slept over is reported. -/
theorem PauseInv.tick (h : PauseInv opts s) {lastWall : Int} (hwatch : s.watch = .sleeping lastWall) :
    PauseInv opts (s.tick opts lastWall) := by
  obtain ⟨hlow, hhigh, hpauses⟩ := h.lastWall lastWall (.inr hwatch)
  have hold : ∀ p ∈ s.pauses, p ∈ (s.tick opts lastWall).pauses := by
    intro p hp
    show p ∈ if _ then _ else _
    split
    · exact List.mem_append_left _ hp
    · exact hp
  refine ⟨h.clock, h.before, h.probing, fun lw hw => ?_, fun hw => (nomatch hw),
    fun hm => absurd (h.starting hm) (by rw [hwatch]; simp), ?_, h.apart, h.span,
    fun j hj => ?_⟩
  · have hlw : lw = s.now := by
      rcases hw with hw | hw
      · cases hw
        rfl
      · cases hw
    rw [hlw]
    refine ⟨h.clock, Int.le_refl _, fun p hp => ?_⟩
    change p ∈ (if _ then _ else _) at hp
    split at hp
    · rcases List.mem_append.mp hp with hp | hp
      · have := hpauses p hp
        show p.toMs ≤ s.now - s.t0
        omega
      · rw [List.mem_singleton.mp hp]
        exact Int.le_refl _
    · have := hpauses p hp
      show p.toMs ≤ s.now - s.t0
      omega
  · show Apart (if PAUSE_SLACK_MS < s.now - lastWall - opts.intervalMs then _ else _)
    split
    · refine List.pairwise_append.mpr ⟨h.pauses, List.pairwise_singleton _ _, fun p hp b hb => ?_⟩
      rw [List.mem_singleton.mp hb]
      exact hpauses p hp
    · exact h.pauses
  · cases h.accounted j hj with
    | reported p hp hwithin => exact .reported p (hold p hp) hwithin
    | watched lw hw hfrom hto hlong =>
      have hlw : lw = lastWall := by
        rcases hw with hw | hw
        · rw [hwatch] at hw
          cases hw
        · rw [hwatch] at hw
          cases hw
          rfl
      rw [hlw] at hfrom
      have hlate : PAUSE_SLACK_MS < s.now - lastWall - opts.intervalMs := by
        unfold State.atMs at hto
        omega
      refine .reported ⟨lastWall - s.t0, s.now - s.t0⟩ ?_ ⟨hfrom, hto⟩
      show _ ∈ if _ then _ else _
      rw [if_pos hlate]
      exact List.mem_append_right _ List.mem_cons_self
    | recovered hr => exact .recovered hr
    | outside n ws hm hws => exact .outside n ws hm hws
    | threw ht => exact .threw ht

/-- Nothing but where the watchdog or `sampleDuring` is. -/
theorem PauseInv.move (h : PauseInv opts s) {watch : Watch} {main : Main} {stop : Bool}
    (hlastWall : ∀ lastWall, watch.WatchesFrom lastWall →
      s.t0 ≤ lastWall ∧ lastWall ≤ s.now ∧ ∀ p ∈ s.pauses, p.toMs ≤ lastWall - s.t0)
    (hunstarted : watch = .unstarted → s.watch = .unstarted)
    (hstarting : main = .starting → watch = .unstarted)
    (hwatches : ∀ lastWall, s.watch.WatchesFrom lastWall → watch.WatchesFrom lastWall)
    (hmain : ∀ n ws, s.main = .returned n ws → main = .returned n ws)
    (hthrew : s.main.threw → main.threw) :
    PauseInv opts { s with watch := watch, main := main, stop := stop } :=
  ⟨h.clock, h.before, h.probing, hlastWall, fun hw => h.unstarted (hunstarted hw), hstarting,
    h.pauses, h.apart, h.span, fun j hj => (h.accounted j hj).frame (fun _ hp => hp) hwatches rfl (Int.le_refl _)
      (fun _ hr => hr) hmain hthrew⟩

/-- The watchdog ends, and no window needs a jump that it has not looked at. -/
theorem PauseInv.ends (h : PauseInv opts s) {lastWall : Int} (hwatch : s.watch = .checking lastWall)
    (hends : s.goesOn opts = false ∨ s.downAndBack = true)
    (hwatched : ¬ UnwatchedJump opts s .watchCheck) (hover : ∀ n ws, s.main ≠ .returned n ws) :
    PauseInv opts { s with watch := .done } := by
  have hstops : (s.goesOn opts && !s.downAndBack) = false := by
    rw [Bool.and_eq_false_iff, Bool.not_eq_false']
    exact hends
  refine ⟨h.clock, h.before, h.probing, fun lw hw => ?_, fun hw => (nomatch hw), fun hm => ?_,
    h.pauses, h.apart, h.span, fun j hj => ?_⟩
  · rcases hw with hw | hw
    · cases hw
    · cases hw
  · have := h.starting hm
    rw [hwatch] at this
    cases this
  · cases h.accounted j hj with
    | reported p hp hwithin => exact .reported p hp hwithin
    | recovered hr => exact .recovered hr
    | outside n ws hm hws => exact .outside n ws hm hws
    | threw ht => exact .threw ht
    | watched lw hw hfrom hto hlong =>
      have hlw : lw = lastWall := by
        rcases hw with hw | hw
        · rw [hwatch] at hw
          cases hw
          rfl
        · rw [hwatch] at hw
          cases hw
      by_cases hthrew : s.main.threw
      · exact .threw hthrew
      · refine .recovered (not_not.mp fun hopen => hwatched ⟨hover, hthrew, .inr ⟨lastWall, rfl, hwatch,
          hstops, j, hj, ?_, hopen⟩⟩)
        rw [← hlw]
        exact hfrom

theorem PauseInv.step (h : PauseInv opts s) (hend : EndInv opts events s)
    (hwatched : ¬ UnwatchedJump opts s e) (hstep : StepTo opts s e s') : PauseInv opts s' := by
  cases hstep with
  | advance ms => exact h.advance hend ms hwatched
  | loop _ i loop loop' hget hloop _ => exact h.loop hget hloop
  | watchStart hmain =>
    have hunstarted := h.starting hmain
    refine h.move (fun lw hw => ?_) (fun hw => nomatch hw) (fun hm => nomatch hm) (fun lw hw => ?_)
      (fun n ws hm => ?_) fun ht => ?_
    · rcases hw with hw | hw
      · cases hw
        refine ⟨h.clock, Int.le_refl _, fun p hp => ?_⟩
        rw [h.unstarted hunstarted] at hp
        exact absurd hp List.not_mem_nil
      · cases hw
    · rw [hunstarted] at hw
      rcases hw with hw | hw
      · cases hw
      · cases hw
    · rw [hmain] at hm
      cases hm
    · rw [hmain] at ht
      exact ht.elim
  | watchGoesOn lastWall hwatch _ _ =>
    refine h.move (fun lw hw => ?_) (fun hw => nomatch hw) (fun hm => ?_) (fun lw hw => ?_)
      (fun n ws hm => hm) fun ht => ht
    · rcases hw with hw | hw
      · cases hw
      · cases hw
        exact h.lastWall lastWall (.inl hwatch)
    · have := h.starting hm
      rw [hwatch] at this
      cases this
    · rw [hwatch] at hw
      rcases hw with hw | hw
      · cases hw
        exact .inr rfl
      · cases hw
  | watchEnds lastWall hwatch hends =>
    refine h.ends hwatch hends hwatched fun n ws hm => ?_
    have hdone := hend.watched (.inr ⟨n, ws, hm⟩)
    rw [hwatch] at hdone
    cases hdone
  | watchTick lastWall hwatch => exact h.tick hwatch
  | opReturns hmain =>
    refine h.move h.lastWall (fun hw => hw) (fun hm => nomatch hm) (fun _ hw => hw)
      (fun n ws hm => ?_) fun ht => ?_
    · rw [hmain] at hm
      cases hm
    · rw [hmain] at ht
      exact ht
  | opThrows error hmain =>
    refine h.move h.lastWall (fun hw => hw) (fun hm => nomatch hm) (fun _ hw => hw)
      (fun n ws hm => ?_) fun _ => trivial
    rw [hmain] at hm
    cases hm
  | stopSampling hmain _ =>
    refine h.move h.lastWall (fun hw => hw) (fun hm => nomatch hm) (fun _ hw => hw)
      (fun n ws hm => ?_) fun ht => ?_
    · rw [hmain] at hm
      cases hm
    · rw [hmain] at ht
      exact ht
  | finish hmain _ =>
    refine h.move h.lastWall (fun hw => hw) (fun hm => nomatch hm) (fun _ hw => hw)
      (fun n ws hm => ?_) fun ht => ?_
    · rw [hmain] at hm
      cases hm
    · rw [hmain] at ht
      exact ht
  | rethrow error hmain _ _ =>
    refine h.move h.lastWall (fun hw => hw) (fun hm => nomatch hm) (fun _ hw => hw)
      (fun n ws hm => ?_) fun _ => trivial
    rw [hmain] at hm
    cases hm

theorem NoUnwatchedJump.init (h : NoUnwatchedJump opts t0 names (events ++ [e])) :
    NoUnwatchedJump opts t0 names events :=
  AlongRun.init h

theorem pauseInv_run (hwatched : NoUnwatchedJump opts t0 names events)
    (hrun : run opts t0 names events = some s) : PauseInv opts s := by
  induction events using List.reverseRecOn generalizing s with
  | nil =>
    cases hrun
    exact pauseInv_init t0 names
  | append_singleton events e ih =>
    obtain ⟨m, hm, hlast⟩ := runEvents_concat.mp hrun
    exact (ih hwatched.init hm).step (endInv_run hm) (AlongRun.last hwatched hm)
      (stepTo_of_step hlast)

end Invariant

/-! ## Pauses are reported -/

/-- Of every path that is returned: each long jump that overlaps its window lies in
a pause, and `pausedMs` has at least the part of the window that all of them take. -/
def PausesReported (s : State) : Prop :=
  ∀ n ws, s.main = .returned n ws → ∀ w ∈ ws,
    (∀ j ∈ s.jumps, j.fromMs < w.recoveredMs.getD n → ∃ p ∈ s.pauses, j.Within p) ∧
      (s.jumps.map fun j => overlap j 0 (w.recoveredMs.getD n)).sum ≤ w.pausedMs

/-- In every run in which no long jump falls where the watchdog will not see it while a
window is still open, every long jump inside a window is in its `pausedMs`. -/
theorem pauses_reported (opts : SampleOptions) (t0 : Int) (names : List String)
    (events : List Event) (s : State) (hrun : run opts t0 names events = some s)
    (hwatched : NoUnwatchedJump opts t0 names events) : PausesReported s := by
  have h := pauseInv_run hwatched hrun
  have hend := endInv_run hrun
  intro n ws hmain w hw
  obtain ⟨-, -, hws, -, -⟩ := hend.returned n ws hmain
  have hdone := hend.watched (.inr ⟨n, ws, hmain⟩)
  rw [hws] at hw
  obtain ⟨p, hp, rfl⟩ := List.mem_map.mp hw
  have hinside : ∀ j ∈ s.jumps, j.fromMs < p.recoveredMs.getD n → ∃ q ∈ s.pauses, j.Within q := by
    intro j hj hlt
    cases h.accounted j hj with
    | reported q hq hwithin => exact ⟨q, hq, hwithin⟩
    | watched lw hwatch _ _ _ =>
      rw [hdone] at hwatch
      rcases hwatch with hwatch | hwatch
      · cases hwatch
      · cases hwatch
    | recovered hr =>
      obtain ⟨r, hr, hle⟩ := hr p hp
      rw [hr, Option.getD_some] at hlt
      omega
    | outside n' ws' hm hws' =>
      rw [hmain] at hm
      cases hm
      have hle := hws' (finalise p s.pauses n) (by rw [hws]; exact List.mem_map_of_mem hp)
      change p.recoveredMs.getD n ≤ j.fromMs at hle
      omega
    | threw ht =>
      rw [hmain] at ht
      exact ht.elim
  refine ⟨hinside, ?_⟩
  refine sum_overlap_le h.apart (fun j hj => (h.span j hj).1) fun j hj => ?_
  by_cases hlt : j.fromMs < (finalise p s.pauses n).recoveredMs.getD n
  · exact .inl (hinside j hj hlt)
  · exact .inr (overlap_of_le (by omega))

/-! ### A host that sleeps -/

/-- `UnwatchedJump`, as a test; it does not look at the recoveries, nor whether a check
ends the watchdog. -/
def unwatchedJump (opts : SampleOptions) (s : State) : Event → Bool
  | .advance ms =>
      decide (PAUSE_SLACK_MS + opts.intervalMs < ms) && (match s.watch with
        | .checking _ | .sleeping _ => false
        | _ => true)
  | .watchCheck =>
      match s.watch with
      | .checking lastWall => s.jumps.any fun j => lastWall - s.t0 ≤ j.fromMs
      | _ => false
  | _ => false

theorem noUnwatchedJump_of_never {opts : SampleOptions} {t0 : Int} {names : List String}
    {events : List Event}
    (h : never (step opts) (unwatchedJump opts) (init t0 names) events = true) :
    NoUnwatchedJump opts t0 names events := by
  refine alongRun_of_never h ?_
  rintro m e hfalse ⟨-, -, ⟨ms, rfl, hlong, hout, -⟩ | ⟨lastWall, rfl, hwatch, -, j, hj, hfrom, -⟩⟩
  · unfold unwatchedJump at hfalse
    dsimp only at hfalse
    rw [decide_eq_true hlong, Bool.true_and] at hfalse
    split at hfalse
    · rename_i lastWall hwatch
      exact hout lastWall (.inl hwatch)
    · rename_i lastWall hwatch
      exact hout lastWall (.inr hwatch)
    · cases hfalse
  · unfold unwatchedJump at hfalse
    dsimp only at hfalse
    rw [hwatch] at hfalse
    exact List.any_eq_false.mp hfalse j hj (decide_eq_true hfrom)

/-- The host sleeps for ten seconds while the watchdog does. -/
def sleepEvents : List Event :=
  [.watchStart, .loopCheck 0, .loopProbe 0, .watchCheck, .advance 10000, .watchTick,
    .answer 0 ⟨true, none⟩, .loopWake 0, .loopCheck 0, .watchCheck, .opReturns, .stopSampling,
    .finish]

theorem pauses_reported_sleep :
    ∃ s ws, run exampleOptions 0 ["rest"] sleepEvents = some s ∧ s.main = .returned 10000 ws ∧
      PausesReported s := by
  obtain ⟨s, hrun, hmain⟩ := exists_run_of_result? exampleOptions 0 ["rest"] sleepEvents 10000
    [⟨"rest", true, 1, 0, none, none, none, [], 10000⟩] (by decide)
  exact ⟨s, _, hrun, hmain, pauses_reported exampleOptions 0 ["rest"] sleepEvents s hrun
    (noUnwatchedJump_of_never (by decide))⟩

/-- The first path was down and came back, so the watchdog has ended; then the host
sleeps for ten seconds and the operation returns. -/
def lateSleepEvents : List Event :=
  [.watchStart, .loopCheck 0, .loopProbe 0, .loopCheck 1, .loopProbe 1,
    .answer 0 ⟨false, some (units "timeout expired")⟩, .answer 1 ⟨true, none⟩, .watchCheck, .advance 10,
    .loopWake 0, .loopCheck 0, .loopProbe 0, .answer 0 ⟨true, none⟩, .advance 30, .loopWake 0,
    .loopCheck 0, .loopProbe 0, .answer 0 ⟨true, none⟩, .watchTick, .watchCheck, .advance 10000,
    .opReturns, .stopSampling, .loopWake 0, .loopCheck 0, .loopWake 1, .loopCheck 1, .finish]

/-- What the run noted of the clock. -/
def State.jumps? (s : State) : Option (List Pause × List Pause) := some (s.jumps, s.pauses)

/-- The second path never failed and reports no pause, although nothing ran for ten
of its ten seconds. -/
theorem pauses_not_reported :
    ∃ s, run exampleOptions 0 ["rest", "pooler"] lateSleepEvents = some s ∧ ¬ PausesReported s := by
  obtain ⟨s, hrun, hmain⟩ := exists_run_of_result? exampleOptions 0 ["rest", "pooler"]
    lateSleepEvents 10040
    [⟨"rest", false, 3, 1, some 0, some 10, some 10, [units "timeout expired"], 0⟩,
      ⟨"pooler", true, 1, 0, none, none, none, [], 0⟩] (by decide)
  have hclock : (run exampleOptions 0 ["rest", "pooler"] lateSleepEvents).bind State.jumps? =
      some ([⟨40, 10040⟩], []) := by decide
  rw [hrun, Option.bind_some, State.jumps?, Option.some.injEq, Prod.mk.injEq] at hclock
  refine ⟨s, hrun, fun h => ?_⟩
  obtain ⟨hinside, -⟩ := h _ _ hmain _ (List.mem_cons_of_mem _ List.mem_cons_self)
  obtain ⟨p, hp, -⟩ := hinside ⟨40, 10040⟩ (by rw [hclock.1]; exact List.mem_cons_self) (by decide)
  rw [hclock.2] at hp
  exact absurd hp List.not_mem_nil

end Sampling

end SupabaseLab.Harness
