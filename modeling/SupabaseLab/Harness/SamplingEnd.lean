/-
  Harness/SamplingEnd.lean --- when sampling ends.

  The watchdog decides once.  If it ends early, some path was down and came back
  and every path that had failed was settled; the operation may go on after that,
  and a path may fail for the first time while it does.  `LateFailure` is that
  step, and without it what the watchdog saw still holds when sampling ends.
-/
import SupabaseLab.Harness.Sampling

set_option autoImplicit false

namespace SupabaseLab.Harness

open Library

namespace Sampling

/-! ## Paths that failed, paths that settled -/

section Paths

variable {opts : SampleOptions} {s s' : State} {e : Event} {settleMs atMs : Int} {p : PathState}
  {o : ProbeOutcome}

theorem failed_observe (h : p.firstFailMs.isSome = true) :
    (p.observe settleMs atMs o).firstFailMs.isSome = true := by
  obtain ⟨first, hfirst⟩ := Option.isSome_iff_exists.mp h
  unfold PathState.observe
  dsimp only
  split
  · simp [hfirst]
  · split
    · split
      · exact h
      · split
        · exact h
        · exact h
    · exact h

/-- A settled path stays settled, unless it never failed and does now. -/
theorem settled_observe (h : p.settled = true) (ho : p.firstFailMs.isSome = true ∨ o.ok = true) :
    (p.observe settleMs atMs o).settled = true := by
  unfold PathState.settled at h ⊢
  cases hfirst : p.firstFailMs with
  | none =>
    have hok : o.ok = true := by
      rcases ho with hsome | hok
      · rw [hfirst] at hsome
        cases hsome
      · exact hok
    unfold PathState.observe
    simp [hok, hfirst]
  | some first =>
    rw [hfirst] at h
    obtain ⟨recovered, hrecovered⟩ : ∃ r, p.recoveredMs = some r := by
      simpa [Option.isSome_iff_exists] using h
    unfold PathState.observe
    dsimp only
    split
    · simp [hrecovered]
    · simp [hfirst, hrecovered]

theorem paths_setLoop (i : Nat) (loop : Loop) : (s.setLoop i loop).paths = s.paths.set i loop.path :=
  List.map_set

/-- Some path failed. -/
def State.anyFailed (s : State) : Prop := ∃ p ∈ s.paths, p.firstFailMs.isSome = true

theorem downAndBack_iff : s.downAndBack = true ↔
    s.anyFailed ∧ ∀ p ∈ s.paths, p.settled = true := by
  unfold State.downAndBack State.anyFailed allSettled
  rw [Bool.and_eq_true, List.any_eq_true, List.all_eq_true]

theorem paths_getElem? {i : Nat} {loop : Loop} (h : s.loops[i]? = some loop) :
    s.paths[i]? = some loop.path := by
  show (s.loops.map (·.path))[i]? = _
  rw [List.getElem?_map, h]
  rfl

/-- A path that failed stays one that failed. -/
theorem anyFailed_setLoop {i : Nat} {loop loop' : Loop} (hget : s.loops[i]? = some loop)
    (hloop : loopStep opts s loop e = some loop') (h : s.anyFailed) :
    (s.setLoop i loop').anyFailed := by
  obtain ⟨p, hp, hfailed⟩ := h
  unfold State.anyFailed
  rw [paths_setLoop]
  have hlt : i < s.paths.length := by
    rw [State.paths, List.length_map]
    exact (List.getElem?_eq_some_iff.mp hget).1
  by_cases hfirst : loop.path.firstFailMs.isSome = true
  · refine ⟨loop'.path, List.mem_set hlt _, ?_⟩
    rcases loopStep_path hloop with heq | ⟨atMs, j, o, -, -, heq⟩
    · rw [heq]
      exact hfirst
    · rw [heq]
      exact failed_observe hfirst
  · obtain ⟨n, hn, rfl⟩ := List.getElem_of_mem hp
    have hne : i ≠ n := by
      rintro rfl
      have hat : s.paths[i] = loop.path :=
        Option.some.inj ((List.getElem?_eq_getElem hn).symm.trans (paths_getElem? hget))
      rw [hat] at hfailed
      exact hfirst hfailed
    refine ⟨s.paths[n], List.mem_iff_getElem.mpr ⟨n, ?_, ?_⟩, hfailed⟩
    · rw [List.length_set]
      exact hn
    · rw [List.getElem_set_ne hne]

end Paths

/-! ## The invariant -/

/-- Whether the operation has thrown. -/
def Main.threw : Main → Prop
  | .failing _ => True
  | .rethrown _ => True
  | _ => False

/-- After the watchdog: the time is over, or some path failed. -/
structure EndInv (opts : SampleOptions) (events : List Event) (s : State) : Prop where
  waitingDone : s.main = .awaitWatch ∨ s.main = .awaitLoops → .opReturns ∈ events
  stopped : s.stop = true → s.main = .awaitLoops ∨ (∃ n ws, s.main = .returned n ws) ∨ s.main.threw
  watched : s.main = .awaitLoops ∨ (∃ n ws, s.main = .returned n ws) → s.watch = .done
  watchDone : s.watch = .done → ¬ s.main.threw → opts.maxWaitMs ≤ s.atMs ∨ s.anyFailed
  returned : ∀ n ws, s.main = .returned n ws → .opReturns ∈ events ∧ n ≤ s.atMs ∧
    ws = s.paths.map (fun p => finalise p s.pauses n) ∧ allDone s = true ∧
    (opts.maxWaitMs ≤ n ∨ s.anyFailed)
  failing : ∀ error, s.main = .failing error → .opThrows error ∈ events
  rethrown : ∀ error, s.main = .rethrown error → .opThrows error ∈ events ∧ allDone s = true

section Invariant

variable {opts : SampleOptions} {events : List Event} {s s' : State} {e : Event}

theorem loop_lt {i : Nat} {loop loop' : Loop} (hdone : allDone s = true)
    (hget : s.loops[i]? = some loop) (hloop : loopStep opts s loop e = some loop') : False := by
  have hphase := List.all_eq_true.mp hdone loop (List.mem_of_getElem? hget)
  exact loopStep_of_done (of_decide_eq_true hphase) hloop

theorem endInv_init (t0 : Int) (names : List String) : EndInv opts [] (init t0 names) where
  waitingDone := by
    rintro (h | h)
    · cases h
    · cases h
  stopped := by
    intro h
    cases h
  watched := by
    rintro (h | ⟨n, ws, h⟩)
    · cases h
    · cases h
  watchDone := by
    intro h
    cases h
  returned := by
    intro n ws h
    cases h
  failing := by
    intro error h
    cases h
  rethrown := by
    intro error h
    cases h

/-- Before the operation has ended, sampling goes on. -/
theorem EndInv.stop_ne (h : EndInv opts events s)
    (hmain : s.main = .starting ∨ s.main = .operating) : s.stop ≠ true := by
  intro hs
  rcases h.stopped hs with hm | ⟨n, ws, hm⟩ | hthrew
  · rw [hm] at hmain
    rcases hmain with hmain | hmain
    · cases hmain
    · cases hmain
  · rw [hm] at hmain
    rcases hmain with hmain | hmain
    · cases hmain
    · cases hmain
  · rcases hmain with hmain | hmain
    · rw [hmain] at hthrew
      exact hthrew.elim
    · rw [hmain] at hthrew
      exact hthrew.elim

/-- While the watchdog goes on, sampling is not over. -/
theorem EndInv.not_over (h : EndInv opts events s) (hwatch : s.watch ≠ .done) :
    ¬ (s.main = .awaitLoops ∨ ∃ n ws, s.main = .returned n ws) :=
  fun hm => hwatch (h.watched hm)

/-- The watchdog stops because the time is over, unless the operation threw: `stop` is set
only when the watchdog is done. -/
theorem EndInv.time_over (h : EndInv opts events s) (hwatch : s.watch ≠ .done)
    (hends : s.goesOn opts = false) (ht : ¬ s.main.threw) : opts.maxWaitMs ≤ s.atMs := by
  have hnot := h.not_over hwatch
  unfold State.goesOn at hends
  rw [Bool.and_eq_false_iff, Bool.not_eq_false', decide_eq_false_iff_not, Int.not_lt] at hends
  rcases hends with hstop | htime
  · rcases h.stopped hstop with hm | hr | hthrew
    · exact absurd (.inl hm) hnot
    · exact absurd (.inr hr) hnot
    · exact absurd hthrew ht
  · exact htime

/-- A step that leaves the operation as it is. -/
theorem EndInv.frame (h : EndInv opts events s) (hmain : s'.main = s.main) (hstop : s'.stop = s.stop)
    (hloops : allDone s = true → allDone s' = true)
    (hwatched : s.main = .awaitLoops ∨ (∃ n ws, s.main = .returned n ws) → s'.watch = .done)
    (hdone : s'.watch = .done → ¬ s.main.threw → opts.maxWaitMs ≤ s'.atMs ∨ s'.anyFailed)
    (hkept : ∀ n ws, s.main = .returned n ws →
      s.atMs ≤ s'.atMs ∧ s'.paths = s.paths ∧ s'.pauses = s.pauses) :
    EndInv opts (events ++ [e]) s' := by
  have hmem : ∀ {x : Event}, x ∈ events → x ∈ events ++ [e] := fun hx =>
    List.mem_append_left _ hx
  refine ⟨fun hm => hmem (h.waitingDone (hmain ▸ hm)), fun hs => ?_, fun hm => hwatched (hmain ▸ hm),
    fun hw ht => hdone hw (hmain ▸ ht), fun n ws hr => ?_, fun x hx => hmem (h.failing x (hmain ▸ hx)),
    fun x hx => ?_⟩
  · rw [hmain]
    exact h.stopped (hstop ▸ hs)
  · rw [hmain] at hr
    obtain ⟨hop, hn, hws, hall, hearned⟩ := h.returned n ws hr
    obtain ⟨hat, hpaths, hpauses⟩ := hkept n ws hr
    refine ⟨hmem hop, Int.le_trans hn hat, ?_, hloops hall, ?_⟩
    · rw [hws, hpaths, hpauses]
    · rw [State.anyFailed, hpaths]
      exact hearned
  · obtain ⟨hop, hall⟩ := h.rethrown x (hmain ▸ hx)
    exact ⟨hmem hop, hloops hall⟩

theorem EndInv.step (h : EndInv opts events s) (hstep : StepTo opts s e s') :
    EndInv opts (events ++ [e]) s' := by
  have hmem : ∀ {x : Event}, x ∈ events → x ∈ events ++ [e] := fun hx =>
    List.mem_append_left _ hx
  cases hstep with
  | advance ms =>
    have hat : s.atMs ≤ (s.now + ms) - s.t0 := by
      show s.now - s.t0 ≤ _
      omega
    refine h.frame rfl rfl id h.watched (fun hw ht => ?_) fun _ _ _ => ⟨hat, rfl, rfl⟩
    exact (h.watchDone hw ht).imp_left fun htime => Int.le_trans htime hat
  | loop _ i loop loop' hget hloop _ =>
    refine h.frame rfl rfl (fun hall => (loop_lt hall hget hloop).elim) h.watched (fun hw ht => ?_)
      fun n ws hr => (loop_lt (h.returned n ws hr).2.2.2.1 hget hloop).elim
    exact (h.watchDone hw ht).imp_right (anyFailed_setLoop hget hloop)
  | watchStart hmain =>
    refine ⟨fun hm => ?_, fun hs => absurd hs (h.stop_ne (.inl hmain)), fun hm => ?_, fun hw => ?_,
      fun n ws hr => ?_, fun x hx => ?_, fun x hx => ?_⟩
    · rcases hm with hm | hm
      · cases hm
      · cases hm
    · rcases hm with hm | ⟨n, ws, hm⟩
      · cases hm
      · cases hm
    · cases hw
    · cases hr
    · cases hx
    · cases hx
  | watchGoesOn lastWall hwatch hgoes hdown =>
    have hnot := h.not_over (by rw [hwatch]; exact Watch.noConfusion)
    exact h.frame rfl rfl id (fun hm => absurd hm hnot) (fun hw => Watch.noConfusion hw)
      fun n ws hr => absurd (.inr ⟨n, ws, hr⟩) hnot
  | watchEnds lastWall hwatch hends =>
    have hgoing : s.watch ≠ .done := by
      rw [hwatch]
      exact Watch.noConfusion
    refine h.frame rfl rfl id (fun _ => rfl) (fun _ ht => ?_)
      fun n ws hr => absurd (.inr ⟨n, ws, hr⟩) (h.not_over hgoing)
    rcases hends with hstop | hdown
    · exact .inl (h.time_over hgoing hstop ht)
    · exact .inr (downAndBack_iff.mp hdown).1
  | watchTick lastWall hwatch =>
    have hnot := h.not_over (by rw [hwatch]; exact Watch.noConfusion)
    exact h.frame rfl rfl id (fun hm => absurd hm hnot) (fun hw => Watch.noConfusion hw)
      fun n ws hr => absurd (.inr ⟨n, ws, hr⟩) hnot
  | opReturns hmain =>
    refine ⟨fun _ => List.mem_append_right _ List.mem_cons_self,
      fun hs => absurd hs (h.stop_ne (.inr hmain)), fun hm => ?_, fun hw _ => ?_,
      fun n ws hr => ?_, fun x hx => ?_, fun x hx => ?_⟩
    · rcases hm with hm | ⟨n, ws, hm⟩
      · cases hm
      · cases hm
    · refine h.watchDone hw ?_
      rw [hmain]
      exact fun ht => ht
    · cases hr
    · cases hx
    · cases hx
  | opThrows error hmain =>
    refine ⟨fun hm => ?_, fun _ => .inr (.inr trivial), fun hm => ?_, fun _ ht => absurd trivial ht,
      fun n ws hr => ?_, fun x hx => ?_, fun x hx => ?_⟩
    · rcases hm with hm | hm
      · cases hm
      · cases hm
    · rcases hm with hm | ⟨n, ws, hm⟩
      · cases hm
      · cases hm
    · cases hr
    · cases hx
      exact List.mem_append_right _ List.mem_cons_self
    · cases hx
  | stopSampling hmain hwatch =>
    refine ⟨fun _ => hmem (h.waitingDone (.inl hmain)), fun _ => .inl rfl, fun _ => hwatch,
      fun hw _ => ?_, fun n ws hr => ?_, fun x hx => ?_, fun x hx => ?_⟩
    · refine h.watchDone hw ?_
      rw [hmain]
      exact fun ht => ht
    · cases hr
    · cases hx
    · cases hx
  | finish hmain hloops =>
    have hwatch := h.watched (.inl hmain)
    have hearned := h.watchDone hwatch (by rw [hmain]; exact fun ht => ht)
    refine ⟨fun hm => ?_, fun _ => .inr (.inl ⟨_, _, rfl⟩), fun _ => hwatch, fun _ _ => hearned,
      fun n ws hr => ?_, fun x hx => ?_, fun x hx => ?_⟩
    · rcases hm with hm | hm
      · cases hm
      · cases hm
    · cases hr
      exact ⟨hmem (h.waitingDone (.inr hmain)), Int.le_refl _, rfl, hloops, hearned⟩
    · cases hx
    · cases hx
  | rethrow error hmain hloops hwatch =>
    refine ⟨fun hm => ?_, fun _ => .inr (.inr trivial), fun _ => hwatch,
      fun _ ht => absurd trivial ht, fun n ws hr => ?_, fun x hx => ?_, fun x hx => ?_⟩
    · rcases hm with hm | hm
      · cases hm
      · cases hm
    · cases hr
    · cases hx
    · cases hx
      exact ⟨hmem (h.failing error hmain), hloops⟩

theorem endInv_run {t0 : Int} {names : List String} (hrun : run opts t0 names events = some s) :
    EndInv opts events s :=
  runEvents_invariant (I := EndInv opts) (endInv_init t0 names)
    (fun _ _ _ _ _ h hstep => h.step (stepTo_of_step hstep)) events s hrun

end Invariant

/-! ## Failures after the watchdog -/

/-- A path fails for the first time when the watchdog has already ended, before
the time is over. -/
def LateFailure (opts : SampleOptions) (s : State) (e : Event) : Prop :=
  s.watch = .done ∧ s.atMs < opts.maxWaitMs ∧
    ∃ i outcome loop, e = .answer i outcome ∧ outcome.ok = false ∧ s.loops[i]? = some loop ∧
      loop.path.firstFailMs = none

/-- No step of the run is one. -/
def NoLateFailure (opts : SampleOptions) (t0 : Int) (names : List String) (events : List Event) :
    Prop :=
  ∀ before e after m, events = before ++ e :: after → run opts t0 names before = some m →
    ¬ LateFailure opts m e

/-- `LateFailure`, as a test. -/
def lateFailure (opts : SampleOptions) (s : State) : Event → Bool
  | .answer i outcome =>
      decide (s.watch = .done) && decide (s.atMs < opts.maxWaitMs) && !outcome.ok &&
        (s.loops[i]?.any fun loop => loop.path.firstFailMs.isNone)
  | _ => false

section Late

variable {opts : SampleOptions} {events : List Event} {s s' : State} {e : Event} {t0 : Int}
  {names : List String}

theorem NoLateFailure.init (h : NoLateFailure opts t0 names (events ++ [e])) :
    NoLateFailure opts t0 names events :=
  AlongRun.init h

theorem NoLateFailure.last (h : NoLateFailure opts t0 names (events ++ [e]))
    (hrun : run opts t0 names events = some s) : ¬ LateFailure opts s e :=
  AlongRun.last h hrun

theorem lateFailure_of (h : LateFailure opts s e) : lateFailure opts s e = true := by
  obtain ⟨hwatch, htime, i, outcome, loop, rfl, hfail, hget, hnone⟩ := h
  simp [lateFailure, hwatch, htime, hfail, hget, hnone]

theorem noLateFailure_of_never
    (h : never (step opts) (lateFailure opts) (init t0 names) events = true) :
    NoLateFailure opts t0 names events := by
  refine alongRun_of_never h fun m e hfalse hlate => ?_
  rw [lateFailure_of hlate] at hfalse
  cases hfalse

/-- When the watchdog has ended, the time is over or every path that failed is
settled, and one did; unless the operation threw. -/
def StillSettled (opts : SampleOptions) (s : State) : Prop :=
  s.watch = .done → ¬ s.main.threw → opts.maxWaitMs ≤ s.atMs ∨ s.downAndBack = true

/-- The steps of a path that had failed, or of a good sample, keep what was settled. -/
theorem settled_setLoop {i : Nat} {loop loop' : Loop} (hget : s.loops[i]? = some loop)
    (hloop : loopStep opts s loop e = some loop')
    (hfine : ∀ j o, e = .answer j o → loop.path.firstFailMs.isSome = true ∨ o.ok = true)
    (h : ∀ p ∈ s.paths, p.settled = true) : ∀ p ∈ (s.setLoop i loop').paths, p.settled = true := by
  intro p hp
  rw [paths_setLoop] at hp
  rcases List.mem_or_eq_of_mem_set hp with hold | rfl
  · exact h p hold
  · have hpath := h _ (List.mem_of_getElem? (paths_getElem? hget))
    rcases loopStep_path hloop with heq | ⟨atMs, j, o, he, -, heq⟩
    · rw [heq]
      exact hpath
    · rw [heq]
      exact settled_observe hpath (hfine j o he)

theorem StillSettled.step (hinv : EndInv opts events s) (h : StillSettled opts s)
    (hlate : ¬ LateFailure opts s e) (hstep : StepTo opts s e s') : StillSettled opts s' := by
  cases hstep with
  | advance ms =>
    intro hw ht
    rcases h hw ht with htime | hdown
    · refine .inl (Int.le_trans htime ?_)
      show s.now - s.t0 ≤ (s.now + ms) - s.t0
      omega
    · exact .inr hdown
  | loop _ i loop loop' hget hloop hof =>
    intro hw ht
    rcases h hw ht with htime | hdown
    · exact .inl htime
    · by_cases htime : opts.maxWaitMs ≤ s.atMs
      · exact .inl htime
      · obtain ⟨hfailed, hsettled⟩ := downAndBack_iff.mp hdown
        refine .inr (downAndBack_iff.mpr ⟨anyFailed_setLoop hget hloop hfailed,
          settled_setLoop hget hloop (fun j o he => ?_) hsettled⟩)
        by_contra hbad
        obtain ⟨hnone, hfail⟩ := not_or.mp hbad
        refine hlate ⟨hw, by omega, j, o, loop, he, ?_, ?_, ?_⟩
        · rw [Bool.not_eq_true] at hfail
          exact hfail
        · rw [hof j o he]
          exact hget
        · rw [Option.not_isSome_iff_eq_none] at hnone
          exact hnone
  | watchStart _ =>
    intro hw
    cases hw
  | watchGoesOn _ _ _ _ =>
    intro hw
    cases hw
  | watchEnds lastWall hwatch hends =>
    intro _ ht
    have hgoing : s.watch ≠ .done := by
      rw [hwatch]
      exact Watch.noConfusion
    exact hends.imp_left fun hstop => hinv.time_over hgoing hstop ht
  | watchTick _ _ =>
    intro hw
    cases hw
  | opReturns hmain => exact fun hw _ => h hw (by rw [hmain]; exact fun ht => ht)
  | opThrows error _ => exact fun _ ht => absurd trivial ht
  | stopSampling hmain _ => exact fun hw _ => h hw (by rw [hmain]; exact fun ht => ht)
  | finish hmain _ => exact fun hw _ => h hw (by rw [hmain]; exact fun ht => ht)
  | rethrow error _ _ _ => exact fun _ ht => absurd trivial ht

/-- At its end an early return still has what the watchdog saw. -/
def EarlyEarned (opts : SampleOptions) (s : State) : Prop :=
  ∀ n ws, s.main = .returned n ws → n < opts.maxWaitMs →
    (∃ w ∈ ws, w.firstFailMs.isSome = true) ∧
      ∀ w ∈ ws, w.firstFailMs.isSome = true → w.recoveredMs.isSome = true

theorem earlyEarned_of_settled {n : Int}
    (h : opts.maxWaitMs ≤ n ∨ s.downAndBack = true) (hn : n < opts.maxWaitMs) :
    (∃ w ∈ s.paths.map (fun p => finalise p s.pauses n), w.firstFailMs.isSome = true) ∧
      ∀ w ∈ s.paths.map (fun p => finalise p s.pauses n),
        w.firstFailMs.isSome = true → w.recoveredMs.isSome = true := by
  have hdown : s.downAndBack = true := h.resolve_left (by omega)
  obtain ⟨⟨p, hp, hfailed⟩, hsettled⟩ := downAndBack_iff.mp hdown
  refine ⟨⟨_, List.mem_map_of_mem hp, hfailed⟩, fun w hw hfirst => ?_⟩
  obtain ⟨q, hq, rfl⟩ := List.mem_map.mp hw
  have hq' := hsettled q hq
  unfold PathState.settled at hq'
  have hnotnone : q.firstFailMs.isNone = false := by
    rw [← Option.not_isSome, Bool.not_eq_false']
    exact hfirst
  rw [hnotnone, Bool.false_or] at hq'
  exact hq'

theorem stillSettled_run (hlate : NoLateFailure opts t0 names events)
    (hrun : run opts t0 names events = some s) : StillSettled opts s ∧ EarlyEarned opts s := by
  induction events using List.reverseRecOn generalizing s with
  | nil =>
    cases hrun
    refine ⟨fun hw => ?_, fun n ws hr => ?_⟩
    · cases hw
    · cases hr
  | append_singleton events e ih =>
    obtain ⟨m, hm, hlast⟩ := runEvents_concat.mp hrun
    obtain ⟨hsettled, hearned⟩ := ih hlate.init hm
    have hinv := endInv_run hm
    have hstep := stepTo_of_step hlast
    refine ⟨hsettled.step hinv (hlate.last hm) hstep, ?_⟩
    cases hstep with
    | finish hmain _ =>
      intro n ws hr hn
      cases hr
      have hwatch := hinv.watched (.inl hmain)
      exact earlyEarned_of_settled (hsettled hwatch (by rw [hmain]; exact fun ht => ht)) hn
    | watchStart _ =>
      intro n ws hr
      cases hr
    | opReturns _ =>
      intro n ws hr
      cases hr
    | opThrows _ _ =>
      intro n ws hr
      cases hr
    | stopSampling _ _ =>
      intro n ws hr
      cases hr
    | rethrow _ _ _ _ =>
      intro n ws hr
      cases hr
    | advance _ => exact hearned
    | loop _ _ _ _ _ _ _ => exact hearned
    | watchGoesOn _ _ _ _ => exact hearned
    | watchEnds _ _ _ => exact hearned
    | watchTick _ _ => exact hearned

/-- Once every probe loop is done, no probe is started any more. -/
theorem allDone_run {more : List Event} (hdone : allDone s = true)
    (hrun : runEvents (step opts) s more = some s') : allDone s' = true := by
  induction more generalizing s with
  | nil =>
    cases hrun
    exact hdone
  | cons e more ih =>
    obtain ⟨m, hm, hrest⟩ := Option.bind_eq_some_iff.mp hrun
    refine ih ?_ hrest
    cases stepTo_of_step hm with
    | loop _ _ _ _ hget hloop _ => exact (loop_lt hdone hget hloop).elim
    | advance _ => exact hdone
    | watchStart _ => exact hdone
    | watchGoesOn _ _ _ _ => exact hdone
    | watchEnds _ _ _ => exact hdone
    | watchTick _ _ => exact hdone
    | opReturns _ => exact hdone
    | opThrows _ _ => exact hdone
    | stopSampling _ _ => exact hdone
    | finish _ _ => exact hdone
    | rethrow _ _ _ _ => exact hdone

end Late

/-! ## The end of sampling -/

/-- What the end of sampling should be: not before the operation has returned
control; not early unless some path failed and all that failed have settled, and
so not early when none failed; and an error is rethrown only when no probe can be
started any more. -/
structure EarnedEnd (opts : SampleOptions) (events : List Event) (s : State) : Prop where
  afterOperation : ∀ n ws, s.main = .returned n ws → .opReturns ∈ events
  notStopped : s.stop = true → .opReturns ∈ events ∨ ∃ error, .opThrows error ∈ events
  early : EarlyEarned opts s
  nullEarned : ∀ n ws, s.main = .returned n ws → (∀ w ∈ ws, w.firstFailMs = none) →
    opts.maxWaitMs ≤ n
  rethrown : ∀ error, s.main = .rethrown error → .opThrows error ∈ events ∧
    ∀ more s', runEvents (step opts) s more = some s' → allDone s' = true

/-- In every run in which no path fails for the first time after the watchdog has
ended early, the end of sampling is earned in every state. -/
theorem sampling_end_earned (opts : SampleOptions) (t0 : Int) (names : List String)
    (events : List Event) (s : State) (hrun : run opts t0 names events = some s)
    (hlate : NoLateFailure opts t0 names events) : EarnedEnd opts events s := by
  have h := endInv_run hrun
  refine ⟨fun n ws hr => (h.returned n ws hr).1, fun hstop => ?_, (stillSettled_run hlate hrun).2,
    fun n ws hr hnone => ?_, fun error hr => ⟨(h.rethrown error hr).1, fun more s' hmore => ?_⟩⟩
  · rcases h.stopped hstop with hm | ⟨n, ws, hr⟩ | ht
    · exact .inl (h.waitingDone (.inr hm))
    · exact .inl (h.returned n ws hr).1
    · cases hmain : s.main with
      | failing error => exact .inr ⟨error, h.failing error hmain⟩
      | rethrown error => exact .inr ⟨error, (h.rethrown error hmain).1⟩
      | _ =>
        rw [hmain] at ht
        exact ht.elim
  · obtain ⟨-, -, hws, -, hearned⟩ := h.returned n ws hr
    rcases hearned with htime | ⟨p, hp, hfailed⟩
    · exact htime
    · have hp' := hnone (finalise p s.pauses n) (by rw [hws]; exact List.mem_map_of_mem hp)
      rw [show (finalise p s.pauses n).firstFailMs = p.firstFailMs from rfl] at hp'
      rw [hp'] at hfailed
      cases hfailed
  · exact allDone_run (h.rethrown error hr).2 hmore

/-! ### One path down and back, the other one -/

def exampleOptions : SampleOptions := { intervalMs := 5, maxWaitMs := 4000, settleMs := 20 }

/-- The first path is down and comes back, and the watchdog ends; after that the
second path answers, and the operation returns. -/
def downAndBackEvents (second : ProbeOutcome) : List Event :=
  [.watchStart, .loopCheck 0, .loopProbe 0, .loopCheck 1, .loopProbe 1,
    .answer 0 ⟨false, some (units "timeout expired")⟩, .answer 1 ⟨true, none⟩, .watchCheck, .advance 10,
    .loopWake 0, .loopWake 1, .loopCheck 0, .loopProbe 0, .answer 0 ⟨true, none⟩, .advance 30,
    .loopWake 0, .loopCheck 0, .loopProbe 0, .answer 0 ⟨true, none⟩, .watchTick, .watchCheck,
    .loopCheck 1, .loopProbe 1, .answer 1 second, .opReturns, .stopSampling,
    .loopWake 0, .loopCheck 0, .loopWake 1, .loopCheck 1, .finish]

/-- What `sampleDuring` returned, and when. -/
def State.result? (s : State) : Option (Int × List PathWindow) :=
  match s.main with
  | .returned n ws => some (n, ws)
  | _ => none

theorem exists_run_of_result? (opts : SampleOptions) (t0 : Int) (names : List String)
    (events : List Event) (n : Int) (ws : List PathWindow)
    (h : (run opts t0 names events).bind State.result? = some (n, ws)) :
    ∃ s, run opts t0 names events = some s ∧ s.main = .returned n ws := by
  obtain ⟨s, hrun, hresult⟩ := Option.bind_eq_some_iff.mp h
  refine ⟨s, hrun, ?_⟩
  unfold State.result? at hresult
  split at hresult
  · rename_i n' ws' hmain
    cases hresult
    exact hmain
  · cases hresult

theorem sampling_end_earned_downAndBack :
    ∃ s ws, run exampleOptions 0 ["rest", "pooler"] (downAndBackEvents ⟨true, none⟩) = some s ∧
      s.main = .returned 40 ws ∧ EarnedEnd exampleOptions (downAndBackEvents ⟨true, none⟩) s := by
  obtain ⟨s, hrun, hmain⟩ := exists_run_of_result? exampleOptions 0 ["rest", "pooler"]
    (downAndBackEvents ⟨true, none⟩) 40 [⟨"rest", false, 3, 1, some 0, some 10, some 10, [units "timeout expired"], 0⟩,
      ⟨"pooler", true, 2, 0, none, none, none, [], 0⟩] (by decide)
  refine ⟨s, _, hrun, hmain, ?_⟩
  exact sampling_end_earned exampleOptions 0 ["rest", "pooler"] _ s hrun
    (noLateFailure_of_never (by decide))

/-- The second path fails after the watchdog has ended: sampling ends after 40 of
4000 ms with a path that is still down. -/
theorem sampling_end_not_earned :
    ∃ s, run exampleOptions 0 ["rest", "pooler"]
        (downAndBackEvents ⟨false, some (units "timeout expired")⟩) = some s ∧
      ¬ EarnedEnd exampleOptions (downAndBackEvents ⟨false, some (units "timeout expired")⟩) s := by
  obtain ⟨s, hrun, hmain⟩ := exists_run_of_result? exampleOptions 0 ["rest", "pooler"]
    (downAndBackEvents ⟨false, some (units "timeout expired")⟩) 40 [⟨"rest", false, 3, 1, some 0, some 10, some 10, [units "timeout expired"], 0⟩,
      ⟨"pooler", true, 2, 1, some 40, none, none, [units "timeout expired"], 0⟩] (by decide)
  refine ⟨s, hrun, fun h => ?_⟩
  have hwindows := (h.early _ _ hmain (by decide)).2 _
    (List.mem_cons_of_mem _ List.mem_cons_self) rfl
  cases hwindows

end Sampling

end SupabaseLab.Harness
