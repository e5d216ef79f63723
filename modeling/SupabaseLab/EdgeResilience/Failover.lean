/-
  EdgeResilience/Failover.lean --- what the worker answers when a standby is configured.

  Every call asks one origin, and the other one when the first failed.  What it serves
  is tagged with the origin it came from, and a recorded failure keeps the order of the
  two.  Nothing catches the second fetch: a call is answered exactly when the fetch it
  depends on in the end gives a response that can be served.
-/
import SupabaseLab.EdgeResilience.Worker

set_option autoImplicit false

namespace SupabaseLab.EdgeResilience

open Library

/-! ## The course of a call -/

/-- A standby is configured. -/
def FailoverMode (w : Nat → Call) : Prop := ∀ k, (w k).env.failoverMode = true

def Origin.other : Origin → Origin
  | .primary => .standby
  | .standby => .primary

/-- The origin that is tried first, at `now` and by the record that was read. -/
def Call.first (c : Call) (now lastFailureTime : Nat) : Origin :=
  if c.env.holds now lastFailureTime then .standby else .primary

/-- The origin's response can be served. -/
def Call.Serves (c : Call) (o : Origin) : Prop :=
  ∃ r, c.originFetch o = .responded r ∧ r.Servable

/-- The response is the origin's, and says so. -/
def Call.Served (c : Call) (o : Origin) (r : Response) : Prop :=
  ∃ r₀, c.originFetch o = .responded r₀ ∧ r.status = r₀.status ∧ r.body = r₀.body ∧
    r.headers.get "x-drill-origin" = some o.name

/-- The origin was asked and its answer is what the call ends with. -/
inductive Final (c : Call) (first : Origin) (asked : List Origin) (o : Origin) : Prop
  | first (hasked : asked = [first]) (ho : o = first) (hfailed : c.failed first = false)
  | other (hasked : asked = [first, first.other]) (ho : o = first.other)
      (hfailed : c.failed first = true)

/-- The call has chosen no origin yet. -/
def Phase.Undecided (phase : Phase) : Prop :=
  phase = .absent ∨ phase = .looking ∨ ∃ last, phase = .deciding last

/-- Where a call is, and what it did before. -/
inductive Course (c : Call) (t : Task) : Prop
  | before (hphase : t.phase.Undecided) (hchose : t.chose = none) (hasked : t.asked = [])
  | trying {now last : Nat} (hchose : t.chose = some (now, last))
      (hphase : t.phase = .asking (c.first now last) false) (hasked : t.asked = [c.first now last])
  | retrying {now last : Nat} (hchose : t.chose = some (now, last))
      (hphase : t.phase = .asking (c.first now last).other true)
      (hasked : t.asked = [c.first now last, (c.first now last).other])
      (hfailed : c.failed (c.first now last) = true)
  | served {now last : Nat} {o : Origin} {r : Response} (hchose : t.chose = some (now, last))
      (hfinal : Final c (c.first now last) t.asked o) (hphase : t.phase = .replied r)
      (hserved : c.Served o r)
  | rejected {now last : Nat} {o : Origin} (hchose : t.chose = some (now, last))
      (hfinal : Final c (c.first now last) t.asked o) (hphase : t.phase = .rejected)
      (hserves : ¬ c.Serves o)

/-- When the event settles a fetch after which no other one is made, its response can be
served. -/
def AnswersAt (w : Nat → Call) (s : Worker) (e : Event) : Prop :=
  ∀ k now o last, e = .settle k now → (s.tasks k).phase = .asking o last →
    (last = true ∨ (w k).failed o = false) → (w k).Serves o

section Course

variable {w : Nat → Call} {c : Call} {s s' : Worker} {t t' : Task} {k : Nat} {r : Response}
  {o : Origin} {e : Event}

/-- The end of a call, with the origin it depends on. -/
theorem finish_cases (t : Task) (r : Response) (o : Origin) :
    (r.Servable ∧ ∃ r', (finish t r o).phase = .replied r' ∧ r'.status = r.status ∧
        r'.body = r.body ∧ r'.headers.get "x-drill-origin" = some o.name) ∨
      (¬ r.Servable ∧ (finish t r o).phase = .rejected) := by
  unfold finish
  split
  · next hok =>
    have hservable := Response.servable_of_ok hok
    obtain ⟨tagged, htag⟩ := withTag_of_servable "MISS" (some o.name) hservable
    have htagged := tagged_of_withTag htag
    dsimp only
    rw [htag]
    exact .inl ⟨hservable, tagged, rfl, htagged.status, htagged.body, htagged.originTag _ rfl⟩
  · cases htag : withTag r "PASS" (some o.name) with
    | none => exact .inr ⟨withTag_eq_none.mp htag, rfl⟩
    | some tagged =>
      have htagged := tagged_of_withTag htag
      exact .inl ⟨htagged.servable, tagged, rfl, htagged.status, htagged.body,
        htagged.originTag _ rfl⟩

theorem finish_frame (t : Task) (r : Response) (o : Origin) :
    (finish t r o).asked = t.asked ∧ (finish t r o).chose = t.chose := by
  unfold finish
  split
  · cases withTag r "MISS" _ <;> exact ⟨rfl, rfl⟩
  · cases withTag r "PASS" _ <;> exact ⟨rfl, rfl⟩

/-- The fetch that a call depends on in the end. -/
theorem course_finish {now last : Nat} (hchose : t.chose = some (now, last))
    (hfinal : Final c (c.first now last) t.asked o) (hfetch : c.originFetch o = .responded r) :
    Course c (finish (t.settle o) r o) := by
  obtain ⟨hasked, hsame⟩ := finish_frame (t.settle o) r o
  obtain ⟨-, r', hphase, hstatus, hbody, htag⟩ | ⟨hbroken, hphase⟩ := finish_cases (t.settle o) r o
  · exact .served (hsame.trans hchose) (hasked ▸ hfinal) hphase ⟨r, hfetch, hstatus, hbody, htag⟩
  · refine .rejected (hsame.trans hchose) (hasked ▸ hfinal) hphase ?_
    rintro ⟨r', hfetch', hservable⟩
    cases hfetch.symm.trans hfetch'
    exact hbroken hservable

theorem Course.settles {time : Nat} {last : Bool} (hmode : c.env.failoverMode = true)
    (h : Course c t) (hphase : t.phase = .asking o last) (ht' : Settles c t time o last t') :
    Course c t' := by
  cases h with
  | before hbefore hchose hasked =>
    rcases hbefore with hother | hother | ⟨_, hother⟩ <;> rw [hother] at hphase <;> cases hphase
  | trying hchose htrying hasked =>
    rw [htrying] at hphase
    cases hphase
    cases ht' with
    | finish hfetch hserve =>
      exact course_finish hchose (.first hasked rfl (hserve.resolve_left Bool.false_ne_true)) hfetch
    | reject hlast hfetch => cases hlast
    | toPrimary hlast ho hfailed =>
      have hother : (c.first _ _).other = .primary := congrArg Origin.other ho
      refine .retrying hchose ?_ ?_ hfailed
      · rw [hother]
        rfl
      · rw [hother]
        exact congrArg (· ++ [Origin.primary]) hasked
    | toStandby hlast ho hfailed hmode =>
      have hother : (c.first _ _).other = .standby := congrArg Origin.other ho
      refine .retrying hchose ?_ ?_ hfailed
      · rw [hother]
        rfl
      · rw [hother]
        exact congrArg (· ++ [Origin.standby]) hasked
    | reread hlast ho hfailed hmode' =>
      rw [hmode] at hmode'
      cases hmode'
  | retrying hchose hretrying hasked hfailed =>
    rw [hretrying] at hphase
    cases hphase
    cases ht' with
    | finish hfetch hserve => exact course_finish hchose (.other hasked rfl hfailed) hfetch
    | reject hlast hfetch =>
      refine .rejected hchose (.other hasked rfl hfailed) rfl ?_
      rintro ⟨r, hfetch', -⟩
      rw [hfetch] at hfetch'
      cases hfetch'
    | toPrimary hlast ho hfailed => cases hlast
    | toStandby hlast ho hfailed hmode => cases hlast
    | reread hlast ho hfailed hmode' => cases hlast
  | served hchose hfinal hreplied hserved =>
    rw [hreplied] at hphase
    cases hphase
  | rejected hchose hfinal hrejected hserves =>
    rw [hrejected] at hphase
    cases hphase

/-- A put leaves the course of its call as it is. -/
theorem Course.put {copy : Option Response} {failure : Option Nat} (h : Course c t) :
    Course c { t with copy := copy, failure := failure } := by
  cases h with
  | before hphase hchose hasked => exact .before hphase hchose hasked
  | trying hchose hphase hasked => exact .trying hchose hphase hasked
  | retrying hchose hphase hasked hfailed => exact .retrying hchose hphase hasked hfailed
  | served hchose hfinal hphase hserved => exact .served hchose hfinal hphase hserved
  | rejected hchose hfinal hphase hserves => exact .rejected hchose hfinal hphase hserves

/-- Before the choice nothing is chosen and nobody asked. -/
theorem Course.of_undecided (h : Course c t) (hphase : t.phase.Undecided) :
    t.chose = none ∧ t.asked = [] := by
  cases h with
  | before _ hchose hasked => exact ⟨hchose, hasked⟩
  | _ => simp_all [Phase.Undecided]

/-- Nothing but the phase changes while the call has not chosen. -/
theorem Course.undecided {phase : Phase} (h : Course c t) (hphase : t.phase.Undecided)
    (hnext : phase.Undecided) : Course c { t with phase := phase } :=
  .before hnext (h.of_undecided hphase).1 (h.of_undecided hphase).2

/-- Where the step of a call leads from, and where to. -/
theorem course_move {j : Nat} (h : ∀ k, Course (w k) (s.tasks k)) (htasks : s'.tasks = s.tasks)
    (ht : Course (w k) t) : Course (w j) ((s'.setTask k t).tasks j) := by
  by_cases hj : j = k
  · subst hj
    rwa [Worker.setTask_tasks_self]
  · rw [Worker.setTask_tasks_of_ne _ _ hj, htasks]
    exact h j

/-- In failover mode the second `cache.match(cacheKey)` is not reached. -/
theorem Course.not_rereading (h : Course c t) : t.phase ≠ .rereading := by
  cases h with
  | before hphase _ _ =>
    rcases hphase with hphase | hphase | ⟨_, hphase⟩ <;> rw [hphase] <;> simp
  | trying _ hphase _ => simp [hphase]
  | retrying _ hphase _ _ => simp [hphase]
  | served _ _ hphase _ => simp [hphase]
  | rejected _ _ hphase _ => simp [hphase]

theorem course_step (hmode : FailoverMode w) (h : ∀ k, Course (w k) (s.tasks k))
    (hstep : workerStep w s e = some s') : ∀ k, Course (w k) (s'.tasks k) := by
  intro j
  cases workerStep_moves hstep with
  | @hit k e hphase hcache hmatch =>
    rw [hmode k] at hcache
    cases hcache
  | @miss k hphase hmatch =>
    exact course_move h rfl ((h k).undecided (.inl hphase) (.inr (.inl rfl)))
  | @look k hphase =>
    exact course_move h rfl ((h k).undecided (.inr (.inl hphase)) (.inr (.inr ⟨_, rfl⟩)))
  | @decide k now last hclock hphase =>
    obtain ⟨-, hasked⟩ := (h k).of_undecided (.inr (.inr ⟨last, hphase⟩))
    exact course_move h rfl (.trying rfl rfl (congrArg (· ++ [(w k).first now last]) hasked))
  | @settle k now o last hclock hphase =>
    exact course_move h rfl ((h k).settles (hmode k) hphase (afterFetch_settles _ _ _ _ _))
  | @stale k e hphase hmatch => exact absurd hphase (h k).not_rereading
  | @empty k hphase hmatch => exact absurd hphase (h k).not_rereading
  | @put k r hcopy => exact course_move h (Worker.store_tasks _ _) (h k).put
  | @putFailure k time hfailure => exact course_move h rfl (h k).put
  | evict => exact h j
  | evictFailure => exact h j

theorem course_run (hmode : FailoverMode w) (es : List Event)
    (hrun : runEvents (workerStep w) {} es = some s) : ∀ k, Course (w k) (s.tasks k) :=
  runEvents_invariant (I := fun _ s => ∀ k, Course (w k) (s.tasks k))
    (fun _ => .before (.inl rfl) rfl rfl)
    (fun _ _ _ _ _ hinv hstep => course_step hmode hinv hstep) es s hrun

/-! ## Which calls are answered -/

/-- A settled fetch makes the handler reject when nothing is left to try and its response,
if there is one, cannot be served. -/
theorem Settles.rejected_iff {now : Nat} {last : Bool} (h : Settles c t now o last t') :
    t'.phase = .rejected ↔ (last = true ∨ c.failed o = false) ∧ ¬ c.Serves o := by
  cases h with
  | @finish r hfetch hserve =>
    obtain ⟨hservable, r', hphase, -⟩ | ⟨hbroken, hphase⟩ := finish_cases (t.settle o) r o
    · have hserves : c.Serves o := ⟨r, hfetch, hservable⟩
      simp [hphase, hserves]
    · have hserves : ¬ c.Serves o := by
        rintro ⟨r', hfetch', hservable⟩
        cases hfetch.symm.trans hfetch'
        exact hbroken hservable
      simp [hphase, hserves, hserve]
  | reject hlast hfetch =>
    have hserves : ¬ c.Serves o := by
      rintro ⟨r, hfetch', -⟩
      rw [hfetch] at hfetch'
      cases hfetch'
    simp [hlast, hserves]
  | toPrimary hlast ho hfailed => simp [Task.ask, hlast, hfailed]
  | toStandby hlast ho hfailed hmode => simp [Task.ask, hlast, hfailed]
  | reread hlast ho hfailed hmode => simp [hlast, hfailed]

def NoneRejected (s : Worker) : Prop := ∀ k, (s.tasks k).phase ≠ .rejected

theorem noneRejected_setTask (htasks : s'.tasks = s.tasks) (hphase : (s.tasks k).phase ≠ .rejected) :
    NoneRejected (s'.setTask k t) ↔ NoneRejected s ∧ t.phase ≠ .rejected := by
  constructor
  · intro h
    have hself := h k
    rw [Worker.setTask_tasks_self] at hself
    refine ⟨fun j => ?_, hself⟩
    by_cases hj : j = k
    · rwa [hj]
    · have hother := h j
      rwa [Worker.setTask_tasks_of_ne _ _ hj, htasks] at hother
  · rintro ⟨h, hself⟩ j
    by_cases hj : j = k
    · rw [hj, Worker.setTask_tasks_self]
      exact hself
    · rw [Worker.setTask_tasks_of_ne _ _ hj, htasks]
      exact h j

/-- A step that settles nothing rejects nothing. -/
theorem noneRejected_quiet (he : ∀ k now, e ≠ .settle k now)
    (hsame : NoneRejected s' ↔ NoneRejected s) : NoneRejected s' ↔ NoneRejected s ∧ AnswersAt w s e := by
  have hquiet : AnswersAt w s e := fun k now _ _ hsettle => absurd hsettle (he k now)
  rw [hsame]
  exact ⟨fun h => ⟨h, hquiet⟩, And.left⟩

theorem noneRejected_step (hmode : FailoverMode w) (hcourse : ∀ k, Course (w k) (s.tasks k))
    (hstep : workerStep w s e = some s') : NoneRejected s' ↔ NoneRejected s ∧ AnswersAt w s e := by
  cases workerStep_moves hstep with
  | @hit k e hphase hcache hmatch =>
    rw [hmode k] at hcache
    cases hcache
  | @miss k hphase hmatch =>
    refine noneRejected_quiet (by simp) ?_
    rw [noneRejected_setTask rfl (by simp [hphase])]
    simp
  | @look k hphase =>
    refine noneRejected_quiet (by simp) ?_
    rw [noneRejected_setTask rfl (by simp [hphase])]
    simp
  | @decide k now last hclock hphase =>
    refine noneRejected_quiet (by simp) ?_
    rw [noneRejected_setTask rfl (by simp [hphase])]
    simp only [Task.ask, ne_eq, reduceCtorEq, not_false_eq_true, and_true]
    exact Iff.rfl
  | @settle k now o last hclock hphase =>
    rw [noneRejected_setTask rfl (by simp [hphase])]
    refine and_congr_right fun _ => ?_
    rw [Ne, (afterFetch_settles (w k) (s.tasks k) now o last).rejected_iff]
    constructor
    · rintro h k' now' o' last' ⟨⟩ hphase' hend
      rw [hphase] at hphase'
      cases hphase'
      by_contra hserves
      exact h ⟨hend, hserves⟩
    · rintro h ⟨hend, hserves⟩
      exact hserves (h k now o last rfl hphase hend)
  | @stale k e hphase hmatch => exact absurd hphase (hcourse k).not_rereading
  | @empty k hphase hmatch => exact absurd hphase (hcourse k).not_rereading
  | @put k r hcopy =>
    refine noneRejected_quiet (by simp) (forall_congr' fun j => ?_)
    by_cases hj : j = k
    · subst hj
      rw [Worker.setTask_tasks_self]
    · rw [Worker.setTask_tasks_of_ne _ _ hj, Worker.store_tasks]
  | @putFailure k time hfailure =>
    refine noneRejected_quiet (by simp) (forall_congr' fun j => ?_)
    by_cases hj : j = k
    · subst hj
      rw [Worker.setTask_tasks_self]
    · rw [Worker.setTask_tasks_of_ne _ _ hj]
  | evict => exact noneRejected_quiet (by simp) Iff.rfl
  | evictFailure => exact noneRejected_quiet (by simp) Iff.rfl

theorem noneRejected_iff (hmode : FailoverMode w) (es : List Event) (s : Worker)
    (hrun : runEvents (workerStep w) {} es = some s) :
    NoneRejected s ↔ AlongRun (workerStep w) (AnswersAt w) {} es := by
  induction es using List.reverseRecOn generalizing s with
  | nil =>
    cases hrun
    exact ⟨fun _ => alongRun_nil, fun _ _ => by simp⟩
  | append_singleton es e ih =>
    obtain ⟨m, hm, hlast⟩ := runEvents_concat.mp hrun
    rw [noneRejected_step hmode (course_run hmode es hm) hlast, ih m hm, alongRun_concat hm]

/-! ## Every call comes to its end -/

/-- How many steps a call has before it at most. -/
def Phase.left : Phase → Nat
  | .absent => 5
  | .looking => 4
  | .deciding _ => 3
  | .asking _ false => 2
  | .asking _ true | .rereading => 1
  | .replied _ | .rejected => 0

/-- The call has been answered, or its handler has rejected. -/
def Phase.Ended (phase : Phase) : Prop := (∃ r, phase = .replied r) ∨ phase = .rejected

theorem Phase.left_le (phase : Phase) : phase.left ≤ 5 := by
  cases phase with
  | asking o last => cases last <;> simp [Phase.left]
  | _ => simp [Phase.left]

theorem Phase.ended_of_left {phase : Phase} (h : phase.left = 0) : phase.Ended := by
  cases phase with
  | replied r => exact .inl ⟨r, rfl⟩
  | rejected => exact .inr rfl
  | asking o last => cases last <;> simp [Phase.left] at h
  | _ => simp [Phase.left] at h

theorem Settles.left_lt {now : Nat} {last : Bool} (h : Settles c t now o last t') :
    t'.phase.left < (Phase.asking o last).left := by
  have hpos : 0 < (Phase.asking o last).left := by cases last <;> exact Nat.succ_pos _
  cases h with
  | @finish r hfetch hserve =>
    obtain ⟨-, r', hphase, -⟩ | ⟨-, hphase⟩ := finish_cases (t.settle o) r o
    · rw [hphase]
      exact hpos
    · rw [hphase]
      exact hpos
  | reject hlast hfetch => exact hpos
  | toPrimary hlast ho hfailed =>
    subst hlast
    exact Nat.lt_succ_self 1
  | toStandby hlast ho hfailed hmode =>
    subst hlast
    exact Nat.lt_succ_self 1
  | reread hlast ho hfailed hmode =>
    subst hlast
    exact Nat.lt_succ_self 1

/-- A call that has not ended can go on. -/
theorem exists_next (hmode : FailoverMode w) (hcourse : Course (w k) (s.tasks k))
    (hleft : 0 < (s.tasks k).phase.left) : ∃ e s', e.call = some k ∧
      workerStep w s e = some s' ∧ (s'.tasks k).phase.left < (s.tasks k).phase.left := by
  cases hphase : (s.tasks k).phase with
  | absent =>
    have hmiss : (w k).env.failoverMode = false → s.match? (w k).request = none := by
      rw [hmode k]
      intro h
      cases h
    refine ⟨.arrive k, _, rfl, Moves.step (.miss hphase hmiss), ?_⟩
    rw [Worker.setTask_tasks_self]
    exact Nat.lt_succ_self 4
  | looking =>
    refine ⟨.look k, _, rfl, Moves.step (.look hphase), ?_⟩
    rw [Worker.setTask_tasks_self]
    exact Nat.lt_succ_self 3
  | deciding last =>
    refine ⟨.decide k s.clock, _, rfl, Moves.step (.decide (le_refl _) hphase), ?_⟩
    rw [Worker.setTask_tasks_self]
    exact Nat.lt_succ_self 2
  | asking o last =>
    refine ⟨.settle k s.clock, _, rfl, Moves.step (.settle (le_refl _) hphase), ?_⟩
    rw [Worker.setTask_tasks_self]
    exact (afterFetch_settles (w k) (s.tasks k) s.clock o last).left_lt
  | rereading => exact absurd hphase hcourse.not_rereading
  | replied r =>
    rw [hphase] at hleft
    exact absurd hleft (Nat.lt_irrefl 0)
  | rejected =>
    rw [hphase] at hleft
    exact absurd hleft (Nat.lt_irrefl 0)

/-- From where it is, a call ends after its own steps alone. -/
theorem exists_end (hmode : FailoverMode w) (n : Nat) (s : Worker)
    (hcourse : ∀ k, Course (w k) (s.tasks k)) (hleft : (s.tasks k).phase.left ≤ n) :
    ∃ es s', es.length ≤ n ∧ (∀ e ∈ es, e.call = some k) ∧
      runEvents (workerStep w) s es = some s' ∧ (s'.tasks k).phase.Ended := by
  induction n generalizing s with
  | zero =>
    exact ⟨[], s, le_refl _, by simp, rfl, Phase.ended_of_left (Nat.le_zero.mp hleft)⟩
  | succ n ih =>
    by_cases hpos : 0 < (s.tasks k).phase.left
    · obtain ⟨e, m, hcall, hstep, hlt⟩ := exists_next hmode (hcourse k) hpos
      obtain ⟨es, s', hlength, hcalls, hrun, hended⟩ :=
        ih m (course_step hmode hcourse hstep) (by omega)
      refine ⟨e :: es, s', Nat.succ_le_succ hlength, ?_, ?_, hended⟩
      · exact List.forall_mem_cons.mpr ⟨hcall, hcalls⟩
      · rw [runEvents_cons, hstep]
        exact hrun
    · exact ⟨[], s, Nat.zero_le _, by simp, rfl, Phase.ended_of_left (by omega)⟩

/-! ## What a call ends with, and in which order it asks -/

/-- What is served is tagged with the origin that was asked last. -/
theorem Course.tagged (h : Course c t) (hphase : t.phase = .replied r) :
    ∃ o, t.asked.getLast? = some o ∧ c.Served o r := by
  cases h with
  | before hbefore _ _ =>
    rcases hbefore with hother | hother | ⟨_, hother⟩ <;> rw [hother] at hphase <;> cases hphase
  | trying _ htrying _ =>
    rw [htrying] at hphase
    cases hphase
  | retrying _ hretrying _ _ =>
    rw [hretrying] at hphase
    cases hphase
  | @served _ _ o _ _ hfinal hreplied hserved =>
    rw [hreplied] at hphase
    cases hphase
    refine ⟨o, ?_, hserved⟩
    cases hfinal with
    | first hasked ho _ => rw [hasked, ho]; rfl
    | other hasked ho _ => rw [hasked, ho]; rfl
  | rejected _ _ hrejected _ =>
    rw [hrejected] at hphase
    cases hphase

/-- The second origin is asked only when the first one failed. -/
theorem Course.order {now last : Nat} (h : Course c t) (hchose : t.chose = some (now, last)) :
    t.asked.head? = some (c.first now last) ∧
      ((c.first now last).other ∈ t.asked → c.failed (c.first now last) = true) := by
  have hne : (c.first now last).other ≠ c.first now last := by
    cases c.first now last <;> decide
  cases h with
  | before _ hnone _ =>
    rw [hnone] at hchose
    cases hchose
  | trying hsome _ hasked =>
    cases hsome.symm.trans hchose
    rw [hasked]
    exact ⟨rfl, fun hmem => absurd (List.mem_singleton.mp hmem) hne⟩
  | retrying hsome _ hasked hfailed =>
    cases hsome.symm.trans hchose
    rw [hasked]
    exact ⟨rfl, fun _ => hfailed⟩
  | served hsome hfinal _ _ =>
    cases hsome.symm.trans hchose
    cases hfinal with
    | first hasked _ _ =>
      rw [hasked]
      exact ⟨rfl, fun hmem => absurd (List.mem_singleton.mp hmem) hne⟩
    | other hasked _ hfailed =>
      rw [hasked]
      exact ⟨rfl, fun _ => hfailed⟩
  | rejected hsome hfinal _ _ =>
    cases hsome.symm.trans hchose
    cases hfinal with
    | first hasked _ _ =>
      rw [hasked]
      exact ⟨rfl, fun hmem => absurd (List.mem_singleton.mp hmem) hne⟩
    | other hasked _ hfailed =>
      rw [hasked]
      exact ⟨rfl, fun _ => hfailed⟩

end Course

/-! ## Failover -/

/-- In failover mode the handler rejects no call exactly when every fetch that a call
depends on in the end can be served.  In every run a call that is answered carries the name
of the origin whose answer it is; a call that goes by a failure of less than `HOLD_MS` ago
asks the standby first, and the primary only if the standby failed; and every call can come
to its end by itself. -/
theorem failover_answers_iff (w : Nat → Call) (hmode : FailoverMode w) (es : List Event) (s : Worker)
    (hrun : runEvents (workerStep w) {} es = some s) :
    ((∀ k, (s.tasks k).phase ≠ .rejected) ↔ AlongRun (workerStep w) (AnswersAt w) {} es) ∧
      (∀ k r, (s.tasks k).phase = .replied r →
        ∃ o, (s.tasks k).asked.getLast? = some o ∧ (w k).Served o r) ∧
      (∀ k now t holdMs, (s.tasks k).chose = some (now, t) → (w k).env.holdMs = some holdMs →
        t ≤ now → (now : Int) < t + holdMs → (s.tasks k).asked.head? = some .standby ∧
          (.primary ∈ (s.tasks k).asked → (w k).failed .standby = true)) ∧
      ∀ k, ∃ es' s', es'.length ≤ 5 ∧ (∀ e ∈ es', e.call = some k) ∧
        runEvents (workerStep w) s es' = some s' ∧ (s'.tasks k).phase.Ended := by
  have hcourse := course_run hmode es hrun
  refine ⟨noneRejected_iff hmode es s hrun, fun k r => (hcourse k).tagged, ?_, fun k => ?_⟩
  · intro k now t holdMs hchose hhold hafter hbefore
    have hfirst : (w k).first now t = .standby := by
      have hpositive : 0 < holdMs := by omega
      have hwithin : (now : Int) - t < holdMs := by omega
      unfold Call.first Env.holds
      simp [hmode k, hhold, hpositive, hwithin]
    obtain ⟨hhead, horder⟩ := (hcourse k).order hchose
    rw [hfirst] at hhead horder
    exact ⟨hhead, horder⟩
  · exact exists_end hmode 5 s hcourse (Phase.left_le _)

theorem probe_cacheable : "/rest/v1/w_probe".toList <+: "/rest/v1/w_probe".toList :=
  List.prefix_refl _

/-- A primary that answers 503, with a standby that does what it does. -/
def primaryDown (standby : Outcome) (_ : Nat) : Call where
  request :=
    { pathname := "/rest/v1/w_probe"
      search := "?select=id"
      headers := [("apikey", "anon")]
      cacheable := probe_cacheable }
  env :=
    { upstream := "https://primary.example"
      failoverStandby := some "https://standby.example"
      holdMs := some 60000 }
  fetch
    | .primary, _ => .responded ⟨503, [], "down"⟩
    | .standby, _ => standby

/-- One call fails over, and another one comes half a second later. -/
def heldCalls : List Event :=
  [.arrive 0, .look 0, .decide 0 1000000, .settle 0 1000000, .putFailure 0, .settle 0 1000200,
    .arrive 1, .look 1, .decide 1 1000500, .settle 1 1000700]

theorem held_on_standby : ∃ s,
    runEvents (workerStep (primaryDown (.responded ⟨200, [], "[]"⟩))) {} heldCalls = some s ∧
      (s.tasks 1).chose = some (1000500, 1000000) ∧ (s.tasks 1).asked.head? = some .standby := by
  refine ⟨_, rfl, rfl, ?_⟩
  exact ((failover_answers_iff (primaryDown (.responded ⟨200, [], "[]"⟩)) (fun _ => rfl) heldCalls _
    rfl).2.2.1 1 1000500 1000000 60000 rfl rfl (by decide) (by decide)).1

/-- With the standby out of reach as well the handler rejects. -/
theorem both_down_rejects : FailoverMode (primaryDown .rejected) ∧
    ∃ s, runEvents (workerStep (primaryDown .rejected)) {}
        [.arrive 0, .look 0, .decide 0 1000000, .settle 0 1000000, .settle 0 1000000] = some s ∧
      (s.tasks 0).phase = .rejected :=
  ⟨fun _ => rfl, _, rfl, rfl⟩

end SupabaseLab.EdgeResilience
