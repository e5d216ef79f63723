/-
  Multigres/Writers.lean --- the writers of a failover run, and what is made of their log.

  Source: `startWriters` and `WriterOpts` of experiments/multigres/lib/load.ts, and the
  end of `runScenario` in experiments/multigres/lib/scenario.ts, which stops the writers,
  reads the table back and hands both to `analyse`.

  Each worker writes its own numbers over its own connection, one statement at a time,
  and goes on with the next number whatever became of the last one.  The server is known
  by what it may do: a statement that was sent lands once or never, at any time, also
  after its client has given up; it is acknowledged only when it has landed; and a
  failover may drop rows that have landed.  The clock does not go back.  How long a
  sleep takes is not enforced.
-/
import SupabaseLab.Library.Machine
import SupabaseLab.Library.Octets
import SupabaseLab.Multigres.Load

set_option autoImplicit false

namespace SupabaseLab.Multigres

open Library

/-! ## The writers -/

structure WriterOpts where
  workers : Nat
  /-- Sleep between statements on one worker.  0 or absent = closed loop. -/
  pauseMs : Option Nat := none
  deriving DecidableEq, Repr

/-- `if (o.pauseMs)`. -/
def WriterOpts.pauses (o : WriterOpts) : Bool := o.pauseMs.getD 0 ≠ 0

structure ConnectError where
  t : Int
  err : String
  deriving DecidableEq, Repr

structure ConnectWait where
  t : Int
  ms : Int
  deriving DecidableEq, Repr

/-- What a worker waits for. -/
inductive WorkerPhase where
  /-- `c.connect()`, since `tc` -/
  | connecting (tc : Int)
  /-- `c.end()` of a client that did not connect -/
  | closing
  /-- the 100 ms before the next try -/
  | sleeping
  /-- the statement sent at `t0` -/
  | querying (t0 : Int)
  | pausing (connected : Bool)
  /-- `client.end()`, after the loop -/
  | ending
  | done
  deriving DecidableEq, Repr

structure Worker where
  n : Nat := 0
  phase : WorkerPhase
  deriving DecidableEq, Repr

/-- The writers, and the server they write to. -/
structure Writers where
  now : Int
  stopping : Bool := false
  workers : List Worker
  events : List WriteEvent := []
  connectErrors : List ConnectError := []
  connectWaits : List ConnectWait := []
  /-- the statements that were sent, by their rows -/
  sent : List (Nat × Nat) := []
  /-- the statements that were committed -/
  landed : List (Nat × Nat) := []
  /-- the committed rows that a failover has dropped -/
  dropped : List (Nat × Nat) := []
  deriving DecidableEq, Repr

/-- What settles for a worker. -/
inductive Settles where
  | connected
  | refused (err : String)
  | closed
  | slept
  | acked
  | failed (err : String)
  | ended
  deriving DecidableEq, Repr

inductive LoadEvent where
  | resumes (now : Int) (w : Nat) (settles : Settles)
  /-- `stop()` -/
  | stop
  | lands (row : Nat × Nat)
  | drops (row : Nat × Nat)
  deriving DecidableEq, Repr

def startWriters (o : WriterOpts) (now : Int) : Writers where
  now := now
  workers := List.replicate o.workers { phase := .connecting now }

def Writers.put (s : Writers) (w : Nat) (ws : Worker) : Writers :=
  { s with workers := s.workers.set w ws }

/-- The next statement of a worker that has written `n`. -/
def Writers.send (s : Writers) (w n : Nat) : Writers :=
  { s.put w { n := n + 1, phase := .querying s.now } with sent := s.sent ++ [(w, n + 1)] }

/-- `while (!stopping)`, where the worker has a client or not. -/
def Writers.loop (s : Writers) (w n : Nat) (connected : Bool) : Writers :=
  if s.stopping then s.put w { n := n, phase := if connected then .ending else .done }
  else if connected then s.send w n
  else s.put w { n := n, phase := .connecting s.now }

/-- A statement goes into the log, and the worker goes on. -/
def Writers.log (s : Writers) (o : WriterOpts) (e : WriteEvent) : Writers :=
  let s := { s with events := s.events ++ [e] }
  if o.pauses then s.put e.w { n := e.n, phase := .pausing e.ok } else s.loop e.w e.n e.ok

def Writers.resume (o : WriterOpts) (s : Writers) (w n : Nat) : WorkerPhase → Settles →
    Option Writers
  | .connecting tc, .connected =>
      some (Writers.send
        { s with
          connectWaits := s.connectWaits ++
            if 200 < s.now - tc then [{ t := tc, ms := s.now - tc }] else [] }
        w n)
  | .connecting _, .refused err =>
      some (Writers.put
        { s with connectErrors := s.connectErrors ++ [{ t := s.now, err := cut 160 err }] }
        w { n := n, phase := .closing })
  | .closing, .closed => some (s.put w { n := n, phase := .sleeping })
  | .sleeping, .slept => some (s.loop w n false)
  | .querying t0, .acked =>
      if (w, n) ∈ s.landed then some (s.log o { w := w, n := n, t0 := t0, t1 := s.now, ok := true })
      else none
  | .querying t0, .failed err =>
      some (s.log o
        { w := w, n := n, t0 := t0, t1 := s.now, ok := false, err := some (cut 160 err) })
  | .pausing connected, .slept => some (s.loop w n connected)
  | .ending, .ended => some (s.put w { n := n, phase := .done })
  | _, _ => none

def Writers.step (o : WriterOpts) (s : Writers) : LoadEvent → Option Writers
  | .resumes now w settles =>
      if now < s.now then none
      else (s.workers[w]?).bind fun ws =>
        Writers.resume o { s with now := now } w ws.n ws.phase settles
  | .stop => some { s with stopping := true }
  | .lands row =>
      if row ∈ s.sent ∧ row ∉ s.landed then some { s with landed := s.landed ++ [row] } else none
  | .drops row => if row ∈ s.landed then some { s with dropped := s.dropped ++ [row] } else none

/-- The rows that the table holds. -/
def Writers.table (s : Writers) : List (Nat × Nat) := s.landed.filter fun row => row ∉ s.dropped

/-- Every worker has returned, as `stop()` waits for. -/
def Writers.Stopped (s : Writers) : Prop := ∀ ws ∈ s.workers, ws.phase = .done

/-! ## The log -/

/-- The numbers of one worker among rows. -/
def ofWorker (w : Nat) (rows : List (Nat × Nat)) : List Nat :=
  (rows.filter fun row => row.1 = w).map Prod.snd

/-- How many statements of a worker are in the log. -/
def Worker.logged (ws : Worker) : Nat :=
  match ws.phase with
  | .querying _ => ws.n - 1
  | _ => ws.n

/-- The log of the writers: each worker counts up from 1, one statement after the other. -/
structure WellLogged (s : Writers) : Prop where
  numbers : ∀ (w : Nat) (ws : Worker), s.workers[w]? = some ws →
    ofWorker w (s.events.map WriteEvent.id) = List.range' 1 ws.logged
  times : ∀ e ∈ s.events, e.t0 ≤ e.t1 ∧ e.t1 ≤ s.now
  ordered : s.events.Pairwise fun e e' => e.w = e'.w → e.t1 ≤ e'.t0

structure WritersInv (s : Writers) : Prop extends WellLogged s where
  sent : ∀ (w : Nat) (ws : Worker), s.workers[w]? = some ws → ofWorker w s.sent = List.range' 1 ws.n
  workers : (∀ row ∈ s.sent, row.1 < s.workers.length) ∧
    ∀ e ∈ s.events, e.w < s.workers.length
  querying : ∀ (w n : Nat) (t0 : Int), s.workers[w]? = some { n := n, phase := .querying t0 } →
    0 < n ∧ t0 ≤ s.now ∧ ∀ e ∈ s.events, e.w = w → e.t1 ≤ t0
  landed : s.landed.Nodup ∧ ∀ row ∈ s.landed, row ∈ s.sent
  acked : ∀ e ∈ s.events, e.ok = true → e.id ∈ s.landed
  dropped : ∀ row ∈ s.dropped, row ∈ s.landed

section Writers

variable {o : WriterOpts} {s s' : Writers} {w n : Nat} {ws ws' : Worker}
  {rows rows' : List (Nat × Nat)}

theorem ofWorker_concat (row : Nat × Nat) :
    ofWorker w (rows ++ [row]) = ofWorker w rows ++ if row.1 = w then [row.2] else [] := by
  rw [ofWorker, List.filter_append, List.map_append]
  congr 1
  rw [List.filter_singleton]
  split
  · next h =>
    rw [decide_eq_true h]
    rfl
  · next h =>
    rw [decide_eq_false h]
    rfl

theorem mem_ofWorker : n ∈ ofWorker w rows ↔ (w, n) ∈ rows := by
  rw [ofWorker, List.mem_map]
  constructor
  · rintro ⟨row, hrow, rfl⟩
    obtain ⟨hmem, hw⟩ := List.mem_filter.mp hrow
    rwa [← of_decide_eq_true hw]
  · exact fun h => ⟨(w, n), List.mem_filter.mpr ⟨h, decide_eq_true rfl⟩, rfl⟩

theorem nodup_of_ofWorker (h : ∀ w, (ofWorker w rows).Nodup) : rows.Nodup := by
  rw [List.nodup_iff_count_le_one]
  intro row
  have hcount : rows.count row = (ofWorker row.1 rows).count row.2 := by
    rw [ofWorker, List.count_eq_countP, List.count_eq_countP, List.countP_map, List.countP_filter]
    refine List.countP_congr fun x _ => ?_
    obtain ⟨a, b⟩ := x
    obtain ⟨c, d⟩ := row
    simp [and_comm]
  rw [hcount]
  exact List.nodup_iff_count_le_one.mp (h row.1) row.2

theorem range'_one_succ (n : Nat) : List.range' 1 (n + 1) = List.range' 1 n ++ [n + 1] := by
  rw [List.range'_1_concat, Nat.add_comm 1]

theorem worker_put (hws : s.workers[w]? = some ws) (v : Nat) (u : Worker) :
    (s.put w ws').workers[v]? = some u ↔ v = w ∧ u = ws' ∨ v ≠ w ∧ s.workers[v]? = some u := by
  obtain ⟨hw, -⟩ := List.getElem?_eq_some_iff.mp hws
  rw [Writers.put]
  by_cases hvw : v = w
  · subst hvw
    rw [List.getElem?_set_self hw]
    simp [eq_comm]
  · rw [List.getElem?_set_ne (Ne.symm hvw)]
    simp [hvw]

/-- A worker that waits for something else than a statement. -/
theorem WritersInv.put (h : WritersInv s) (hws : s.workers[w]? = some ws) (hn : ws'.n = ws.n)
    (hlogged : ws'.logged = ws.logged) (hphase : ∀ t0, ws'.phase ≠ .querying t0) :
    WritersInv (s.put w ws') where
  numbers := by
    intro v u hu
    rcases (worker_put hws v u).mp hu with ⟨rfl, rfl⟩ | ⟨-, hu⟩
    · rw [hlogged]
      exact h.numbers v ws hws
    · exact h.numbers v u hu
  times := h.times
  ordered := h.ordered
  sent := by
    intro v u hu
    rcases (worker_put hws v u).mp hu with ⟨rfl, rfl⟩ | ⟨-, hu⟩
    · rw [hn]
      exact h.sent v ws hws
    · exact h.sent v u hu
  workers := by
    rw [Writers.put, List.length_set]
    exact h.workers
  querying := by
    intro v n t0 hu
    rcases (worker_put hws v _).mp hu with ⟨-, heq⟩ | ⟨-, hu⟩
    · exact absurd (congrArg Worker.phase heq).symm (hphase t0)
    · exact h.querying v n t0 hu
  landed := h.landed
  acked := h.acked
  dropped := h.dropped

/-- The next statement of a worker that waits for none. -/
theorem WritersInv.send (h : WritersInv s) (hws : s.workers[w]? = some ws) (hn : ws.n = n)
    (hlogged : ws.logged = n) : WritersInv (s.send w n) where
  numbers := by
    intro v u hu
    rcases (worker_put hws v u).mp hu with ⟨rfl, rfl⟩ | ⟨-, hu⟩
    · rw [show Worker.logged { n := n + 1, phase := .querying s.now } = ws.logged from hlogged.symm]
      exact h.numbers v ws hws
    · exact h.numbers v u hu
  times := h.times
  ordered := h.ordered
  sent := by
    intro v u hu
    rw [Writers.send, ofWorker_concat]
    show ofWorker v s.sent ++ _ = _
    rcases (worker_put hws v u).mp hu with ⟨rfl, rfl⟩ | ⟨hne, hu⟩
    · rw [if_pos rfl, h.sent v ws hws, hn, range'_one_succ]
    · rw [if_neg (Ne.symm hne), List.append_nil]
      exact h.sent v u hu
  workers := by
    obtain ⟨hw, -⟩ := List.getElem?_eq_some_iff.mp hws
    obtain ⟨hsent, hevents⟩ := h.workers
    constructor
    · intro row hrow
      rw [Writers.send, Writers.put, List.length_set]
      rcases List.mem_append.mp hrow with hold | hnew
      · exact hsent row hold
      · rw [List.mem_singleton.mp hnew]
        exact hw
    · intro e he
      rw [Writers.send, Writers.put, List.length_set]
      exact hevents e he
  querying := by
    intro v m t0 hu
    rcases (worker_put hws v _).mp hu with ⟨rfl, heq⟩ | ⟨-, hu⟩
    · cases heq
      exact ⟨Nat.succ_pos n, le_refl _, fun e he _ => (h.times e he).2⟩
    · exact h.querying v m t0 hu
  landed := ⟨h.landed.1, fun row hrow => List.mem_append_left _ (h.landed.2 row hrow)⟩
  acked := h.acked
  dropped := h.dropped

theorem WritersInv.loop (h : WritersInv s) (hws : s.workers[w]? = some ws) (hn : ws.n = n)
    (hlogged : ws.logged = n) (connected : Bool) : WritersInv (s.loop w n connected) := by
  rw [Writers.loop]
  split
  · refine h.put hws hn.symm ?_ ?_
    · cases connected with
      | false => exact hlogged.symm
      | true => exact hlogged.symm
    · cases connected with
      | false => exact nofun
      | true => exact nofun
  · split
    · exact h.send hws hn hlogged
    · exact h.put hws hn.symm hlogged.symm nofun

theorem put_put (s : Writers) (w : Nat) (a b : Worker) : (s.put w a).put w b = s.put w b := by
  rw [Writers.put, Writers.put, List.set_set]
  rfl

theorem loop_put (s : Writers) (w n : Nat) (a : Worker) (connected : Bool) :
    (s.put w a).loop w n connected = s.loop w n connected := by
  simp only [Writers.loop, Writers.send, put_put]
  rfl

/-- The statement of a worker settles. -/
theorem WritersInv.log {e : WriteEvent} (h : WritersInv s)
    (hws : s.workers[e.w]? = some { n := e.n, phase := .querying e.t0 }) (hnow : e.t1 = s.now)
    (hack : e.ok = true → e.id ∈ s.landed) : WritersInv (s.log o e) := by
  obtain ⟨hw, -⟩ := List.getElem?_eq_some_iff.mp hws
  obtain ⟨hpos, ht0, hbefore⟩ := h.querying _ _ _ hws
  have hput : ({ s with events := s.events ++ [e] } : Writers).workers[e.w]? =
      some { n := e.n, phase := .querying e.t0 } := hws
  have hpaused : WritersInv
      (Writers.put { s with events := s.events ++ [e] } e.w { n := e.n, phase := .pausing e.ok }) := by
    constructor
    · constructor
      · intro v u hu
        show ofWorker v ((s.events ++ [e]).map WriteEvent.id) = _
        rw [List.map_append, List.map_singleton, ofWorker_concat]
        show (_ ++ if e.w = v then [e.n] else []) = _
        rcases (worker_put hput v u).mp hu with ⟨rfl, rfl⟩ | ⟨hne, hu⟩
        · rw [if_pos rfl, h.numbers _ _ hws]
          obtain ⟨m, hm⟩ := Nat.exists_eq_succ_of_ne_zero hpos.ne'
          rw [Worker.logged, Worker.logged]
          simp only [hm, Nat.succ_sub_one]
          exact (range'_one_succ m).symm
        · rw [if_neg (Ne.symm hne), List.append_nil]
          exact h.numbers v u hu
      · intro x hx
        rcases List.mem_append.mp hx with hold | hnew
        · exact h.times x hold
        · cases List.mem_singleton.mp hnew
          exact ⟨hnow ▸ ht0, hnow.le⟩
      · refine List.pairwise_append.mpr ⟨h.ordered, List.pairwise_singleton _ _, ?_⟩
        intro x hx y hy hxy
        cases List.mem_singleton.mp hy
        exact hbefore x hx hxy
    · intro v u hu
      rcases (worker_put hput v u).mp hu with ⟨rfl, rfl⟩ | ⟨-, hu⟩
      · have hsent := h.sent _ _ hws
        exact hsent
      · exact h.sent v u hu
    · obtain ⟨hsent, hevents⟩ := h.workers
      rw [Writers.put, List.length_set]
      refine ⟨hsent, fun x hx => ?_⟩
      rcases List.mem_append.mp hx with hold | hnew
      · exact hevents x hold
      · cases List.mem_singleton.mp hnew
        exact hw
    · intro v m t0 hu
      rcases (worker_put hput v _).mp hu with ⟨-, heq⟩ | ⟨hne, hu⟩
      · cases heq
      · obtain ⟨hm, ht, hprev⟩ := h.querying v m t0 hu
        refine ⟨hm, ht, fun x hx hxv => ?_⟩
        rcases List.mem_append.mp hx with hold | hnew
        · exact hprev x hold hxv
        · cases List.mem_singleton.mp hnew
          exact absurd hxv.symm hne
    · exact h.landed
    · intro x hx hok
      rcases List.mem_append.mp hx with hold | hnew
      · exact h.acked x hold hok
      · cases List.mem_singleton.mp hnew
        exact hack hok
    · exact h.dropped
  rw [Writers.log]
  split
  · exact hpaused
  · rw [← loop_put _ _ _ { n := e.n, phase := .pausing e.ok }]
    exact hpaused.loop ((worker_put hput _ _).mpr (.inl ⟨rfl, rfl⟩)) rfl rfl e.ok

/-- The clock goes on, and nothing that an invariant speaks of changes. -/
theorem WritersInv.frame (h : WritersInv s) (hworkers : s'.workers = s.workers)
    (hevents : s'.events = s.events) (hsent : s'.sent = s.sent) (hlanded : s'.landed = s.landed)
    (hdropped : s'.dropped = s.dropped) (hnow : s.now ≤ s'.now) : WritersInv s' where
  numbers := by rw [hworkers, hevents]; exact h.numbers
  times := by
    rw [hevents]
    exact fun e he => ⟨(h.times e he).1, (h.times e he).2.trans hnow⟩
  ordered := by rw [hevents]; exact h.ordered
  sent := by rw [hworkers, hsent]; exact h.sent
  workers := by rw [hworkers, hevents, hsent]; exact h.workers
  querying := by
    rw [hworkers, hevents]
    intro v n t0 hu
    obtain ⟨hn, ht, hprev⟩ := h.querying v n t0 hu
    exact ⟨hn, ht.trans hnow, hprev⟩
  landed := by rw [hlanded, hsent]; exact h.landed
  acked := by rw [hevents, hlanded]; exact h.acked
  dropped := by rw [hdropped, hlanded]; exact h.dropped

theorem WritersInv.resume (h : WritersInv s) (hws : s.workers[w]? = some ws) {settles : Settles}
    (hstep : Writers.resume o s w ws.n ws.phase settles = some s') : WritersInv s' := by
  obtain ⟨n, phase⟩ := ws
  cases phase with
  | connecting tc =>
    cases settles with
    | connected =>
      cases hstep
      have hwaited : WritersInv
          { s with
            connectWaits := s.connectWaits ++
              if 200 < s.now - tc then [{ t := tc, ms := s.now - tc }] else [] } :=
        h.frame rfl rfl rfl rfl rfl (le_refl _)
      exact hwaited.send hws rfl rfl
    | refused err =>
      cases hstep
      have hrefused : WritersInv
          { s with connectErrors := s.connectErrors ++ [{ t := s.now, err := cut 160 err }] } :=
        h.frame rfl rfl rfl rfl rfl (le_refl _)
      exact hrefused.put hws rfl rfl nofun
    | _ => cases hstep
  | closing =>
    cases settles with
    | closed =>
      cases hstep
      exact h.put hws rfl rfl nofun
    | _ => cases hstep
  | sleeping =>
    cases settles with
    | slept =>
      cases hstep
      exact h.loop hws rfl rfl false
    | _ => cases hstep
  | querying t0 =>
    cases settles with
    | acked =>
      rw [Writers.resume] at hstep
      split at hstep
      · next hlanded =>
        cases hstep
        exact h.log hws rfl fun _ => hlanded
      · cases hstep
    | failed err =>
      cases hstep
      exact h.log hws rfl nofun
    | _ => cases hstep
  | pausing connected =>
    cases settles with
    | slept =>
      cases hstep
      exact h.loop hws rfl rfl connected
    | _ => cases hstep
  | ending =>
    cases settles with
    | ended =>
      cases hstep
      exact h.put hws rfl rfl nofun
    | _ => cases hstep
  | done => cases hstep

theorem writersInv_step {e : LoadEvent} (h : WritersInv s) (hstep : s.step o e = some s') :
    WritersInv s' := by
  cases e with
  | resumes now w settles =>
    rw [Writers.step] at hstep
    split at hstep
    · cases hstep
    · next hnow =>
      obtain ⟨ws, hws, hresume⟩ := Option.bind_eq_some_iff.mp hstep
      have hlater : WritersInv { s with now := now } :=
        h.frame rfl rfl rfl rfl rfl (Int.not_lt.mp hnow)
      exact hlater.resume hws hresume
  | stop =>
    cases hstep
    exact h.frame rfl rfl rfl rfl rfl (le_refl _)
  | lands row =>
    rw [Writers.step] at hstep
    split at hstep
    · next hrow =>
      obtain ⟨hsent, hnew⟩ := hrow
      cases hstep
      refine ⟨⟨h.numbers, h.times, h.ordered⟩, h.sent, h.workers, h.querying, ⟨?_, ?_⟩, ?_, ?_⟩
      · exact List.nodup_append.mpr ⟨h.landed.1, List.nodup_singleton row, fun a ha b hb hab => by
          rw [List.mem_singleton.mp hb] at hab
          exact hnew (hab ▸ ha)⟩
      · intro x hx
        rcases List.mem_append.mp hx with hold | hnew
        · exact h.landed.2 x hold
        · rw [List.mem_singleton.mp hnew]
          exact hsent
      · exact fun e he hok => List.mem_append_left _ (h.acked e he hok)
      · exact fun x hx => List.mem_append_left _ (h.dropped x hx)
    · cases hstep
  | drops row =>
    rw [Writers.step] at hstep
    split at hstep
    · next hrow =>
      cases hstep
      refine ⟨⟨h.numbers, h.times, h.ordered⟩, h.sent, h.workers, h.querying, h.landed, h.acked, ?_⟩
      intro x hx
      rcases List.mem_append.mp hx with hold | hnew
      · exact h.dropped x hold
      · rw [List.mem_singleton.mp hnew]
        exact hrow
    · cases hstep

theorem writersInv_start (now : Int) : WritersInv (startWriters o now) := by
  have hworker (w : Nat) (ws : Worker) (hws : (startWriters o now).workers[w]? = some ws) :
      ws = { phase := .connecting now } :=
    List.eq_of_mem_replicate (List.mem_of_getElem? hws)
  refine ⟨⟨?_, nofun, List.Pairwise.nil⟩, ?_, ⟨nofun, nofun⟩, ?_, ⟨List.nodup_nil, nofun⟩, nofun,
    nofun⟩
  · intro w ws hws
    rw [hworker w ws hws]
    rfl
  · intro w ws hws
    rw [hworker w ws hws]
    rfl
  · intro w n t0 hws
    cases hworker w _ hws

theorem writersInv_run {es : List LoadEvent} {now : Int}
    (hrun : runEvents (Writers.step o) (startWriters o now) es = some s) : WritersInv s :=
  runEvents_invariant (I := fun _ => WritersInv) (writersInv_start now)
    (fun _ _ _ _ _ h hstep => writersInv_step h hstep) es s hrun

/-! ## Every row is accounted for -/

theorem WritersInv.ofWorker_ids_nodup (h : WritersInv s) (w : Nat) :
    (ofWorker w (s.events.map WriteEvent.id)).Nodup := by
  cases hws : s.workers[w]? with
  | some ws =>
    rw [h.numbers w ws hws]
    exact List.nodup_range'
  | none =>
    have hnone : ofWorker w (s.events.map WriteEvent.id) = [] := by
      refine List.eq_nil_iff_forall_not_mem.mpr fun n hn => ?_
      obtain ⟨e, he, heq⟩ := List.mem_map.mp (mem_ofWorker.mp hn)
      cases heq
      exact absurd (h.workers.2 e he) (Nat.not_lt.mpr (List.getElem?_eq_none_iff.mp hws))
    rw [hnone]
    exact List.nodup_nil

theorem WritersInv.ids_nodup (h : WritersInv s) : (s.events.map WriteEvent.id).Nodup :=
  nodup_of_ofWorker h.ofWorker_ids_nodup

theorem WritersInv.ofWorker_sent (h : WritersInv s) (hstopped : s.Stopped) (w : Nat) :
    ofWorker w s.sent = ofWorker w (s.events.map WriteEvent.id) := by
  cases hws : s.workers[w]? with
  | some ws =>
    have hdone := hstopped ws (List.mem_of_getElem? hws)
    rw [h.sent w ws hws, h.numbers w ws hws, Worker.logged, hdone]
  | none =>
    have hge := List.getElem?_eq_none_iff.mp hws
    have hsent : ofWorker w s.sent = [] :=
      List.eq_nil_iff_forall_not_mem.mpr fun n hn =>
        absurd (h.workers.1 _ (mem_ofWorker.mp hn)) (Nat.not_lt.mpr hge)
    have hevents : ofWorker w (s.events.map WriteEvent.id) = [] := by
      refine List.eq_nil_iff_forall_not_mem.mpr fun n hn => ?_
      obtain ⟨e, he, heq⟩ := List.mem_map.mp (mem_ofWorker.mp hn)
      cases heq
      exact absurd (h.workers.2 e he) (Nat.not_lt.mpr hge)
    rw [hsent, hevents]

theorem WritersInv.sent_nodup (h : WritersInv s) (hstopped : s.Stopped) : s.sent.Nodup :=
  nodup_of_ofWorker fun w => by
    rw [h.ofWorker_sent hstopped]
    exact h.ofWorker_ids_nodup w

/-- The log has what was sent. -/
theorem WritersInv.sent_perm (h : WritersInv s) (hstopped : s.Stopped) :
    s.sent.Perm (s.events.map WriteEvent.id) := by
  refine (List.perm_ext_iff_of_nodup (h.sent_nodup hstopped) h.ids_nodup).mpr fun row => ?_
  rw [← mem_ofWorker, h.ofWorker_sent hstopped, mem_ofWorker]

theorem mem_table {row : Nat × Nat} : row ∈ s.table ↔ row ∈ s.landed ∧ row ∉ s.dropped := by
  rw [Writers.table, List.mem_filter, decide_eq_true_iff]

/-- The table, by how its rows were answered. -/
theorem WritersInv.card_table (h : WritersInv s) (hstopped : s.Stopped) : s.table.length =
    ((ackedIds s.events).filter fun row => row ∈ s.table).card +
      ((erroredIds s.events).filter fun row => row ∈ s.table).card := by
  have hparts : Partitions s.events s.table
      (analyse (fun _ _ => 0) s.events (readPresent s.table) 0) := analyse_partitions h.ids_nodup
  have hnodup : s.table.Nodup := h.landed.1.filter _
  have hunion : (ackedIds s.events ∪ erroredIds s.events).filter (fun row => row ∈ s.table) =
      s.table.toFinset := by
    ext row
    rw [hparts.whole, Finset.mem_filter, List.mem_toFinset, List.mem_toFinset]
    refine ⟨And.right, fun hrow => ⟨?_, hrow⟩⟩
    exact (h.sent_perm hstopped).subset (h.landed.2 row (mem_table.mp hrow).1)
  rw [← List.toFinset_card_of_nodup hnodup, ← hunion, Finset.filter_union]
  exact Finset.card_union_of_disjoint (Finset.disjoint_filter_filter hparts.disjoint)

end Writers

/-- What is made of the log, against what the server did. -/
structure AccountsFor (s : Writers) (a : Analysis) : Prop where
  attempts : a.attempts = s.sent.length
  /-- the losses are the acknowledged rows that the server dropped -/
  lost : a.lost = ((ackedIds s.events).filter fun row => row ∈ s.dropped).card
  durable : s.dropped = [] → a.lost = 0
  /-- every row of the table is an acknowledged one that was kept, or one that landed
  unacknowledged -/
  table : s.table.length + a.lost = a.acked + a.committedUnacked
  absent : a.erroredAbsent + s.table.length + a.lost = a.attempts

/-- When all writers have returned, the log has each row that was sent once, each worker's
in its order, and the analysis accounts for them. -/
theorem writers_accounted {rate : Nat → Int → Int} {o : WriterOpts} {now tFault : Int}
    {es : List LoadEvent} {s : Writers}
    (hrun : runEvents (Writers.step o) (startWriters o now) es = some s) (hstopped : s.Stopped) :
    s.sent.Nodup ∧ s.sent.Perm (s.events.map WriteEvent.id) ∧ WellLogged s ∧
      AccountsFor s (analyse rate s.events (readPresent s.table) tFault) := by
  have h := writersInv_run hrun
  have hparts : Partitions s.events s.table
      (analyse rate s.events (readPresent s.table) tFault) := analyse_partitions h.ids_nodup
  have hlost : (analyse rate s.events (readPresent s.table) tFault).lost =
      ((ackedIds s.events).filter fun row => row ∈ s.dropped).card := by
    rw [hparts.lost]
    congr 1
    refine Finset.filter_congr fun row hrow => ?_
    obtain ⟨e, he, rfl⟩ := List.mem_map.mp (List.mem_toFinset.mp hrow)
    obtain ⟨hmem, hok⟩ := List.mem_filter.mp he
    rw [mem_table, not_and_not_right]
    exact ⟨fun himp => himp (h.acked e hmem hok), fun hdropped _ => hdropped⟩
  have hsplit := Finset.card_filter_add_card_filter_not (s := ackedIds s.events)
    fun row => row ∈ s.table
  have hsplit' := Finset.card_filter_add_card_filter_not (s := erroredIds s.events)
    fun row => row ∈ s.table
  have htable := h.card_table hstopped
  rw [← hparts.lost, ← hparts.acked] at hsplit
  rw [← hparts.committedUnacked, ← hparts.erroredAbsent, ← hparts.errored] at hsplit'
  rw [← hparts.committedUnacked] at htable
  refine ⟨h.sent_nodup hstopped, h.sent_perm hstopped, h.toWellLogged, ?_, hlost, fun hnone => ?_, by omega, ?_⟩
  · rw [(h.sent_perm hstopped).length_eq, List.length_map]
    rfl
  · rw [hlost, hnone]
    simp
  · rw [hparts.attempts]
    omega

/-- Two workers across a failover: one row is acknowledged and dropped, one lands after
its client has given up, and one is kept. -/
def failover : List LoadEvent :=
  [.resumes 1 0 .connected, .resumes 2 1 .connected, .lands (0, 1), .resumes 5 0 .acked,
    .resumes 6 0 .slept, .lands (0, 2), .drops (0, 1), .resumes 7 0 .acked,
    .resumes 9 1 (.failed "Query read timeout"), .lands (1, 1), .stop, .resumes 10 1 .slept,
    .resumes 12 0 .slept, .resumes 13 0 .ended]

theorem writers_accounted_failover : ∃ s,
    runEvents (Writers.step { workers := 2, pauseMs := some 1 })
      (startWriters { workers := 2, pauseMs := some 1 } 0) failover = some s ∧
      s.sent.Nodup ∧ s.sent.Perm (s.events.map WriteEvent.id) ∧ WellLogged s ∧
      AccountsFor s (analyse (fun _ _ => 0) s.events (readPresent s.table) 4) := by
  obtain ⟨s, hs⟩ := Option.isSome_iff_exists.mp (show (runEvents
    (Writers.step { workers := 2, pauseMs := some 1 })
    (startWriters { workers := 2, pauseMs := some 1 } 0) failover).isSome = true by decide)
  have hstopped : (runEvents (Writers.step { workers := 2, pauseMs := some 1 })
      (startWriters { workers := 2, pauseMs := some 1 } 0) failover).all fun s =>
        s.workers.all fun ws => ws.phase = .done := by decide
  rw [hs, Option.all_some, List.all_eq_true] at hstopped
  exact ⟨s, hs, writers_accounted hs fun ws hws => of_decide_eq_true (hstopped ws hws)⟩

end SupabaseLab.Multigres
