/-
  ClientRetries/Hedge.lean --- one GET with at most one extra attempt.

  Source: `retryable` and `hedgedGet` of experiments/client-retries/lib/policy.ts.

  A call is a machine.  Its events are the callbacks that run one after the other:
  an attempt settles, the hedge timer fires, the deadline passes, the timer that
  the deadline sets fires.  A run is any order of them.  As long as the call has
  not settled, an attempt is still out; that is the invariant behind the rest.
-/
import SupabaseLab.Library.Machine

set_option autoImplicit false

namespace SupabaseLab.ClientRetries

open Library

variable {α : Type}

/-! ## The call -/

structure RespError where
  code : Option String := none
  message : Option String := none
  name : Option String := none
  deriving DecidableEq, Repr

structure Resp (α : Type) where
  data : Option α
  error : Option RespError
  status : Int
  deriving DecidableEq, Repr

/-- Retry on a network error or abort (status 0) or any 5xx. -/
def retryable (r : Resp α) : Bool := r.status = 0 || 500 ≤ r.status

/-- How the promise of an attempt settles; of a rejection, the name and the text. -/
inductive Settlement (α : Type) where
  | answered (r : Resp α)
  | rejected (name : Option String) (text : String)

/-- What `start` makes of it. -/
def Settlement.resp : Settlement α → Resp α
  | .answered r => r
  | .rejected name text =>
      { data := none
        error := some { name := some (name.getD "error"), message := some text }
        status := 0 }

/-- The response of attempt `n`, counted from 1. -/
structure Attempt (α : Type) where
  n : Nat
  r : Resp α

structure HedgeResult (α : Type) extends Resp α where
  started : Nat
  winner : Nat

/-- The variables of a call.  `controllers` says of each attempt whether its signal
is aborted, `answers` what the attempts have settled with, and `resolved` what
`resolve` has been called with. -/
structure HedgedCall (α : Type) where
  controllers : List Bool := []
  started : Nat := 0
  settled : Nat := 0
  done : Bool := false
  last : Option (Attempt α) := none
  hedgeTimer : Bool := false
  deadlineAborted : Bool := false
  lateTimer : Bool := false
  answers : List (Attempt α) := []
  resolved : List (HedgeResult α) := []

/-- Abort every signal but that of the winner. -/
def abortOthers (winner : Nat) (controllers : List Bool) : List Bool :=
  controllers.mapIdx fun i aborted => if i + 1 ≠ winner then true else aborted

def finish (w : Attempt α) (s : HedgedCall α) : HedgedCall α :=
  if s.done then s
  else
    { s with
      done := true
      hedgeTimer := false
      controllers := abortOthers w.n s.controllers
      resolved := s.resolved ++ [{ w.r with started := s.started, winner := w.n }] }

def launch (s : HedgedCall α) : HedgedCall α :=
  if s.done ∨ 2 ≤ s.started then s
  else { s with started := s.started + 1, controllers := s.controllers ++ [false] }

/-- An attempt that has settled. -/
def HedgedCall.count (s : HedgedCall α) (w : Attempt α) : HedgedCall α :=
  { s with settled := s.settled + 1, last := some w, answers := s.answers ++ [w] }

/-- The callback on the response of an attempt. -/
def onSettled (w : Attempt α) (s : HedgedCall α) : HedgedCall α :=
  let s := s.count w
  if retryable w.r = false then finish w s
  else if s.started < 2 ∧ s.deadlineAborted = false then launch s
  else if s.settled = s.started then finish w s
  else s

inductive HedgeEvent (α : Type) where
  | settles (n : Nat) (settlement : Settlement α)
  | hedgeTimer
  | deadline
  | lateTimer

/-- One event.  An attempt settles once, a timer fires once, and not when cleared. -/
def hedgeStep (s : HedgedCall α) : HedgeEvent α → Option (HedgedCall α)
  | .settles n settlement =>
      if 1 ≤ n ∧ n ≤ s.controllers.length ∧ n ∉ s.answers.map (·.n) then
        some (onSettled ⟨n, settlement.resp⟩ s)
      else none
  | .hedgeTimer =>
      if s.hedgeTimer then some (launch { s with hedgeTimer := false }) else none
  | .deadline =>
      if s.deadlineAborted then none
      else
        some
          { s with
            deadlineAborted := true
            controllers := s.controllers.map fun _ => true
            lateTimer := true }
  | .lateTimer =>
      if s.lateTimer then
        some (match s.last with
          | some w => finish w { s with lateTimer := false }
          | none => { s with lateTimer := false })
      else none

/-- `hedgedGet`, up to its first pause: the timer is set and an attempt launched. -/
def hedgedGet : HedgedCall α := launch { hedgeTimer := true }

/-! ## The invariant -/

/-- The attempts are numbered from 1, two at most, and each has answered once at most. -/
structure Shape (s : HedgedCall α) : Prop where
  controllers : s.controllers.length = s.started
  low : 1 ≤ s.started
  high : s.started ≤ 2
  settled : s.settled = s.answers.length
  answered : ∀ w ∈ s.answers, 1 ≤ w.n ∧ w.n ≤ s.started
  once : (s.answers.map (·.n)).Nodup
  last : ∀ w ∈ s.last, w ∈ s.answers

/-- What a call has settled with: the answer of an attempt, the other one being aborted. -/
structure SettledWith (s : HedgedCall α) (r : HedgeResult α) : Prop where
  resolved : s.resolved = [r]
  answer : ⟨r.winner, r.toResp⟩ ∈ s.answers
  started : r.started = s.started
  aborted : ∀ n, 1 ≤ n → n ≤ s.started → n ≠ r.winner → s.controllers[n - 1]? = some true

/-- A call has settled, or it has not and an attempt is out. -/
structure HedgeInv (s : HedgedCall α) : Prop extends Shape s where
  settledWith : s.done = true → ∃ r, SettledWith s r
  unsettled : s.done = false → s.resolved = [] ∧ s.settled < s.started

section Invariant

variable {s s' : HedgedCall α} {w : Attempt α} {e : HedgeEvent α}

/-- What one event does. -/
theorem hedgeStep_cases (hstep : hedgeStep s e = some s') :
    (∃ n settlement, e = .settles n settlement ∧
      (1 ≤ n ∧ n ≤ s.controllers.length ∧ n ∉ s.answers.map (·.n)) ∧
      s' = onSettled ⟨n, settlement.resp⟩ s) ∨
    (e = .hedgeTimer ∧ s.hedgeTimer = true ∧ s' = launch { s with hedgeTimer := false }) ∨
    (e = .deadline ∧ s.deadlineAborted = false ∧ s' =
      { s with
        deadlineAborted := true
        controllers := s.controllers.map fun _ => true
        lateTimer := true }) ∨
    (e = .lateTimer ∧ s.lateTimer = true ∧ (s' = { s with lateTimer := false } ∨
      ∃ w, s.last = some w ∧ s' = finish w { s with lateTimer := false })) := by
  cases e with
  | settles n settlement =>
    unfold hedgeStep at hstep
    dsimp only at hstep
    split at hstep
    · rename_i hmay
      cases hstep
      exact .inl ⟨n, settlement, rfl, hmay, rfl⟩
    · cases hstep
  | hedgeTimer =>
    unfold hedgeStep at hstep
    dsimp only at hstep
    split at hstep
    · rename_i htimer
      cases hstep
      exact .inr (.inl ⟨rfl, htimer, rfl⟩)
    · cases hstep
  | deadline =>
    unfold hedgeStep at hstep
    dsimp only at hstep
    split at hstep
    · cases hstep
    · rename_i hbefore
      cases hstep
      exact .inr (.inr (.inl ⟨rfl, Bool.eq_false_of_not_eq_true hbefore, rfl⟩))
  | lateTimer =>
    unfold hedgeStep at hstep
    dsimp only at hstep
    split at hstep
    · rename_i htimer
      refine .inr (.inr (.inr ⟨rfl, htimer, ?_⟩))
      cases hlast : s.last with
      | none =>
        rw [hlast] at hstep
        cases hstep
        exact .inl rfl
      | some w =>
        rw [hlast] at hstep
        cases hstep
        exact .inr ⟨w, rfl, rfl⟩
    · cases hstep

/-- What the callback on a response does: settle the call, launch the retry, or wait for the
other attempt. -/
theorem onSettled_cases (w : Attempt α) (s : HedgedCall α) :
    (onSettled w s = finish w (s.count w) ∧
      (retryable w.r = false ∨
        ¬ (s.started < 2 ∧ s.deadlineAborted = false) ∧ s.settled + 1 = s.started)) ∨
    (onSettled w s = launch (s.count w) ∧ retryable w.r ≠ false ∧ s.started < 2 ∧
      s.deadlineAborted = false) ∨
    (onSettled w s = s.count w ∧ retryable w.r ≠ false ∧
      ¬ (s.started < 2 ∧ s.deadlineAborted = false) ∧ s.settled + 1 ≠ s.started) := by
  unfold onSettled
  dsimp only
  split
  · rename_i hfinal
    exact .inl ⟨rfl, .inl hfinal⟩
  · rename_i hretry
    split
    · rename_i hmore
      exact .inr (.inl ⟨rfl, hretry, hmore⟩)
    · rename_i hmore
      split
      · rename_i hall
        exact .inl ⟨rfl, .inr ⟨hmore, hall⟩⟩
      · rename_i hout
        exact .inr (.inr ⟨rfl, hretry, hmore, hout⟩)

theorem Shape.settled_le (h : Shape s) : s.settled ≤ s.started := by
  have hsub : s.answers.map (·.n) ⊆ List.range' 1 s.started := by
    intro n hn
    obtain ⟨w, hw, rfl⟩ := List.mem_map.mp hn
    have := h.answered w hw
    exact List.mem_range'_1.mpr (by omega)
  have hlen := (h.once.subperm hsub).length_le
  rw [List.length_map, List.length_range'] at hlen
  rw [h.settled]
  exact hlen

theorem getElem?_abortOthers {controllers : List Bool} {winner n : Nat} (hlow : 1 ≤ n)
    (hhigh : n ≤ controllers.length) (hne : n ≠ winner) :
    (abortOthers winner controllers)[n - 1]? = some true := by
  rw [abortOthers, List.getElem?_mapIdx, List.getElem?_eq_getElem (by omega), Option.map_some,
    if_pos (by omega)]

/-- An open call settles with an answer it has. -/
theorem finish_inv (h : Shape s) (hopen : s.done = false) (hresolved : s.resolved = [])
    (hw : w ∈ s.answers) : HedgeInv (finish w s) ∧
      (finish w s).resolved = [{ w.r with started := s.started, winner := w.n }] := by
  have hfinish : finish w s =
      { s with
        done := true
        hedgeTimer := false
        controllers := abortOthers w.n s.controllers
        resolved := s.resolved ++ [{ w.r with started := s.started, winner := w.n }] } :=
    if_neg (by rw [hopen]; decide)
  rw [hfinish, hresolved]
  refine ⟨⟨⟨?_, h.low, h.high, h.settled, h.answered, h.once, h.last⟩, fun _ => ?_, fun hd => ?_⟩, rfl⟩
  · rw [← h.controllers]
    exact List.length_mapIdx
  · refine ⟨_, rfl, hw, rfl, fun n hlow hhigh hne => getElem?_abortOthers hlow ?_ hne⟩
    rw [h.controllers]
    exact hhigh
  · cases hd

theorem launch_eq (hopen : s.done = false) (hfew : s.started < 2) :
    launch s = { s with started := s.started + 1, controllers := s.controllers ++ [false] } := by
  refine if_neg ?_
  rintro (hd | hmany)
  · rw [hopen] at hd
    cases hd
  · omega

/-- An open call launches an attempt where it has none or one. -/
theorem launch_open (h : Shape s) (hopen : s.done = false) (hresolved : s.resolved = [])
    (hfew : s.started < 2) : HedgeInv (launch s) := by
  rw [launch_eq hopen hfew]
  refine ⟨⟨?_, ?_, ?_, h.settled, fun w hw => ?_, h.once, h.last⟩, fun hd => ?_, fun _ => ?_⟩
  · rw [List.length_append, h.controllers]
    rfl
  · exact Nat.le_add_left 1 _
  · exact hfew
  · have := h.answered w hw
    exact ⟨this.1, Nat.le_succ_of_le this.2⟩
  · change s.done = true at hd
    rw [hopen] at hd
    cases hd
  · exact ⟨hresolved, Nat.lt_succ_of_le h.settled_le⟩

theorem launch_of_stop (hstop : s.done = true ∨ 2 ≤ s.started) : launch s = s := if_pos hstop

theorem launch_inv (h : HedgeInv s) : HedgeInv (launch s) := by
  by_cases hstop : s.done = true ∨ 2 ≤ s.started
  · rw [launch_of_stop hstop]
    exact h
  · obtain ⟨hopen, hfew⟩ := not_or.mp hstop
    have hopen := Bool.not_eq_true _ ▸ hopen
    exact launch_open h.toShape hopen (h.unsettled hopen).1 (Nat.lt_of_not_le hfew)

theorem finish_of_done (hdone : s.done = true) : finish w s = s := if_pos hdone

/-- An attempt that settles is counted. -/
theorem Shape.count (h : Shape s) (hlow : 1 ≤ w.n) (hhigh : w.n ≤ s.controllers.length)
    (hfresh : w.n ∉ s.answers.map (·.n)) : Shape (s.count w) := by
  rw [h.controllers] at hhigh
  refine ⟨h.controllers, h.low, h.high, ?_, fun x hx => ?_, ?_, fun x hx => ?_⟩
  · change s.settled + 1 = (s.answers ++ [w]).length
    rw [h.settled, List.length_append, List.length_singleton]
  · obtain hx | hx := List.mem_append.mp hx
    · exact h.answered x hx
    · rw [List.mem_singleton.mp hx]
      exact ⟨hlow, hhigh⟩
  · change ((s.answers ++ [w]).map (·.n)).Nodup
    rw [List.map_append]
    refine List.nodup_append.mpr ⟨h.once, List.nodup_singleton _, fun a ha b hb heq => hfresh ?_⟩
    rw [List.map_singleton, List.mem_singleton] at hb
    rw [← hb, ← heq]
    exact ha
  · cases hx
    exact List.mem_append_right _ (List.mem_singleton_self w)

theorem mem_count : w ∈ (s.count w).answers :=
  List.mem_append_right _ (List.mem_singleton_self w)

/-- A call that has settled counts the answer, and no more. -/
theorem onSettled_of_done (hdone : s.done = true) : onSettled w s = s.count w := by
  have hcount : (s.count w).done = true := hdone
  obtain ⟨heq, -⟩ | ⟨heq, -⟩ | ⟨heq, -⟩ := onSettled_cases w s
  · rw [heq, finish_of_done hcount]
  · rw [heq, launch_of_stop (.inl hcount)]
  · exact heq

theorem onSettled_inv (h : HedgeInv s) (hlow : 1 ≤ w.n) (hhigh : w.n ≤ s.controllers.length)
    (hfresh : w.n ∉ s.answers.map (·.n)) : HedgeInv (onSettled w s) := by
  have hshape := h.toShape.count hlow hhigh hfresh
  cases hdone : s.done with
  | true =>
    rw [onSettled_of_done hdone]
    obtain ⟨r, hr⟩ := h.settledWith hdone
    refine ⟨hshape, fun _ => ⟨r, hr.resolved, List.mem_append_left _ hr.answer, hr.started,
      hr.aborted⟩, fun hd => ?_⟩
    change s.done = false at hd
    rw [hdone] at hd
    cases hd
  | false =>
    obtain ⟨hresolved, -⟩ := h.unsettled hdone
    have hcount : (s.count w).done = false := hdone
    obtain ⟨heq, -⟩ | ⟨heq, -, hfew, -⟩ | ⟨heq, -, -, hout⟩ := onSettled_cases w s
    · rw [heq]
      exact (finish_inv hshape hcount hresolved mem_count).1
    · rw [heq]
      exact launch_open hshape hcount hresolved hfew
    · rw [heq]
      refine ⟨hshape, fun hd => ?_, fun _ => ⟨hresolved, ?_⟩⟩
      · rw [hcount] at hd
        cases hd
      · exact Nat.lt_of_le_of_ne hshape.settled_le hout

/-- The deadline aborts the signals of all attempts there are. -/
theorem HedgeInv.deadline (h : HedgeInv s) :
    HedgeInv { s with
      deadlineAborted := true
      controllers := s.controllers.map fun _ => true
      lateTimer := true } := by
  refine ⟨⟨?_, h.low, h.high, h.settled, h.answered, h.once, h.last⟩, fun hd => ?_, h.unsettled⟩
  · rw [List.length_map]
    exact h.controllers
  · obtain ⟨r, hr⟩ := h.settledWith hd
    refine ⟨r, hr.resolved, hr.answer, hr.started, fun n hlow hhigh hne => ?_⟩
    change (s.controllers.map fun _ => true)[n - 1]? = some true
    rw [List.getElem?_map, hr.aborted n hlow hhigh hne]
    rfl

/-- Timers are not part of the invariant. -/
theorem HedgeInv.timers (h : HedgeInv s) (hedgeTimer lateTimer : Bool) :
    HedgeInv { s with hedgeTimer := hedgeTimer, lateTimer := lateTimer } := by
  refine ⟨⟨h.controllers, h.low, h.high, h.settled, h.answered, h.once, h.last⟩, fun hd => ?_,
    h.unsettled⟩
  obtain ⟨r, hr⟩ := h.settledWith hd
  exact ⟨r, hr.resolved, hr.answer, hr.started, hr.aborted⟩

theorem hedgeStep_inv (h : HedgeInv s) (hstep : hedgeStep s e = some s') : HedgeInv s' := by
  obtain ⟨n, settlement, -, hmay, rfl⟩ | ⟨-, -, rfl⟩ | ⟨-, -, rfl⟩ | ⟨-, -, rfl | ⟨w, hlast, rfl⟩⟩ :=
    hedgeStep_cases hstep
  · exact onSettled_inv h hmay.1 hmay.2.1 hmay.2.2
  · exact launch_inv (h.timers false s.lateTimer)
  · exact h.deadline
  · exact h.timers s.hedgeTimer false
  · have hkept := h.timers s.hedgeTimer false
    by_cases hdone : s.done = true
    · have hsame : finish w { s with lateTimer := false } = { s with lateTimer := false } :=
        finish_of_done hdone
      rw [hsame]
      exact hkept
    · have hopen := Bool.not_eq_true _ ▸ hdone
      exact (finish_inv hkept.toShape hopen (h.unsettled hopen).1 (h.last w hlast)).1

theorem hedgedGet_inv : HedgeInv (hedgedGet : HedgedCall α) := by
  refine ⟨⟨rfl, Nat.le_refl 1, Nat.le_succ 1, rfl, fun w hw => ?_, List.nodup_nil, fun w hw => ?_⟩,
    fun hd => ?_, fun _ => ⟨rfl, Nat.zero_lt_one⟩⟩
  · cases hw
  · cases hw
  · cases hd

/-- A call settles once: what it has settled with, no later event changes. -/
theorem hedgeStep_resolved (hdone : s.done = true) (hstep : hedgeStep s e = some s') :
    s'.done = true ∧ s'.resolved = s.resolved := by
  obtain ⟨n, settlement, -, -, rfl⟩ | ⟨-, -, rfl⟩ | ⟨-, -, rfl⟩ | ⟨-, -, rfl | ⟨w, -, rfl⟩⟩ :=
    hedgeStep_cases hstep
  · rw [onSettled_of_done hdone]
    exact ⟨hdone, rfl⟩
  · have hsame : launch { s with hedgeTimer := false } = { s with hedgeTimer := false } :=
      launch_of_stop (.inl hdone)
    rw [hsame]
    exact ⟨hdone, rfl⟩
  · exact ⟨hdone, rfl⟩
  · exact ⟨hdone, rfl⟩
  · have hsame : finish w { s with lateTimer := false } = { s with lateTimer := false } :=
      finish_of_done hdone
    rw [hsame]
    exact ⟨hdone, rfl⟩

theorem runEvents_resolved {es : List (HedgeEvent α)} (hdone : s.done = true)
    (hrun : runEvents hedgeStep s es = some s') : s'.resolved = s.resolved := by
  have hkept := runEvents_invariant (I := fun _ m => m.done = true ∧ m.resolved = s.resolved)
    ⟨hdone, rfl⟩ (fun _ m e m' _ hm hstep => by
      obtain ⟨hdone', hresolved⟩ := hedgeStep_resolved hm.1 hstep
      exact ⟨hdone', hresolved.trans hm.2⟩) es s' hrun
  exact hkept.2

theorem hedged_inv {es : List (HedgeEvent α)} (hrun : runEvents hedgeStep hedgedGet es = some s) :
    HedgeInv s :=
  runEvents_invariant (I := fun _ => HedgeInv) hedgedGet_inv
    (fun _ _ _ _ _ hm hstep => hedgeStep_inv hm hstep) es s hrun

/-- An open call settles with a response that is not to be retried. -/
theorem onSettled_final (h : HedgeInv s) (hopen : s.done = false) (hlow : 1 ≤ w.n)
    (hhigh : w.n ≤ s.controllers.length) (hfresh : w.n ∉ s.answers.map (·.n))
    (hfinal : retryable w.r = false) :
    (onSettled w s).done = true ∧
      (onSettled w s).resolved = [{ w.r with started := s.started, winner := w.n }] := by
  have hcount : (s.count w).done = false := hopen
  have hstep : onSettled w s = finish w (s.count w) := if_pos hfinal
  rw [hstep]
  refine ⟨?_, (finish_inv (h.toShape.count hlow hhigh hfresh) hcount (h.unsettled hopen).1
    mem_count).2⟩
  unfold finish
  rw [hcount]
  rfl

/-- In every order of the events: two attempts at most are started; the call settles once
at most, and has settled once no attempt is out; a response that is not to be retried
settles an open call; and the winner is an attempt, whose answer is the result and whose
rival is aborted. -/
theorem hedged_get (es : List (HedgeEvent α)) (s : HedgedCall α)
    (hrun : runEvents hedgeStep hedgedGet es = some s) :
    s.started ≤ 2 ∧ s.resolved.length ≤ 1 ∧
      (s.answers.length = s.started → s.resolved.length = 1) ∧
      (∀ before n settlement after m, es = before ++ .settles n settlement :: after →
        runEvents hedgeStep hedgedGet before = some m → m.resolved = [] →
        retryable settlement.resp = false →
          s.resolved = [{ settlement.resp with started := m.started, winner := n }]) ∧
      ∀ r ∈ s.resolved, 1 ≤ r.winner ∧ r.winner ≤ s.started ∧ r.started = s.started ∧
        ⟨r.winner, r.toResp⟩ ∈ s.answers ∧
        ∀ n, 1 ≤ n → n ≤ s.started → n ≠ r.winner → s.controllers[n - 1]? = some true := by
  have hinv := hedged_inv hrun
  refine ⟨hinv.high, ?_, fun hall => ?_, fun before n settlement after m hsplit hbefore hopen hfinal => ?_,
    fun r hr => ?_⟩
  · cases hdone : s.done with
    | true =>
      obtain ⟨r, hr⟩ := hinv.settledWith hdone
      rw [hr.resolved]
      exact Nat.le_refl 1
    | false =>
      rw [(hinv.unsettled hdone).1]
      exact Nat.zero_le 1
  · cases hdone : s.done with
    | true =>
      obtain ⟨r, hr⟩ := hinv.settledWith hdone
      rw [hr.resolved]
      rfl
    | false =>
      have hout := (hinv.unsettled hdone).2
      rw [hinv.settled] at hout
      omega
  · rw [hsplit, runEvents_append, hbefore, Option.bind_some, runEvents_cons] at hrun
    obtain ⟨m', hstep, hafter⟩ := Option.bind_eq_some_iff.mp hrun
    have hm := hedged_inv hbefore
    have hmdone : m.done = false := by
      rw [← Bool.not_eq_true]
      intro hd
      obtain ⟨r, hr⟩ := hm.settledWith hd
      rw [hr.resolved] at hopen
      cases hopen
    obtain ⟨n', settlement', heq, hmay, rfl⟩ | ⟨heq, -⟩ | ⟨heq, -⟩ | ⟨heq, -⟩ := hedgeStep_cases hstep
    · cases heq
      obtain ⟨hdone, hresolved⟩ :=
        onSettled_final (w := ⟨n, settlement.resp⟩) hm hmdone hmay.1 hmay.2.1 hmay.2.2 hfinal
      exact (runEvents_resolved hdone hafter).trans hresolved
    · cases heq
    · cases heq
    · cases heq
  · cases hdone : s.done with
    | true =>
      obtain ⟨r', hr'⟩ := hinv.settledWith hdone
      rw [hr'.resolved, List.mem_singleton] at hr
      subst hr
      have hwinner := hinv.answered _ hr'.answer
      exact ⟨hwinner.1, hwinner.2, hr'.started, hr'.answer, hr'.aborted⟩
    | false =>
      rw [(hinv.unsettled hdone).1] at hr
      cases hr

end Invariant

/-- The first attempt fails before the hedge, and the second one answers. -/
def retriedEvents : List (HedgeEvent Nat) :=
  [.settles 1 (.rejected none "network"), .hedgeTimer, .settles 2 (.answered ⟨some 7, none, 200⟩)]

theorem hedged_get_retried : ∃ s, runEvents hedgeStep hedgedGet retriedEvents = some s ∧
    s.resolved = [{ data := some 7, error := none, status := 200, started := 2, winner := 2 }] := by
  refine ⟨_, rfl, ?_⟩
  exact (hedged_get retriedEvents _ rfl).2.2.2.1 [.settles 1 (.rejected none "network"), .hedgeTimer] 2
    (.answered ⟨some 7, none, 200⟩) [] _ rfl rfl rfl rfl

end SupabaseLab.ClientRetries
