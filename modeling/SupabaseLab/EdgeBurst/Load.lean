/-
  EdgeBurst/Load.lean --- open-loop load, and a burst.

  Source: `shoot`, `openLoop` and `burst` of experiments/edge-burst/lib/load.ts.

  Requests settle in any order, and the callbacks of one that has settled run some
  time later; so a run is a list of events, and the loop or the lanes share their
  counters with all of them.  Times are milliseconds since the start, as exact
  rationals.  What `classify` and `rpcStatus` make of an answer is left to its
  reader: a shot keeps the answer.
-/
import SupabaseLab.Library.Machine

set_option autoImplicit false

namespace SupabaseLab.EdgeBurst

open Library

/-! ## Shots -/

structure Answer where
  status : Nat
  contentType : String
  text : String
  region : String
  colo : String
  err : Option String := none
  deriving DecidableEq, Repr

/-- `Math.round`. -/
def roundHalfUp (x : Rat) : Int := ⌊x + 1 / 2⌋

/-- What is kept of a request that was answered; `schedMs` is -1 in a burst. -/
structure Shot where
  schedMs : Int
  sendMs : Rat
  ms : Int
  answer : Answer

/-- A request that is out. -/
structure Flight where
  index : Nat
  schedMs : Int
  sendMs : Rat

/-- The end of `shoot`, `took` ms after `fire` was called. -/
def Flight.shot (f : Flight) (took : NNRat) (answer : Answer) : Shot where
  schedMs := f.schedMs
  sendMs := (roundHalfUp (f.sendMs * 10) : Rat) / 10
  ms := roundHalfUp took
  answer := answer

/-! ## Open loop -/

structure LoopOpts where
  rate : Rat
  durationMs : Rat
  maxInFlight : Nat

/-- `Math.round((rate * durationMs) / 1000)`. -/
def LoopOpts.total (o : LoopOpts) : Int := roundHalfUp (o.rate * o.durationMs / 1000)

/-- The variables of `openLoop`.  `pending` holds the promises by the index of their
request; `flights` are the requests that `fire` has not answered; `sent` and
`skippedIndices` say what became of each index. -/
structure OpenLoop where
  i : Nat := 0
  pending : List Nat := []
  shots : List Shot := []
  skipped : Nat := 0
  maxSeen : Nat := 0
  flights : List Flight := []
  sent : List (Nat × Rat) := []
  skippedIndices : List Nat := []
  clock : Rat := 0
  returned : Bool := false

/-- One turn of the inner loop; `lag` is the time from `elapsed` to the call of `fire`. -/
def fireOne (o : LoopOpts) (elapsed : Rat) (lag : Nat → NNRat) (s : OpenLoop) : OpenLoop :=
  if o.maxInFlight ≤ s.pending.length then
    { s with i := s.i + 1, skipped := s.skipped + 1, skippedIndices := s.skippedIndices ++ [s.i] }
  else
    { s with
      i := s.i + 1
      pending := s.pending ++ [s.i]
      maxSeen := max s.maxSeen (s.pending.length + 1)
      flights := s.flights ++ [⟨s.i, roundHalfUp (s.i * 1000 / o.rate), elapsed + lag s.i⟩]
      sent := s.sent ++ [(s.i, elapsed + lag s.i)] }

/-- The inner loop, for `n` requests. -/
def fireDue (o : LoopOpts) (elapsed : Rat) (lag : Nat → NNRat) : Nat → OpenLoop → OpenLoop
  | 0, s => s
  | n + 1, s => fireDue o elapsed lag n (fireOne o elapsed lag s)

/-- `Math.min(total, Math.floor((elapsed * rate) / 1000) + 1)`. -/
def LoopOpts.due (o : LoopOpts) (elapsed : Rat) : Int :=
  min o.total (⌊elapsed * o.rate / 1000⌋ + 1)

inductive LoopEvent where
  /-- The outer loop turns, at the start or after its sleep. -/
  | tick (elapsed : Rat) (lag : Nat → NNRat)
  /-- `fire` settles, and the shot is kept. -/
  | answered (index : Nat) (took : NNRat) (answer : Answer)
  /-- The `finally` of the promise. -/
  | finalised (index : Nat)
  /-- All promises are settled, and the run is over. -/
  | returns

def loopStep (o : LoopOpts) (s : OpenLoop) : LoopEvent → Option OpenLoop
  | .tick elapsed lag =>
      if s.returned = false ∧ (s.i : Int) < o.total ∧ s.clock ≤ elapsed then
        some (fireDue o elapsed lag (o.due elapsed - s.i).toNat { s with clock := elapsed })
      else none
  | .answered index took answer =>
      (s.flights.find? fun f => f.index = index).map fun f =>
        { s with
          flights := s.flights.eraseP fun f => f.index = index
          shots := s.shots ++ [f.shot took answer] }
  | .finalised index =>
      if index ∈ s.pending ∧ index ∉ s.flights.map (·.index) then
        some { s with pending := s.pending.erase index }
      else none
  | .returns =>
      if s.returned = false ∧ o.total ≤ (s.i : Int) ∧ s.pending = [] then
        some { s with returned := true }
      else none

/-! ## Burst -/

structure BurstOpts where
  n : Nat
  maxInFlight : Nat

/-- Where a lane is: it awaits a shot, its shot has been kept, or its loop has ended. -/
inductive Lane where
  | awaiting (f : Flight)
  | answered
  | finished

structure Burst where
  shots : List Shot := []
  next : Nat := 0
  maxSeen : Nat := 0
  inFlight : Nat := 0
  lanes : List Lane := []
  sent : List (Nat × Rat) := []
  returned : Bool := false

/-- A lane turns its loop: it sends the next request, or ends. -/
def laneTurn (o : BurstOpts) (sendMs : Rat) (s : Burst) : Burst × Lane :=
  if s.next < o.n then
    ({ s with
        next := s.next + 1
        inFlight := s.inFlight + 1
        maxSeen := max s.maxSeen (s.inFlight + 1)
        sent := s.sent ++ [(s.next, sendMs)] },
      .awaiting ⟨s.next, -1, sendMs⟩)
  else (s, .finished)

/-- `Array.from({ length }, lane)`: the lanes start one after the other. -/
def startLanes (o : BurstOpts) (sendMs : Nat → Rat) : Nat → Burst → Burst
  | 0, s => s
  | k + 1, s =>
      let s := startLanes o sendMs k s
      let (s', lane) := laneTurn o (sendMs k) s
      { s' with lanes := s'.lanes ++ [lane] }

def burst (o : BurstOpts) (sendMs : Nat → Rat) : Burst :=
  startLanes o sendMs (min o.n o.maxInFlight) {}

inductive BurstEvent where
  /-- `fire` settles, and the shot is kept. -/
  | answered (lane : Nat) (took : NNRat) (answer : Answer)
  /-- The lane goes on. -/
  | resumes (lane : Nat) (sendMs : Rat)
  | returns

def burstStep (o : BurstOpts) (s : Burst) : BurstEvent → Option Burst
  | .answered lane took answer =>
      match s.lanes[lane]? with
      | some (.awaiting f) =>
          some { s with
            lanes := s.lanes.set lane .answered
            shots := s.shots ++ [f.shot took answer] }
      | _ => none
  | .resumes lane sendMs =>
      match s.lanes[lane]? with
      | some .answered =>
          let (s', lane') := laneTurn o sendMs { s with inFlight := s.inFlight - 1 }
          some { s' with lanes := s'.lanes.set lane lane' }
      | _ => none
  | .returns =>
      if s.returned = false ∧ s.lanes.all (fun | .finished => true | _ => false) then
        some { s with returned := true }
      else none

/-! ## The open loop keeps its books -/

section OpenLoop

variable {o : LoopOpts} {s s' : OpenLoop} {elapsed : Rat} {lag : Nat → NNRat}

/-- Every index below `i` was sent or skipped, once; what was sent is out or is a shot;
what is out is pending; and nothing was sent before its time. -/
structure LoopInv (o : LoopOpts) (s : OpenLoop) : Prop where
  indices : (s.sent.map (·.1) ++ s.skippedIndices).Perm (List.range s.i)
  skipped : s.skipped = s.skippedIndices.length
  within : s.i ≤ o.total.toNat
  shots : s.shots.length + s.flights.length = s.sent.length
  flightsOnce : (s.flights.map (·.index)).Nodup
  flightsPending : ∀ f ∈ s.flights, f.index ∈ s.pending
  pendingSent : ∀ j ∈ s.pending, j < s.i
  pendingOnce : s.pending.Nodup
  capped : s.pending.length ≤ o.maxInFlight
  seen : s.maxSeen ≤ o.maxInFlight
  timely : ∀ x ∈ s.sent, (x.1 : Rat) * 1000 ≤ x.2 * o.rate
  ended : s.returned = true → o.total ≤ (s.i : Int) ∧ s.pending = []

/-- A request that is due and fits under the cap is sent; one that does not is skipped. -/
theorem fireOne_inv (h : LoopInv o s) (hrate : 0 ≤ o.rate) (hopen : s.returned = false)
    (hi : s.i < o.total.toNat) (hdue : (s.i : Rat) * 1000 ≤ elapsed * o.rate) :
    LoopInv o (fireOne o elapsed lag s) := by
  have hrange : List.range (s.i + 1) = List.range s.i ++ [s.i] := List.range_succ
  have hfresh : s.i ∉ s.pending := fun hmem => Nat.lt_irrefl _ (h.pendingSent _ hmem)
  have hended : ∀ {P : Prop}, s.returned = true → P := by
    intro P hr
    rw [hopen] at hr
    cases hr
  unfold fireOne
  by_cases hfull : o.maxInFlight ≤ s.pending.length
  · rw [if_pos hfull]
    refine ⟨?_, ?_, hi, h.shots, h.flightsOnce, h.flightsPending, fun j hj => ?_, h.pendingOnce,
      h.capped, h.seen, h.timely, hended⟩
    · change (s.sent.map (·.1) ++ (s.skippedIndices ++ [s.i])).Perm (List.range (s.i + 1))
      rw [hrange, ← List.append_assoc]
      exact h.indices.append_right [s.i]
    · change s.skipped + 1 = (s.skippedIndices ++ [s.i]).length
      rw [h.skipped, List.length_append, List.length_singleton]
    · exact Nat.lt_succ_of_lt (h.pendingSent j hj)
  · rw [if_neg hfull]
    have hroom : s.pending.length + 1 ≤ o.maxInFlight := Nat.lt_of_not_le hfull
    refine ⟨?_, h.skipped, hi, ?_, ?_, fun f hf => ?_, fun j hj => ?_, ?_, ?_, ?_, fun x hx => ?_, hended⟩
    · change ((s.sent ++ [(s.i, elapsed + lag s.i)]).map (·.1) ++ s.skippedIndices).Perm
        (List.range (s.i + 1))
      rw [hrange, List.map_append, List.append_assoc]
      refine (List.Perm.append_left _ List.perm_append_comm).trans ?_
      rw [← List.append_assoc]
      exact h.indices.append_right [s.i]
    · change s.shots.length + (s.flights ++ [(⟨s.i, _, _⟩ : Flight)]).length =
        (s.sent ++ [(s.i, elapsed + lag s.i)]).length
      rw [List.length_append, List.length_append, ← h.shots]
      rfl
    · change ((s.flights ++ [(⟨s.i, _, _⟩ : Flight)]).map (·.index)).Nodup
      rw [List.map_append]
      refine List.nodup_append.mpr ⟨h.flightsOnce, List.nodup_singleton _, fun a ha b hb heq => ?_⟩
      obtain ⟨f, hf, rfl⟩ := List.mem_map.mp ha
      have hb : b = s.i := List.mem_singleton.mp hb
      refine hfresh ?_
      rw [← hb, ← heq]
      exact h.flightsPending f hf
    · obtain hf | hf := List.mem_append.mp hf
      · exact List.mem_append_left _ (h.flightsPending f hf)
      · rw [List.mem_singleton.mp hf]
        exact List.mem_append_right _ (List.mem_singleton_self _)
    · obtain hj | hj := List.mem_append.mp hj
      · exact Nat.lt_succ_of_lt (h.pendingSent j hj)
      · rw [List.mem_singleton.mp hj]
        exact Nat.lt_succ_self _
    · change (s.pending ++ [s.i]).Nodup
      refine List.nodup_append.mpr ⟨h.pendingOnce, List.nodup_singleton _, fun a ha b hb heq => ?_⟩
      rw [List.mem_singleton.mp hb] at heq
      exact hfresh (heq ▸ ha)
    · change (s.pending ++ [s.i]).length ≤ o.maxInFlight
      rw [List.length_append, List.length_singleton]
      exact hroom
    · exact Nat.max_le.mpr ⟨h.seen, hroom⟩
    · obtain hx | hx := List.mem_append.mp hx
      · exact h.timely x hx
      · rw [List.mem_singleton.mp hx]
        refine le_trans hdue (mul_le_mul_of_nonneg_right ?_ hrate)
        exact le_add_of_nonneg_right (lag s.i).2

theorem fireOne_i : (fireOne o elapsed lag s).i = s.i + 1 := by
  unfold fireOne
  split
  · rfl
  · rfl

theorem fireOne_returned : (fireOne o elapsed lag s).returned = s.returned := by
  unfold fireOne
  split
  · rfl
  · rfl

theorem fireDue_inv (hrate : 0 ≤ o.rate) (n : Nat) (h : LoopInv o s) (hopen : s.returned = false)
    (hdue : ∀ j, s.i ≤ j → j < s.i + n → j < o.total.toNat ∧ (j : Rat) * 1000 ≤ elapsed * o.rate) :
    LoopInv o (fireDue o elapsed lag n s) := by
  induction n generalizing s with
  | zero => exact h
  | succ n ih =>
    obtain ⟨hi, hnow⟩ := hdue s.i (Nat.le_refl _) (by omega)
    refine ih (fireOne_inv h hrate hopen hi hnow) (fireOne_returned.trans hopen) fun j hlow hhigh => ?_
    rw [fireOne_i] at hlow hhigh
    exact hdue j (by omega) (by omega)

/-- The requests of one turn of the outer loop are due. -/
theorem due_spec {i j : Nat} (hlow : i ≤ j) (hhigh : j < i + (o.due elapsed - i).toNat) :
    j < o.total.toNat ∧ (j : Rat) * 1000 ≤ elapsed * o.rate := by
  have hdue : (j : Int) < o.due elapsed := by omega
  unfold LoopOpts.due at hdue
  have hfloor : (j : Int) ≤ ⌊elapsed * o.rate / 1000⌋ := by omega
  have htime : ((j : Int) : Rat) ≤ elapsed * o.rate / 1000 := Int.le_floor.mp hfloor
  rw [Int.cast_natCast, le_div_iff₀ (by norm_num)] at htime
  exact ⟨by omega, htime⟩

theorem loopStep_inv (hrate : 0 ≤ o.rate) {e : LoopEvent} (h : LoopInv o s)
    (hstep : loopStep o s e = some s') : LoopInv o s' := by
  cases e with
  | tick elapsed lag =>
    unfold loopStep at hstep
    dsimp only at hstep
    split at hstep
    · rename_i hmay
      cases hstep
      refine fireDue_inv hrate _ ⟨h.indices, h.skipped, h.within, h.shots, h.flightsOnce,
        h.flightsPending, h.pendingSent, h.pendingOnce, h.capped, h.seen, h.timely, h.ended⟩ hmay.1
        fun j hlow hhigh => due_spec hlow hhigh
    · cases hstep
  | answered index took answer =>
    obtain ⟨f, hfind, hs'⟩ := Option.map_eq_some_iff.mp hstep
    subst hs'
    have hf := List.mem_of_find?_eq_some hfind
    have hindex := List.find?_some hfind
    have hsub : (s.flights.eraseP fun f => f.index = index).Sublist s.flights := List.eraseP_sublist
    refine ⟨h.indices, h.skipped, h.within, ?_, h.flightsOnce.sublist (hsub.map _),
      fun g hg => h.flightsPending g (hsub.subset hg), h.pendingSent, h.pendingOnce, h.capped, h.seen,
      h.timely, h.ended⟩
    change (s.shots ++ [_]).length + (s.flights.eraseP fun f => f.index = index).length = s.sent.length
    have hpos : 0 < s.flights.length := List.length_pos_of_mem hf
    rw [List.length_eraseP_of_mem hf hindex, List.length_append, List.length_singleton, ← h.shots]
    omega
  | finalised index =>
    unfold loopStep at hstep
    dsimp only at hstep
    split at hstep
    · rename_i hmay
      cases hstep
      have hsub : (s.pending.erase index).Sublist s.pending := List.erase_sublist
      refine ⟨h.indices, h.skipped, h.within, h.shots, h.flightsOnce, fun f hf => ?_,
        fun j hj => h.pendingSent j (hsub.subset hj), h.pendingOnce.sublist hsub,
        Nat.le_trans hsub.length_le h.capped, h.seen, h.timely, fun hr => ?_⟩
      · refine (List.mem_erase_of_ne ?_).mpr (h.flightsPending f hf)
        exact fun heq => hmay.2 (List.mem_map.mpr ⟨f, hf, heq⟩)
      · obtain ⟨htotal, hnil⟩ := h.ended hr
        refine ⟨htotal, ?_⟩
        change s.pending.erase index = []
        rw [hnil]
        rfl
    · cases hstep
  | returns =>
    unfold loopStep at hstep
    dsimp only at hstep
    split at hstep
    · rename_i hmay
      cases hstep
      exact ⟨h.indices, h.skipped, h.within, h.shots, h.flightsOnce, h.flightsPending, h.pendingSent,
        h.pendingOnce, h.capped, h.seen, h.timely, fun _ => hmay.2⟩
    · cases hstep

theorem loop_inv (hrate : 0 ≤ o.rate) {es : List LoopEvent}
    (hrun : runEvents (loopStep o) {} es = some s) : LoopInv o s := by
  have hinit : LoopInv o {} := by
    refine ⟨List.Perm.refl _, rfl, Nat.zero_le _, rfl, List.nodup_nil, ?_, ?_, List.nodup_nil,
      Nat.zero_le _, Nat.zero_le _, ?_, ?_⟩
    · intro f hf
      cases hf
    · intro j hj
      cases hj
    · intro x hx
      cases hx
    · intro hr
      cases hr
  exact runEvents_invariant (I := fun _ => LoopInv o) hinit
    (fun _ _ _ _ _ hm hstep => loopStep_inv hrate hm hstep) es s hrun

/-- No more requests are out than are pending. -/
theorem LoopInv.flights_le (h : LoopInv o s) : s.flights.length ≤ o.maxInFlight := by
  have hsub : s.flights.map (·.index) ⊆ s.pending := by
    intro j hj
    obtain ⟨f, hf, rfl⟩ := List.mem_map.mp hj
    exact h.flightsPending f hf
  have hlen := (h.flightsOnce.subperm hsub).length_le
  rw [List.length_map] at hlen
  exact Nat.le_trans hlen h.capped

/-- When all promises are settled, every request has its shot. -/
theorem LoopInv.accounted (h : LoopInv o s) (htotal : 0 ≤ o.total) (hr : s.returned = true) :
    (s.i : Int) = o.total ∧ s.flights = [] ∧ ((s.shots.length + s.skipped : Nat) : Int) = o.total := by
  obtain ⟨hended, hnil⟩ := h.ended hr
  have hwithin := h.within
  have hi : (s.i : Int) = o.total := by omega
  have hflights : s.flights = [] := by
    refine List.eq_nil_iff_forall_not_mem.mpr fun f hf => ?_
    have := h.flightsPending f hf
    rw [hnil] at this
    cases this
  have hshots := h.shots
  have hlen := h.indices.length_eq
  rw [hflights, List.length_nil, Nat.add_zero] at hshots
  rw [List.length_append, List.length_map, List.length_range, ← hshots, ← h.skipped] at hlen
  exact ⟨hi, hflights, by omega⟩

end OpenLoop

/-! ## The lanes keep theirs -/

section Burst

variable {o : BurstOpts} {s s' : Burst} {sendMs : Rat}

def Lane.out : Lane → Bool
  | .awaiting _ => true
  | _ => false

def Lane.live : Lane → Bool
  | .finished => false
  | _ => true

/-- The requests below `next` were sent; each is out or is a shot; and a lane ends only
when all are sent. -/
structure BurstInv (o : BurstOpts) (s : Burst) : Prop where
  sent : s.sent.map (·.1) = List.range s.next
  within : s.next ≤ o.n
  shots : s.shots.length + s.lanes.countP Lane.out = s.next
  inFlight : s.inFlight = s.lanes.countP Lane.live
  capped : s.lanes.length ≤ o.maxInFlight
  seen : s.maxSeen ≤ o.maxInFlight
  finished : ∀ lane ∈ s.lanes, lane.live = false → s.next = o.n

/-- What one turn of a lane does, when it is not counted among the live ones. -/
theorem laneTurn_spec (o : BurstOpts) (sendMs : Rat) (s : Burst) :
    ((laneTurn o sendMs s).2 = .finished ∧ (laneTurn o sendMs s).1 = s ∧ o.n ≤ s.next) ∨
      (s.next < o.n ∧ ∃ f, (laneTurn o sendMs s).2 = .awaiting f ∧
        (laneTurn o sendMs s).1 =
          { s with
            next := s.next + 1
            inFlight := s.inFlight + 1
            maxSeen := max s.maxSeen (s.inFlight + 1)
            sent := s.sent ++ [(s.next, sendMs)] }) := by
  unfold laneTurn
  by_cases hmore : s.next < o.n
  · rw [if_pos hmore]
    exact .inr ⟨hmore, _, rfl, rfl⟩
  · rw [if_neg hmore]
    exact .inl ⟨rfl, rfl, Nat.le_of_not_lt hmore⟩

theorem sent_concat (h : s.sent.map (·.1) = List.range s.next) :
    (s.sent ++ [(s.next, sendMs)]).map (·.1) = List.range (s.next + 1) := by
  rw [List.map_append, h, List.range_succ]
  rfl

theorem startLanes_inv (sendMs : Nat → Rat) (k : Nat) (hk : k ≤ o.maxInFlight) :
    BurstInv o (startLanes o sendMs k {}) ∧ (startLanes o sendMs k {}).lanes.length = k ∧
      (startLanes o sendMs k {}).returned = false := by
  induction k with
  | zero =>
    refine ⟨⟨rfl, Nat.zero_le _, rfl, rfl, Nat.zero_le _, Nat.zero_le _, ?_⟩, rfl, rfl⟩
    intro lane hlane
    cases hlane
  | succ k ih =>
    obtain ⟨h, hlen, hopen⟩ := ih (Nat.le_of_succ_le hk)
    unfold startLanes
    dsimp only
    generalize startLanes o sendMs k {} = s at h hlen hopen
    have hlive : s.inFlight ≤ k := by
      rw [h.inFlight, ← hlen]
      exact List.countP_le_length
    obtain ⟨hlane, hs, hall⟩ | ⟨hmore, f, hlane, hs⟩ := laneTurn_spec o (sendMs k) s
    · rw [hlane, hs]
      refine ⟨⟨h.sent, h.within, ?_, ?_, ?_, h.seen, fun lane hmem hended => ?_⟩, ?_, hopen⟩
      · change s.shots.length + (s.lanes ++ [Lane.finished]).countP Lane.out = s.next
        rw [List.countP_append]
        exact h.shots
      · change s.inFlight = (s.lanes ++ [Lane.finished]).countP Lane.live
        rw [List.countP_append]
        exact h.inFlight
      · change (s.lanes ++ [Lane.finished]).length ≤ o.maxInFlight
        rw [List.length_append, hlen]
        exact hk
      · exact Nat.le_antisymm h.within hall
      · rw [List.length_append, hlen]
        rfl
    · rw [hlane, hs]
      refine ⟨⟨sent_concat h.sent, hmore, ?_, ?_, ?_, ?_, fun lane hmem hended => ?_⟩, ?_, hopen⟩
      · change s.shots.length + (s.lanes ++ [Lane.awaiting f]).countP Lane.out = s.next + 1
        rw [List.countP_append, ← Nat.add_assoc, h.shots]
        rfl
      · change s.inFlight + 1 = (s.lanes ++ [Lane.awaiting f]).countP Lane.live
        rw [List.countP_append, ← h.inFlight]
        rfl
      · change (s.lanes ++ [Lane.awaiting f]).length ≤ o.maxInFlight
        rw [List.length_append, hlen]
        exact hk
      · exact Nat.max_le.mpr ⟨h.seen, by omega⟩
      · obtain hmem | hmem := List.mem_append.mp hmem
        · have := h.finished lane hmem hended
          omega
        · rw [List.mem_singleton.mp hmem] at hended
          cases hended
      · change (s.lanes ++ [Lane.awaiting f]).length = k + 1
        rw [List.length_append, hlen]
        rfl

/-- A lane in place of another, counted. -/
theorem countP_set_lane {lanes : List Lane} {lane : Nat} {l : Lane} (l' : Lane) (p : Lane → Bool)
    (hget : lanes[lane]? = some l) :
    (lanes.set lane l').countP p + (if p l then 1 else 0) =
      lanes.countP p + (if p l' then 1 else 0) := by
  obtain ⟨hlt, hl⟩ := List.getElem?_eq_some_iff.mp hget
  have hpos : (if p l then 1 else 0) ≤ lanes.countP p := by
    by_cases hp : p l = true
    · rw [if_pos hp]
      exact List.countP_pos_iff.mpr ⟨l, List.mem_of_getElem? hget, hp⟩
    · rw [if_neg hp]
      exact Nat.zero_le _
  rw [List.countP_set hlt, hl]
  omega

/-- What an event does to the lanes. -/
inductive Burst.Moves (o : BurstOpts) (s : Burst) : BurstEvent → Burst → Prop
  | answers {lane : Nat} {f : Flight} {took : NNRat} {answer : Answer} :
      s.lanes[lane]? = some (.awaiting f) →
      Burst.Moves o s (.answered lane took answer)
        { s with
          lanes := s.lanes.set lane .answered
          shots := s.shots ++ [f.shot took answer] }
  | ends {lane : Nat} {sendMs : Rat} : s.lanes[lane]? = some .answered → o.n ≤ s.next →
      Burst.Moves o s (.resumes lane sendMs)
        { s with
          inFlight := s.inFlight - 1
          lanes := s.lanes.set lane .finished }
  | sends {lane : Nat} {sendMs : Rat} (f : Flight) : s.lanes[lane]? = some .answered →
      s.next < o.n →
      Burst.Moves o s (.resumes lane sendMs)
        { s with
          next := s.next + 1
          inFlight := s.inFlight - 1 + 1
          maxSeen := max s.maxSeen (s.inFlight - 1 + 1)
          sent := s.sent ++ [(s.next, sendMs)]
          lanes := s.lanes.set lane (.awaiting f) }
  | returns : (∀ lane ∈ s.lanes, lane.live = false) →
      Burst.Moves o s .returns { s with returned := true }

theorem burstStep_moves {e : BurstEvent} (hstep : burstStep o s e = some s') : s.Moves o e s' := by
  unfold burstStep at hstep
  cases e with
  | answered lane took answer =>
    dsimp only at hstep
    split at hstep
    · rename_i f hget
      cases hstep
      exact .answers hget
    · cases hstep
  | resumes lane sendMs =>
    dsimp only at hstep
    split at hstep
    · rename_i hget
      cases hstep
      obtain ⟨hlane, hs, hall⟩ | ⟨hmore, f, hlane, hs⟩ :=
        laneTurn_spec o sendMs { s with inFlight := s.inFlight - 1 }
      · rw [hlane, hs]
        exact .ends hget hall
      · rw [hlane, hs]
        exact .sends f hget hmore
    · cases hstep
  | returns =>
    dsimp only at hstep
    split at hstep
    · rename_i hmay
      cases hstep
      refine .returns fun lane hlane => ?_
      have hended := List.all_eq_true.mp hmay.2 lane hlane
      cases lane with
      | awaiting f => cases hended
      | answered => cases hended
      | finished => rfl
    · cases hstep

theorem BurstInv.answers {lane : Nat} {f : Flight} {shot : Shot} (h : BurstInv o s)
    (hget : s.lanes[lane]? = some (.awaiting f)) :
    BurstInv o
      { s with
        lanes := s.lanes.set lane .answered
        shots := s.shots ++ [shot] } := by
  have hout := countP_set_lane .answered Lane.out hget
  have hlive := countP_set_lane .answered Lane.live hget
  change _ + 1 = _ + 0 at hout
  change _ + 1 = _ + 1 at hlive
  refine ⟨h.sent, h.within, ?_, ?_, ?_, h.seen, fun l hl hended => ?_⟩
  · have hshots := h.shots
    change (s.shots ++ [_]).length + (s.lanes.set lane .answered).countP Lane.out = s.next
    rw [List.length_append, List.length_singleton]
    omega
  · change s.inFlight = (s.lanes.set lane .answered).countP Lane.live
    rw [h.inFlight]
    omega
  · rw [List.length_set]
    exact h.capped
  · obtain hl | rfl := List.mem_or_eq_of_mem_set hl
    · exact h.finished l hl hended
    · cases hended

theorem BurstInv.ends {lane : Nat} (h : BurstInv o s) (hget : s.lanes[lane]? = some .answered)
    (hall : o.n ≤ s.next) :
    BurstInv o
      { s with
        inFlight := s.inFlight - 1
        lanes := s.lanes.set lane .finished } := by
  have hinFlight := h.inFlight
  have hout := countP_set_lane .finished Lane.out hget
  have hlive := countP_set_lane .finished Lane.live hget
  change _ + 0 = _ + 0 at hout
  change _ + 1 = _ + 0 at hlive
  refine ⟨h.sent, h.within, ?_, ?_, ?_, h.seen, fun l hl hended => ?_⟩
  · change s.shots.length + (s.lanes.set lane .finished).countP Lane.out = s.next
    rw [← h.shots]
    omega
  · change s.inFlight - 1 = (s.lanes.set lane .finished).countP Lane.live
    omega
  · rw [List.length_set]
    exact h.capped
  · exact Nat.le_antisymm h.within hall

theorem BurstInv.sends {lane : Nat} {f : Flight} (h : BurstInv o s)
    (hget : s.lanes[lane]? = some .answered) (hmore : s.next < o.n) :
    BurstInv o
      { s with
        next := s.next + 1
        inFlight := s.inFlight - 1 + 1
        maxSeen := max s.maxSeen (s.inFlight - 1 + 1)
        sent := s.sent ++ [(s.next, sendMs)]
        lanes := s.lanes.set lane (.awaiting f) } := by
  have hpos : 0 < s.lanes.countP Lane.live :=
    List.countP_pos_iff.mpr ⟨.answered, List.mem_of_getElem? hget, rfl⟩
  have hle : s.lanes.countP Lane.live ≤ s.lanes.length := List.countP_le_length
  have hinFlight := h.inFlight
  have hcapped := h.capped
  have hout := countP_set_lane (.awaiting f) Lane.out hget
  have hlive := countP_set_lane (.awaiting f) Lane.live hget
  change _ + 0 = _ + 1 at hout
  change _ + 1 = _ + 1 at hlive
  refine ⟨sent_concat h.sent, hmore, ?_, ?_, ?_, ?_, fun l hl hended => ?_⟩
  · change s.shots.length + (s.lanes.set lane (.awaiting f)).countP Lane.out = s.next + 1
    rw [← h.shots]
    omega
  · change s.inFlight - 1 + 1 = (s.lanes.set lane (.awaiting f)).countP Lane.live
    omega
  · rw [List.length_set]
    exact h.capped
  · change max s.maxSeen (s.inFlight - 1 + 1) ≤ o.maxInFlight
    exact Nat.max_le.mpr ⟨h.seen, by omega⟩
  · obtain hl | rfl := List.mem_or_eq_of_mem_set hl
    · have := h.finished l hl hended
      omega
    · cases hended

theorem burstStep_inv {e : BurstEvent} (h : BurstInv o s ∧ s.lanes.length = min o.n o.maxInFlight)
    (hstep : burstStep o s e = some s') :
    BurstInv o s' ∧ s'.lanes.length = min o.n o.maxInFlight := by
  obtain ⟨h, hlen⟩ := h
  cases burstStep_moves hstep with
  | answers hget => exact ⟨h.answers hget, List.length_set.trans hlen⟩
  | ends hget hall => exact ⟨h.ends hget hall, List.length_set.trans hlen⟩
  | sends f hget hmore => exact ⟨h.sends hget hmore, List.length_set.trans hlen⟩
  | returns =>
    exact ⟨⟨h.sent, h.within, h.shots, h.inFlight, h.capped, h.seen, h.finished⟩, hlen⟩

/-- A burst returns when its lanes have ended. -/
theorem burstStep_returned {e : BurstEvent}
    (h : s.returned = true → ∀ lane ∈ s.lanes, lane.live = false)
    (hstep : burstStep o s e = some s') :
    s'.returned = true → ∀ lane ∈ s'.lanes, lane.live = false := by
  have hlive : ∀ (lane : Nat) (l : Lane),
      s.lanes[lane]? = some l → l.live = true → s.returned = true → False := by
    intro lane l hget hl hr
    have := h hr l (List.mem_of_getElem? hget)
    rw [hl] at this
    cases this
  cases burstStep_moves hstep with
  | answers hget => exact fun hr => (hlive _ _ hget rfl hr).elim
  | ends hget => exact fun hr => (hlive _ _ hget rfl hr).elim
  | sends f hget => exact fun hr => (hlive _ _ hget rfl hr).elim
  | returns hended => exact fun _ => hended

theorem burst_inv {sendMs : Nat → Rat} {es : List BurstEvent}
    (hrun : runEvents (burstStep o) (burst o sendMs) es = some s) :
    (BurstInv o s ∧ s.lanes.length = min o.n o.maxInFlight) ∧
      (s.returned = true → ∀ lane ∈ s.lanes, lane.live = false) := by
  obtain ⟨hinit, hlen, hopen⟩ :=
    startLanes_inv (o := o) sendMs (min o.n o.maxInFlight) (Nat.min_le_right _ _)
  refine runEvents_invariant (I := fun _ s => (BurstInv o s ∧ s.lanes.length = min o.n o.maxInFlight) ∧
    (s.returned = true → ∀ lane ∈ s.lanes, lane.live = false)) ⟨⟨hinit, hlen⟩, fun hr => ?_⟩
    (fun _ _ _ _ _ hm hstep => ⟨burstStep_inv hm.1 hstep, burstStep_returned hm.2 hstep⟩) es s hrun
  have hr : (startLanes o sendMs (min o.n o.maxInFlight) {}).returned = true := hr
  rw [hopen] at hr
  cases hr

/-- When all lanes have ended, all requests were sent and have their shot. -/
theorem BurstInv.accounted (h : BurstInv o s) (hlen : s.lanes.length = min o.n o.maxInFlight)
    (hmax : 1 ≤ o.maxInFlight) (hended : ∀ lane ∈ s.lanes, lane.live = false) :
    s.next = o.n ∧ s.lanes.countP Lane.out = 0 := by
  have hnext : s.next = o.n := by
    cases hlanes : s.lanes with
    | nil =>
      have hwithin := h.within
      rw [hlanes, List.length_nil] at hlen
      omega
    | cons lane lanes =>
      have hmem : lane ∈ s.lanes := by
        rw [hlanes]
        exact List.mem_cons_self
      exact h.finished lane hmem (hended lane hmem)
  refine ⟨hnext, List.countP_eq_zero.mpr fun lane hlane hout => ?_⟩
  have hdead := hended lane hlane
  cases lane with
  | awaiting f => cases hdead
  | answered => cases hout
  | finished => cases hout

end Burst

/-! ## The accounts -/

/-- What a run of the open loop has done. -/
structure LoopAccounts (o : LoopOpts) (s : OpenLoop) : Prop where
  capped : s.flights.length ≤ o.maxInFlight
  timely : ∀ x ∈ s.sent, (x.1 : Rat) * 1000 / o.rate ≤ x.2
  once : (s.sent.map (·.1) ++ s.skippedIndices).Nodup
  indices : ∀ j, j ∈ s.sent.map (·.1) ++ s.skippedIndices ↔ j < s.i
  skipped : s.skipped = s.skippedIndices.length
  returned : s.returned = true →
    (s.i : Int) = o.total ∧ s.flights = [] ∧ ((s.shots.length + s.skipped : Nat) : Int) = o.total

/-- What a run of a burst has done. -/
structure BurstAccounts (o : BurstOpts) (s : Burst) : Prop where
  capped : s.lanes.countP Lane.out ≤ o.maxInFlight
  sent : s.sent.map (·.1) = List.range s.next
  within : s.next ≤ o.n
  returned : s.returned = true →
    s.next = o.n ∧ s.shots.length = o.n ∧ s.lanes.countP Lane.out = 0

/-- Nothing is scheduled at rate zero. -/
theorem LoopInv.timely_div {o : LoopOpts} {s : OpenLoop} (h : LoopInv o s) (hrate : 0 ≤ o.rate)
    {x : Nat × Rat} (hx : x ∈ s.sent) : (x.1 : Rat) * 1000 / o.rate ≤ x.2 := by
  obtain hpos | hzero := hrate.lt_or_eq
  · rw [div_le_iff₀ hpos]
    exact h.timely x hx
  · have htotal : o.total = 0 := by
      unfold LoopOpts.total roundHalfUp
      rw [← hzero]
      norm_num
    have hwithin := h.within
    rw [htotal] at hwithin
    have hmem : x.1 ∈ List.range s.i :=
      h.indices.mem_iff.mp (List.mem_append_left _ (List.mem_map_of_mem hx))
    have hlt : x.1 < s.i := List.mem_range.mp hmem
    exact absurd hlt (by omega)

/-- However the requests settle, the loop and the lanes account for each of them. -/
theorem load_accounted :
    (∀ (o : LoopOpts), 0 ≤ o.rate → 0 ≤ o.durationMs → ∀ (es : List LoopEvent) (s : OpenLoop),
      runEvents (loopStep o) {} es = some s → LoopAccounts o s) ∧
    ∀ (o : BurstOpts), 1 ≤ o.maxInFlight →
      ∀ (sendMs : Nat → Rat) (es : List BurstEvent) (s : Burst),
        runEvents (burstStep o) (burst o sendMs) es = some s → BurstAccounts o s := by
  refine ⟨fun o hrate hduration es s hrun => ?_, fun o hmax sendMs es s hrun => ?_⟩
  · have h := loop_inv hrate hrun
    refine ⟨h.flights_le, fun x hx => h.timely_div hrate hx, ?_, fun j => ?_, h.skipped,
      h.accounted ?_⟩
    · exact h.indices.nodup_iff.mpr List.nodup_range
    · rw [h.indices.mem_iff, List.mem_range]
    · have hpos : 0 ≤ o.rate * o.durationMs / 1000 := by positivity
      exact Int.floor_nonneg.mpr (by linarith)
  · obtain ⟨⟨h, hlen⟩, hended⟩ := burst_inv hrun
    refine ⟨Nat.le_trans List.countP_le_length h.capped, h.sent, h.within, fun hr => ?_⟩
    obtain ⟨hnext, hout⟩ := h.accounted hlen hmax (hended hr)
    have hshots := h.shots
    rw [hout, hnext, Nat.add_zero] at hshots
    exact ⟨hnext, hshots, hout⟩

def okAnswer : Answer := ⟨200, "application/json", "", "", "", none⟩

/-- Two requests under a cap of one: the second is skipped. -/
def twoDue : List LoopEvent :=
  [.tick 500 fun _ => 1, .answered 0 700 okAnswer, .finalised 0, .returns]

/-- Two requests in one lane: the second leaves when the first is answered. -/
def twoInTurn : List BurstEvent :=
  [.answered 0 3 okAnswer, .resumes 0 4, .answered 0 2 okAnswer, .resumes 0 7, .returns]

theorem load_accounted_two :
    (∃ s, runEvents (loopStep ⟨4, 500, 1⟩) {} twoDue = some s ∧ s.returned = true ∧
      s.skipped = 1 ∧ LoopAccounts ⟨4, 500, 1⟩ s) ∧
    ∃ s, runEvents (burstStep ⟨2, 1⟩) (burst ⟨2, 1⟩ fun _ => 0) twoInTurn = some s ∧
      s.returned = true ∧ BurstAccounts ⟨2, 1⟩ s := by
  refine ⟨?_, ?_⟩
  · have hrun : (runEvents (loopStep ⟨4, 500, 1⟩) {} twoDue).isSome := by with_unfolding_all decide
    obtain ⟨s, hs⟩ := Option.isSome_iff_exists.mp hrun
    have hend : (runEvents (loopStep ⟨4, 500, 1⟩) {} twoDue).map
        (fun s => (s.returned, s.skipped)) = some (true, 1) := by with_unfolding_all decide
    rw [hs] at hend
    have hend := Prod.mk.inj (Option.some.inj hend)
    exact ⟨s, hs, hend.1, hend.2, load_accounted.1 _ (by norm_num) (by norm_num) _ s hs⟩
  · exact ⟨_, rfl, rfl, load_accounted.2 _ (by decide) (fun _ => 0) twoInTurn _ rfl⟩

end SupabaseLab.EdgeBurst
