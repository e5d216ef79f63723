/-
  Multigres/Load.lean --- a write load across a failover, and what is made of its log.

  Source: `WriteEvent`, `analyse` and `readPresent` of experiments/multigres/lib/load.ts.

  The log is in no order: workers overlap.  Times are whole milliseconds.  How a rate
  rounds in floating point is a parameter.
-/
import SupabaseLab.Library.Gaps
import SupabaseLab.Library.JsString
import SupabaseLab.Library.KeyMap
import SupabaseLab.Library.Separated

set_option autoImplicit false

namespace SupabaseLab.Multigres

open Library

/-! ## The log and its analysis -/

structure WriteEvent where
  w : Nat
  n : Nat
  /-- When the statement was sent, and when it settled. -/
  t0 : Int
  t1 : Int
  ok : Bool
  err : Option String := none
  deriving DecidableEq, Repr

structure Analysis where
  attempts : Nat
  acked : Nat
  errored : Nat
  lost : Nat
  committedUnacked : Nat
  erroredAbsent : Nat
  stallMs : Option Int
  firstErrorAfterFaultMs : Option Int
  lastErrorAfterFaultMs : Option Int
  recoveredMs : Option Int
  maxLatencyMs : Int
  errorModes : List (String × Nat)
  tpsBefore : Option Int
  tpsAfter : Option Int
  deriving DecidableEq, Repr

/-- "w:n". -/
def rowKey (w n : Nat) : String := toString w ++ ":" ++ toString n

/-- The set of keys of the rows that the table holds. -/
def readPresent (rows : List (Nat × Nat)) : List String := distinct (rows.map fun r => rowKey r.1 r.2)

section Analyse

variable (events : List WriteEvent) (tFault : Int)

def ackedOf : List WriteEvent := events.filter fun e => e.ok

def erroredOf : List WriteEvent := events.filter fun e => !e.ok

/-- The times of the acknowledgements, in order. -/
def ackTimes : List Int := ((ackedOf events).map fun e => e.t1).mergeSort fun a b => a ≤ b

/-- The errors that count against the fault. -/
def errAfter : List WriteEvent := (erroredOf events).filter fun e => tFault ≤ e.t1

def lastErrEnd : Option Int := ((errAfter events tFault).map fun e => e.t1).max?

def firstAckAfterLastErr : Option Int :=
  (lastErrEnd events tFault).bind fun lastErrEnd =>
    (ackTimes events).find? fun t => lastErrEnd < t

/-- The error texts with their counts, in the order in which they came first. -/
def errorCounts : KeyMap String Nat :=
  (erroredOf events).foldl
    (fun modes e => modes.set (e.err.getD "") ((modes.get? (e.err.getD "")).getD 0 + 1)) .empty

end Analyse

/-- `analyse`; `rate` is `Math.round((n / ms) * 1000)`. -/
def analyse (rate : Nat → Int → Int) (events : List WriteEvent) (present : List String)
    (tFault : Int) : Analysis :=
  let acked := ackedOf events
  let errored := erroredOf events
  let lost := (acked.filter fun e => !present.contains (rowKey e.w e.n)).length
  let committedUnacked := (errored.filter fun e => present.contains (rowKey e.w e.n)).length
  let firstErr := ((errAfter events tFault).map fun e => e.t0).min?
  let before := acked.filter fun e => e.t1 < tFault
  let t0 := (events.map fun e => e.t0).min?.getD tFault
  let after := acked.filter fun e => tFault < e.t1
  let tEnd := (events.map fun e => e.t1).max?.getD tFault
  { attempts := events.length
    acked := acked.length
    errored := errored.length
    lost := lost
    committedUnacked := committedUnacked
    erroredAbsent := errored.length - committedUnacked
    -- acks can land for a while after the fault is stamped, so the interval counts that
    -- ends after it
    stallMs := widest (fun b => tFault < b) (ackTimes events)
    firstErrorAfterFaultMs := firstErr.map fun firstErr => max 0 (firstErr - tFault)
    lastErrorAfterFaultMs := (lastErrEnd events tFault).map fun lastErrEnd => lastErrEnd - tFault
    recoveredMs := (firstAckAfterLastErr events tFault).map fun ack => ack - tFault
    maxLatencyMs := events.foldl (fun m e => max m (e.t1 - e.t0)) 0
    errorModes := (errorCounts events).entries.mergeSort fun a b => b.2 ≤ a.2
    tpsBefore := if t0 < tFault then some (rate before.length (tFault - t0)) else none
    tpsAfter := if tFault < tEnd then some (rate after.length (tEnd - tFault)) else none }

/-! ## Every attempt is counted once -/

def WriteEvent.id (e : WriteEvent) : Nat × Nat := (e.w, e.n)

/-- The pairs of the attempts that were acknowledged, and of those that were not. -/
def ackedIds (events : List WriteEvent) : Finset (Nat × Nat) :=
  ((ackedOf events).map WriteEvent.id).toFinset

def erroredIds (events : List WriteEvent) : Finset (Nat × Nat) :=
  ((erroredOf events).map WriteEvent.id).toFinset

/-- The counts part the attempts: into acknowledged and errored, the acknowledged into kept
and lost, the errored into committed and absent. -/
structure Partitions (events : List WriteEvent) (rows : List (Nat × Nat)) (a : Analysis) : Prop where
  whole : ackedIds events ∪ erroredIds events = (events.map WriteEvent.id).toFinset
  disjoint : Disjoint (ackedIds events) (erroredIds events)
  attempts : a.attempts = a.acked + a.errored
  acked : a.acked = (ackedIds events).card
  errored : a.errored = (erroredIds events).card
  lost : a.lost = ((ackedIds events).filter fun id => id ∉ rows).card
  committedUnacked : a.committedUnacked = ((erroredIds events).filter fun id => id ∈ rows).card
  erroredAbsent : a.erroredAbsent = ((erroredIds events).filter fun id => id ∉ rows).card

section Counts

variable {events : List WriteEvent} {rows : List (Nat × Nat)} {rate : Nat → Int → Int}
  {tFault : Int}

theorem colon_notMem_toString (n : Nat) : ':' ∉ (toString n).toList := by
  intro h
  rw [Nat.toString_eq_repr, Nat.toList_repr] at h
  have hdigit := Nat.isDigit_of_mem_toDigits (by decide) (by decide) h
  exact absurd hdigit (by decide)

theorem toString_nat_injective {m n : Nat} (h : (toString m).toList = (toString n).toList) :
    m = n := by
  rw [Nat.toString_eq_repr, Nat.toList_repr, Nat.toString_eq_repr, Nat.toList_repr] at h
  calc m = Nat.ofDigitChars 10 (Nat.toDigits 10 m) 0 := Nat.ofDigitChars_ten_toDigits.symm
    _ = Nat.ofDigitChars 10 (Nat.toDigits 10 n) 0 := by rw [h]
    _ = n := Nat.ofDigitChars_ten_toDigits

/-- A key names one row. -/
theorem rowKey_injective {w w' n n' : Nat} (h : rowKey w n = rowKey w' n') : w = w' ∧ n = n' := by
  have hlist := congrArg String.toList h
  have hcut : ∀ m k : Nat, (rowKey m k).toList = (toString m).toList ++ ':' :: (toString k).toList := by
    intro m k
    rw [rowKey, String.toList_append, String.toList_append, List.append_assoc]
    rfl
  rw [hcut, hcut] at hlist
  obtain ⟨hw, hn⟩ := append_cons_inj (colon_notMem_toString w) (colon_notMem_toString w') hlist
  exact ⟨toString_nat_injective hw, toString_nat_injective hn⟩

theorem contains_readPresent (w n : Nat) :
    (readPresent rows).contains (rowKey w n) = decide ((w, n) ∈ rows) := by
  rw [Bool.eq_iff_iff, List.contains_iff_mem, readPresent, mem_distinct, List.mem_map,
    decide_eq_true_iff]
  constructor
  · rintro ⟨r, hr, heq⟩
    obtain ⟨rfl, rfl⟩ := rowKey_injective heq
    exact hr
  · exact fun h => ⟨(w, n), h, rfl⟩

/-- Attempts with pairs of their own, counted by their pairs. -/
theorem length_filter_eq_card (hids : (events.map WriteEvent.id).Nodup) (p : WriteEvent → Bool)
    (q : Nat × Nat → Prop) [DecidablePred q] :
    ((events.filter p).filter fun e => q e.id).length =
      ((((events.filter p).map WriteEvent.id).toFinset).filter q).card := by
  have hnodup : ((events.filter p).map WriteEvent.id).Nodup :=
    hids.sublist (List.filter_sublist.map _)
  have hset : (((events.filter p).map WriteEvent.id).toFinset).filter q =
      (((events.filter p).map WriteEvent.id).filter fun id => q id).toFinset := by
    ext id
    simp only [Finset.mem_filter, List.mem_toFinset, List.mem_filter, decide_eq_true_eq]
  rw [hset, List.toFinset_card_of_nodup (hnodup.filter _), List.filter_map, List.length_map]
  rfl

theorem length_eq_card (hids : (events.map WriteEvent.id).Nodup) (p : WriteEvent → Bool) :
    (events.filter p).length = ((events.filter p).map WriteEvent.id).toFinset.card := by
  rw [List.toFinset_card_of_nodup (hids.sublist (List.filter_sublist.map _)), List.length_map]

theorem analyse_partitions (hids : (events.map WriteEvent.id).Nodup) :
    Partitions events rows (analyse rate events (readPresent rows) tFault) := by
  have hcommitted : ((erroredOf events).filter fun e =>
      (readPresent rows).contains (rowKey e.w e.n)).length =
      ((erroredIds events).filter fun id => id ∈ rows).card := by
    simp only [contains_readPresent]
    exact length_filter_eq_card hids _ fun id => id ∈ rows
  have hlost : ((ackedOf events).filter fun e =>
      !(readPresent rows).contains (rowKey e.w e.n)).length =
      ((ackedIds events).filter fun id => id ∉ rows).card := by
    simp only [contains_readPresent, ← decide_not]
    exact length_filter_eq_card hids _ fun id => id ∉ rows
  refine ⟨?_, ?_, ?_, length_eq_card hids _, length_eq_card hids _, hlost, hcommitted, ?_⟩
  · ext id
    simp only [ackedIds, erroredIds, ackedOf, erroredOf, Finset.mem_union, List.mem_toFinset,
      List.mem_map, List.mem_filter]
    constructor
    · rintro (⟨e, ⟨he, -⟩, heq⟩ | ⟨e, ⟨he, -⟩, heq⟩)
      · exact ⟨e, he, heq⟩
      · exact ⟨e, he, heq⟩
    · rintro ⟨e, he, heq⟩
      cases hok : e.ok with
      | true => exact .inl ⟨e, ⟨he, hok⟩, heq⟩
      | false => exact .inr ⟨e, ⟨he, by rw [hok]; rfl⟩, heq⟩
  · refine Finset.disjoint_left.mpr fun id hacked herrored => ?_
    obtain ⟨e, he, rfl⟩ := List.mem_map.mp (List.mem_toFinset.mp hacked)
    obtain ⟨e', he', heq⟩ := List.mem_map.mp (List.mem_toFinset.mp herrored)
    obtain ⟨hmem, hok⟩ := List.mem_filter.mp he
    obtain ⟨hmem', hnot⟩ := List.mem_filter.mp he'
    rw [List.inj_on_of_nodup_map hids hmem' hmem heq, hok] at hnot
    cases hnot
  · exact List.length_eq_length_filter_add fun e : WriteEvent => e.ok
  · have hsplit := Finset.card_filter_add_card_filter_not (s := erroredIds events)
      fun id => id ∈ rows
    show (erroredOf events).length - _ = _
    rw [hcommitted, show (erroredOf events).length = (erroredIds events).card from
      length_eq_card hids _]
    omega

end Counts

end SupabaseLab.Multigres
