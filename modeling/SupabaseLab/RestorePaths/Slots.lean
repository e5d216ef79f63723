/-
  RestorePaths/Slots.lean --- decoded transactions and what a consumer received.

  Source: `lsnToBig`, `bigToLsn`, `parseWal2json`, `Ledger`, `gaps` and
  `phaseCounts` of experiments/restore-paths/lib/slots.ts.

  A line is a string of JavaScript, so a list of code units.  What `Number` makes
  of a value that is not written as an integer is a parameter (`convert`): the ids
  of the table are integers.  The arrival times, the stalls and the errors of the
  ledger are left out.
-/
import SupabaseLab.Library.KeyMap
import SupabaseLab.Library.JsNumber
import SupabaseLab.Library.JsonText
import SupabaseLab.Library.Lines

set_option autoImplicit false

namespace SupabaseLab.RestorePaths

open Library

/-! ## LSN helpers -/

/-- White space and line ends, as `trim` knows them. -/
def isBlank (u : Nat) : Bool := isBlankUnit u || isLineTerminator u

def trim (s : JsText) : JsText := ((s.dropWhile isBlank).reverse.dropWhile isBlank).reverse

/-- A number in hexadecimal digits, one or more. -/
def hexValue (s : JsText) : Option Nat :=
  if s = [] then none else s.foldlM (fun n u => (hexDigit? u).map (16 * n + ·)) 0

/-- `none` when it throws. -/
def lsnToBig (lsn : JsText) : Option Nat :=
  let s := trim lsn
  match s.dropWhile (· ≠ '/'.toNat) with
  | [] => none
  | _ :: low => do
      let high ← hexValue (s.takeWhile (· ≠ '/'.toNat))
      let low ← hexValue low
      return high * 2 ^ 32 + low

def hexUpper (n : Nat) : String := String.ofList ((Nat.toDigits 16 n).map Char.toUpper)

def bigToLsn (b : Nat) : String := hexUpper (b / 2 ^ 32) ++ "/" ++ hexUpper (b % 2 ^ 32)

/-! ## Ids -/

/-- A number of JavaScript; one that is no integer is given by its bits. -/
inductive JsNum where
  | int (z : Int)
  | other (bits : Nat)
  deriving DecidableEq, Repr

/-- The double nearest to an integer. -/
def rounded (z : Int) : JsNum :=
  (toDouble z.natAbs).elim (.other (if z < 0 then 0xFFF0000000000000 else 0x7FF0000000000000))
    fun n => .int (if z < 0 then -n else n)

/-- Below `2^53` an id is itself. -/
theorem rounded_of_lt {z : Int} (h : z.natAbs < 2 ^ 53) : rounded z = .int z := by
  have habs : (if z < 0 then -(z.natAbs : Int) else z.natAbs) = z := by
    split_ifs <;> omega
  rw [rounded, toDouble_of_lt h, Option.elim_some, habs]

/-- An integer that is written in decimal digits. -/
def integer? (digits : JsText) : Option Int :=
  let negative := digits.head? = some '-'.toNat
  let digits := if negative then digits.tail else digits
  if digits ≠ [] ∧ digits.all JsonText.isDigitUnit then
    let n : Nat := digits.foldl (fun n u => 10 * n + (u - 48)) 0
    some (if negative then -n else n)
  else none

/-- `Number(value)`. -/
def number (convert : JsonText → JsNum) (v : JsonText) : JsNum :=
  match v with
  | .num digits =>
      match integer? digits with
      | some z => rounded z
      | none => convert v
  | _ => convert v

/-! ## wal2json -/

structure DecodedTx where
  endLsn : Nat
  ids : List JsNum
  deriving DecidableEq, Repr

/-- `value === literal`. -/
def isText (v : Option JsonText) (literal : String) : Bool :=
  match v with
  | some (.str s) => s = units literal
  | _ => false

/-- `columns.find((c) => c.name === "id")`; `none` when it throws. -/
def findId : List JsonText → Option (Option JsonText)
  | [] => some none
  | c :: rest => do
      let name ← c.get? (units "name")
      if isText name "id" then return some c else findId rest

/-- `j.columns?.find(…)?.value`. -/
def insertedId (j : JsonText) : Option (Option JsonText) := do
  match ← j.get? (units "columns") with
  | none | some .null => return none
  | some (.arr items) =>
      match ← findId items with
      | none => return none
      | some c => c.get? (units "value")
  | some _ => none

/-- `j.nextlsn ? lsnToBig(j.nextlsn) : 0n`. -/
def commitEnd (convert : JsonText → JsNum) (j : JsonText) : Option Nat := do
  match ← j.get? (units "nextlsn") with
  | none | some .null | some (.bool false) | some (.str []) => return 0
  | some (.str s) => lsnToBig s
  | some (.num digits) => if number convert (.num digits) = .int 0 then some 0 else none
  | some _ => none

/-- The transactions that are complete, and the one that has begun. -/
abbrev Parsed : Type := List DecodedTx × Option DecodedTx

/-- One round of the loop of `parseWal2json`. -/
def parseLine (convert : JsonText → JsNum) (parsed : Parsed) (line : JsText) : Option Parsed :=
  if line.all isBlank then some parsed
  else
    match JsonText.parse line with
    | none => some parsed
    | some j => do
        let action ← j.get? (units "action")
        if isText action "B" then return (parsed.1, some ⟨0, []⟩)
        else
          match parsed.2 with
          | none => return parsed
          | some cur =>
              if isText action "I" then
                if isText (← j.get? (units "table")) "rp_slot_events" then
                  match ← insertedId j with
                  | none => return parsed
                  | some v => return (parsed.1, some { cur with ids := cur.ids ++ [number convert v] })
                else return parsed
              else if isText action "C" then
                let endLsn ← commitEnd convert j
                return (parsed.1 ++ [{ cur with endLsn := endLsn }], none)
              else return parsed

/-- `none` when it throws. -/
def parseWal2json (convert : JsonText → JsNum) (lines : List JsText) : Option (List DecodedTx) :=
  (lines.foldlM (parseLine convert) ([], none)).map Prod.fst

/-! ## The ledger -/

structure Redelivery where
  id : JsNum
  phase : String
  endLsn : String
  rewind : Bool
  deriving DecidableEq, Repr

structure Received where
  id : JsNum
  phase : String
  deriving DecidableEq, Repr

structure Ledger where
  seen : JsMap JsNum String := []
  received : List Received := []
  redeliveries : List Redelivery := []
  confirmed : Nat := 0
  maxEnd : Nat := 0

/-- One id of a transaction. -/
def Ledger.takeId (endLsn : Nat) (phase : String) (confirmedBefore : Nat) (l : Ledger) (id : JsNum) :
    Ledger :=
  let l :=
    if l.seen.has id then
      { l with redeliveries := l.redeliveries ++
          [⟨id, phase, bigToLsn endLsn, endLsn ≤ confirmedBefore⟩] }
    else { l with seen := l.seen.set id phase }
  { l with received := l.received ++ [⟨id, phase⟩] }

def Ledger.take (l : Ledger) (tx : DecodedTx) (phase : String) (confirmedBefore : Nat) : Ledger :=
  let l := tx.ids.foldl (Ledger.takeId tx.endLsn phase confirmedBefore) l
  { l with maxEnd := if tx.endLsn > l.maxEnd then tx.endLsn else l.maxEnd }

def gaps (acked : JsMap JsNum String) (l : Ledger) : List (JsNum × String) :=
  acked.filter fun e => ¬ l.seen.has e.1

structure PhaseCounts where
  dup : Nat
  dupRewind : Nat
  gap : Nat
  recv : Nat
  deriving DecidableEq, Repr

def phaseCounts (phase : String) (acked : JsMap JsNum String) (l : Ledger) : PhaseCounts :=
  let dup := l.redeliveries.filter fun r => r.phase = phase
  { dup := dup.length
    dupRewind := (dup.filter Redelivery.rewind).length
    gap := ((gaps acked l).filter fun g => g.2 = phase).length
    recv := (l.received.filter fun r => r.phase = phase).length }

/-! ## What the counts add up to -/

section Counts

variable {l : Ledger} {endLsn confirmedBefore : Nat} {phase : String} {id : JsNum}
  {ids : List JsNum} {tx : DecodedTx} {txs : List DecodedTx}

/-- The books of a ledger: `seen` has each id received once, and every other delivery of
an id is a redelivery. -/
structure Ledger.Books (l : Ledger) : Prop where
  nodup : (l.seen.map Prod.fst).Nodup
  seen : ∀ id, id ∈ l.seen.map Prod.fst ↔ id ∈ l.received.map Received.id
  count : l.received.length = l.seen.length + l.redeliveries.length
  phases : ∀ r ∈ l.redeliveries, r.phase ∈ l.received.map Received.phase

theorem books_empty : Ledger.Books {} where
  nodup := List.nodup_nil
  seen id := by simp
  count := rfl
  phases r hr := absurd hr List.not_mem_nil

theorem Ledger.Books.takeId (h : l.Books) : (l.takeId endLsn phase confirmedBefore id).Books := by
  unfold Ledger.takeId
  cases hid : l.seen.has id with
  | true =>
    have hmem := (h.seen id).mp (JsMap.has_iff.mp hid)
    refine ⟨h.nodup, fun id' => ?_, ?_, fun r hr => ?_⟩
    · simp only [if_true, List.map_append, List.mem_append, List.map_cons, List.map_nil,
        List.mem_singleton]
      rw [h.seen id']
      constructor
      · exact .inl
      · rintro (hid' | rfl)
        · exact hid'
        · exact hmem
    · simp [h.count]
      omega
    · simp only [if_true, List.mem_append, List.mem_singleton] at hr
      simp only [List.map_append, List.mem_append]
      rcases hr with hr | rfl
      · exact .inl (h.phases r hr)
      · exact .inr (by simp)
  | false =>
    have hfresh := JsMap.set_of_not_has phase hid
    refine ⟨?_, fun id' => ?_, ?_, fun r hr => ?_⟩
    · simp only [Bool.false_eq_true, if_false]
      exact JsMap.nodup_set h.nodup id phase
    · have hseen := h.seen id'
      simp only [hfresh, List.map_append, List.mem_append, Bool.false_eq_true, if_false, hseen,
        List.map_cons, List.map_nil]
    · simp [h.count, hfresh]
      omega
    · simp only [Bool.false_eq_true, if_false] at hr
      simp only [List.map_append, List.mem_append]
      exact .inl (h.phases r hr)

theorem Ledger.Books.take (h : l.Books) : (l.take tx phase confirmedBefore).Books := by
  have hids : ∀ (ids : List JsNum) (l : Ledger), l.Books →
      (ids.foldl (Ledger.takeId tx.endLsn phase confirmedBefore) l).Books := by
    intro ids
    induction ids with
    | nil => exact fun l hl => hl
    | cons id ids ih => exact fun l hl => ih _ hl.takeId
  have hl := hids tx.ids l h
  exact ⟨hl.nodup, hl.seen, hl.count, hl.phases⟩

/-- Each entry is counted in one phase. -/
theorem sum_phases {ρ : Type} {f : ρ → String} {phases : List String} (hnodup : phases.Nodup) :
    ∀ rows : List ρ, (∀ r ∈ rows, f r ∈ phases) →
      (phases.map fun p => (rows.filter fun r => f r = p).length).sum = rows.length := by
  intro rows
  induction rows with
  | nil => simp
  | cons r rows ih =>
    intro hall
    obtain ⟨hr, hrows⟩ := List.forall_mem_cons.mp hall
    have hone : (phases.map fun p => if f r = p then 1 else 0).sum = 1 := by
      rw [List.sum_map_eq_nsmul_single (f r), List.count_eq_one_of_mem hnodup hr]
      · simp
      · exact fun p hp _ => if_neg (Ne.symm hp)
    have hstep : (fun p => ((r :: rows).filter fun r => f r = p).length) =
        fun p => (if f r = p then 1 else 0) + (rows.filter fun r => f r = p).length := by
      funext p
      by_cases hp : f r = p
      · simp [hp]
        omega
      · simp [hp]
    rw [hstep, List.sum_map_add, hone, ih hrows, List.length_cons, Nat.add_comm]

/-- The counts of the phases add up to the ledger's. -/
theorem Ledger.Books.phaseCounts_sum (h : l.Books) (acked : JsMap JsNum String)
    {phases : List String} (hnodup : phases.Nodup) (hall : ∀ r ∈ l.received, r.phase ∈ phases) :
    (phases.map fun p => (phaseCounts p acked l).recv).sum = l.received.length ∧
      (phases.map fun p => (phaseCounts p acked l).dup).sum = l.redeliveries.length ∧
      (phases.map fun p => (phaseCounts p acked l).dupRewind).sum =
        (l.redeliveries.filter Redelivery.rewind).length := by
  have hdup : ∀ r ∈ l.redeliveries, r.phase ∈ phases := fun r hr => by
    obtain ⟨r', hr', heq⟩ := List.mem_map.mp (h.phases r hr)
    rw [← heq]
    exact hall r' hr'
  refine ⟨sum_phases hnodup _ hall, sum_phases hnodup _ hdup, ?_⟩
  have hrewind := sum_phases hnodup (l.redeliveries.filter Redelivery.rewind) fun r hr =>
    hdup r (List.mem_of_mem_filter hr)
  simp only [phaseCounts, List.filter_filter, Bool.and_comm] at hrewind ⊢
  exact hrewind

end Counts

end SupabaseLab.RestorePaths
