/-
  SqliteEdge/Exec.lean --- the executor behind POST /run.

  Source: `validateRunRequest` and `executeRun` of
  experiments/sqlite-edge-compare/lib/exec.ts, lib/contract.ts, and the /run
  handler of worker/index.ts.

  Lanes open at once and pull iterations from one counter; between the test of the
  counter and its increment nothing else runs.  A run is a list of events: a lane
  opens or is refused, a driver call settles, a connection is closed.  Numbers of
  iterations and lanes are naturals: others are refused with the same texts.  Which
  driver a backend opens, and its options, are left out.  Times are rational numbers.
-/
import SupabaseLab.Library.JsMap
import SupabaseLab.Library.Machine
import SupabaseLab.Library.SharedFlight

set_option autoImplicit false

namespace SupabaseLab.SqliteEdge

open Library

/-! ## Requests -/

def OPS_PER_INVOCATION : Nat := 500
def MAX_CONCURRENCY : Nat := 64
def MAX_STATEMENTS : Nat := 100

def WORKER_BACKENDS : List String :=
  ["d1", "turso", "tursodb", "do", "pg", "pg_cached", "postgrest"]

inductive Mode where
  | each
  | batch
  | tx
  deriving DecidableEq, Repr

structure HttpStmt where
  method : String
  path : String
  deriving DecidableEq, Repr

structure Stmt where
  sql : Option String := none
  http : Option HttpStmt := none
  deriving DecidableEq, Repr

/-- A request as a module writes it; `iOffset` is set by `runOnWorker` alone. -/
structure RunRequest where
  backend : String
  statements : List Stmt
  iterations : Option Nat := none
  concurrency : Option Nat := none
  mode : Option Mode := none
  returnRows : Option Bool := none
  rowsLimit : Option Nat := none
  returnMeta : Option Bool := none
  noSplit : Option Bool := none
  label : Option String := none
  deriving DecidableEq, Repr

/-- The body of POST /run. -/
structure RunBody extends RunRequest where
  iOffset : Option Nat := none
  deriving DecidableEq, Repr

/-- `iterations` stands for `repeat`. -/
def RunRequest.repeats (req : RunRequest) : Nat := req.iterations.getD 1

def RunRequest.lanes (req : RunRequest) : Nat := req.concurrency.getD 1

def RunRequest.runMode (req : RunRequest) : Mode := req.mode.getD .each

/-- The check of one statement, with its index in the text. -/
def checkStatement (http : Bool) (k : Nat) (s : Stmt) : Except String Unit :=
  if http && s.http.all fun h => h.method = "" then
    .error s!"statements[{k}].http.path required for postgrest"
  else if !http && s.sql.isNone then .error s!"statements[{k}].sql required"
  else .ok ()

def validateRunRequest (b : RunRequest) (backends : List String) : Except String Unit := do
  if b.backend ∉ backends then
    let known := "|".intercalate backends
    .error s!"backend must be one of {known}"
  if b.statements = [] then .error "statements must be a non-empty array"
  if MAX_STATEMENTS < b.statements.length then .error s!"at most {MAX_STATEMENTS} statements"
  for (s, k) in b.statements.zipIdx do
    checkStatement (b.backend = "postgrest") k s
  if (b.backend = "postgrest" ∨ b.backend = "d1_rest") ∧ b.runMode ≠ .each then
    .error s!"{b.backend} supports mode \"each\" only"
  if b.repeats < 1 then .error "repeat must be a positive integer"
  if b.lanes < 1 ∨ MAX_CONCURRENCY < b.lanes then
    .error s!"concurrency must be an integer 1..{MAX_CONCURRENCY}"
  if b.noSplit ≠ some true ∧ OPS_PER_INVOCATION < b.repeats * b.statements.length then
    .error s!"repeat x statements > {OPS_PER_INVOCATION}: split across invocations (runOnWorker does) or set noSplit"

/-! ## Responses -/

structure StmtOut where
  rowCount : Option Nat := none
  rows : Option (List String) := none
  metaInfo : Option String := none
  deriving DecidableEq, Repr

def trim (out : StmtOut) (rows metaInfo : Bool) (limit : Nat) : StmtOut where
  rowCount := out.rowCount
  rows := if rows then out.rows.map (List.take limit) else none
  metaInfo := if metaInfo then out.metaInfo else none

structure OpResult where
  inv : Nat
  lane : Nat
  i : Nat
  /-- The statement's index, or -1 for a whole batch or transaction. -/
  stmt : Int
  t0 : ℚ
  ms : ℚ
  ok : Bool
  error : Option String := none
  out : Option (List StmtOut) := none
  deriving DecidableEq, Repr

structure LaneInfo where
  lane : Nat
  connectMs : ℚ
  error : Option String := none
  deriving DecidableEq, Repr

structure ErrorCount where
  text : String
  count : Nat
  deriving DecidableEq, Repr

structure RunResponse where
  ok : Bool
  error : Option String := none
  iterations : Nat := 0
  colo : String := ""
  wallMs : ℚ := 0
  lanes : List LaneInfo := []
  ops : List OpResult := []
  errors : List ErrorCount := []

/-- The count of a text goes up by one. -/
def countText (m : JsMap String Nat) (text : String) : JsMap String Nat :=
  m.set text ((m.get? text).getD 0 + 1)

def countErrors (ops : List OpResult) (lanes : List LaneInfo) : List ErrorCount :=
  let m := (ops.filterMap (·.error)).foldl countText []
  let m := (lanes.filterMap (·.error)).foldl (fun m e => countText m s!"connect: {e}") m
  (m.map fun e => ⟨e.1, e.2⟩).insertionSort fun a b => b.count ≤ a.count

/-! ## The executor -/

/-- What a driver call comes to: what it produced, or the text of its error. -/
abbrev Outcome := Except String (List StmtOut)

/-- Where a lane is: its connection is opening; it awaits operation `op` of
iteration `i`; its connection is closing; it has ended, or was refused. -/
inductive Lane where
  | opening
  | awaiting (i op : Nat)
  | closing
  | ended
  | refused
  deriving DecidableEq

/-- The variables of `executeRun`. -/
structure Exec where
  next : Nat := 0
  lanes : List Lane
  ops : List OpResult := []
  lanesInfo : List LaneInfo := []
  response : Option RunResponse := none

/-- Operations an iteration: one a statement, or one for all. -/
def RunRequest.opsPerIteration (req : RunRequest) : Nat :=
  if req.runMode = .each then req.statements.length else 1

/-- The label of an operation. -/
def RunRequest.stmtOf (req : RunRequest) (op : Nat) : Int :=
  if req.runMode = .each then op else -1

/-- A lane turns its loop.  Iterations without an operation are all taken at once. -/
def turn (req : RunRequest) (s : Exec) : Exec × Lane :=
  if s.next < req.repeats then
    if req.opsPerIteration = 0 then ({ s with next := req.repeats }, .closing)
    else ({ s with next := s.next + 1 }, .awaiting s.next 0)
  else (s, .closing)

/-- The record of a driver call. -/
def opResult (body : RunBody) (lane i op : Nat) (t0 ms : ℚ) (outcome : Outcome) : OpResult :=
  match outcome with
  | .ok outs =>
      { inv := 0, lane := lane, i := i + body.iOffset.getD 0, stmt := body.stmtOf op, t0 := t0, ms := ms
        ok := true
        out := some (outs.map fun x =>
          trim x (body.returnRows.getD false) (body.returnMeta.getD true) (body.rowsLimit.getD 100)) }
  | .error e =>
      { inv := 0, lane := lane, i := i + body.iOffset.getD 0, stmt := body.stmtOf op, t0 := t0, ms := ms
        ok := false
        error := some e }

/-- `a.i - b.i || a.stmt - b.stmt` is not positive. -/
def OpResult.Before (a b : OpResult) : Prop := a.i < b.i ∨ a.i = b.i ∧ a.stmt ≤ b.stmt

instance : DecidableRel OpResult.Before := fun _ _ => inferInstanceAs (Decidable (_ ∨ _))

def startExec (req : RunRequest) : Exec := { lanes := List.replicate req.lanes .opening }

inductive ExecEvent where
  | opened (lane : Nat) (connectMs : ℚ)
  | refused (lane : Nat) (connectMs : ℚ) (error : String)
  | settled (lane : Nat) (t0 ms : ℚ) (outcome : Outcome)
  | closed (lane : Nat)
  | returns (colo : String) (wallMs : ℚ)

def execStep (body : RunBody) (s : Exec) : ExecEvent → Option Exec
  | .opened lane connectMs =>
      match s.lanes[lane]? with
      | some .opening =>
          let (s', lane') := turn body.toRunRequest s
          some { s' with
            lanes := s'.lanes.set lane lane'
            lanesInfo := s'.lanesInfo ++ [{ lane := lane, connectMs := connectMs }] }
      | _ => none
  | .refused lane connectMs error =>
      match s.lanes[lane]? with
      | some .opening =>
          some { s with
            lanes := s.lanes.set lane .refused
            lanesInfo := s.lanesInfo ++ [{ lane := lane, connectMs := connectMs, error := some error }] }
      | _ => none
  | .settled lane t0 ms outcome =>
      match s.lanes[lane]? with
      | some (.awaiting i op) =>
          let s := { s with ops := s.ops ++ [opResult body lane i op t0 ms outcome] }
          if op + 1 < body.opsPerIteration then
            some { s with lanes := s.lanes.set lane (.awaiting i (op + 1)) }
          else
            let (s', lane') := turn body.toRunRequest s
            some { s' with lanes := s'.lanes.set lane lane' }
      | _ => none
  | .closed lane =>
      match s.lanes[lane]? with
      | some .closing => some { s with lanes := s.lanes.set lane .ended }
      | _ => none
  | .returns colo wallMs =>
      if s.response.isNone ∧ s.lanes.all (fun lane => lane = .ended || lane = .refused) then
        let ops := s.ops.insertionSort OpResult.Before
        let lanes := s.lanesInfo.insertionSort fun a b => a.lane ≤ b.lane
        some { s with
          response := some
            { ok := true
              iterations := body.repeats
              colo := colo
              wallMs := wallMs
              lanes := lanes
              ops := ops
              errors := countErrors ops lanes } }
      else none

/-- POST /run, where the run took the events; `none` while it has not answered. -/
def handleRun (body : RunBody) (events : List ExecEvent) : Option RunResponse :=
  match validateRunRequest body.toRunRequest WORKER_BACKENDS with
  | .error e => some { ok := false, error := some e }
  | .ok () => (runEvents (execStep body) (startExec body.toRunRequest) events).bind (·.response)

/-! ## The lanes keep their books -/

section Books

variable {body : RunBody} {s s' : Exec} {l i op : Nat} {lane lane' : Lane} {r : OpResult}

/-- The lane has, or had, a connection. -/
def Lane.Open : Lane → Prop
  | .awaiting _ _ | .closing | .ended => True
  | .opening | .refused => False

/-- The record is of operation `op` of iteration `i`. -/
def OpResult.Of (body : RunBody) (r : OpResult) (i op : Nat) : Prop :=
  r.i = i + body.iOffset.getD 0 ∧ r.stmt = body.stmtOf op

/-- Every iteration below the counter is with one lane or done; what is recorded of
one that is with a lane is what the lane has behind it.  A lane that has just
recorded the last operation of its iteration stands at `opsPerIteration`. -/
structure Books (body : RunBody) (s : Exec) : Prop where
  within : s.next ≤ body.repeats
  taken : ∀ (l i op : Nat), s.lanes[l]? = some (.awaiting i op) → i < s.next ∧ op ≤ body.opsPerIteration
  apart : ∀ (l l' i op op' : Nat), s.lanes[l]? = some (.awaiting i op) →
    s.lanes[l']? = some (.awaiting i op') → l = l'
  recorded : ∀ r ∈ s.ops, ∃ i op, i < s.next ∧ op < body.opsPerIteration ∧ r.Of body i op
  once : s.ops.Pairwise fun a b => a.i = b.i → a.stmt ≠ b.stmt
  present : ∀ i op, i < s.next → op < body.opsPerIteration → ((∃ r ∈ s.ops, r.Of body i op) ↔
    ∀ (l op' : Nat), s.lanes[l]? = some (.awaiting i op') → op < op')
  held : ∀ r ∈ s.ops, ∀ (l i op : Nat), s.lanes[l]? = some (.awaiting i op) →
    r.i = i + body.iOffset.getD 0 → r.lane = l
  oneLane : ∀ r ∈ s.ops, ∀ r' ∈ s.ops, r.i = r'.i → r.lane = r'.lane
  exhausted : ∀ (l : Nat) lane, s.lanes[l]? = some lane → lane = .closing ∨ lane = .ended →
    s.next = body.repeats
  opened : (∃ x ∈ s.lanesInfo, x.error = none) ↔
    ∃ (l : Nat) (lane : Lane), s.lanes[l]? = some lane ∧ lane.Open
  bySome : s.ops ≠ [] → ∃ x ∈ s.lanesInfo, x.error = none

theorem opResult_of {t0 ms : ℚ} {outcome : Outcome} :
    (opResult body l i op t0 ms outcome).Of body i op ∧
      (opResult body l i op t0 ms outcome).lane = l := by
  cases outcome with
  | ok outs => exact ⟨⟨rfl, rfl⟩, rfl⟩
  | error e => exact ⟨⟨rfl, rfl⟩, rfl⟩

/-- The labels of the operations of an iteration are different. -/
theorem stmtOf_inj {op op' : Nat} (hop : op < body.opsPerIteration)
    (hop' : op' < body.opsPerIteration) (h : body.stmtOf op = body.stmtOf op') : op = op' := by
  unfold RunRequest.opsPerIteration at hop hop'
  unfold RunRequest.stmtOf at h
  split at h
  · exact Int.ofNat_inj.mp h
  · rename_i hmode
    rw [if_neg hmode] at hop hop'
    omega

theorem OpResult.Of.i_inj {i' op' : Nat} (h : r.Of body i op) (h' : r.Of body i' op') : i = i' :=
  Nat.add_right_cancel (h.1.symm.trans h'.1)

theorem lt_of_lane (h : s.lanes[l]? = some lane) : l < s.lanes.length :=
  (List.getElem?_eq_some_iff.mp h).1

/-- Who awaits an operation, when one lane is closing. -/
theorem awaiting_set_closing {l' : Nat}
    (h : (s.lanes.set l .closing)[l']? = some (.awaiting i op)) :
    l' ≠ l ∧ s.lanes[l']? = some (.awaiting i op) := by
  obtain hother | ⟨-, hnew⟩ := getElem?_set_cases h
  · exact hother
  · cases hnew

/-- Who awaits an operation, when one lane awaits another. -/
theorem awaiting_set_awaiting {l' i' op' : Nat}
    (h : (s.lanes.set l (.awaiting i op))[l']? = some (.awaiting i' op')) :
    l' ≠ l ∧ s.lanes[l']? = some (.awaiting i' op') ∨ l' = l ∧ i' = i ∧ op' = op := by
  obtain hother | ⟨heq, hnew⟩ := getElem?_set_cases h
  · exact .inl hother
  · cases hnew
    exact .inr ⟨heq, rfl, rfl⟩

/-- Some lane is open, when this one is. -/
theorem open_set (hlane : s.lanes[l]? = some lane) (hopen : lane'.Open) :
    ∃ (l' : Nat) (lane₁ : Lane), (s.lanes.set l lane')[l']? = some lane₁ ∧ lane₁.Open :=
  ⟨l, lane', List.getElem?_set_self (lt_of_lane hlane), hopen⟩

/-- What is recorded, when a lane has recorded the operation it awaited. -/
theorem Books.present_record (h : Books body s) (hlane : s.lanes[l]? = some (.awaiting i op))
    (hop : op < body.opsPerIteration) (hr : r.Of body i op) {i' op' : Nat} (hi' : i' < s.next)
    (hop' : op' < body.opsPerIteration) : (∃ x ∈ s.ops ++ [r], x.Of body i' op') ↔
      ∀ (l' op₁ : Nat), (s.lanes.set l (.awaiting i (op + 1)))[l']? = some (.awaiting i' op₁) →
        op' < op₁ := by
  constructor
  · rintro ⟨x, hx, hof⟩ l' op₁ hget
    obtain ⟨hne, hkept⟩ | ⟨-, hi₁, hop₁⟩ := awaiting_set_awaiting hget
    · rcases List.mem_append.mp hx with hx | hx
      · exact (h.present i' op' hi' hop').mp ⟨x, hx, hof⟩ l' op₁ hkept
      · rw [List.mem_singleton.mp hx] at hof
        exact absurd (h.apart l' l i' op₁ op hkept (by rw [hof.i_inj hr]; exact hlane)) hne
    · rw [hop₁]
      rcases List.mem_append.mp hx with hx | hx
      · have hlt := (h.present i' op' hi' hop').mp ⟨x, hx, hof⟩ l op (by rw [hi₁]; exact hlane)
        exact Nat.lt_succ_of_lt hlt
      · rw [List.mem_singleton.mp hx] at hof
        rw [stmtOf_inj hop' hop (hof.2.symm.trans hr.2)]
        exact Nat.lt_succ_self op
  · intro hbehind
    by_cases hthis : i' = i ∧ op' = op
    · obtain ⟨rfl, rfl⟩ := hthis
      exact ⟨r, List.mem_append_right _ (List.mem_singleton_self r), hr⟩
    · have hthere := (h.present i' op' hi' hop').mpr fun l' op₁ hget => ?_
      · obtain ⟨x, hx, hof⟩ := hthere
        exact ⟨x, List.mem_append_left _ hx, hof⟩
      by_cases hl : l' = l
      · rw [hl, hlane] at hget
        obtain ⟨rfl, rfl⟩ := Lane.awaiting.inj (Option.some.inj hget)
        have hlt := hbehind l (op + 1) (List.getElem?_set_self (lt_of_lane hlane))
        have hne : op' ≠ op := fun heq => hthis ⟨rfl, heq⟩
        omega
      · exact hbehind l' op₁ ((List.getElem?_set_ne fun heq => hl heq.symm).trans hget)

/-- A lane records the operation it awaited. -/
theorem Books.record (h : Books body s) (hlane : s.lanes[l]? = some (.awaiting i op))
    (hop : op < body.opsPerIteration) (hr : r.Of body i op) (hrl : r.lane = l) :
    Books body { s with ops := s.ops ++ [r], lanes := s.lanes.set l (.awaiting i (op + 1)) } := by
  have hi : i < s.next := (h.taken l i op hlane).1
  have hfresh : ¬ ∃ r ∈ s.ops, r.Of body i op := fun hthere =>
    Nat.lt_irrefl op ((h.present i op hi hop).mp hthere l op hlane)
  refine ⟨h.within, ?_, ?_, ?_, ?_, fun i' op' hi' hop' => h.present_record hlane hop hr hi' hop',
    ?_, ?_, ?_, ?_, ?_⟩
  · intro l' i' op' hget
    obtain ⟨-, hget⟩ | ⟨rfl, rfl, rfl⟩ := awaiting_set_awaiting hget
    · exact h.taken l' i' op' hget
    · exact ⟨hi, hop⟩
  · intro l₁ l₂ i' op₁ op₂ h₁ h₂
    obtain ⟨-, hold₁⟩ | ⟨hl₁, hi₁, -⟩ := awaiting_set_awaiting h₁
    · obtain ⟨-, hold₂⟩ | ⟨hl₂, hi₂, -⟩ := awaiting_set_awaiting h₂
      · exact h.apart l₁ l₂ i' op₁ op₂ hold₁ hold₂
      · exact h.apart l₁ l₂ i' op₁ op hold₁ (by rw [hl₂, hi₂]; exact hlane)
    · obtain ⟨-, hold₂⟩ | ⟨hl₂, -, -⟩ := awaiting_set_awaiting h₂
      · exact h.apart l₁ l₂ i' op op₂ (by rw [hl₁, hi₁]; exact hlane) hold₂
      · exact hl₁.trans hl₂.symm
  · intro x hx
    rcases List.mem_append.mp hx with hx | hx
    · exact h.recorded x hx
    · rw [List.mem_singleton.mp hx]
      exact ⟨i, op, hi, hop, hr⟩
  · refine List.pairwise_append.mpr ⟨h.once, List.pairwise_singleton _ _, fun a ha b hb hab hstmt => ?_⟩
    rw [List.mem_singleton.mp hb] at hab hstmt
    exact hfresh ⟨a, ha, hab.trans hr.1, hstmt.trans hr.2⟩
  · intro x hx l' i' op' hget hxi
    rcases List.mem_append.mp hx with hx | hx
    · obtain ⟨-, hkept⟩ | ⟨hl, hi₁, -⟩ := awaiting_set_awaiting hget
      · exact h.held x hx l' i' op' hkept hxi
      · exact (h.held x hx l i op hlane (hi₁ ▸ hxi)).trans hl.symm
    · rw [List.mem_singleton.mp hx] at hxi ⊢
      have hi₁ : i' = i := Nat.add_right_cancel (hxi.symm.trans hr.1)
      obtain ⟨-, hkept⟩ | ⟨hl, -, -⟩ := awaiting_set_awaiting hget
      · exact hrl.trans (h.apart l l' i op op' hlane (hi₁ ▸ hkept))
      · exact hrl.trans hl.symm
  · intro x hx y hy hxy
    rcases List.mem_append.mp hx with hx | hx
    · rcases List.mem_append.mp hy with hy | hy
      · exact h.oneLane x hx y hy hxy
      · rw [List.mem_singleton.mp hy] at hxy ⊢
        exact (h.held x hx l i op hlane (hxy.trans hr.1)).trans hrl.symm
    · rw [List.mem_singleton.mp hx] at hxy ⊢
      rcases List.mem_append.mp hy with hy | hy
      · exact hrl.trans (h.held y hy l i op hlane (hxy.symm.trans hr.1)).symm
      · rw [List.mem_singleton.mp hy]
  · intro l' lane hget hover
    obtain ⟨-, hget⟩ | ⟨-, rfl⟩ := getElem?_set_cases hget
    · exact h.exhausted l' lane hget hover
    · cases hover with
      | inl h => cases h
      | inr h => cases h
  · exact ⟨fun _ => open_set hlane trivial, fun _ => h.opened.mpr ⟨l, _, hlane, trivial⟩⟩
  · exact fun _ => h.opened.mpr ⟨l, _, hlane, trivial⟩

/-- A lane whose iteration is done is past every operation, so the other lanes decide. -/
theorem past_of_others (hlane : s.lanes[l]? = some lane)
    (hdone : ∀ i op, lane = .awaiting i op → op = body.opsPerIteration)
    (hop : op < body.opsPerIteration)
    (hothers : ∀ (l' op' : Nat), l' ≠ l → s.lanes[l']? = some (.awaiting i op') → op < op') :
    ∀ (l' op' : Nat), s.lanes[l']? = some (.awaiting i op') → op < op' := by
  intro l' op' hget
  by_cases hl : l' = l
  · rw [hl, hlane] at hget
    rw [hdone i op' (Option.some.inj hget)]
    exact hop
  · exact hothers l' op' hl hget

/-- A lane closes when no iteration is left, or none has an operation. -/
theorem Books.closes (h : Books body s) (hlane : s.lanes[l]? = some lane)
    (hdone : ∀ i op, lane = .awaiting i op → op = body.opsPerIteration)
    (hnone : s.next = body.repeats ∨ body.opsPerIteration = 0)
    {infos : List LaneInfo} (hinfos : ∃ x ∈ infos, x.error = none) :
    Books body { s with
      next := body.repeats, lanes := s.lanes.set l .closing, lanesInfo := infos } := by
  refine ⟨Nat.le_refl _, fun l' i' op' hget => ?_, fun l₁ l₂ i' op₁ op₂ h₁ h₂ => ?_, fun x hx => ?_,
    h.once, fun i' op' hi' hop' => ?_, fun x hx l' i' op' hget => ?_, h.oneLane, fun _ _ _ _ => rfl,
    ⟨fun _ => open_set hlane trivial, fun _ => hinfos⟩, fun _ => hinfos⟩
  · obtain ⟨hi, hop⟩ := h.taken l' i' op' (awaiting_set_closing hget).2
    exact ⟨Nat.lt_of_lt_of_le hi h.within, hop⟩
  · exact h.apart l₁ l₂ i' op₁ op₂ (awaiting_set_closing h₁).2 (awaiting_set_closing h₂).2
  · obtain ⟨i', op', hi', hop', hof⟩ := h.recorded x hx
    exact ⟨i', op', Nat.lt_of_lt_of_le hi' h.within, hop', hof⟩
  · have hnext : s.next = body.repeats := hnone.resolve_right (by omega)
    rw [h.present i' op' (hnext ▸ hi') hop']
    constructor
    · exact fun hall l' op₁ hget => hall l' op₁ (awaiting_set_closing hget).2
    · intro hall
      refine past_of_others hlane hdone hop' fun l' op₁ hl hget => hall l' op₁ ?_
      exact (List.getElem?_set_ne fun heq => hl heq.symm).trans hget
  · exact h.held x hx l' i' op' (awaiting_set_closing hget).2

/-- A lane takes the iteration of the counter. -/
theorem Books.takes (h : Books body s) (hlane : s.lanes[l]? = some lane)
    (hdone : ∀ i op, lane = .awaiting i op → op = body.opsPerIteration)
    (hmore : s.next < body.repeats) {infos : List LaneInfo} (hinfos : ∃ x ∈ infos, x.error = none) :
    Books body { s with
      next := s.next + 1, lanes := s.lanes.set l (.awaiting s.next 0), lanesInfo := infos } := by
  refine ⟨hmore, fun l' i' op' hget => ?_, fun l₁ l₂ i' op₁ op₂ h₁ h₂ => ?_, fun x hx => ?_,
    h.once, fun i' op' hi' hop' => ?_, fun x hx l' i' op' hget hxi => ?_, h.oneLane,
    fun l' lane hget hover => ?_, ⟨fun _ => open_set hlane trivial, fun _ => hinfos⟩,
    fun _ => hinfos⟩
  · obtain ⟨-, hkept⟩ | ⟨-, rfl, rfl⟩ := awaiting_set_awaiting hget
    · obtain ⟨hi, hop⟩ := h.taken l' i' op' hkept
      exact ⟨Nat.lt_succ_of_lt hi, hop⟩
    · exact ⟨Nat.lt_succ_self _, Nat.zero_le _⟩
  · obtain ⟨-, hold₁⟩ | ⟨hl₁, hi₁, -⟩ := awaiting_set_awaiting h₁
    · obtain ⟨-, hold₂⟩ | ⟨-, hi₂, -⟩ := awaiting_set_awaiting h₂
      · exact h.apart l₁ l₂ i' op₁ op₂ hold₁ hold₂
      · exact absurd (h.taken l₁ i' op₁ hold₁).1 (by omega)
    · obtain ⟨-, hold₂⟩ | ⟨hl₂, -, -⟩ := awaiting_set_awaiting h₂
      · exact absurd (h.taken l₂ i' op₂ hold₂).1 (by omega)
      · exact hl₁.trans hl₂.symm
  · obtain ⟨i', op', hi', hop', hof⟩ := h.recorded x hx
    exact ⟨i', op', Nat.lt_succ_of_lt hi', hop', hof⟩
  · constructor
    · rintro ⟨x, hx, hof⟩ l' op₁ hget
      obtain ⟨i₀, op₀, hi₀, -, hof₀⟩ := h.recorded x hx
      obtain ⟨-, hkept⟩ | ⟨-, hi₁, -⟩ := awaiting_set_awaiting hget
      · have hlt := (h.taken l' i' op₁ hkept).1
        exact (h.present i' op' hlt hop').mp ⟨x, hx, hof⟩ l' op₁ hkept
      · exact absurd hi₀ (by rw [hof₀.i_inj hof, hi₁]; exact Nat.lt_irrefl _)
    · intro hbehind
      have hlt : i' < s.next := by
        refine Nat.lt_of_le_of_ne (Nat.le_of_lt_succ hi') fun heq => ?_
        have hzero := hbehind l 0 (by rw [heq]; exact List.getElem?_set_self (lt_of_lane hlane))
        exact Nat.not_lt_zero _ hzero
      refine (h.present i' op' hlt hop').mpr (past_of_others hlane hdone hop' fun l' op₁ hl hget => ?_)
      exact hbehind l' op₁ ((List.getElem?_set_ne fun heq => hl heq.symm).trans hget)
  · obtain ⟨-, hkept⟩ | ⟨-, hi₁, -⟩ := awaiting_set_awaiting hget
    · exact h.held x hx l' i' op' hkept hxi
    · obtain ⟨i₀, op₀, hi₀, -, hof₀⟩ := h.recorded x hx
      have heq := Nat.add_right_cancel (hxi.symm.trans hof₀.1)
      omega
  · obtain ⟨-, hkept⟩ | ⟨-, rfl⟩ := getElem?_set_cases hget
    · exact absurd (h.exhausted l' lane hkept hover) (Nat.ne_of_lt hmore)
    · cases hover with
      | inl h => cases h
      | inr h => cases h

/-- A lane whose iteration is done, or that has just been opened, takes the next one. -/
theorem Books.turn (h : Books body s) (hlane : s.lanes[l]? = some lane)
    (hdone : ∀ i op, lane = .awaiting i op → op = body.opsPerIteration)
    {infos : List LaneInfo} (hinfos : ∃ x ∈ infos, x.error = none) :
    Books body { (SqliteEdge.turn body.toRunRequest s).1 with
      lanes := s.lanes.set l (SqliteEdge.turn body.toRunRequest s).2, lanesInfo := infos } := by
  unfold SqliteEdge.turn
  split
  · rename_i hmore
    split
    · rename_i hnone
      exact h.closes hlane hdone (.inr hnone) hinfos
    · exact h.takes hlane hdone hmore hinfos
  · rename_i hend
    have hnext : s.next = body.repeats := Nat.le_antisymm h.within (Nat.le_of_not_lt hend)
    have hcloses := h.closes hlane hdone (.inl hnext) hinfos
    rw [← hnext] at hcloses
    exact hcloses

/-- A lane that leaves a place which is not an iteration for another such place. -/
theorem Books.moves (h : Books body s) (hlane : s.lanes[l]? = some lane)
    (hfrom : ∀ i op, lane ≠ .awaiting i op) (hto : ∀ i op, lane' ≠ .awaiting i op)
    (hopen : lane'.Open ↔ lane.Open)
    (hend : lane' = .closing ∨ lane' = .ended → lane = .closing ∨ lane = .ended)
    {infos : List LaneInfo}
    (hinfos : (∃ x ∈ infos, x.error = none) ↔ ∃ x ∈ s.lanesInfo, x.error = none) :
    Books body { s with lanes := s.lanes.set l lane', lanesInfo := infos } := by
  have hold : ∀ l' i' op' : Nat, (s.lanes.set l lane')[l']? = some (.awaiting i' op') ↔
      s.lanes[l']? = some (.awaiting i' op') := by
    intro l' i' op'
    rw [List.getElem?_set]
    split
    · rename_i hl
      rw [← hl, hlane, if_pos (lt_of_lane hlane)]
      exact ⟨fun heq => absurd (Option.some.inj heq) (hto i' op'),
        fun heq => absurd (Option.some.inj heq) (hfrom i' op')⟩
    · exact Iff.rfl
  have hset : (s.lanes.set l lane')[l]? = some lane' := List.getElem?_set_self (lt_of_lane hlane)
  refine ⟨h.within, fun l' i' op' hget => h.taken l' i' op' ((hold _ _ _).mp hget),
    fun l₁ l₂ i' op₁ op₂ h₁ h₂ => h.apart l₁ l₂ i' op₁ op₂ ((hold _ _ _).mp h₁) ((hold _ _ _).mp h₂),
    h.recorded, h.once, fun i' op' hi' hop' => ?_,
    fun x hx l' i' op' hget => h.held x hx l' i' op' ((hold _ _ _).mp hget), h.oneLane,
    fun l' lane₁ hget hover => ?_, (hinfos.trans h.opened).trans ⟨?_, ?_⟩,
    fun hops => hinfos.mpr (h.bySome hops)⟩
  · rw [h.present i' op' hi' hop']
    simp only [hold]
  · obtain ⟨-, hkept⟩ | ⟨-, rfl⟩ := getElem?_set_cases hget
    · exact h.exhausted l' lane₁ hkept hover
    · exact h.exhausted l lane hlane (hend hover)
  · rintro ⟨l', lane₁, hget, hopen₁⟩
    by_cases hl : l' = l
    · rw [hl, hlane] at hget
      obtain rfl := Option.some.inj hget
      exact ⟨l, lane', hset, hopen.mpr hopen₁⟩
    · exact ⟨l', lane₁, (List.getElem?_set_ne fun heq => hl heq.symm).trans hget, hopen₁⟩
  · rintro ⟨l', lane₁, hget, hopen₁⟩
    obtain ⟨-, hkept⟩ | ⟨-, rfl⟩ := getElem?_set_cases hget
    · exact ⟨l', lane₁, hkept, hopen₁⟩
    · exact ⟨l, lane, hlane, hopen.mp hopen₁⟩

theorem books_start (body : RunBody) : Books body (startExec body.toRunRequest) := by
  have hopening : ∀ (l : Nat) (lane : Lane),
      (startExec body.toRunRequest).lanes[l]? = some lane → lane = .opening := by
    intro l lane hget
    exact (List.mem_replicate.mp (List.mem_of_getElem? hget)).2
  have hnone : ∀ {P : Prop} (l i op : Nat),
      (startExec body.toRunRequest).lanes[l]? = some (.awaiting i op) → P := by
    intro P l i op hget
    cases hopening l _ hget
  refine ⟨Nat.zero_le _, fun l i op hget => hnone l i op hget, fun l _ i op _ hget _ => hnone l i op hget,
    fun r hr => ?_, List.Pairwise.nil, fun i op hi => absurd hi (Nat.not_lt_zero i), fun r hr => ?_,
    fun r hr => ?_, fun l lane hget hover => ?_, ⟨fun ⟨x, hx, _⟩ => ?_, fun ⟨l, lane, hget, hopen⟩ => ?_⟩,
    fun hne => absurd rfl hne⟩
  · cases hr
  · cases hr
  · cases hr
  · rw [hopening l lane hget] at hover
    cases hover with
    | inl h => cases h
    | inr h => cases h
  · cases hx
  · rw [hopening l lane hget] at hopen
    exact hopen.elim

/-- What a response says of the run. -/
def Reports (body : RunBody) (s : Exec) : Prop :=
  ∀ r, s.response = some r → r.ok = true ∧ r.iterations = body.repeats ∧
    r.ops = s.ops.insertionSort OpResult.Before ∧
    r.lanes = s.lanesInfo.insertionSort (fun a b => a.lane ≤ b.lane) ∧
    ∀ (l : Nat) lane, s.lanes[l]? = some lane → lane = .ended ∨ lane = .refused

theorem turn_lanes : (turn body.toRunRequest s).1.lanes = s.lanes := by
  unfold turn
  split
  · split <;> rfl
  · rfl

theorem turn_lanesInfo : (turn body.toRunRequest s).1.lanesInfo = s.lanesInfo := by
  unfold turn
  split
  · split <;> rfl
  · rfl

theorem turn_response : (turn body.toRunRequest s).1.response = s.response := by
  unfold turn
  split
  · split <;> rfl
  · rfl

/-- What the lane does next does not depend on what is recorded, or on the lanes. -/
theorem turn_congr (ops : List OpResult) (lanes : List Lane) :
    turn body.toRunRequest { s with ops := ops, lanes := lanes } =
      ({ (turn body.toRunRequest s).1 with ops := ops, lanes := lanes },
        (turn body.toRunRequest s).2) := by
  unfold turn
  dsimp only
  split
  · split <;> rfl
  · rfl

/-- The invariant of a run. -/
structure ExecInv (body : RunBody) (s : Exec) : Prop where
  books : Books body s
  reports : Reports body s
  /-- Between two events no lane stands behind its last operation. -/
  inLoop : ∀ (l i op : Nat), s.lanes[l]? = some (.awaiting i op) → op < body.opsPerIteration

/-- A lane that can still do something is not behind a response. -/
theorem ExecInv.running (h : ExecInv body s) (hlane : s.lanes[l]? = some lane)
    (hended : lane ≠ .ended) (hrefused : lane ≠ .refused) : s.response = none := by
  refine Option.eq_none_iff_forall_ne_some.mpr fun r hr => ?_
  rcases (h.reports r hr).2.2.2.2 l lane hlane with heq | heq
  · exact hended heq
  · exact hrefused heq

theorem reports_of_running (h : s.response = none) : Reports body s := by
  intro r hr
  rw [h] at hr
  cases hr

theorem turn_inLoop (h : (turn body.toRunRequest s).2 = .awaiting i op) :
    op < body.opsPerIteration := by
  unfold turn at h
  split at h
  · split at h
    · cases h
    · rename_i hsome
      cases h
      exact Nat.pos_of_ne_zero hsome
  · cases h

theorem ExecInv.inLoop_set (h : ExecInv body s)
    (hlane' : ∀ i op, lane' = .awaiting i op → op < body.opsPerIteration) :
    ∀ (l' i op : Nat), (s.lanes.set l lane')[l']? = some (.awaiting i op) →
      op < body.opsPerIteration := by
  intro l' i op hget
  obtain ⟨-, hkept⟩ | ⟨-, heq⟩ := getElem?_set_cases hget
  · exact h.inLoop l' i op hkept
  · exact hlane' i op heq.symm

theorem execStep_inv {e : ExecEvent} (h : ExecInv body s) (hstep : execStep body s e = some s') :
    ExecInv body s' := by
  cases e with
  | opened lane connectMs =>
    unfold execStep at hstep
    dsimp only at hstep
    split at hstep
    · rename_i hlane
      cases hstep
      refine ⟨?_, reports_of_running (turn_response.trans (h.running hlane (by simp) (by simp))), ?_⟩
      · rw [turn_lanes, turn_lanesInfo]
        refine h.books.turn hlane (fun i op heq => by cases heq) ?_
        exact ⟨_, List.mem_append_right _ (List.mem_singleton_self _), rfl⟩
      · rw [turn_lanes]
        exact h.inLoop_set fun i op heq => turn_inLoop heq
    · cases hstep
  | refused lane connectMs error =>
    unfold execStep at hstep
    dsimp only at hstep
    split at hstep
    · rename_i hlane
      cases hstep
      refine ⟨h.books.moves hlane (by simp) (by simp) (by simp [Lane.Open]) (by simp) (by simp),
        reports_of_running (h.running hlane (by simp) (by simp)), ?_⟩
      exact h.inLoop_set fun i op heq => by cases heq
    · cases hstep
  | settled lane t0 ms outcome =>
    unfold execStep at hstep
    dsimp only at hstep
    split at hstep
    · rename_i i op hlane
      have hnone := h.running hlane (by simp) (by simp)
      have hof : (opResult body lane i op t0 ms outcome).Of body i op := opResult_of.1
      have hrecord := h.books.record hlane (h.inLoop lane i op hlane) hof opResult_of.2
      split at hstep
      · rename_i hmore
        cases hstep
        refine ⟨hrecord, reports_of_running hnone, h.inLoop_set fun i' op' heq => ?_⟩
        cases heq
        exact hmore
      · rename_i hlast
        have hset : (s.lanes.set lane (.awaiting i (op + 1)))[lane]? = some (.awaiting i (op + 1)) :=
          List.getElem?_set_self (lt_of_lane hlane)
        have hturn := hrecord.turn hset
          (fun i' op' heq => by
            cases heq
            exact Nat.le_antisymm (h.inLoop lane i op hlane) (Nat.le_of_not_lt hlast))
          (h.books.opened.mpr ⟨lane, _, hlane, trivial⟩)
        rw [turn_congr, List.set_set] at hturn
        have hcongr := @turn_congr body s
          (s.ops ++ [opResult body lane i op t0 ms outcome]) s.lanes
        cases hstep
        rw [hcongr]
        dsimp only at hturn ⊢
        rw [turn_lanesInfo]
        refine ⟨hturn, reports_of_running (turn_response.trans hnone), ?_⟩
        exact h.inLoop_set fun i' op' heq => turn_inLoop heq
    · cases hstep
  | closed lane =>
    unfold execStep at hstep
    dsimp only at hstep
    split at hstep
    · rename_i hlane
      cases hstep
      refine ⟨h.books.moves hlane (by simp) (by simp) (by simp [Lane.Open]) (by simp) Iff.rfl,
        reports_of_running (h.running hlane (by simp) (by simp)), ?_⟩
      exact h.inLoop_set fun i op heq => by cases heq
    · cases hstep
  | returns colo wallMs =>
    unfold execStep at hstep
    dsimp only at hstep
    split at hstep
    · rename_i hall
      cases hstep
      have hbooks := h.books
      refine ⟨⟨hbooks.within, hbooks.taken, hbooks.apart, hbooks.recorded, hbooks.once, hbooks.present,
        hbooks.held, hbooks.oneLane, hbooks.exhausted, hbooks.opened, hbooks.bySome⟩, fun r hr => ?_,
        h.inLoop⟩
      cases hr
      refine ⟨rfl, rfl, rfl, rfl, fun l lane hget => ?_⟩
      simpa using List.all_eq_true.mp hall.2 lane (List.mem_of_getElem? hget)
    · cases hstep

theorem execInv_start (body : RunBody) : ExecInv body (startExec body.toRunRequest) := by
  refine ⟨books_start body, fun r hr => (by cases hr), fun l i op hget => ?_⟩
  cases (List.mem_replicate.mp (List.mem_of_getElem? hget)).2

theorem execInv_run {events : List ExecEvent}
    (hrun : runEvents (execStep body) (startExec body.toRunRequest) events = some s) :
    ExecInv body s :=
  runEvents_invariant (I := fun _ => ExecInv body) (execInv_start body)
    (fun _ _ _ _ _ hm hstep => execStep_inv hm hstep) events s hrun

end Books

/-! ## What an answer holds -/

section Answers

variable {body : RunBody} {events : List ExecEvent} {r : RunResponse} {i op : Nat}

/-- Some lane of the invocation gets its connection. -/
def LaneOpens (events : List ExecEvent) : Prop :=
  ∃ lane connectMs, ExecEvent.opened lane connectMs ∈ events

/-- What is promised of an invocation that took the events and answers. -/
structure RunsOnce (body : RunBody) (events : List ExecEvent) (r : RunResponse) : Prop where
  iterations : r.iterations = body.repeats
  /-- The lanes that opened are reported. -/
  lanes : (∃ x ∈ r.lanes, x.error = none) ↔ LaneOpens events
  /-- Every operation of the request is there, when some lane opens. -/
  complete : LaneOpens events → ∀ i op, i < body.repeats → op < body.opsPerIteration →
    ∃ x ∈ r.ops, x.Of body i op
  /-- There are no others. -/
  sound : ∀ x ∈ r.ops, ∃ i op, i < body.repeats ∧ op < body.opsPerIteration ∧ x.Of body i op
  /-- None is there twice, and they come by iteration and statement. -/
  sorted : r.ops.Pairwise fun a b => a.i < b.i ∨ a.i = b.i ∧ a.stmt < b.stmt
  /-- One lane runs an iteration. -/
  oneLane : ∀ x ∈ r.ops, ∀ y ∈ r.ops, x.i = y.i → x.lane = y.lane
  none : ¬ LaneOpens events → r.ops = []

theorem laneOpens_concat {e : ExecEvent} :
    LaneOpens (events ++ [e]) ↔ LaneOpens events ∨ ∃ lane connectMs, e = .opened lane connectMs := by
  unfold LaneOpens
  simp only [List.mem_append, List.mem_singleton, exists_or]
  exact or_congr_right (exists_congr fun _ => exists_congr fun _ => eq_comm)

/-- A lane is noted as open by the event that opens it. -/
theorem execStep_lanesInfo {s s' : Exec} {e : ExecEvent} (hstep : execStep body s e = some s') :
    (∃ x ∈ s'.lanesInfo, x.error = none) ↔
      (∃ x ∈ s.lanesInfo, x.error = none) ∨ ∃ lane connectMs, e = .opened lane connectMs := by
  have hsame : ∀ {infos : List LaneInfo}, infos = s.lanesInfo →
      (∀ lane connectMs, e ≠ .opened lane connectMs) → ((∃ x ∈ infos, x.error = none) ↔
        (∃ x ∈ s.lanesInfo, x.error = none) ∨ ∃ lane connectMs, e = .opened lane connectMs) := by
    rintro infos rfl hnot
    exact (or_iff_left fun ⟨lane, connectMs, he⟩ => hnot lane connectMs he).symm
  cases e with
  | opened lane connectMs =>
    unfold execStep at hstep
    dsimp only at hstep
    split at hstep
    · cases hstep
      dsimp only
      rw [turn_lanesInfo]
      exact iff_of_true ⟨_, List.mem_append_right _ (List.mem_singleton_self _), rfl⟩
        (.inr ⟨lane, connectMs, rfl⟩)
    · cases hstep
  | refused lane connectMs error =>
    unfold execStep at hstep
    dsimp only at hstep
    split at hstep
    · cases hstep
      simp
    · cases hstep
  | settled lane t0 ms outcome =>
    unfold execStep at hstep
    dsimp only at hstep
    split at hstep
    · split at hstep
      · cases hstep
        exact hsame rfl fun _ _ he => nomatch he
      · cases hstep
        exact hsame turn_lanesInfo fun _ _ he => nomatch he
    · cases hstep
  | closed lane =>
    unfold execStep at hstep
    dsimp only at hstep
    split at hstep
    · cases hstep
      exact hsame rfl fun _ _ he => nomatch he
    · cases hstep
  | returns colo wallMs =>
    unfold execStep at hstep
    dsimp only at hstep
    split at hstep
    · cases hstep
      exact hsame rfl fun _ _ he => nomatch he
    · cases hstep

theorem run_lanesInfo {s : Exec}
    (hrun : runEvents (execStep body) (startExec body.toRunRequest) events = some s) :
    (∃ x ∈ s.lanesInfo, x.error = none) ↔ LaneOpens events := by
  refine runEvents_invariant (I := fun es s => (∃ x ∈ s.lanesInfo, x.error = none) ↔ LaneOpens es)
    ?_ (fun es m e m' _ hm hstep => ?_) events s hrun
  · exact iff_of_false (fun ⟨x, hx, _⟩ => nomatch hx) fun ⟨_, _, he⟩ => nomatch he
  · rw [execStep_lanesInfo hstep, laneOpens_concat, hm]

instance : Std.Total OpResult.Before := ⟨fun a b => by unfold OpResult.Before; omega⟩

instance : IsTrans OpResult OpResult.Before :=
  ⟨fun a b c hab hbc => by unfold OpResult.Before at *; omega⟩

theorem handleRun_runsOnce (h : handleRun body events = some r) (hok : r.ok = true) :
    RunsOnce body events r := by
  unfold handleRun at h
  split at h
  · cases h
    cases hok
  obtain ⟨s, hrun, hr⟩ := Option.bind_eq_some_iff.mp h
  have hinv := execInv_run hrun
  have hbooks := hinv.books
  obtain ⟨-, hiterations, hops, hlanes, hended⟩ := hinv.reports r hr
  have hmem : ∀ x, x ∈ r.ops ↔ x ∈ s.ops := fun x => by rw [hops, List.mem_insertionSort]
  have hopens := run_lanesInfo hrun
  refine ⟨hiterations, ?_, fun hopened i op hi hop => ?_, fun x hx => ?_, ?_, fun x hx y hy => ?_,
    fun hnone => ?_⟩
  · rw [hlanes, ← hopens]
    simp only [List.mem_insertionSort]
  · -- a lane that opened has ended, so no iteration is left
    obtain ⟨l, lane, hlane, hopen⟩ := hbooks.opened.mp (hopens.mpr hopened)
    have hnext : s.next = body.repeats := by
      rcases hended l lane hlane with rfl | rfl
      · exact hbooks.exhausted l _ hlane (.inr rfl)
      · exact hopen.elim
    obtain ⟨x, hx, hof⟩ := (hbooks.present i op (hnext ▸ hi) hop).mpr fun l' op' hget => by
      rcases hended l' _ hget with heq | heq
      · cases heq
      · cases heq
    exact ⟨x, (hmem x).mpr hx, hof⟩
  · obtain ⟨i, op, hi, hop, hof⟩ := hbooks.recorded x ((hmem x).mp hx)
    exact ⟨i, op, Nat.lt_of_lt_of_le hi hbooks.within, hop, hof⟩
  · have hsorted : r.ops.Pairwise OpResult.Before := by
      rw [hops]
      exact List.pairwise_insertionSort _ _
    have honce : r.ops.Pairwise fun a b => a.i = b.i → a.stmt ≠ b.stmt := by
      rw [hops]
      refine (List.perm_insertionSort _ _).symm.pairwise hbooks.once fun {a b} hab hi hstmt => ?_
      exact hab hi.symm hstmt.symm
    refine hsorted.imp₂ (fun a b hbefore hne => ?_) honce
    rcases hbefore with hlt | ⟨heq, hle⟩
    · exact .inl hlt
    · exact .inr ⟨heq, lt_of_le_of_ne hle (hne heq)⟩
  · exact hbooks.oneLane x ((hmem x).mp hx) y ((hmem y).mp hy)
  · refine List.eq_nil_iff_forall_not_mem.mpr fun x hx => hnone (hopens.mp ?_)
    exact hbooks.bySome (List.ne_nil_of_mem ((hmem x).mp hx))

end Answers

end SupabaseLab.SqliteEdge
