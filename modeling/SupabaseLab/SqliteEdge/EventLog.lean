/-
  SqliteEdge/EventLog.lean --- the aggregates of the event log, in SQL and in JavaScript.

  Source: `td05Aggregates`, `td05Truth` and `fingerprint` of
  experiments/sqlite-edge-compare/lib/td05-06-08-data.ts.

  The numbers of the events and of the truth are exact: whole seconds, whole statuses,
  rational latencies.  Their text is that of the doubles they arrive as.  The columns that
  no statement reads are left out of the table.
-/
import SupabaseLab.Library.JsNumberText
import SupabaseLab.Library.JsRound
import SupabaseLab.Library.Sql

set_option autoImplicit false

namespace SupabaseLab.SqliteEdge.EventLog

open Library

/-! ## Events -/

inductive Dialect where
  | sqlite
  | pg
  deriving DecidableEq

structure Td05Event where
  ts : ℤ
  path : String
  status : ℤ
  country : String
  colo : String
  latencyMs : ℚ
  deriving DecidableEq

inductive Td05Query where
  | byHour
  | topPaths
  | statusByCountry
  | p95ByColo
  | last24h
  deriving DecidableEq

/-- 2026-10-01T00:00:00Z, in seconds. -/
def td05AnchorEnd : ℤ := 1790812800

/-- A statement of the driver. -/
structure Prepared where
  sql : String
  params : List ℤ
  deriving DecidableEq

def collateText : Dialect → String
  | .pg => " COLLATE \"C\""
  | .sqlite => ""

def mark : Dialect → String
  | .pg => "$1"
  | .sqlite => "?"

def td05Aggregates (d : Dialect) : Td05Query → Prepared
  | .byHour =>
      ⟨"SELECT ts / 3600 AS h, count(*) AS n FROM td05_events GROUP BY ts / 3600 ORDER BY h", []⟩
  | .topPaths =>
      ⟨"SELECT path, count(*) AS n FROM td05_events GROUP BY path ORDER BY n DESC, path" ++
        collateText d ++ " LIMIT 10", []⟩
  | .statusByCountry =>
      ⟨"SELECT country, status, count(*) AS n FROM td05_events GROUP BY country, status " ++
        "ORDER BY country" ++ collateText d ++ ", status", []⟩
  | .p95ByColo =>
      ⟨"SELECT colo, latency_ms AS p95 FROM (SELECT colo, latency_ms, row_number() OVER " ++
        "(PARTITION BY colo ORDER BY latency_ms) AS rn, count(*) OVER (PARTITION BY colo) AS c " ++
        "FROM td05_events) t WHERE rn = ((c - 1) * 95) / 100 + 1 ORDER BY colo" ++ collateText d, []⟩
  | .last24h =>
      ⟨"SELECT count(*) AS n FROM td05_events WHERE ts >= " ++ mark d, [td05AnchorEnd - 86400]⟩

/-! ## The truth -/

/-- `sort(cmp)`. -/
def jsSort {α β : Type} [LE β] [DecidableLE β] [Zero β] (cmp : α → α → β) (l : List α) : List α :=
  l.mergeSort fun a b => decide (cmp a b ≤ 0)

def cmpStr (a b : String) : ℤ :=
  if codeUnits a < codeUnits b then -1 else if codeUnits b < codeUnits a then 1 else 0

/-- `a || b`, of numbers. -/
def orNext (a b : ℤ) : ℤ := if a ≠ 0 then a else b

def count {K : Type} [DecidableEq K] (key : Td05Event → K) (ev : List Td05Event) : KeyMap K ℕ :=
  collect key (fun n _ => n + 1) 0 ev

def byHour (ev : List Td05Event) : List Sql.Row :=
  (jsSort (fun a b : ℤ × ℕ => a.1 - b.1) (count (fun e => e.ts / 3600) ev).entries).map
    fun e => [("h", .int e.1), ("n", .int e.2)]

def topPaths (ev : List Td05Event) : List Sql.Row :=
  ((jsSort (fun a b : String × ℕ => orNext (b.2 - a.2) (cmpStr a.1 b.1))
    (count Td05Event.path ev).entries).take 10).map
    fun e => [("path", .text e.1), ("n", .int e.2)]

structure StatusCount where
  country : String
  status : ℤ
  n : ℕ
  deriving DecidableEq

/-- The key of a country and a status. -/
def countryStatus (e : Td05Event) : String := e.country ++ "|" ++ toString e.status

/-- `k.split("|")`. -/
def splitBar (k : String) : List String := (k.toList.splitOn '|').map String.ofList

/-- The text of a key is that of a whole number behind the bar. -/
def statusCount (e : String × ℕ) : StatusCount where
  country := (splitBar e.1).getD 0 ""
  status := ((splitBar e.1).getD 1 "").toInt?.getD 0
  n := e.2

def statusByCountry (ev : List Td05Event) : List Sql.Row :=
  (jsSort (fun a b : StatusCount => orNext (cmpStr a.country b.country) (a.status - b.status))
    ((count countryStatus ev).entries.map statusCount)).map
    fun e => [("country", .text e.country), ("status", .int e.status), ("n", .int e.n)]

/-- The latencies of each colo. -/
def latencies (ev : List Td05Event) : KeyMap String (List ℚ) :=
  collect Td05Event.colo (fun l e => l ++ [e.latencyMs]) [] ev

def nearestRank (xs : List ℚ) : ℚ :=
  let s := jsSort (fun a b : ℚ => a - b) xs
  s.getD ((s.length - 1) * 95 / 100) 0

def p95ByColo (ev : List Td05Event) : List Sql.Row :=
  (jsSort (fun a b : String × List ℚ => cmpStr a.1 b.1) (latencies ev).entries).map
    fun e => [("colo", .text e.1), ("p95", .real (nearestRank e.2))]

def last24h (ev : List Td05Event) : List Sql.Row :=
  [[("n", .int (ev.filter fun e => decide (td05AnchorEnd - 86400 ≤ e.ts)).length)]]

/-- What each aggregate must return. -/
def td05Truth (ev : List Td05Event) : Td05Query → List Sql.Row
  | .byHour => byHour ev
  | .topPaths => topPaths ev
  | .statusByCountry => statusByCountry ev
  | .p95ByColo => p95ByColo ev
  | .last24h => last24h ev

/-! ## The fingerprint -/

inductive JsValue where
  | num (d : Double)
  | str (s : String)

/-- A row of a result set. -/
abbrev JsRow := List (String × JsValue)

/-- `/^-?\d+(\.\d+)?$/`. -/
def isNumeric (s : List Char) : Bool :=
  let unsigned := if s.head? = some '-' then s.tail else s
  let rest := unsigned.dropWhile Char.isDigit
  unsigned.head?.any Char.isDigit &&
    (rest = [] || rest.head? = some '.' && rest.tail ≠ [] && rest.tail.all Char.isDigit)

/-- `Math.round(v * 10) / 10`. -/
def oneDecimal : Double → Double
  | .fin q =>
      match Double.round (q * 10) with
      | .fin p => Double.round (mathRound p / 10)
      | d => d
  | d => d

def norm : JsValue → JsValue
  | .str s => if isNumeric s.toList then .num (oneDecimal (Double.ofText s.toList)) else .str s
  | .num d => .num (oneDecimal d)

/-- A character of a JSON string. -/
def jsonChar (c : Char) : List Char :=
  if c = '"' then ['\\', '"']
  else if c = '\\' then ['\\', '\\']
  else if c.toNat = 8 then ['\\', 'b']
  else if c.toNat = 12 then ['\\', 'f']
  else if c = '\n' then ['\\', 'n']
  else if c = '\r' then ['\\', 'r']
  else if c = '\t' then ['\\', 't']
  else if c.toNat < 32 then
    '\\' :: 'u' :: '0' :: '0' :: [Nat.digitChar (c.toNat / 16), Nat.digitChar (c.toNat % 16)]
  else [c]

def jsonString (s : String) : List Char := '"' :: s.toList.flatMap jsonChar ++ ['"']

def jsonValue : JsValue → List Char
  | .str s => jsonString s
  | .num d => if d.isFinite then d.text else "null".toList

def jsonArray (items : List (List Char)) : List Char :=
  '[' :: [','].intercalate items ++ [']']

def fingerprint (rows : List JsRow) : List Char :=
  jsonArray (rows.map fun o => jsonArray ((sortStrings (o.map Prod.fst)).map fun k =>
    jsonArray [jsonString k, (List.lookup k o).elim [] fun v => jsonValue (norm v)]))

/-! ## The databases -/

/-- A column of `td05_events` for each value of an event. -/
def td05Row (e : Td05Event) : Sql.Row :=
  [("ts", .int e.ts), ("path", .text e.path), ("status", .int e.status),
    ("country", .text e.country), ("colo", .text e.colo), ("latency_ms", .real e.latencyMs)]

/-- A database: SQLite collates by bytes, Postgres as the project's default asks. -/
structure Engine (d : Dialect) where
  collation : String → String → Bool
  binary : d = .sqlite → collation = Sql.bytesLe

/-- The collation that the dialect names. -/
def collate : Dialect → Option String
  | .pg => some "C"
  | .sqlite => none

open Sql in
/-- The statement inside that of `p95_by_colo`. -/
def rankedLatencies : Select where
  items := [⟨.value (.col "colo"), none⟩, ⟨.value (.col "latency_ms"), none⟩,
    ⟨.rowNumber "colo" "latency_ms", some "rn"⟩, ⟨.countOver "colo", some "c"⟩]

open Sql in
/-- The statement around it. -/
def latencyOfRank (d : Dialect) : Select where
  items := [⟨.value (.col "colo"), none⟩, ⟨.value (.col "latency_ms"), some "p95"⟩]
  where? := some (.eq (.col "rn") (.add (.div (.paren (.mul (.paren (.sub (.col "c") (.lit 1)))
    (.lit 95))) (.lit 100)) (.lit 1)))
  orderBy := [{ column := "colo", collate := collate d }]

open Sql in
/-- The statement of `last_24h`. -/
def countSince (d : Dialect) : Select where
  items := [⟨.count, some "n"⟩]
  where? := some (.ge (.col "ts") (.param (mark d)))

open Sql in
def td05Statement (d : Dialect) : Td05Query → Query
  | .byHour => .table
      { items := [⟨.value (.div (.col "ts") (.lit 3600)), some "h"⟩, ⟨.count, some "n"⟩]
        groupBy := [.div (.col "ts") (.lit 3600)]
        orderBy := [{ column := "h" }] } "td05_events"
  | .topPaths => .table
      { items := [⟨.value (.col "path"), none⟩, ⟨.count, some "n"⟩]
        groupBy := [.col "path"]
        orderBy := [{ column := "n", desc := true }, { column := "path", collate := collate d }]
        limit := some 10 } "td05_events"
  | .statusByCountry => .table
      { items := [⟨.value (.col "country"), none⟩, ⟨.value (.col "status"), none⟩,
          ⟨.count, some "n"⟩]
        groupBy := [.col "country", .col "status"]
        orderBy := [{ column := "country", collate := collate d }, { column := "status" }] }
      "td05_events"
  | .p95ByColo => .sub (latencyOfRank d) (.table rankedLatencies "td05_events") "t"
  | .last24h => .table (countSince d) "td05_events"

/-- The statement that the text of an aggregate is. -/
theorem td05Statement_sql (d : Dialect) (q : Td05Query) :
    (td05Statement d q).sql = (td05Aggregates d q).sql := by
  cases d <;> cases q <;> decide +kernel

def tables (ev : List Td05Event) (name : String) : List Sql.Row :=
  if name = "td05_events" then ev.map td05Row else []

/-- The rows that a database with the events may return for an aggregate. -/
def ResultOf {d : Dialect} (engine : Engine d) (ev : List Td05Event) (q : Td05Query)
    (rows : List Sql.Row) : Prop :=
  (td05Statement d q).Returns engine.collation ((td05Aggregates d q).params.head?.map Sql.Value.int)
    (tables ev) rows

/-! ## Texts in ASCII -/

def Ascii (s : String) : Prop := ∀ c ∈ s.toList, c.toNat < 128

instance (s : String) : Decidable (Ascii s) := List.decidableBAll (fun c : Char => c.toNat < 128) s.toList

theorem utf8Bytes_eq_codeUnits {s : String} (h : Ascii s) : Sql.utf8Bytes s = codeUnits s := by
  refine List.flatMap_congr fun c hc => ?_
  have hlow := h c hc
  have hval : c.val.toNat = c.toNat := rfl
  have hbytes : String.utf8EncodeChar c = [UInt8.ofNat c.toNat] := by
    rw [String.utf8EncodeChar, hval]
    exact if_pos (by omega)
  have hunits : charUnits c = [c.toNat] := if_pos (by omega)
  rw [hbytes, hunits, List.map_singleton, UInt8.toNat_ofNat_of_lt' (by rw [UInt8.size]; omega)]

theorem bytesLe_iff {s t : String} (hs : Ascii s) (ht : Ascii t) :
    Sql.bytesLe s t = true ↔ codeUnits s ≤ codeUnits t := by
  rw [Sql.bytesLe, decide_eq_true_iff, utf8Bytes_eq_codeUnits hs, utf8Bytes_eq_codeUnits ht]

/-- An event as the generator makes them: times from 1970 on, texts in ASCII. -/
structure Td05Event.WellFormed (e : Td05Event) : Prop where
  ts : 0 ≤ e.ts
  path : Ascii e.path
  country : Ascii e.country
  noBar : '|' ∉ e.country.toList
  colo : Ascii e.colo

instance (e : Td05Event) : Decidable e.WellFormed :=
  decidable_of_iff (0 ≤ e.ts ∧ Ascii e.path ∧ Ascii e.country ∧ '|' ∉ e.country.toList ∧ Ascii e.colo)
    ⟨fun ⟨ts, path, country, noBar, colo⟩ => ⟨ts, path, country, noBar, colo⟩,
      fun h => ⟨h.ts, h.path, h.country, h.noBar, h.colo⟩⟩

/-! ## Sorting -/

section Sorting

variable {α β γ : Type} [LE β] [DecidableLE β] [Zero β] {cmp : α → α → β} {l : List α}

theorem jsSort_perm (cmp : α → α → β) (l : List α) : (jsSort cmp l).Perm l := List.mergeSort_perm _ _

theorem pairwise_jsSort [LinearOrder γ] (cmp : α → α → β) {f : α → γ} (hcmp : ∀ a b, cmp a b ≤ 0 ↔ f a ≤ f b)
    (l : List α) : (jsSort cmp l).Pairwise fun a b => f a ≤ f b := by
  have hle : ∀ a b, decide (cmp a b ≤ 0) = true ↔ f a ≤ f b := fun a b => by
    rw [decide_eq_true_iff, hcmp]
  refine List.Pairwise.imp (hle _ _).mp (List.pairwise_mergeSort ?_ ?_ l)
  · intro a b c hab hbc
    exact (hle a c).mpr (((hle a b).mp hab).trans ((hle b c).mp hbc))
  · intro a b
    rw [Bool.or_eq_true, hle, hle]
    exact le_total _ _

end Sorting

theorem cmpStr_neg {a b : String} : cmpStr a b < 0 ↔ codeUnits a < codeUnits b := by
  unfold cmpStr
  split_ifs <;> simp_all

theorem cmpStr_eq_zero {a b : String} : cmpStr a b = 0 ↔ codeUnits a = codeUnits b := by
  unfold cmpStr
  split_ifs with hlt hgt
  · simp [hlt.ne]
  · simp [hgt.ne']
  · simp [le_antisymm (not_lt.mp hgt) (not_lt.mp hlt)]

theorem cmpStr_le {a b : String} : cmpStr a b ≤ 0 ↔ codeUnits a ≤ codeUnits b := by
  rw [le_iff_lt_or_eq, le_iff_lt_or_eq, cmpStr_neg, cmpStr_eq_zero]

theorem orNext_le {a b : ℤ} : orNext a b ≤ 0 ↔ a < 0 ∨ a = 0 ∧ b ≤ 0 := by
  unfold orNext
  split <;> omega

/-! ## The counting aggregates -/

section Counting

variable {d : Dialect} {engine : Engine d} {ev : List Td05Event}

/-- The collation of a text column of an `ORDER BY`. -/
theorem collation_eq (column : String) (desc : Bool) :
    Sql.OrderKey.collation { column := column, collate := collate d, desc := desc }
      engine.collation = Sql.bytesLe := by
  unfold Sql.OrderKey.collation
  cases d with
  | sqlite => exact engine.binary rfl
  | pg => rfl

section Columns

variable (e : Td05Event)

@[simp] theorem get?_ts : Sql.Row.get? (td05Row e) "ts" = some (.int e.ts) := rfl

@[simp] theorem get?_path : Sql.Row.get? (td05Row e) "path" = some (.text e.path) := rfl

@[simp] theorem get?_status : Sql.Row.get? (td05Row e) "status" = some (.int e.status) := rfl

@[simp] theorem get?_country : Sql.Row.get? (td05Row e) "country" = some (.text e.country) := rfl

@[simp] theorem get?_colo : Sql.Row.get? (td05Row e) "colo" = some (.text e.colo) := rfl

@[simp] theorem get?_latency : Sql.Row.get? (td05Row e) "latency_ms" = some (.real e.latencyMs) := rfl

end Columns

/-- A first key, and a second where the first ties. -/
theorem le_then_iff {γ : Type} [PartialOrder γ] {a b : γ} {p : Prop} :
    (a ≤ b ∧ (b ≤ a → p)) ↔ a < b ∨ a = b ∧ p := by
  constructor
  · rintro ⟨hle, hp⟩
    rcases hle.lt_or_eq with hlt | heq
    · exact Or.inl hlt
    · exact Or.inr ⟨heq, hp heq.ge⟩
  · rintro (hlt | ⟨rfl, hp⟩)
    · exact ⟨hlt.le, fun hle => absurd hle hlt.not_ge⟩
    · exact ⟨le_refl a, fun _ => hp⟩

theorem foldl_count {g : List Td05Event} (n : ℕ) : g.foldl (fun n _ => n + 1) n = n + g.length := by
  induction g generalizing n with
  | nil => rfl
  | cons e g ih => rw [List.foldl_cons, ih, List.length_cons]; omega

theorem count_perm {K : Type} [DecidableEq K] (key : Td05Event → K) (ev : List Td05Event) :
    (count key ev).entries.Perm (groupBy key List.length ev) := by
  have hlen : (fun g : List Td05Event => g.foldl (fun n _ => n + 1) 0) = List.length := by
    funext g
    rw [foldl_count, zero_add]
  rw [← hlen]
  exact collect_perm key _ 0 ev

/-- An entry has the key of an event. -/
theorem exists_of_mem_count {K : Type} [DecidableEq K] {key : Td05Event → K} {x : K × ℕ}
    (hx : x ∈ (count key ev).entries) : ∃ e ∈ ev, key e = x.1 :=
  List.mem_map.mp (mem_groupBy.mp ((count_perm key ev).mem_iff.mp hx)).1

theorem eq_of_mem_entries {K V : Type} [DecidableEq K] {m : KeyMap K V} {x y : K × V}
    (hx : x ∈ m.entries) (hy : y ∈ m.entries) (h : x.1 = y.1) : x = y :=
  List.inj_on_of_nodup_map m.nodup hx hy h

/-- A statement that counts the events of each key, against the counts in a map. -/
theorem returns_count {K α γ : Type} [DecidableEq K] [LinearOrder γ] {s : Sql.Select}
    {dflt : String → String → Bool} {row : α → Sql.Row} {sorted : List α} {rows : List Sql.Row}
    (key : Td05Event → K) (f : K → Option (List Sql.Value)) (g : K × ℕ → α) (order : α → γ)
    (hagg : s.aggregates = true) (hgroup : s.groupBy ≠ []) (hwhere : s.where? = none)
    (hkey : ∀ e ∈ ev, s.groupKey none (td05Row e) = f (key e))
    (hinj : ∀ a ∈ ev, ∀ b ∈ ev, f (key a) = f (key b) → key a = key b)
    (hitems : ∀ e ∈ ev, ∀ rest, s.items.mapM (Sql.Item.ofGroup none (td05Row e :: rest)) =
      some (row (g (key e, rest.length + 1))))
    (hperm : sorted.Perm ((count key ev).entries.map g))
    (hsorted : sorted.Pairwise fun a b => order a ≤ order b)
    (hle : ∀ a ∈ sorted, ∀ b ∈ sorted,
      Sql.rowLe dflt s.orderBy (row a) (row b) = true ↔ order a ≤ order b)
    (horder : ∀ a ∈ sorted, ∀ b ∈ sorted, order a = order b → row a = row b) :
    s.Returns dflt none (ev.map td05Row) rows ↔
      rows = s.limit.elim (sorted.map row) (sorted.map row).take := by
  have hselects : ∀ out, s.Selects dflt none (ev.map td05Row) out ↔
      out = (groupBy key List.length ev).map fun x => row (g x) := fun out =>
    Sql.Select.selects_count hagg hgroup hwhere hkey hinj hitems
  refine Sql.Select.returns_iff_of_key hsorted hle horder (fun out hout => ?_)
    ⟨_, (hselects _).mpr rfl⟩
  rw [(hselects out).mp hout]
  have hcounts : ((groupBy key List.length ev).map g).Perm sorted :=
    (((count_perm key ev).map g).symm).trans hperm.symm
  have hrows := hcounts.map row
  rwa [List.map_map] at hrows

theorem result_byHour (hev : ∀ e ∈ ev, e.WellFormed) (rows : List Sql.Row) :
    ResultOf engine ev .byHour rows ↔ rows = byHour ev := by
  have hperm := jsSort_perm (fun a b : ℤ × ℕ => a.1 - b.1) (count (fun e => e.ts / 3600) ev).entries
  refine returns_count (fun e => e.ts / 3600) (fun h => some [.int h]) id Prod.fst
    rfl (by simp) rfl (fun e he => ?_) (fun a _ b _ hab => ?_) (fun e he rest => ?_) ?_
    (pairwise_jsSort _ (f := Prod.fst) (fun _ _ => sub_nonpos) _) (fun a _ b _ => ?_) (fun a ha b hb hab => ?_)
  · have hcut := Int.tdiv_eq_ediv_of_nonneg (b := 3600) (hev e he).ts
    simp [Sql.Select.groupKey, Sql.Expr.eval, Sql.Value.arith, hcut]
  · simpa using hab
  · have hcut := Int.tdiv_eq_ediv_of_nonneg (b := 3600) (hev e he).ts
    simp [Sql.Item.ofGroup, Sql.Item.name, Sql.Expr.eval, Sql.Value.arith, hcut]
  · rw [List.map_id]
    exact hperm
  · simp [Sql.rowLe_cons_iff, Sql.OrderKey.le]
  · rw [eq_of_mem_entries (hperm.mem_iff.mp ha) (hperm.mem_iff.mp hb) hab]

theorem result_topPaths (hev : ∀ e ∈ ev, e.WellFormed) (rows : List Sql.Row) :
    ResultOf engine ev .topPaths rows ↔ rows = topPaths ev := by
  have hperm := jsSort_perm (fun a b : String × ℕ => orNext (b.2 - a.2) (cmpStr a.1 b.1))
    (count Td05Event.path ev).entries
  have hascii : ∀ x ∈ jsSort (fun a b : String × ℕ => orNext (b.2 - a.2) (cmpStr a.1 b.1))
      (count Td05Event.path ev).entries, Ascii x.1 := by
    intro x hx
    obtain ⟨e, he, hkey⟩ := exists_of_mem_count (hperm.mem_iff.mp hx)
    exact hkey ▸ (hev e he).path
  rw [topPaths, List.map_take]
  refine returns_count Td05Event.path (fun p => some [.text p]) id
    (fun x : String × ℕ => toLex (OrderDual.toDual x.2, codeUnits x.1))
    rfl (by simp) rfl (fun e _ => ?_) (fun a _ b _ hab => ?_) (fun e _ rest => ?_) ?_
    (pairwise_jsSort _ (fun a b => ?_) _) (fun a ha b hb => ?_) (fun a ha b hb hab => ?_)
  · simp [Sql.Select.groupKey, Sql.Expr.eval]
  · simpa using hab
  · simp [Sql.Item.ofGroup, Sql.Item.name, Sql.Expr.eval]
  · rw [List.map_id]
    exact hperm
  · rw [orNext_le, cmpStr_le, Prod.Lex.toLex_le_toLex, OrderDual.toDual_lt_toDual,
      OrderDual.toDual_inj, sub_neg, Nat.cast_lt, sub_eq_zero, Nat.cast_inj, eq_comm]
  · rw [Prod.Lex.toLex_le_toLex, ← le_then_iff]
    simp [Sql.rowLe_cons_iff, Sql.OrderKey.le, collation_eq, bytesLe_iff (hascii a ha) (hascii b hb)]
  · have hkeys := codeUnits_injective (congrArg (fun z => (ofLex z).2) hab)
    rw [eq_of_mem_entries (hperm.mem_iff.mp ha) (hperm.mem_iff.mp hb) hkeys]

/-! ### The key of a country and a status -/

theorem toList_toString (n : ℤ) : (toString n).toList =
    if 0 ≤ n then Nat.toDigits 10 n.toNat else '-' :: Nat.toDigits 10 (-n).toNat := by
  rw [Int.toString_eq_repr, Int.repr_eq_if]
  split
  · exact Nat.toList_repr
  · rw [String.toList_append, Nat.toList_repr]
    rfl

theorem bar_notMem_toString (n : ℤ) : '|' ∉ (toString n).toList := by
  have hdigits : ∀ k : ℕ, '|' ∉ Nat.toDigits 10 k := fun k hmem =>
    absurd (Nat.isDigit_of_mem_toDigits (by decide) (by decide) hmem) (by decide)
  rw [toList_toString]
  split
  · exact hdigits _
  · rw [List.mem_cons, not_or]
    exact ⟨by decide, hdigits _⟩

theorem statusCount_countryStatus {e : Td05Event} (hbar : '|' ∉ e.country.toList) (n : ℕ) :
    statusCount (countryStatus e, n) = ⟨e.country, e.status, n⟩ := by
  have hkey : (countryStatus e).toList =
      ['|'].intercalate [e.country.toList, (toString e.status).toList] := by
    simp [countryStatus, List.intercalate]
  have hsplit : splitBar (countryStatus e) = [e.country, toString e.status] := by
    rw [splitBar, hkey, List.splitOn_intercalate '|' (fun l hl => ?_) (by simp)]
    · simp
    · rcases List.mem_cons.mp hl with rfl | hl
      · exact hbar
      · rw [List.mem_singleton.mp hl]
        exact bar_notMem_toString e.status
  simp [statusCount, hsplit, Int.toInt?_repr, Int.toString_eq_repr]

theorem result_statusByCountry (hev : ∀ e ∈ ev, e.WellFormed) (rows : List Sql.Row) :
    ResultOf engine ev .statusByCountry rows ↔ rows = statusByCountry ev := by
  have hperm := jsSort_perm
    (fun a b : StatusCount => orNext (cmpStr a.country b.country) (a.status - b.status))
    ((count countryStatus ev).entries.map statusCount)
  have hof : ∀ x ∈ jsSort
      (fun a b : StatusCount => orNext (cmpStr a.country b.country) (a.status - b.status))
      ((count countryStatus ev).entries.map statusCount),
      ∃ e ∈ ev, ∃ n, (countryStatus e, n) ∈ (count countryStatus ev).entries ∧
        x = ⟨e.country, e.status, n⟩ := by
    intro x hx
    obtain ⟨⟨k, n⟩, hkn, rfl⟩ := List.mem_map.mp (hperm.mem_iff.mp hx)
    obtain ⟨e, he, rfl⟩ := exists_of_mem_count hkn
    exact ⟨e, he, n, hkn, statusCount_countryStatus (hev e he).noBar n⟩
  refine returns_count countryStatus
    (fun k => some [.text (statusCount (k, 0)).country, .int (statusCount (k, 0)).status])
    statusCount (fun x => toLex (codeUnits x.country, x.status))
    rfl (by simp) rfl (fun e he => ?_) (fun a ha b hb hab => ?_) (fun e he rest => ?_) hperm
    (pairwise_jsSort _ (fun a b => ?_) _) (fun a ha b hb => ?_) (fun a ha b hb hab => ?_)
  · rw [statusCount_countryStatus (hev e he).noBar]
    simp [Sql.Select.groupKey, Sql.Expr.eval]
  · rw [statusCount_countryStatus (hev a ha).noBar, statusCount_countryStatus (hev b hb).noBar] at hab
    obtain ⟨hcountry, hstatus⟩ : a.country = b.country ∧ a.status = b.status := by simpa using hab
    rw [countryStatus, countryStatus, hcountry, hstatus]
  · rw [statusCount_countryStatus (hev e he).noBar]
    simp [Sql.Item.ofGroup, Sql.Item.name, Sql.Expr.eval]
  · rw [orNext_le, cmpStr_neg, cmpStr_eq_zero, Prod.Lex.toLex_le_toLex, sub_nonpos]
  · obtain ⟨x, hx, m, -, rfl⟩ := hof a ha
    obtain ⟨y, hy, n, -, rfl⟩ := hof b hb
    rw [Prod.Lex.toLex_le_toLex, ← le_then_iff]
    simp [Sql.rowLe_cons_iff, Sql.OrderKey.le, collation_eq,
      bytesLe_iff (hev x hx).country (hev y hy).country,
      bytesLe_iff (hev y hy).country (hev x hx).country]
  · obtain ⟨x, hx, m, hm, rfl⟩ := hof a ha
    obtain ⟨y, hy, n, hn, rfl⟩ := hof b hb
    have hcountry : x.country = y.country :=
      codeUnits_injective (congrArg (fun z => (ofLex z).1) hab)
    have hstatus : x.status = y.status := congrArg (fun z => (ofLex z).2) hab
    have hkey : countryStatus x = countryStatus y := by
      rw [countryStatus, countryStatus, hcountry, hstatus]
    have hcount : m = n := congrArg Prod.snd (eq_of_mem_entries hm hn hkey)
    rw [hcountry, hstatus, hcount]

end Counting

/-! ## The last day -/

section Rest

variable {d : Dialect} {engine : Engine d} {ev : List Td05Event}

theorem length_kept (since : ℤ) :
    ((countSince d).kept (some (.int since)) (ev.map td05Row)).length =
      (ev.filter fun e => decide (since ≤ e.ts)).length := by
  rw [Sql.Select.kept, List.filter_map, List.length_map]
  refine congrArg List.length (List.filter_congr fun e _ => ?_)
  simp [countSince, Sql.Cond.holds, Sql.Expr.number?, Sql.Expr.eval, Sql.Value.number?]

/-- One group, also where there are no events. -/
theorem selects_countSince (selected : List Sql.Row) :
    (countSince d).Selects engine.collation (some (.int (td05AnchorEnd - 86400)))
      (ev.map td05Row) selected ↔ selected = last24h ev := by
  have hgroups : ∀ p rows, (countSince d).groups p rows = [rows] := fun _ _ => if_pos rfl
  rw [Sql.Select.selects_grouped rfl, hgroups, last24h, ← length_kept (d := d)]
  simp [countSince, Sql.Item.ofGroup, Sql.Item.name, eq_comm]

theorem result_last24h (rows : List Sql.Row) :
    ResultOf engine ev .last24h rows ↔ rows = last24h ev := by
  refine (Sql.Select.returns_unsorted rfl rfl).trans ?_
  constructor
  · rintro ⟨selected, hselected, hperm⟩
    rw [(selects_countSince selected).mp hselected, last24h, List.perm_singleton] at hperm
    exact hperm
  · rintro rfl
    exact ⟨last24h ev, (selects_countSince _).mpr rfl, List.Perm.refl _⟩

/-! ## The 95th percentile -/

/-- A row of the statement inside, of an event and its rank. -/
def rankedRow (ev : List Td05Event) (x : Td05Event × ℕ) : Sql.Row :=
  [("colo", .text x.1.colo), ("latency_ms", .real x.1.latencyMs), ("rn", .int x.2),
    ("c", .int (groupOf Td05Event.colo ev x.1.colo).length)]

/-- The events in an order that counts them through within their colo. -/
structure RankedBy (ev : List Td05Event) (arr : List (Td05Event × ℕ)) : Prop where
  perm : (arr.map Prod.fst).Perm ev
  ascending : arr.Pairwise fun a b => a.1.colo = b.1.colo → a.1.latencyMs ≤ b.1.latencyMs
  ranks : arr.map Prod.snd = Sql.ranks (fun x => x.1.colo) [] arr

theorem exists_rankedBy (ev : List Td05Event) : ∃ arr, RankedBy ev arr := by
  have hsort := jsSort_perm (fun a b : Td05Event => a.latencyMs - b.latencyMs) ev
  have hasc := pairwise_jsSort (fun a b : Td05Event => a.latencyMs - b.latencyMs)
    (f := Td05Event.latencyMs) (fun _ _ => sub_nonpos) ev
  obtain ⟨hfst, hranks⟩ := Sql.zip_ranks Td05Event.colo
    (jsSort (fun a b : Td05Event => a.latencyMs - b.latencyMs) ev)
  refine ⟨_, hfst.symm ▸ hsort, ?_, hranks⟩
  rw [← hfst, List.pairwise_map] at hasc
  refine hasc.imp ?_
  intro a b hle _
  exact hle

/-- An event with what the windows number it, as the row it is read from. -/
def taggedRow (x : Td05Event × (Sql.Selected → ℕ)) : Sql.Tagged := (td05Row x.1, x.2)

/-- The rank of an event under the one window that numbers. -/
def rankOf (x : Td05Event × (Sql.Selected → ℕ)) : Td05Event × ℕ :=
  (x.1, x.2 (.rowNumber "colo" "latency_ms"))

theorem ofRow_rankedLatencies (x : Td05Event × (Sql.Selected → ℕ)) :
    rankedLatencies.items.mapM (Sql.Item.ofRow none (ev.map td05Row) (taggedRow x)) =
      some (rankedRow ev (rankOf x)) := by
  have hcount : (groupOf (fun r : Sql.Row => r.get? "colo") (ev.map td05Row)
      (some (.text x.1.colo))).length = (groupOf Td05Event.colo ev x.1.colo).length := by
    rw [groupOf, List.filter_map, List.length_map]
    refine congrArg List.length (List.filter_congr fun e _ => ?_)
    simp
  simp [rankedLatencies, Sql.Item.ofRow, Sql.Item.name, Sql.Expr.eval, taggedRow, rankedRow,
    rankOf, hcount]

/-- The two lists count the same events through. -/
theorem ranks_taggedRow (arr : List (Td05Event × (Sql.Selected → ℕ))) :
    Sql.ranks (fun t : Sql.Tagged => t.1.get? "colo") [] (arr.map taggedRow) =
      Sql.ranks (fun x : Td05Event × ℕ => x.1.colo) [] (arr.map rankOf) := by
  have hinj : Function.Injective fun colo : String => some (Sql.Value.text colo) := by
    intro a b hab
    simpa using hab
  have htagged := Sql.ranks_map (fun t : Sql.Tagged => t.1.get? "colo") taggedRow [] arr
  have hranked := Sql.ranks_map (fun x : Td05Event × ℕ => x.1.colo) rankOf [] arr
  have hcolo := Sql.ranks_injective (fun x : Td05Event × (Sql.Selected → ℕ) => x.1.colo)
    hinj [] arr
  exact htagged.symm.trans (hcolo.trans hranked)

theorem pairwise_taggedRow {dflt : String → String → Bool}
    (arr : List (Td05Event × (Sql.Selected → ℕ))) :
    ((arr.map taggedRow).Pairwise fun t u => t.1.get? "colo" = u.1.get? "colo" →
        Sql.OrderKey.le dflt { column := "latency_ms" } t.1 u.1 = true) ↔
      (arr.map rankOf).Pairwise fun a b => a.1.colo = b.1.colo → a.1.latencyMs ≤ b.1.latencyMs := by
  rw [List.pairwise_map, List.pairwise_map]
  simp [taggedRow, rankOf, Sql.OrderKey.le]

theorem tagsFit_rankedLatencies {dflt : String → String → Bool}
    {xs : List (Td05Event × (Sql.Selected → ℕ))} :
    Sql.TagsFit dflt rankedLatencies.items (xs.map taggedRow) ↔
      ∃ arr : List (Td05Event × (Sql.Selected → ℕ)), arr.Perm xs ∧
        RankedBy (xs.map Prod.fst) (arr.map rankOf) := by
  have hrank : ∀ arr : List (Td05Event × (Sql.Selected → ℕ)),
      (arr.map taggedRow).map (fun t => t.2 (.rowNumber "colo" "latency_ms")) =
        (arr.map rankOf).map Prod.snd := fun arr => by rw [List.map_map, List.map_map]; rfl
  have hevents : ∀ arr : List (Td05Event × (Sql.Selected → ℕ)),
      (arr.map rankOf).map Prod.fst = arr.map Prod.fst := fun arr => by rw [List.map_map]; rfl
  constructor
  · intro h
    obtain ⟨arr₀, hperm, hasc, hnumber⟩ := h "colo" "latency_ms" (by simp [rankedLatencies])
    obtain ⟨arr, harr, rfl⟩ := Sql.exists_perm_of_map_perm hperm.symm
    refine ⟨arr, harr, ?_, (pairwise_taggedRow arr).mp hasc, ?_⟩
    · rw [hevents]
      exact harr.map Prod.fst
    · rw [← hrank, hnumber, ranks_taggedRow]
  · rintro ⟨arr, harr, hranked⟩ partition order hmem
    obtain ⟨rfl, rfl⟩ : partition = "colo" ∧ order = "latency_ms" := by
      simpa [rankedLatencies] using hmem
    refine ⟨arr.map taggedRow, harr.map taggedRow, (pairwise_taggedRow arr).mpr hranked.ascending, ?_⟩
    rw [hrank, hranked.ranks, ranks_taggedRow]

theorem kept_rankedLatencies (rows : List Sql.Row) : rankedLatencies.kept none rows = rows :=
  List.filter_eq_self.mpr fun _ _ => rfl

/-- Tags on the rows of the events are tags on the events. -/
theorem exists_taggedRow {tagged : List Sql.Tagged} (h : tagged.map Prod.fst = ev.map td05Row) :
    ∃ xs : List (Td05Event × (Sql.Selected → ℕ)), xs.map taggedRow = tagged ∧ xs.map Prod.fst = ev := by
  induction tagged generalizing ev with
  | nil => exact ⟨[], rfl, (List.map_eq_nil_iff.mp h.symm).symm⟩
  | cons t tagged ih =>
      obtain ⟨e, ev, rfl, hrow, hrest⟩ := List.map_eq_cons_iff.mp h.symm
      obtain ⟨xs, htagged, hev⟩ := ih hrest.symm
      refine ⟨(e, t.2) :: xs, ?_, ?_⟩
      · rw [List.map_cons, htagged, taggedRow, hrow]
      · rw [List.map_cons, hev]

theorem returns_rankedLatencies (engine : Engine d) (mid : List Sql.Row) :
    rankedLatencies.Returns engine.collation none (ev.map td05Row) mid ↔
      ∃ arr, RankedBy ev arr ∧ mid.Perm (arr.map (rankedRow ev)) := by
  have hrows : ∀ xs : List (Td05Event × (Sql.Selected → ℕ)),
      (xs.map taggedRow).map (fun t => rankedLatencies.items.mapM
        (Sql.Item.ofRow none (ev.map td05Row) t)) =
      ((xs.map rankOf).map (rankedRow ev)).map some := fun xs => by
    rw [List.map_map, List.map_map, List.map_map]
    exact List.map_congr_left fun x _ => ofRow_rankedLatencies x
  rw [Sql.Select.returns_unsorted rfl rfl]
  simp only [Sql.Select.selects_plain (s := rankedLatencies) rfl, kept_rankedLatencies, mapM_eq_some]
  constructor
  · rintro ⟨selected, ⟨tagged, hfst, htags, hout⟩, hperm⟩
    obtain ⟨xs, rfl, rfl⟩ := exists_taggedRow hfst
    obtain ⟨arr, harr, hranked⟩ := tagsFit_rankedLatencies.mp htags
    rw [hrows] at hout
    rw [← List.map_injective_iff.mpr (Option.some_injective _) hout] at hperm
    exact ⟨arr.map rankOf, hranked, hperm.trans ((harr.symm.map rankOf).map _)⟩
  · rintro ⟨arr, hranked, hperm⟩
    obtain ⟨xs, hxs, hfst⟩ := Sql.exists_perm_of_map_perm hranked.perm
    have hback : ∀ l : List (Td05Event × ℕ),
        (l.map fun x => (x.1, fun _ : Sql.Selected => x.2)).map rankOf = l := fun l => by
      rw [List.map_map]
      exact List.map_id l
    have hevents : (xs.map fun x => (x.1, fun _ : Sql.Selected => x.2)).map Prod.fst = ev := by
      rw [List.map_map]
      exact hfst
    refine ⟨xs.map (rankedRow ev),
      ⟨(xs.map fun x => (x.1, fun _ : Sql.Selected => x.2)).map taggedRow, ?_, ?_, ?_⟩,
      hperm.trans (hxs.symm.map _)⟩
    · rw [← hfst, List.map_map, List.map_map, List.map_map]
      rfl
    · refine tagsFit_rankedLatencies.mpr ⟨arr.map fun x => (x.1, fun _ => x.2), hxs.symm.map _, ?_⟩
      rw [hevents, hback]
      exact hranked
    · rw [hrows, hback]

/-- The places of the ranks of a colo. -/
theorem RankedBy.length_groupOf {arr : List (Td05Event × ℕ)} (h : RankedBy ev arr) (k : String) :
    (groupOf (fun x : Td05Event × ℕ => x.1.colo) arr k).length =
      (groupOf Td05Event.colo ev k).length := by
  rw [← (Sql.groupOf_perm _ h.perm k).length_eq, groupOf, groupOf, List.filter_map, List.length_map]
  rfl

/-- The rank that the statement asks for, in a colo with so many events. -/
def rankWanted (c : ℕ) : ℕ := 1 + (c - 1) * 95 / 100

/-- In each colo one event has the rank that is asked for, and its latency is the nearest rank. -/
theorem RankedBy.exists_rank {arr : List (Td05Event × ℕ)} (h : RankedBy ev arr) {k : String}
    (hk : k ∈ ev.map Td05Event.colo) :
    ∃ x : Td05Event × ℕ, x.1.colo = k ∧
      x.1.latencyMs = nearestRank ((groupOf Td05Event.colo ev k).map Td05Event.latencyMs) ∧
      (groupOf (fun x : Td05Event × ℕ => x.1.colo) arr k).filter (fun x =>
        decide (x.2 = rankWanted (groupOf Td05Event.colo ev k).length)) = [x] := by
  have hlen := h.length_groupOf k
  have hpos : 0 < (groupOf Td05Event.colo ev k).length := by
    obtain ⟨e, he, hek⟩ := List.mem_map.mp hk
    have hmem : e ∈ groupOf Td05Event.colo ev k := List.mem_filter.mpr ⟨he, decide_eq_true hek⟩
    exact List.length_pos_of_mem hmem
  have hplace : ((groupOf Td05Event.colo ev k).length - 1) * 95 / 100 <
      (groupOf (fun x : Td05Event × ℕ => x.1.colo) arr k).length := by omega
  have hnumbers := Sql.map_groupOf_of_ranks h.ranks k
  obtain ⟨x, hx⟩ : ∃ x, (groupOf (fun x : Td05Event × ℕ => x.1.colo) arr k)[
      ((groupOf Td05Event.colo ev k).length - 1) * 95 / 100]? = some x :=
    ⟨_, List.getElem?_eq_getElem hplace⟩
  -- the latencies in the order of their ranks are the sorted latencies
  have hsorted : (groupOf (fun x : Td05Event × ℕ => x.1.colo) arr k).map (fun x => x.1.latencyMs) =
      jsSort (fun a b : ℚ => a - b) ((groupOf Td05Event.colo ev k).map Td05Event.latencyMs) := by
    refine List.Perm.eq_of_pairwise (fun a b _ _ hab hba => le_antisymm hab hba) ?_
      (pairwise_jsSort _ (f := id) (fun _ _ => sub_nonpos) _) ?_
    · rw [List.pairwise_map]
      refine (h.ascending.filter _).imp_of_mem fun {a b} ha hb hab => ?_
      have hcolo := (of_decide_eq_true (List.mem_filter.mp ha).2).trans
        (of_decide_eq_true (List.mem_filter.mp hb).2).symm
      exact hab hcolo
    · have hgroup := (Sql.groupOf_perm Td05Event.colo h.perm k).map Td05Event.latencyMs
      rw [groupOf, List.filter_map, List.map_map] at hgroup
      exact hgroup.trans (jsSort_perm _ _).symm
  refine ⟨x, ?_, ?_, ?_⟩
  · exact of_decide_eq_true (List.mem_filter.mp (List.mem_of_getElem? hx)).2
  · rw [nearestRank, ← hsorted]
    simp [hlen, hx]
  · exact Sql.filter_number hnumbers hx

/-- A row of the result, of an event that has the rank asked for. -/
def p95Row (x : Td05Event × ℕ) : Sql.Row :=
  [("colo", .text x.1.colo), ("p95", .real x.1.latencyMs)]

/-- The event has the rank that is asked for in its colo. -/
def hasRank (ev : List Td05Event) (x : Td05Event × ℕ) : Bool :=
  decide (x.2 = rankWanted (groupOf Td05Event.colo ev x.1.colo).length)

theorem holds_rankedRow (x : Td05Event × ℕ) :
    ((latencyOfRank d).where?.all fun c => c.holds none (rankedRow ev x)) = hasRank ev x := by
  have hcut : ∀ c : ℕ, (((c : ℤ) - 1) * 95).tdiv 100 + 1 = rankWanted c := fun c => by
    cases c with
    | zero => rfl
    | succ m =>
        have hm : ((m + 1 : ℕ) : ℤ) - 1 = m := by omega
        rw [hm, Int.tdiv_eq_ediv_of_nonneg (by omega), rankWanted, Nat.add_sub_cancel]
        omega
  simp [latencyOfRank, Sql.Cond.holds, Sql.Expr.number?, Sql.Expr.eval, Sql.Value.arith,
    Sql.Value.number?, rankedRow, hasRank, hcut]

theorem ofRow_latencyOfRank (rows : List Sql.Row) (t : Sql.Tagged) {x : Td05Event × ℕ}
    (h : t.1 = rankedRow ev x) :
    (latencyOfRank d).items.mapM (Sql.Item.ofRow none rows t) = some (p95Row x) := by
  simp [latencyOfRank, Sql.Item.ofRow, Sql.Item.name, Sql.Expr.eval, h, rankedRow, p95Row]

theorem selects_latencyOfRank (ys : List (Td05Event × ℕ)) (out : List Sql.Row) :
    (latencyOfRank d).Selects engine.collation none (ys.map (rankedRow ev)) out ↔
      out = (ys.filter (hasRank ev)).map p95Row := by
  have hkept : (latencyOfRank d).kept none (ys.map (rankedRow ev)) =
      (ys.filter (hasRank ev)).map (rankedRow ev) := by
    rw [Sql.Select.kept, List.filter_map]
    exact congrArg _ (List.filter_congr fun x _ => holds_rankedRow (d := d) x)
  have hrows : ∀ (zs : List (Td05Event × ℕ)) (rows : List Sql.Row) (tagged : List Sql.Tagged),
      tagged.map Prod.fst = zs.map (rankedRow ev) →
      tagged.map (fun t => (latencyOfRank d).items.mapM (Sql.Item.ofRow none rows t)) =
        (zs.map p95Row).map some := by
    intro zs rows tagged
    induction tagged generalizing zs with
    | nil =>
        intro h
        rw [List.map_eq_nil_iff.mp h.symm]
        rfl
    | cons t tagged ih =>
        intro h
        obtain ⟨x, zs, rfl, hrow, hrest⟩ := List.map_eq_cons_iff.mp h.symm
        rw [List.map_cons, ofRow_latencyOfRank rows t hrow.symm, ih zs hrest.symm]
        rfl
  rw [Sql.Select.selects_plain rfl, hkept]
  simp only [mapM_eq_some]
  constructor
  · rintro ⟨tagged, hfst, -, hout⟩
    rw [hrows _ _ tagged hfst] at hout
    exact (List.map_injective_iff.mpr (Option.some_injective _) hout).symm
  · rintro rfl
    have hfst : (((ys.filter (hasRank ev)).map (rankedRow ev)).map
        fun r => ((r, fun _ => 0) : Sql.Tagged)).map Prod.fst =
        (ys.filter (hasRank ev)).map (rankedRow ev) := by
      rw [List.map_map]
      exact List.map_id _
    refine ⟨_, hfst, ?_, hrows _ _ _ hfst⟩
    intro partition order hmem
    simp [latencyOfRank] at hmem

theorem foldl_latencies (g : List Td05Event) (l : List ℚ) :
    g.foldl (fun l e => l ++ [e.latencyMs]) l = l ++ g.map Td05Event.latencyMs := by
  induction g generalizing l with
  | nil => simp
  | cons e g ih => rw [List.foldl_cons, ih, List.map_cons, List.append_assoc, List.singleton_append]

theorem latencies_perm (ev : List Td05Event) : (latencies ev).entries.Perm
    (groupBy Td05Event.colo (fun g => g.map Td05Event.latencyMs) ev) := by
  have hmap : (fun g : List Td05Event => g.foldl (fun l e => l ++ [e.latencyMs]) []) =
      fun g => g.map Td05Event.latencyMs := by
    funext g
    rw [foldl_latencies, List.nil_append]
  rw [← hmap]
  exact collect_perm _ _ [] ev

theorem filter_hasRank_perm {arr : List (Td05Event × ℕ)} (h : RankedBy ev arr) :
    ((arr.filter (hasRank ev)).map p95Row).Perm (p95ByColo ev) := by
  have hparts := Sql.flatMap_groupOf_perm (fun x : Td05Event × ℕ => x.1.colo) arr
  have hcolos : (arr.map fun x => x.1.colo) = (arr.map Prod.fst).map Td05Event.colo := by
    rw [List.map_map]
    rfl
  have hkeys : (distinct (arr.map fun x => x.1.colo)).Perm (distinct (ev.map Td05Event.colo)) :=
    distinct_perm fun k => by rw [hcolos, (h.perm.map Td05Event.colo).mem_iff]
  have hpick : ∀ k ∈ distinct (arr.map fun x => x.1.colo),
      ((groupOf (fun x : Td05Event × ℕ => x.1.colo) arr k).filter (hasRank ev)).map p95Row =
        [[("colo", Sql.Value.text k), ("p95", .real
          (nearestRank ((groupOf Td05Event.colo ev k).map Td05Event.latencyMs)))]] := by
    intro k hk
    have hkev : k ∈ ev.map Td05Event.colo := mem_distinct.mp (hkeys.mem_iff.mp hk)
    obtain ⟨x, hcolo, hlatency, hfilter⟩ := h.exists_rank hkev
    have hsame : (groupOf (fun x : Td05Event × ℕ => x.1.colo) arr k).filter (hasRank ev) = [x] := by
      rw [← hfilter]
      refine List.filter_congr fun y hy => ?_
      have hyk : y.1.colo = k := of_decide_eq_true (List.mem_filter.mp hy).2
      rw [hasRank, hyk]
    rw [hsame, List.map_singleton, p95Row, hcolo, hlatency]
  have hrows : ((arr.filter (hasRank ev)).map p95Row).Perm
      ((distinct (arr.map fun x => x.1.colo)).map fun k => [("colo", Sql.Value.text k),
        ("p95", .real (nearestRank ((groupOf Td05Event.colo ev k).map Td05Event.latencyMs)))]) := by
    refine ((hparts.symm.filter (hasRank ev)).map p95Row).trans ?_
    rw [List.filter_flatMap, List.map_flatMap, List.flatMap_congr hpick]
    exact List.Perm.of_eq List.map_eq_flatMap.symm
  refine hrows.trans ((hkeys.map _).trans ?_)
  have htruth := (latencies_perm ev).symm.trans
    (jsSort_perm (fun a b : String × List ℚ => cmpStr a.1 b.1) (latencies ev).entries).symm
  have hall := htruth.map fun x : String × List ℚ =>
    [("colo", Sql.Value.text x.1), ("p95", Sql.Value.real (nearestRank x.2))]
  rw [groupBy, List.map_map] at hall
  exact hall

theorem result_p95ByColo (hev : ∀ e ∈ ev, e.WellFormed) (rows : List Sql.Row) :
    ResultOf engine ev .p95ByColo rows ↔ rows = p95ByColo ev := by
  have hperm := jsSort_perm (fun a b : String × List ℚ => cmpStr a.1 b.1) (latencies ev).entries
  have hascii : ∀ x ∈ jsSort (fun a b : String × List ℚ => cmpStr a.1 b.1) (latencies ev).entries,
      Ascii x.1 := by
    intro x hx
    have hkey := (mem_groupBy.mp ((latencies_perm ev).mem_iff.mp (hperm.mem_iff.mp hx))).1
    obtain ⟨e, he, hcolo⟩ := List.mem_map.mp hkey
    exact hcolo ▸ (hev e he).colo
  have houter : ∀ mid, rankedLatencies.Returns engine.collation none (ev.map td05Row) mid →
      ((latencyOfRank d).Returns engine.collation none mid rows ↔ rows = p95ByColo ev) := by
    intro mid hmid
    obtain ⟨arr, hranked, hmidPerm⟩ := (returns_rankedLatencies engine mid).mp hmid
    obtain ⟨ys, hys, rfl⟩ := Sql.exists_perm_of_map_perm hmidPerm.symm
    refine Sql.Select.returns_iff_of_key (f := fun x : String × List ℚ => codeUnits x.1)
      (pairwise_jsSort _ (f := fun x : String × List ℚ => codeUnits x.1) (fun _ _ => cmpStr_le) _)
      (fun a ha b hb => ?_) (fun a ha b hb hab => ?_)
      (fun out hout => ?_) ⟨_, (selects_latencyOfRank ys _).mpr rfl⟩
    · simp [latencyOfRank, Sql.rowLe_cons_iff, Sql.OrderKey.le, collation_eq,
        bytesLe_iff (hascii a ha) (hascii b hb)]
    · rw [eq_of_mem_entries (hperm.mem_iff.mp ha) (hperm.mem_iff.mp hb) (codeUnits_injective hab)]
    · rw [(selects_latencyOfRank ys out).mp hout]
      exact ((hys.filter _).map p95Row).trans (filter_hasRank_perm hranked)
  constructor
  · rintro ⟨mid, hmid, hrows⟩
    exact (houter mid hmid).mp hrows
  · intro hrows
    obtain ⟨arr, hranked⟩ := exists_rankedBy ev
    have hmid := (returns_rankedLatencies engine _).mpr
      ⟨arr, hranked, List.Perm.refl (arr.map (rankedRow ev))⟩
    exact ⟨_, hmid, (houter _ hmid).mpr hrows⟩

end Rest

/-! ## What arrives -/

/-- The JavaScript value of a value of the truth. -/
def js : Sql.Value → JsValue
  | .int n => .num (Double.round n)
  | .real q => .num (Double.round q)
  | .text s => .str s

/-- What a driver may make of a value: a `bigint` of Postgres arrives as its digits. -/
inductive Arrives : Sql.Value → JsValue → Prop where
  | same (v : Sql.Value) : Arrives v (js v)
  | digits (n : ℤ) : Arrives (.int n) (.str (toString n))

/-- The columns of a row arrive under their names. -/
def RowArrives (r : Sql.Row) (o : JsRow) : Prop :=
  List.Forall₂ (fun c x => c.1 = x.1 ∧ Arrives c.2 x.2) r o

def jsRow (r : Sql.Row) : JsRow := r.map fun c => (c.1, js c.2)

theorem isNumeric_digits (n : ℕ) :
    isNumeric (Nat.toDigits 10 n) = true ∧ isNumeric ('-' :: Nat.toDigits 10 n) = true := by
  obtain ⟨c, rest, hdigits⟩ := List.exists_cons_of_ne_nil (Nat.toDigits_ne_nil (n := n) (b := 10))
  have hall : ∀ d ∈ Nat.toDigits 10 n, d.isDigit = true := fun d => Double.isDigit_of_mem_digits
  have hdrop : (Nat.toDigits 10 n).dropWhile Char.isDigit = [] :=
    List.dropWhile_eq_nil_iff.mpr hall
  have hc : c.isDigit = true := hall c (hdigits ▸ List.mem_cons_self)
  have hhead : (Nat.toDigits 10 n).head? = some c := by rw [hdigits]; rfl
  have hminus : c ≠ '-' := fun h => absurd hc (by rw [h]; decide)
  constructor
  · simp [isNumeric, hhead, hdrop, hc, hminus]
  · simp [isNumeric, hhead, hdrop, hc]

theorem isNumeric_toString (n : ℤ) : isNumeric (toString n).toList = true := by
  rw [toList_toString]
  split
  · exact (isNumeric_digits _).1
  · exact (isNumeric_digits _).2

theorem ofText_toString (n : ℤ) : Double.ofText (toString n).toList = Double.round n := by
  rw [toList_toString]
  split
  · rename_i hn
    rw [Double.ofText_digits]
    congr 1
    exact_mod_cast Int.toNat_of_nonneg hn
  · rename_i hn
    rw [Double.ofText_neg_digits]
    congr 1
    have hneg : ((-n).toNat : ℤ) = -n := Int.toNat_of_nonneg (by omega)
    have hcast : (((-n).toNat : ℕ) : ℚ) = -(n : ℚ) := by exact_mod_cast hneg
    rw [hcast, neg_neg]

theorem Arrives.norm_eq {v : Sql.Value} {x : JsValue} (h : Arrives v x) : norm x = norm (js v) := by
  cases h with
  | same => rfl
  | digits n =>
      rw [norm, if_pos (isNumeric_toString n), ofText_toString]
      rfl

theorem RowArrives.lookup_eq {r : Sql.Row} {o : JsRow} (h : RowArrives r o) (k : String) :
    (List.lookup k o).map norm = (List.lookup k (jsRow r)).map norm := by
  induction h with
  | nil => rfl
  | @cons c x r o hcell _ ih =>
      obtain ⟨name, v⟩ := c
      obtain ⟨name', y⟩ := x
      obtain ⟨rfl, harrives⟩ := hcell
      rw [jsRow, List.map_cons, List.lookup_cons, List.lookup_cons]
      by_cases hk : k = name
      · simp [hk, harrives.norm_eq]
      · rw [beq_eq_false_iff_ne.mpr hk]
        exact ih

theorem RowArrives.names_eq {r : Sql.Row} {o : JsRow} (h : RowArrives r o) :
    o.map Prod.fst = (jsRow r).map Prod.fst := by
  induction h with
  | nil => rfl
  | cons hcell _ ih =>
      rw [List.map_cons, ih, ← hcell.1]
      rfl

/-- However the numbers arrive, the fingerprint is that of the truth. -/
theorem fingerprint_of_arrives {rows : List Sql.Row} {got : List JsRow}
    (h : List.Forall₂ RowArrives rows got) : fingerprint got = fingerprint (rows.map jsRow) := by
  have hrows : got.map (fun o => jsonArray ((sortStrings (o.map Prod.fst)).map fun k =>
      jsonArray [jsonString k, (List.lookup k o).elim [] fun v => jsonValue (norm v)])) =
      (rows.map jsRow).map (fun o => jsonArray ((sortStrings (o.map Prod.fst)).map fun k =>
        jsonArray [jsonString k, (List.lookup k o).elim [] fun v => jsonValue (norm v)])) := by
    induction h with
    | nil => rfl
    | @cons r o rows got hrow _ ih =>
        rw [List.map_cons, ih, List.map_cons, List.map_cons, hrow.names_eq]
        have hcell : ∀ x : Option JsValue,
            (x.elim [] fun v => jsonValue (norm v)) = (x.map norm).elim [] jsonValue := by
          rintro (_ | _) <;> rfl
        have hcells : ∀ k, ((List.lookup k o).elim [] fun v => jsonValue (norm v)) =
            (List.lookup k (jsRow r)).elim [] fun v => jsonValue (norm v) := fun k => by
          rw [hcell, hcell, hrow.lookup_eq]
        simp only [hcells]
  rw [fingerprint, hrows, fingerprint]

/-! ## The ground truth is what the databases return -/

theorem result_iff_truth {d : Dialect} {engine : Engine d} {ev : List Td05Event}
    (hev : ∀ e ∈ ev, e.WellFormed) (q : Td05Query) (rows : List Sql.Row) :
    ResultOf engine ev q rows ↔ rows = td05Truth ev q := by
  cases q with
  | byHour => exact result_byHour hev rows
  | topPaths => exact result_topPaths hev rows
  | statusByCountry => exact result_statusByCountry hev rows
  | p95ByColo => exact result_p95ByColo hev rows
  | last24h => exact result_last24h rows

/-- On both dialects each aggregate has one result, row by row the truth, whose fingerprint is
that of the truth however the driver hands its numbers over. -/
theorem td05Truth_is_the_result {d : Dialect} (engine : Engine d) {ev : List Td05Event}
    (hev : ∀ e ∈ ev, e.WellFormed) (q : Td05Query) :
    (td05Statement d q).sql = (td05Aggregates d q).sql ∧
    (∀ rows, ResultOf engine ev q rows ↔ rows = td05Truth ev q) ∧
    ∀ rows got, ResultOf engine ev q rows → List.Forall₂ RowArrives rows got →
      fingerprint got = fingerprint ((td05Truth ev q).map jsRow) := by
  refine ⟨td05Statement_sql d q, result_iff_truth hev q, fun rows got hrows hgot => ?_⟩
  rw [fingerprint_of_arrives hgot, (result_iff_truth hev q rows).mp hrows]

/-- Two hours, two paths that tie, and a colo with two equal latencies. -/
def sampleEvents : List Td05Event :=
  [⟨1790812799, "/docs", 200, "AU", "SYD", 12⟩, ⟨3600, "/blog", 404, "AU", "SYD", 12⟩,
    ⟨0, "/docs", 200, "SG", "SIN", 5⟩, ⟨7199, "/blog", 200, "AU", "SYD", 3⟩]

theorem td05Truth_is_the_result_sample :
    (∀ q rows, ResultOf (d := .sqlite) ⟨Sql.bytesLe, fun _ => rfl⟩ sampleEvents q rows ↔
      rows = td05Truth sampleEvents q) ∧
    ResultOf (d := .sqlite) ⟨Sql.bytesLe, fun _ => rfl⟩ sampleEvents .last24h [[("n", .int 1)]] := by
  have hev : ∀ e ∈ sampleEvents, e.WellFormed := by decide
  exact ⟨fun q => (td05Truth_is_the_result _ hev q).2.1,
    ((td05Truth_is_the_result _ hev .last24h).2.1 _).mpr (by decide)⟩

end SupabaseLab.SqliteEdge.EventLog
