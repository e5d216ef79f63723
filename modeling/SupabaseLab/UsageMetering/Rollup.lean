/-
  UsageMetering/Rollup.lean --- the usage ledger and its hourly rollup.

  Source: the schema and `flush` of experiments/usage-metering/tests/m06-idempotent-rollup.ts.

  Events are only ever added, and a flush recomputes every bucket and replaces its
  total; so the rollup is a function of the ledger, however often and whenever it
  was flushed.  The columns are nullable as the schema has them; the identity
  column is left out, no statement reads it.
-/
import SupabaseLab.Library.Aggregate
import SupabaseLab.Library.KeyMap

set_option autoImplicit false

namespace SupabaseLab.UsageMetering

open Library

/-! ## Values -/

/-- A `numeric`. -/
inductive Numeric where
  | finite (q : ℚ)
  | nan
  | infinity
  | negInfinity
  deriving DecidableEq

def Numeric.add : Numeric → Numeric → Numeric
  | .nan, _ | _, .nan => .nan
  | .infinity, .negInfinity | .negInfinity, .infinity => .nan
  | .infinity, _ | _, .infinity => .infinity
  | .negInfinity, _ | _, .negInfinity => .negInfinity
  | .finite p, .finite q => .finite (p + q)

theorem Numeric.add_comm' (a b : Numeric) : a.add b = b.add a := by
  cases a <;> cases b <;> simp [Numeric.add, Rat.add_comm]

theorem Numeric.add_assoc' (a b c : Numeric) : (a.add b).add c = a.add (b.add c) := by
  cases a <;> cases b <;> cases c <;> simp [Numeric.add, Rat.add_assoc]

instance : AddCommSemigroup Numeric where
  add := Numeric.add
  add_assoc := Numeric.add_assoc'
  add_comm := Numeric.add_comm'

/-- A `timestamptz`, in microseconds since the epoch. -/
inductive Timestamptz where
  | at (micros : Int)
  | infinity
  | negInfinity
  deriving DecidableEq

/-- `date_trunc('hour', …)`, where the session is in UTC. -/
def dateTruncHour : Timestamptz → Timestamptz
  | .at micros => .at (micros - micros % 3600000000)
  | .infinity => .infinity
  | .negInfinity => .negInfinity

/-! ## Tables -/

/-- A row of `usage_events`. -/
structure UsageEvent where
  tenantId : Option String
  meter : Option String
  quantity : Option Numeric
  occurredAt : Option Timestamptz
  idempotencyKey : Option String
  deriving DecidableEq

/-- `usage_events`; `idempotency_key` is unique, and null is no key. -/
structure UsageEvents where
  rows : List UsageEvent
  unique : (rows.filterMap UsageEvent.idempotencyKey).Nodup

/-- The primary key of `usage_rollup`. -/
@[ext] structure RollupKey where
  tenantId : String
  meter : String
  windowStart : Timestamptz
  deriving DecidableEq

structure Db where
  usageEvents : UsageEvents := ⟨[], List.nodup_nil⟩
  usageRollup : KeyMap RollupKey (Option Numeric) := .empty

inductive SqlError where
  | uniqueViolation
  | notNullViolation
  deriving DecidableEq

/-! ## Statements -/

/-- `insert into usage_events`, of one row or several. -/
def insertEvents (db : Db) (rows : List UsageEvent) : Except SqlError Db :=
  if h : ((db.usageEvents.rows ++ rows).filterMap UsageEvent.idempotencyKey).Nodup then
    .ok { db with usageEvents := ⟨db.usageEvents.rows ++ rows, h⟩ }
  else .error .uniqueViolation

/-- `tenant_id, meter, date_trunc('hour', occurred_at)`. -/
def UsageEvent.group (e : UsageEvent) : Option String × Option String × Option Timestamptz :=
  (e.tenantId, e.meter, e.occurredAt.map dateTruncHour)

/-- The key that a group has in `usage_rollup`, whose columns are not null. -/
def rollupKey? : Option String × Option String × Option Timestamptz → Option RollupKey
  | (some tenantId, some meter, some windowStart) => some ⟨tenantId, meter, windowStart⟩
  | _ => none

/-- `sum(quantity)`. -/
def total (events : List UsageEvent) : Option Numeric := sumNullable (events.map UsageEvent.quantity)

/-- A row of the `select` as a row of `usage_rollup`. -/
def rollupRow? (row : (Option String × Option String × Option Timestamptz) × Option Numeric) :
    Option (RollupKey × Option Numeric) :=
  (rollupKey? row.1).map fun key => (key, row.2)

def flush (db : Db) : Except SqlError Db :=
  match (groupBy UsageEvent.group total db.usageEvents.rows).mapM rollupRow? with
  | some rows =>
      .ok { db with usageRollup := rows.foldl (fun m row => m.set row.1 row.2) db.usageRollup }
  | none => .error .notNullViolation

inductive Statement where
  | insert (rows : List UsageEvent)
  | flush
  deriving DecidableEq

def exec (db : Db) : Statement → Except SqlError Db
  | .insert rows => insertEvents db rows
  | .flush => UsageMetering.flush db

/-- A statement that fails leaves the database as it was. -/
def after (db : Db) (statement : Statement) : Db := (exec db statement).toOption.getD db

/-- The database after a history of statements. -/
def run (history : List Statement) : Db := history.foldl after {}

/-! ## What the rollup is for -/

/-- The keys of the rows are new, and no two of them the same. -/
def Fresh (events rows : List UsageEvent) : Prop :=
  (rows.filterMap UsageEvent.idempotencyKey).Nodup ∧
    ∀ e ∈ events, ∀ e' ∈ rows, e.idempotencyKey.isSome = true → e'.idempotencyKey ≠ e.idempotencyKey

/-- The bucket an event counts in; an event without tenant, meter or time has none. -/
def UsageEvent.bucket? (e : UsageEvent) : Option RollupKey := rollupKey? e.group

/-- The grouped sums of a ledger: a bucket is there when an event counts in it. -/
def groupedSum (events : List UsageEvent) (key : RollupKey) : Option (Option Numeric) :=
  if events.any fun e => e.bucket? = some key then
    some (total (events.filter fun e => e.bucket? = some key))
  else none

/-- The inserts of a history, in their order. -/
def inserts (history : List Statement) : List Statement :=
  history.filter fun | .insert _ => true | .flush => false

/-! ## One flush -/

section Flush

variable {db db' : Db} {events events' : List UsageEvent} {key : RollupKey} {rows : List UsageEvent}

theorem rollupKey?_eq_some {g : Option String × Option String × Option Timestamptz} :
    rollupKey? g = some key ↔ g = (some key.tenantId, some key.meter, some key.windowStart) := by
  obtain ⟨tenantId, meter, windowStart⟩ := g
  cases tenantId with
  | none => simp [rollupKey?]
  | some tenantId =>
    cases meter with
    | none => simp [rollupKey?]
    | some meter =>
      cases windowStart with
      | none => simp [rollupKey?]
      | some windowStart => simp [rollupKey?, RollupKey.ext_iff]

theorem bucket?_eq_some {e : UsageEvent} : e.bucket? = some key ↔
    e.group = (some key.tenantId, some key.meter, some key.windowStart) :=
  rollupKey?_eq_some

theorem groupedSum_eq_some {sum : Option Numeric} : groupedSum events key = some sum ↔
    (∃ e ∈ events, e.bucket? = some key) ∧
      sum = total (events.filter fun e => e.bucket? = some key) := by
  unfold groupedSum
  split
  · rename_i hany
    have hthere : ∃ e ∈ events, e.bucket? = some key := by simpa using hany
    rw [Option.some.injEq]
    exact ⟨fun h => ⟨hthere, h.symm⟩, fun h => h.2.symm⟩
  · rename_i hany
    have hnone : ¬ ∃ e ∈ events, e.bucket? = some key := by simpa using hany
    exact ⟨fun h => (Option.some_ne_none _ h.symm).elim, fun h => absurd h.1 hnone⟩

/-- The rows a flush writes are the buckets with their grouped sums. -/
theorem mem_written {written : List (RollupKey × Option Numeric)} {sum : Option Numeric}
    (h : (groupBy UsageEvent.group total events).mapM rollupRow? = some written) :
    (key, sum) ∈ written ↔ groupedSum events key = some sum := by
  have hmap := mapM_eq_some.mp h
  have hgroup : groupOf UsageEvent.group events (some key.tenantId, some key.meter, some key.windowStart) =
      events.filter fun e => e.bucket? = some key :=
    List.filter_congr fun e _ => decide_eq_decide.mpr bucket?_eq_some.symm
  rw [groupedSum_eq_some, ← hgroup]
  constructor
  · intro hin
    have hsome : some (key, sum) ∈ written.map some := List.mem_map_of_mem hin
    rw [← hmap] at hsome
    obtain ⟨⟨g, value⟩, hrow, heq⟩ := List.mem_map.mp hsome
    obtain ⟨hg, rfl⟩ := mem_groupBy.mp hrow
    obtain ⟨key', hkey, hmade⟩ := Option.map_eq_some_iff.mp heq
    cases hmade
    obtain ⟨e, he, heg⟩ := List.mem_map.mp hg
    obtain rfl : g = _ := rollupKey?_eq_some.mp hkey
    exact ⟨⟨e, he, bucket?_eq_some.mpr heg⟩, rfl⟩
  · rintro ⟨⟨e, he, hbucket⟩, rfl⟩
    have hg := bucket?_eq_some.mp hbucket
    have hrow := List.mem_map_of_mem (f := rollupRow?) (mem_groupBy.mpr ⟨List.mem_map_of_mem he, rfl⟩ :
      (e.group, total (groupOf UsageEvent.group events e.group)) ∈ groupBy UsageEvent.group total events)
    rw [hmap, hg] at hrow
    obtain ⟨row, hin, heq⟩ := List.mem_map.mp hrow
    cases heq
    exact hin

/-- The keys of the rows a flush writes are unique. -/
theorem rollupRows_nodup {written : List (RollupKey × Option Numeric)}
    (h : (groupBy UsageEvent.group total events).mapM rollupRow? = some written) :
    (written.map Prod.fst).Nodup := by
  have hkeys : ((groupBy UsageEvent.group total events).map Prod.fst).map rollupKey? =
      (written.map Prod.fst).map some := by
    have hrows := congrArg (List.map (Option.map Prod.fst)) (mapM_eq_some.mp h)
    simpa [List.map_map, Function.comp_def, rollupRow?, Option.map_map] using hrows
  refine List.Nodup.of_map some ?_
  rw [← hkeys]
  refine List.Nodup.map_on (fun g hg g' hg' heq => ?_) groupBy_nodup
  -- a group whose key is not null is named by its key
  have hsome : rollupKey? g ∈ (written.map Prod.fst).map some := hkeys ▸ List.mem_map_of_mem hg
  obtain ⟨key, -, hkey⟩ := List.mem_map.mp hsome
  rw [rollupKey?_eq_some.mp hkey.symm, rollupKey?_eq_some.mp (hkey.trans heq).symm]

/-- An event that counts in a bucket. -/
def UsageEvent.Complete (e : UsageEvent) : Prop :=
  e.tenantId.isSome = true ∧ e.meter.isSome = true ∧ e.occurredAt.isSome = true

theorem complete_iff {e : UsageEvent} : e.Complete ↔ e.bucket?.isSome = true := by
  obtain ⟨tenantId, meter, quantity, occurredAt, key⟩ := e
  cases tenantId <;> cases meter <;> cases occurredAt <;>
    simp [UsageEvent.Complete, UsageEvent.bucket?, UsageEvent.group, rollupKey?]

/-- A flush goes through unless an event has no bucket. -/
theorem flush_isOk : (∃ db', flush db = .ok db') ↔ ∀ e ∈ db.usageEvents.rows, e.Complete := by
  have hrows : (∃ written, (groupBy UsageEvent.group total db.usageEvents.rows).mapM rollupRow? =
      some written) ↔ ∀ e ∈ db.usageEvents.rows, e.Complete := by
    rw [exists_mapM_eq_some]
    constructor
    · intro h e he
      have hrow := h (e.group, total (groupOf UsageEvent.group db.usageEvents.rows e.group))
        (mem_groupBy.mpr ⟨List.mem_map_of_mem he, rfl⟩)
      rw [rollupRow?, Option.isSome_map] at hrow
      exact complete_iff.mpr hrow
    · rintro h ⟨g, value⟩ hrow
      obtain ⟨hg, -⟩ := mem_groupBy.mp hrow
      obtain ⟨e, he, rfl⟩ := List.mem_map.mp hg
      rw [rollupRow?, Option.isSome_map]
      exact complete_iff.mp (h e he)
  rw [← hrows]
  unfold flush
  split
  · rename_i written hwritten
    exact ⟨fun _ => ⟨written, hwritten⟩, fun _ => ⟨_, rfl⟩⟩
  · rename_i hnone
    constructor
    · rintro ⟨_, h⟩
      cases h
    · rintro ⟨_, h⟩
      rw [hnone] at h
      cases h

/-- What a flush that goes through has written. -/
theorem flush_eq_ok : flush db = .ok db' ↔
    ∃ written, (groupBy UsageEvent.group total db.usageEvents.rows).mapM rollupRow? = some written ∧
      db' = { db with
        usageRollup := written.foldl (fun m row => m.set row.1 row.2) db.usageRollup } := by
  unfold flush
  split
  · rename_i written hwritten
    rw [hwritten]
    simp [eq_comm]
  · rename_i hnone
    rw [hnone]
    simp

/-- A flush writes the grouped sums over what was there. -/
theorem flush_ok (h : flush db = .ok db') : db'.usageEvents = db.usageEvents ∧
    ∀ key, db'.usageRollup.get? key =
      (groupedSum db.usageEvents.rows key).or (db.usageRollup.get? key) := by
  obtain ⟨written, hwritten, rfl⟩ := flush_eq_ok.mp h
  refine ⟨rfl, fun key => ?_⟩
  cases hsum : groupedSum db.usageEvents.rows key with
  | some sum =>
    rw [Option.some_or]
    exact KeyMap.get?_foldl_set_of_mem (rollupRows_nodup hwritten) ((mem_written hwritten).mpr hsum)
  | none =>
    have hfresh : key ∉ written.map Prod.fst := by
      intro hkey
      obtain ⟨⟨key, sum⟩, hrow, rfl⟩ := List.mem_map.mp hkey
      rw [(mem_written hwritten).mp hrow] at hsum
      cases hsum
    rw [Option.none_or]
    exact KeyMap.get?_foldl_set_of_not_mem hfresh

/-- A second flush changes nothing. -/
theorem flush_flush (h : flush db = .ok db') : flush db' = .ok db' := by
  obtain ⟨hevents, hrollup⟩ := flush_ok h
  obtain ⟨written, hwritten, -⟩ := flush_eq_ok.mp h
  refine flush_eq_ok.mpr ⟨written, hevents ▸ hwritten, ?_⟩
  have hsame : ∀ row ∈ written, db'.usageRollup.get? row.1 = some row.2 := by
    intro row hrow
    rw [hrollup, (mem_written hwritten).mp hrow, Option.some_or]
  rw [KeyMap.foldl_set_same hsame]

end Flush

/-! ## Histories -/

section Histories

variable {db db' : Db} {history history' later : List Statement} {rows : List UsageEvent}
  {statement : Statement}

/-- Every bucket of the rollup is one of the ledger's. -/
def Behind (db : Db) : Prop :=
  ∀ key, (db.usageRollup.get? key).isSome = true →
    (groupedSum db.usageEvents.rows key).isSome = true

theorem groupedSum_isSome {events : List UsageEvent} {key : RollupKey} :
    (groupedSum events key).isSome = true ↔ ∃ e ∈ events, e.bucket? = some key := by
  unfold groupedSum
  split
  · rename_i hany
    simpa using hany
  · rename_i hany
    simpa using hany

/-- An insert is accepted when its keys are new, and then its rows are appended. -/
theorem insertEvents_eq_ok : insertEvents db rows = .ok db' ↔ Fresh db.usageEvents.rows rows ∧
    db'.usageEvents.rows = db.usageEvents.rows ++ rows ∧ db'.usageRollup = db.usageRollup := by
  have hfresh : Fresh db.usageEvents.rows rows ↔
      ((db.usageEvents.rows ++ rows).filterMap UsageEvent.idempotencyKey).Nodup := by
    rw [List.filterMap_append, List.nodup_append', and_iff_right db.usageEvents.unique]
    refine and_congr_right fun _ => ⟨fun h k hk hk' => ?_, fun h e he e' he' hsome heq => ?_⟩
    · obtain ⟨e, he, hek⟩ := List.mem_filterMap.mp hk
      obtain ⟨e', he', hek'⟩ := List.mem_filterMap.mp hk'
      exact h e he e' he' (by rw [hek]; rfl) (hek'.trans hek.symm)
    · obtain ⟨k, hk⟩ := Option.isSome_iff_exists.mp hsome
      exact h (List.mem_filterMap.mpr ⟨e, he, hk⟩) (List.mem_filterMap.mpr ⟨e', he', heq.trans hk⟩)
  rw [hfresh]
  unfold insertEvents
  split
  · rename_i hnodup
    obtain ⟨⟨rows', unique⟩, rollup⟩ := db'
    simp only [Except.ok.injEq, Db.mk.injEq, UsageEvents.mk.injEq, hnodup, true_and]
    exact and_congr eq_comm eq_comm
  · rename_i hnot
    exact ⟨fun h => (nomatch h), fun h => absurd h.1 hnot⟩

/-- An insert of a key that is there already fails, and changes nothing. -/
theorem insertEvents_duplicate {e e' : UsageEvent} (he : e ∈ db.usageEvents.rows) (he' : e' ∈ rows)
    (hkey : e'.idempotencyKey = e.idempotencyKey) (hsome : e.idempotencyKey.isSome = true) :
    insertEvents db rows = .error .uniqueViolation := by
  obtain ⟨k, hk⟩ := Option.isSome_iff_exists.mp hsome
  refine dif_neg fun hnodup => ?_
  rw [List.filterMap_append] at hnodup
  have hleft : k ∈ db.usageEvents.rows.filterMap UsageEvent.idempotencyKey :=
    List.mem_filterMap.mpr ⟨e, he, hk⟩
  have hright : k ∈ rows.filterMap UsageEvent.idempotencyKey :=
    List.mem_filterMap.mpr ⟨e', he', hkey.trans hk⟩
  exact List.disjoint_of_nodup_append hnodup hleft hright

theorem exec_cases (db : Db) (statement : Statement) :
    after db statement = db ∨ exec db statement = .ok (after db statement) := by
  unfold after
  cases exec db statement with
  | ok db' => exact .inr rfl
  | error e => exact .inl rfl

theorem Behind.after (h : Behind db) (statement : Statement) : Behind (after db statement) := by
  rcases exec_cases db statement with hfailed | hok
  · rw [hfailed]
    exact h
  intro key hkey
  cases statement with
  | insert rows =>
    obtain ⟨hevents, hrollup⟩ := (insertEvents_eq_ok.mp hok).2
    rw [hrollup] at hkey
    obtain ⟨e, he, hbucket⟩ := groupedSum_isSome.mp (h key hkey)
    rw [hevents]
    exact groupedSum_isSome.mpr ⟨e, List.mem_append_left _ he, hbucket⟩
  | flush =>
    obtain ⟨hevents, hrollup⟩ := flush_ok hok
    rw [hevents]
    rw [hrollup] at hkey
    cases hsum : groupedSum db.usageEvents.rows key with
    | some sum => rfl
    | none =>
      rw [hsum, Option.none_or] at hkey
      rw [← hsum]
      exact h key hkey

theorem run_concat : run (history ++ [statement]) = after (run history) statement := by
  rw [run, List.foldl_concat]
  rfl

theorem behind_run (history : List Statement) : Behind (run history) := by
  induction history using List.reverseRecOn with
  | nil =>
    intro key hkey
    cases hkey
  | append_singleton history statement ih =>
    rw [run_concat]
    exact ih.after statement

/-- The ledger is what the inserts have made of it. -/
theorem run_inserts (history : List Statement) :
    (run history).usageEvents = (run (inserts history)).usageEvents := by
  induction history using List.reverseRecOn with
  | nil => rfl
  | append_singleton history statement ih =>
    rw [run_concat, inserts, List.filter_append]
    cases statement with
    | insert rows =>
      rw [List.filter_singleton, cond_true, run_concat]
      unfold after
      show ((insertEvents (run history) rows).toOption.getD (run history)).usageEvents =
        ((insertEvents (run (inserts history)) rows).toOption.getD (run (inserts history))).usageEvents
      unfold insertEvents
      rw [ih]
      split
      · rfl
      · exact ih
    | flush =>
      rw [List.filter_singleton, cond_false, List.append_nil]
      refine Eq.trans ?_ ih
      rcases exec_cases (run history) .flush with hfailed | hok
      · rw [hfailed]
      · exact (flush_ok hok).1

/-- Where the grouped sums depend on the ledger's events only, not on their order. -/
theorem groupedSum_perm {events events' : List UsageEvent} (h : events.Perm events')
    (key : RollupKey) : groupedSum events key = groupedSum events' key := by
  refine Option.ext fun sum => ?_
  rw [groupedSum_eq_some, groupedSum_eq_some]
  have htotal : total (events.filter fun e => e.bucket? = some key) =
      total (events'.filter fun e => e.bucket? = some key) :=
    sumNullable_perm ((h.filter _).map _)
  rw [htotal]
  exact and_congr_left fun _ => exists_congr fun e => and_congr_left fun _ => h.mem_iff

/-- What a flush leaves, after any history. -/
theorem flush_run (h : flush (run history) = .ok db') (key : RollupKey) :
    db'.usageRollup.get? key = groupedSum (run history).usageEvents.rows key := by
  rw [(flush_ok h).2]
  cases hsum : groupedSum (run history).usageEvents.rows key with
  | some sum => rfl
  | none =>
    rw [Option.none_or, Option.eq_none_iff_forall_ne_some]
    intro sum hget
    have hbehind := behind_run history key (by rw [hget]; rfl)
    rw [hsum] at hbehind
    cases hbehind

end Histories

/-! ## The rollup is a function of the ledger -/

/-- What is promised of the rollup after a history of inserts and flushes. -/
structure Idempotent (history : List Statement) : Prop where
  /-- An insert goes through exactly when its keys are new, and adds its rows to the events. -/
  accepts : ∀ rows db, exec (run history) (.insert rows) = .ok db ↔
    Fresh (run history).usageEvents.rows rows ∧
      db.usageEvents.rows = (run history).usageEvents.rows ++ rows ∧
      db.usageRollup = (run history).usageRollup
  /-- A flush goes through exactly when every event accepted has a tenant, a meter and a time. -/
  flushes : (∃ db, flush (run history) = .ok db) ↔
    ∀ e ∈ (run history).usageEvents.rows, e.Complete
  /-- The totals it leaves are the grouped sums of the events accepted. -/
  totals : ∀ db, flush (run history) = .ok db → db.usageEvents = (run history).usageEvents ∧
    ∀ key, db.usageRollup.get? key = groupedSum db.usageEvents.rows key
  /-- A second flush changes nothing. -/
  again : ∀ db, flush (run history) = .ok db → flush db = .ok db
  /-- An insert of a key that is taken changes neither the events nor any later total. -/
  duplicate : ∀ rows, (∃ e ∈ (run history).usageEvents.rows, ∃ e' ∈ rows,
      e'.idempotencyKey = e.idempotencyKey ∧ e.idempotencyKey.isSome = true) →
    exec (run history) (.insert rows) = .error .uniqueViolation ∧
      ∀ later, run (history ++ .insert rows :: later) = run (history ++ later)
  /-- Where the flushes stood among the inserts does not matter. -/
  splits : ∀ history', inserts history' = inserts history →
    (run history').usageEvents = (run history).usageEvents ∧
      ∀ db db', flush (run history) = .ok db → flush (run history') = .ok db' →
        ∀ key, db'.usageRollup.get? key = db.usageRollup.get? key
  /-- Nor does the order of the events. -/
  order : ∀ history' db db',
    (run history').usageEvents.rows.Perm (run history).usageEvents.rows →
    flush (run history) = .ok db → flush (run history') = .ok db' →
    ∀ key, db'.usageRollup.get? key = db.usageRollup.get? key

theorem usage_rollup_idempotent (history : List Statement) : Idempotent history where
  accepts _ _ := insertEvents_eq_ok
  flushes := flush_isOk
  totals db h := by
    refine ⟨(flush_ok h).1, fun key => ?_⟩
    rw [flush_run h, (flush_ok h).1]
  again db h := flush_flush h
  duplicate rows hdup := by
    obtain ⟨e, he, e', he', hkey, hsome⟩ := hdup
    have hfail : exec (run history) (.insert rows) = .error .uniqueViolation :=
      insertEvents_duplicate he he' hkey hsome
    refine ⟨hfail, fun later => ?_⟩
    have hsame : after (run history) (.insert rows) = run history := by
      rw [after, hfail]
      rfl
    rw [run, run, List.foldl_append, List.foldl_append, List.foldl_cons]
    exact congrArg (List.foldl after · later) hsame
  splits history' h := by
    have hevents : (run history').usageEvents = (run history).usageEvents := by
      rw [run_inserts history', run_inserts history, h]
    refine ⟨hevents, fun db db' hflush hflush' key => ?_⟩
    rw [flush_run hflush, flush_run hflush', hevents]
  order history' db db' hperm h h' key := by
    rw [flush_run h, flush_run h']
    exact groupedSum_perm hperm key

/-- An event of the first hour, a flush, a late event of that hour, and one whose key is taken. -/
def lateHistory : List Statement :=
  [.insert [⟨some "t-0", some "api.request", some (.finite 1), some (.at 2000000), some "seed-2"⟩],
    .flush,
    .insert [⟨some "t-0", some "api.request", some (.finite 5), some (.at 1800000000), some "late-1"⟩],
    .insert [⟨some "t-0", some "api.request", some (.finite 7), some (.at 1860000000), some "seed-2"⟩]]

/-- The late event counts, and the other one does not. -/
theorem usage_rollup_idempotent_late : ∃ db, flush (run lateHistory) = .ok db ∧
    db.usageRollup.get? ⟨"t-0", "api.request", .at 0⟩ = some (some (.finite 6)) ∧
    db.usageEvents.rows.length = 2 ∧ flush db = .ok db := by
  have h := usage_rollup_idempotent lateHistory
  have hlength : (run lateHistory).usageEvents.rows.length = 2 := by decide +kernel
  have hcomplete : ∀ e ∈ (run lateHistory).usageEvents.rows,
      (e.tenantId.isSome && e.meter.isSome && e.occurredAt.isSome) = true := by decide +kernel
  have hsum : groupedSum (run lateHistory).usageEvents.rows ⟨"t-0", "api.request", .at 0⟩ =
      some (some (.finite 6)) := by decide +kernel
  obtain ⟨db, hdb⟩ := h.flushes.mpr fun e he => by
    have hall := hcomplete e he
    rw [Bool.and_eq_true, Bool.and_eq_true] at hall
    exact ⟨hall.1.1, hall.1.2, hall.2⟩
  obtain ⟨hevents, htotals⟩ := h.totals db hdb
  exact ⟨db, hdb, by rw [htotals, hevents, hsum], by rw [hevents, hlength], h.again db hdb⟩

end SupabaseLab.UsageMetering
