/-
  TenantConsolidation/CopyTable.lean --- the rows of a table, from one project to another.

  Source: `sql`, `nonGeneratedColumns` and `copyTable` of
  experiments/tenant-consolidation/lib/consolidate.ts, and `copyTable` of
  experiments/tenant-promotion/lib/promote.ts.

  A query that fails is answered with an error and not with an exception.  An insert of
  no rows succeeds, so a read that failed and was taken for one of no rows is a copy that
  lost them.  Queries are taken as the statements that they spell, where a name with a
  double quote in it, which the code puts between quotes as it is, counts as that name.
  What the target does with an insert is a parameter.
-/
import SupabaseLab.Library.Json
import SupabaseLab.Library.KeyMap

set_option autoImplicit false

namespace SupabaseLab.TenantConsolidation

open Library

/-! ## The query endpoint -/

structure MgmtResponse where
  status : Nat
  text : String
  /-- The parsed body, if it is JSON. -/
  json : Option Json

structure SqlResult where
  status : Nat
  rows : Option (List Json)
  error : Option String
  code : Option String
  text : String

/-- `typeof o[key] === "string"`. -/
def stringAt (o : Json) (key : String) : Option String :=
  match o.get? key with
  | some (some (.str s)) => some s
  | _ => none

/-- An array is the rows; anything else is an error, whatever the status. -/
def sql (r : MgmtResponse) : SqlResult :=
  match r.json with
  | some (.arr rows) => ⟨r.status, some rows, none, none, r.text⟩
  | json =>
      let o := json.getD (.obj [])
      let error := ((stringAt o "message").or (stringAt o "error")).getD r.text
      ⟨r.status, none, some error, stringAt o "code", r.text⟩

/-- A query that reads. -/
inductive Query where
  | columns (ref schema table : String)
  | dump (ref : String) (list : List String) (schema table where_ : String)

structure Insert where
  ref : String
  schema : String
  table : String
  /-- Each column with its expression in the SELECT. -/
  columns : List (String × String)
  payload : String

/-- Which of the three reads of a copy it is: the catalogues and the dump. -/
inductive ReadCall where
  | source
  | target
  | dump
  deriving DecidableEq

/-- The two projects, and the rest of the target's database; `mgmt` rejects where there
is no reply.  Each read has an answer of its own, also where two of them are one query. -/
structure Endpoint (D : Type) where
  read : ReadCall → Query → Option MgmtResponse
  insert : Insert → D → Option MgmtResponse × D

structure Runtime where
  /-- `JSON.parse`; `none` where it throws. -/
  parseJson : String → Option Json
  /-- The text of what an object inherits under a name. -/
  inherited : String → String

/-! ## Copying -/

/-- `String(x.column_name)`; `none` where that throws. -/
def columnName (x : Json) : Option String := do
  match ← x.get? "column_name" with
  | none => some "undefined"
  | some v => v.toText?

def nonGeneratedColumns (reply : Option MgmtResponse) : Option (List String) := do
  let r ← reply
  ((sql r).rows.getD []).mapM columnName

structure CopyOutcome where
  /-- `rows.length`; `none` where the payload is no array. -/
  read : Option Nat
  cols : Nat
  result : SqlResult

/-- The arguments of `copyTable`. -/
structure Copy where
  source : String
  target : String
  schema : String
  table : String
  where_ : String := "true"
  rewrite : KeyMap String String := .empty

variable {D : Type}

/-- The columns of the source that the target has too. -/
def Copy.cols (a : Copy) (e : Endpoint D) : Option (List String) := do
  let src ← nonGeneratedColumns (e.read .source (.columns a.source a.schema a.table))
  let dst ← nonGeneratedColumns (e.read .target (.columns a.target a.schema a.table))
  some (src.filter (· ∈ dst))

def quoted (c : String) : String := "\"" ++ c ++ "\""

/-- `rewrite[c] ?? …`; an object also has what it inherits. -/
def Copy.expression (a : Copy) (rt : Runtime) (c : String) : String :=
  match a.rewrite.get? c with
  | some expression => expression
  | none => if c ∈ objectPrototype then rt.inherited c else quoted c

def Copy.insert (a : Copy) (rt : Runtime) (cols : List String) (payload : String) : Insert where
  ref := a.target
  schema := a.schema
  table := a.table
  columns := cols.map fun c => (c, a.expression rt c)
  payload := payload

def Copy.dump (a : Copy) (e : Endpoint D) : Option SqlResult := do
  let cols ← a.cols e
  let r ← e.read .dump (.dump a.source cols a.schema a.table a.where_)
  some (sql r)

/-- `dump.rows?.[0]?.payload`, as `String` gives it where it is there; `none` where
`String` throws. -/
def payloadOf (dump : SqlResult) : Option (Option String) :=
  match (dump.rows.getD []).head? with
  | none | some .null => some none
  | some row => do
      match ← row.get? "payload" with
      | none | some .null => some none
      | some v => (v.toText?).map some

/-- `rows.length`; `none` where reading it throws. -/
def lengthOf : Json → Option (Option Nat)
  | .null => none
  | .arr items => some (some items.length)
  | _ => some none

/-- What follows the dump; `none` where the call throws. -/
def Copy.land (a : Copy) (rt : Runtime) (e : Endpoint D) (cols : List String) (dump : SqlResult) (d : D) :
    Option CopyOutcome × D :=
  match payloadOf dump with
  | none => (none, d)
  | some found =>
      let payload := found.getD "[]"
      match rt.parseJson payload with
      | none => (none, d)
      | some rows =>
          let out := e.insert (a.insert rt cols payload) d
          (out.1.bind fun r => (lengthOf rows).map fun read => ⟨read, cols.length, sql r⟩, out.2)

def copyTable (rt : Runtime) (e : Endpoint D) (a : Copy) (d : D) : Option CopyOutcome × D :=
  match a.cols e, a.dump e with
  | some cols, some dump => a.land rt e cols dump d
  | _, _ => (none, d)

/-- `copyTable` of the promotion: a dump with an error is the result. -/
def promotionCopyTable (rt : Runtime) (e : Endpoint D) (a : Copy) (d : D) : Option CopyOutcome × D :=
  match a.cols e, a.dump e with
  | some cols, some dump =>
      if dump.error.any (· ≠ "") then (some ⟨some 0, cols.length, dump⟩, d)
      else a.land rt e cols dump d
  | _, _ => (none, d)

/-! ## What a copy must do -/

/-- No rows were answered. -/
def Failed (reply : Option MgmtResponse) : Prop := ∀ r, reply = some r → (sql r).rows = none

/-- What an insert of these rows, with these expressions, makes of a database. -/
abbrev InsertRows (D : Type) := String → String → String → List (String × String) → List Json → D → D

/-- What the target does with an insert, as it is documented: it changes nothing or
inserts the rows of the payload, and a success means that it did; an empty list of columns
is no statement, and the text of a function is no expression. -/
structure InsertsAsPostgres (rt : Runtime) (e : Endpoint D) (insertRows : InsertRows D) : Prop where
  parses : rt.parseJson "[]" = some (.arr [])
  noRows : ∀ ref schema table columns d, insertRows ref schema table columns [] d = d
  effect : ∀ s d, (e.insert s d).2 = d ∨ (s.columns ≠ [] ∧ ∃ rows, rt.parseJson s.payload = some (.arr rows) ∧
    (e.insert s d).2 = insertRows s.ref s.schema s.table s.columns rows d)
  success : ∀ s d r, (e.insert s d).1 = some r → (sql r).error = none → s.columns ≠ [] ∧
    (∀ c ∈ s.columns, ∀ name ∈ objectPrototype, c.2 ≠ rt.inherited name) ∧
    ∃ rows, rt.parseJson s.payload = some (.arr rows) ∧
      (e.insert s d).2 = insertRows s.ref s.schema s.table s.columns rows d

/-- A success means that the rows were read, and that they are what was inserted; after a
failed read the result is an error, and the target is as it was. -/
structure CopySafe (rt : Runtime) (e : Endpoint D) (insertRows : InsertRows D) (a : Copy) (d : D)
    (out : Option CopyOutcome × D) : Prop where
  success : ∀ o, out.1 = some o → o.result.error = none → ∃ src dst dump payload rows,
    nonGeneratedColumns (e.read .source (.columns a.source a.schema a.table)) = some src ∧
    nonGeneratedColumns (e.read .target (.columns a.target a.schema a.table)) = some dst ∧
    e.read .dump (.dump a.source (src.filter (· ∈ dst)) a.schema a.table a.where_) = some dump ∧
    payloadOf (sql dump) = some (some payload) ∧ rt.parseJson payload = some (.arr rows) ∧
    o.read = some rows.length ∧
    out.2 = insertRows a.target a.schema a.table
      ((src.filter (· ∈ dst)).map fun c => (c, (a.rewrite.get? c).getD (quoted c))) rows d
  failure : Failed (e.read .source (.columns a.source a.schema a.table)) ∨
      Failed (e.read .target (.columns a.target a.schema a.table)) ∨
      (∀ cols, a.cols e = some cols → Failed (e.read .dump (.dump a.source cols a.schema a.table a.where_))) →
    (∀ o, out.1 = some o → o.result.error ≠ none) ∧ out.2 = d

/-- The dump answered no payload, and the insert of no rows succeeds. -/
def LandsNothing (rt : Runtime) (e : Endpoint D) (a : Copy) (d : D) : Prop :=
  ∃ cols dump r, a.cols e = some cols ∧ a.dump e = some dump ∧ payloadOf dump = some none ∧
    (e.insert (a.insert rt cols "[]") d).1 = some r ∧ (sql r).error = none

section Lemmas

variable {rt : Runtime} {e : Endpoint D} {insertRows : InsertRows D} {a : Copy} {d : D}
  {cols : List String} {dump : SqlResult} {r : MgmtResponse} {reply : Option MgmtResponse} {o : CopyOutcome}
  {payload c : String}

/-! ### Answers -/

theorem payloadOf_of_failed (h : dump.rows = none) : payloadOf dump = some none := by
  unfold payloadOf
  rw [h]
  rfl

theorem nonGeneratedColumns_of_failed (h : Failed reply) (hcols : nonGeneratedColumns reply = some cols) :
    cols = [] := by
  cases reply with
  | none => cases hcols
  | some r =>
    unfold nonGeneratedColumns at hcols
    rw [Option.bind_eq_bind, Option.bind_some, h r rfl] at hcols
    cases hcols
    rfl

/-- The columns are those that both catalogues name. -/
theorem cols_eq_some (h : a.cols e = some cols) : ∃ src dst,
    nonGeneratedColumns (e.read .source (.columns a.source a.schema a.table)) = some src ∧
    nonGeneratedColumns (e.read .target (.columns a.target a.schema a.table)) = some dst ∧
    cols = src.filter (· ∈ dst) := by
  unfold Copy.cols at h
  obtain ⟨src, hsrc, h⟩ := Option.bind_eq_some_iff.mp h
  obtain ⟨dst, hdst, h⟩ := Option.bind_eq_some_iff.mp h
  exact ⟨src, dst, hsrc, hdst, (Option.some.inj h).symm⟩

/-- A catalogue that failed leaves no column. -/
theorem cols_of_failed (h : Failed (e.read .source (.columns a.source a.schema a.table)) ∨
    Failed (e.read .target (.columns a.target a.schema a.table))) (hcols : a.cols e = some cols) : cols = [] := by
  obtain ⟨src, dst, hsrc, hdst, rfl⟩ := cols_eq_some hcols
  rcases h with h | h
  · rw [nonGeneratedColumns_of_failed h hsrc, List.filter_nil]
  · rw [nonGeneratedColumns_of_failed h hdst]
    exact List.filter_eq_nil_iff.mpr fun c _ => by simp

theorem dump_eq_some (hcols : a.cols e = some cols) (h : a.dump e = some dump) :
    ∃ r, e.read .dump (.dump a.source cols a.schema a.table a.where_) = some r ∧ dump = sql r := by
  unfold Copy.dump at h
  obtain ⟨cols', hcols', h⟩ := Option.bind_eq_some_iff.mp h
  rw [hcols] at hcols'
  cases hcols'
  obtain ⟨r, hr, h⟩ := Option.bind_eq_some_iff.mp h
  exact ⟨r, hr, (Option.some.inj h).symm⟩

/-! ### Inserts -/

theorem columns_ne_nil (h : (a.insert rt cols payload).columns ≠ []) : cols ≠ [] := by
  rintro rfl
  exact h rfl

theorem expression_eq (h : ∀ name ∈ objectPrototype, a.expression rt c ≠ rt.inherited name) :
    a.expression rt c = (a.rewrite.get? c).getD (quoted c) := by
  unfold Copy.expression at h ⊢
  cases hrewrite : a.rewrite.get? c with
  | some expression => rfl
  | none =>
    rw [hrewrite] at h
    by_cases hc : c ∈ objectPrototype
    · exact absurd (if_pos hc) (h c hc)
    · exact if_neg hc

/-- An insert of no rows, or over no columns, leaves the target as it is. -/
theorem insert_unchanged (hpg : InsertsAsPostgres rt e insertRows) (h : cols = [] ∨ payload = "[]") :
    (e.insert (a.insert rt cols payload) d).2 = d := by
  rcases hpg.effect (a.insert rt cols payload) d with hsame | ⟨hne, rows, hparse, heffect⟩
  · exact hsame
  · rcases h with h | rfl
    · exact absurd h (columns_ne_nil hne)
    · have hparse' : rt.parseJson "[]" = some (.arr rows) := hparse
      rw [hpg.parses] at hparse'
      cases hparse'
      rw [heffect, hpg.noRows]

/-! ### Landing -/

/-- What `land` gives, where it gives something. -/
theorem land_eq (h : (a.land rt e cols dump d).1 = some o) : ∃ found rows r read,
    payloadOf dump = some found ∧ rt.parseJson (found.getD "[]") = some rows ∧
    (e.insert (a.insert rt cols (found.getD "[]")) d).1 = some r ∧ lengthOf rows = some read ∧
    o = ⟨read, cols.length, sql r⟩ ∧
    (a.land rt e cols dump d).2 = (e.insert (a.insert rt cols (found.getD "[]")) d).2 := by
  unfold Copy.land at h ⊢
  split at h
  · cases h
  · rename_i found hfound
    dsimp only at h ⊢
    split at h
    · cases h
    · rename_i rows hrows
      obtain ⟨r, hr, h⟩ := Option.bind_eq_some_iff.mp h
      obtain ⟨read, hread, rfl⟩ := Option.map_eq_some_iff.mp h
      exact ⟨found, rows, r, read, hfound, hrows, hr, hread, rfl, rfl⟩

theorem land_unchanged (hpg : InsertsAsPostgres rt e insertRows)
    (h : cols = [] ∨ payloadOf dump = some none) : (a.land rt e cols dump d).2 = d := by
  unfold Copy.land
  split
  · rfl
  · rename_i found hfound
    dsimp only
    split
    · rfl
    · refine insert_unchanged hpg (h.imp_right fun hnone => ?_)
      rw [hnone] at hfound
      cases hfound
      rfl

/-- **Unless nothing was read and nothing is inserted with success, the copy is safe.** -/
theorem land_safe (hpg : InsertsAsPostgres rt e insertRows) (hcols : a.cols e = some cols)
    (hdump : a.dump e = some dump) (hno : ¬ LandsNothing rt e a d) :
    CopySafe rt e insertRows a d (a.land rt e cols dump d) := by
  obtain ⟨src, dst, hsrc, hdst, hcommon⟩ := cols_eq_some hcols
  obtain ⟨reply, hreply, hresult⟩ := dump_eq_some hcols hdump
  constructor
  · intro o ho hok
    obtain ⟨found, rows, r, read, hfound, hrows, hr, hread, rfl, htarget⟩ := land_eq ho
    cases found with
    | none => exact absurd ⟨cols, dump, r, hcols, hdump, hfound, hr, hok⟩ hno
    | some payload =>
      obtain ⟨-, hexpressions, items, hitems, heffect⟩ := hpg.success _ _ _ hr hok
      have hparse : rt.parseJson payload = some (.arr items) := hitems
      rw [show rt.parseJson payload = some rows from hrows] at hparse
      cases hparse
      have hcolumns : (a.insert rt cols payload).columns =
          cols.map fun c => (c, (a.rewrite.get? c).getD (quoted c)) := by
        refine List.map_congr_left fun c hc => ?_
        rw [expression_eq fun name hname => hexpressions _ (List.mem_map_of_mem hc) name hname]
      refine ⟨src, dst, reply, payload, items, hsrc, hdst, hcommon ▸ hreply, hresult ▸ hfound, hrows,
        (Option.some.inj hread).symm, ?_⟩
      rw [htarget, ← hcommon, ← hcolumns]
      exact heffect
  · intro hfailed
    have hnothing : cols = [] ∨ payloadOf dump = some none := by
      rcases hfailed with h | h | h
      · exact .inl (cols_of_failed (.inl h) hcols)
      · exact .inl (cols_of_failed (.inr h) hcols)
      · rw [hresult]
        exact .inr (payloadOf_of_failed (h cols hcols reply hreply))
    refine ⟨fun o ho hok => ?_, land_unchanged hpg hnothing⟩
    obtain ⟨found, rows, r, read, hfound, -, hr, -, rfl, -⟩ := land_eq ho
    rcases hnothing with hnil | hnone
    · exact absurd hnil (columns_ne_nil (hpg.success _ _ _ hr hok).1)
    · rw [hnone] at hfound
      cases hfound
      exact hno ⟨cols, dump, r, hcols, hdump, hnone, hr, hok⟩

/-- A call that throws before the insert has done nothing. -/
theorem copySafe_of_threw : CopySafe rt e insertRows a d (none, d) :=
  ⟨fun _ ho => (nomatch ho), fun _ => ⟨fun _ ho => (nomatch ho), rfl⟩⟩

/-- The copy of the promotion is safe where a dump without a payload is an error that
says something. -/
theorem promotionCopyTable_safe (hpg : InsertsAsPostgres rt e insertRows)
    (hanswer : ∀ dump, a.dump e = some dump → payloadOf dump = some none → dump.error.any (· ≠ "") = true) :
    CopySafe rt e insertRows a d (promotionCopyTable rt e a d) := by
  unfold promotionCopyTable
  split
  · rename_i cols dump hcols hdump
    split
    · rename_i herror
      refine ⟨fun o ho hok => ?_, fun _ => ⟨fun o ho hok => ?_, rfl⟩⟩
      all_goals
        cases ho
        rw [show dump.error = none from hok] at herror
        cases herror
    · rename_i herror
      refine land_safe hpg hcols hdump ?_
      rintro ⟨_, _, _, -, hdump', hnone, -⟩
      rw [hdump] at hdump'
      cases hdump'
      exact herror (hanswer dump hdump hnone)
  · exact copySafe_of_threw

end Lemmas

/-! ## When a copy loses nothing -/

theorem copyTable_safe_iff (rt : Runtime) (e : Endpoint D) (insertRows : InsertRows D)
    (hpg : InsertsAsPostgres rt e insertRows) (a : Copy) (d : D) :
    CopySafe rt e insertRows a d (copyTable rt e a d) ↔ ¬ LandsNothing rt e a d := by
  constructor
  · rintro hsafe ⟨cols, dump, r, hcols, hdump, hnone, hr, hok⟩
    have hout : (copyTable rt e a d).1 = some ⟨some 0, cols.length, sql r⟩ := by
      unfold copyTable
      rw [hcols, hdump]
      dsimp only
      unfold Copy.land
      rw [hnone]
      dsimp only [Option.getD_none]
      rw [hpg.parses]
      dsimp only
      rw [hr]
      rfl
    obtain ⟨src, dst, reply, payload, rows, hsrc, hdst, hreply, hpayload, -⟩ := hsafe.success _ hout hok
    obtain ⟨src', dst', hsrc', hdst', hcommon⟩ := cols_eq_some hcols
    obtain ⟨reply', hreply', hresult⟩ := dump_eq_some hcols hdump
    rw [hsrc] at hsrc'
    rw [hdst] at hdst'
    cases hsrc'
    cases hdst'
    rw [hcommon, hreply] at hreply'
    cases hreply'
    rw [← hresult, hnone] at hpayload
    cases hpayload
  · intro hno
    unfold copyTable
    split
    · rename_i cols dump hcols hdump
      exact land_safe hpg hcols hdump hno
    · exact copySafe_of_threw

/-! ### Two projects with one column -/

/-- Two texts are JSON. -/
def twoTexts : Runtime where
  parseJson text :=
    if text = "[]" then some (.arr [])
    else if text = "[\x7b\"id\":\"a\"\x7d]" then some (.arr [.obj [("id", .str "a")]])
    else none
  inherited name := "function " ++ name ++ "() \x7b [native code] \x7d"

def refusal (message : String) : MgmtResponse := ⟨400, "", some (.obj [("message", .str message)])⟩

/-- Both catalogues name the column `id`; the target keeps the rows it is given. -/
def usersEndpoint (dump : MgmtResponse) : Endpoint (List Json) where
  read
    | _, .columns _ _ _ => some ⟨201, "", some (.arr [.obj [("column_name", .str "id")]])⟩
    | _, .dump _ _ _ _ _ => some dump
  insert s d :=
    if s.columns = [] ∨ ∃ c ∈ s.columns, ∃ name ∈ objectPrototype, c.2 = twoTexts.inherited name then
      (some (refusal "syntax error"), d)
    else
      match twoTexts.parseJson s.payload with
      | some (.arr rows) => (some ⟨201, "[]", some (.arr [])⟩, d ++ rows)
      | _ => (some (refusal "invalid input syntax for type json"), d)

def appendRows : InsertRows (List Json) := fun _ _ _ _ rows d => d ++ rows

theorem usersEndpoint_inserts (dump : MgmtResponse) :
    InsertsAsPostgres twoTexts (usersEndpoint dump) appendRows where
  parses := rfl
  noRows _ _ _ _ _ := List.append_nil _
  effect s d := by
    unfold usersEndpoint
    dsimp only
    split
    · exact .inl rfl
    · rename_i hstatement
      split
      · rename_i rows hrows
        exact .inr ⟨fun hnil => hstatement (.inl hnil), rows, hrows, rfl⟩
      · exact .inl rfl
  success s d r hr hok := by
    unfold usersEndpoint at hr ⊢
    dsimp only at hr ⊢
    split at hr
    · cases hr
      cases hok
    · rename_i hstatement
      split at hr
      · rename_i rows hrows
        rw [if_neg hstatement]
        refine ⟨fun hnil => hstatement (.inl hnil), fun c hc name hname heq => ?_, rows, hrows, ?_⟩
        · exact hstatement (.inr ⟨c, hc, name, hname, heq⟩)
        · rfl
      · cases hr
        cases hok

def copyUsers : Copy where
  source := "tenant"
  target := "shared"
  schema := "auth"
  table := "users"

def oneUser : MgmtResponse :=
  ⟨201, "", some (.arr [.obj [("payload", .str "[\x7b\"id\":\"a\"\x7d]")]])⟩

theorem copyTable_safe_iff_oneUser :
    CopySafe twoTexts (usersEndpoint oneUser) appendRows copyUsers []
      (copyTable twoTexts (usersEndpoint oneUser) copyUsers []) := by
  refine (copyTable_safe_iff twoTexts (usersEndpoint oneUser) appendRows (usersEndpoint_inserts oneUser)
    copyUsers []).mpr ?_
  rintro ⟨cols, dump, r, -, hdump, hnone, -⟩
  cases hdump
  cases hnone

/-- The dump is refused, and the copy is reported as a success. -/
theorem refused_dump_lands :
    InsertsAsPostgres twoTexts (usersEndpoint (refusal "permission denied")) appendRows ∧
      ¬ CopySafe twoTexts (usersEndpoint (refusal "permission denied")) appendRows copyUsers []
        (copyTable twoTexts (usersEndpoint (refusal "permission denied")) copyUsers []) := by
  refine ⟨usersEndpoint_inserts _, fun hsafe => ?_⟩
  obtain ⟨src, dst, dump, payload, rows, -, -, hdump, hpayload, -⟩ := hsafe.success
    ⟨some 0, 1, sql ⟨201, "[]", some (.arr [])⟩⟩ rfl rfl
  cases hdump
  cases hpayload

end SupabaseLab.TenantConsolidation
