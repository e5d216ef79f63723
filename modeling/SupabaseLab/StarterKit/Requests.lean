/-
  StarterKit/Requests.lean --- purchase requests, and who may decide them.

  Source: experiments/governed-starter-kit/sql/10-app.sql, with the grants and the
  policies of 00-baseline.sql.

  A statement of a signed-in user names columns and gives expressions for them; it
  may hit any rows.  The column grants are checked first, then the policies on each
  row, then the constraints.  A value that an expression gives is of the column's
  type already, save for the status, which is a text under a check.  The select
  policies ask nothing that the policies for writing do not ask as well.
-/
import SupabaseLab.Library.RowUpdate
import SupabaseLab.StarterKit.Baseline

set_option autoImplicit false

namespace SupabaseLab.StarterKit

open Library

/-! ## Requests -/

inductive Status where
  | pending
  | approved
  | rejected
  deriving DecidableEq, Repr

def Status.text : Status → String
  | .pending => "pending"
  | .approved => "approved"
  | .rejected => "rejected"

/-- `check (status in ('pending', 'approved', 'rejected'))`. -/
def Status.ofText? (text : String) : Option Status :=
  if text = "pending" then some .pending
  else if text = "approved" then some .approved
  else if text = "rejected" then some .rejected
  else none

/-- A value of `numeric(12, 2)`. -/
inductive Amount where
  | nan
  | hundredths (n : Int)
  deriving DecidableEq, Repr

/-- `amount >= 0`; NaN is above every number. -/
def Amount.nonneg : Amount → Bool
  | .nan => true
  | .hundredths n => 0 ≤ n

/-- A row of `public.purchase_requests`, without its key. -/
structure PurchaseRequest where
  departmentId : Uuid
  requesterId : Uuid
  item : String
  vendor : String
  amount : Amount
  justification : String
  status : Status
  decidedBy : Option Uuid
  decidedAt : Option Int
  decisionNote : Option String
  createdAt : Int
  deriving DecidableEq

structure AppDb where
  base : Db := {}
  requests : KeyMap Uuid PurchaseRequest := .empty

inductive RequestColumn where
  | id
  | departmentId
  | requesterId
  | item
  | vendor
  | amount
  | justification
  | status
  | decidedBy
  | decidedAt
  | decisionNote
  | createdAt
  deriving DecidableEq, Repr

/-- `grant insert (…) on public.purchase_requests`. -/
def insertGrant : List RequestColumn := [.item, .vendor, .amount, .justification]

/-- `grant update (…) on public.purchase_requests`. -/
def updateGrant : List RequestColumn := [.status, .decidedBy, .decidedAt, .decisionNote]

inductive ProfileColumn where
  | id
  | departmentId
  | role
  | displayName
  deriving DecidableEq, Repr

/-- `grant update (display_name) on public.profiles`. -/
def profileGrant : List ProfileColumn := [.displayName]

/-! ## Policies -/

/-- `private.my_department()`. -/
def Db.myDepartment (db : Db) (uid : Uuid) : Option Uuid :=
  (db.profiles.get? uid).map Profile.departmentId

/-- `private.is_manager()`. -/
def Db.isManager (db : Db) (uid : Uuid) : Bool :=
  ((db.profiles.get? uid).map fun p => decide (p.role = .manager)).getD false

/-- USING of "requests: manager decides". -/
def mayDecide (db : Db) (uid : Uuid) (r : PurchaseRequest) : Bool :=
  db.isManager uid && db.myDepartment uid = some r.departmentId && r.requesterId ≠ uid &&
    r.status = .pending

/-! ## Rows under a statement -/

/-- The values of an UPDATE for the columns it may name; `none` is NULL. -/
structure Assignment where
  status : Option String := none
  decidedBy : Option Uuid := none
  decidedAt : Option Int := none
  decisionNote : Option String := none

/-- The new version of a row: WITH CHECK of "requests: manager decides", then the
constraints. -/
def newVersion (db : Db) (uid : Uuid) (columns : List RequestColumn) (a : Assignment)
    (r : PurchaseRequest) : Except SqlError PurchaseRequest := do
  let status := if .status ∈ columns then a.status else some r.status.text
  let decidedBy := if .decidedBy ∈ columns then a.decidedBy else r.decidedBy
  refuseIf (¬ (db.myDepartment uid = some r.departmentId ∧
    (status = some "approved" ∨ status = some "rejected") ∧ decidedBy = some uid)) .rowSecurity
  let status ← orThrow (status.bind Status.ofText?) .checkViolation
  refuseIf ((decidedBy.any fun by_ => !db.profiles.has by_) = true) .foreignKeyViolation
  return { r with
    status
    decidedBy
    decidedAt := if .decidedAt ∈ columns then a.decidedAt else r.decidedAt
    decisionNote := if .decisionNote ∈ columns then a.decisionNote else r.decisionNote }

/-- The values of an INSERT; `none` is NULL. -/
structure NewRequest where
  item : Option String := none
  vendor : Option String := none
  amount : Option Amount := none
  justification : Option String := none

/-- A row to insert: the columns that are not named take their defaults.  With these
the policy "requests: submit own" asks only that the caller has a department. -/
def newRow (db : Db) (uid : Uuid) (now : Int) (columns : List RequestColumn) (new : NewRequest) :
    Except SqlError PurchaseRequest := do
  let departmentId ← orThrow (db.myDepartment uid) .rowSecurity
  let item ← orThrow (if .item ∈ columns then new.item else none) .notNullViolation
  let vendor ← orThrow (if .vendor ∈ columns then new.vendor else none) .notNullViolation
  let amount ← orThrow (if .amount ∈ columns then new.amount else none) .notNullViolation
  let justification ←
    orThrow (if .justification ∈ columns then new.justification else none) .notNullViolation
  refuseIf (amount.nonneg = false) .checkViolation
  return {
    departmentId
    requesterId := uid
    item
    vendor
    amount
    justification
    status := .pending
    decidedBy := none
    decidedAt := none
    decisionNote := none
    createdAt := now }

/-! ## Statements -/

/-- ON CONFLICT (id); an UPDATE that gives no assignment is one whose WHERE fails. -/
inductive OnConflict where
  | fail
  | doNothing
  | doUpdate (columns : List RequestColumn)
      (assign : Uuid → PurchaseRequest → PurchaseRequest → Option Assignment)

def OnConflict.columns : OnConflict → List RequestColumn
  | .doUpdate columns _ => columns
  | _ => []

/-- The rows of an INSERT, one by one; with it the updates that conflicts led to. -/
def insertRequests (db : Db) (uid : Uuid) (now : Int) (columns : List RequestColumn)
    (conflict : OnConflict) : List (Uuid × NewRequest) → KeyMap Uuid PurchaseRequest →
      Except SqlError (KeyMap Uuid PurchaseRequest × List (RowUpdate Uuid PurchaseRequest))
  | [], requests => .ok (requests, [])
  | (id, new) :: rest, requests => do
      let row ← newRow db uid now columns new
      match requests.get? id, conflict with
      | none, _ => insertRequests db uid now columns conflict rest (requests.set id row)
      | some _, .fail => .error .uniqueViolation
      | some _, .doNothing => insertRequests db uid now columns conflict rest requests
      | some old, .doUpdate updated assign =>
          match assign id old row with
          | none => insertRequests db uid now columns conflict rest requests
          | some a => do
              -- here a row that USING hides is an error
              refuseIf (mayDecide db uid old = false) .rowSecurity
              let new ← newVersion db uid updated a old
              let (requests, us) ←
                insertRequests db uid now columns conflict rest (requests.set id new)
              return (requests, ⟨id, old, new⟩ :: us)

/-- What an UPDATE makes of a row: USING hides it, WHERE passes it over, or it gets a
new version. -/
def visitRequest (db : Db) (uid : Uuid) (columns : List RequestColumn)
    (assign : Uuid → PurchaseRequest → Option Assignment) (id : Uuid) (r : PurchaseRequest) :
    Except SqlError (Option PurchaseRequest) :=
  if mayDecide db uid r then
    match assign id r with
    | none => .ok none
    | some a => do
        let new ← newVersion db uid columns a r
        return some new
  else .ok none

/-- "profiles: update self". -/
def visitProfile (uid : Uuid) (columns : List ProfileColumn)
    (assign : Uuid → Profile → Option (Option String)) (id : Uuid) (p : Profile) :
    Except SqlError (Option Profile) :=
  if id = uid then
    match assign id p with
    | none => .ok none
    | some displayName => do
        let displayName ←
          orThrow (if .displayName ∈ columns then displayName else some p.displayName)
            .notNullViolation
        return some { p with displayName }
  else .ok none

inductive AppStatement where
  | admin (stmt : AdminStatement)
  | insertRequests (uid : Uuid) (now : Int) (columns : List RequestColumn)
      (rows : List (Uuid × NewRequest)) (conflict : OnConflict)
  | updateRequests (uid : Uuid) (columns : List RequestColumn)
      (assign : Uuid → PurchaseRequest → Option Assignment)
  /-- `public.decide_purchase_request`. -/
  | decide (uid : Uuid) (now : Int) (requestId : Uuid) (decision note : Option String)
  | updateProfiles (uid : Uuid) (columns : List ProfileColumn)
      (assign : Uuid → Profile → Option (Option String))
  /-- A write that no grant allows: DELETE, TRUNCATE, or any write on another table. -/
  | ungranted (uid : Uuid)

/-- The database after a statement, with the rows of purchase_requests it updated and
the columns it named for them. -/
structure Effect where
  db : AppDb
  columns : List RequestColumn := []
  updated : List (RowUpdate Uuid PurchaseRequest) := []

def updateRequests (db : AppDb) (uid : Uuid) (columns : List RequestColumn)
    (assign : Uuid → PurchaseRequest → Option Assignment) : Except SqlError Effect := do
  refuseIf (¬ columns ⊆ updateGrant) .permissionDenied
  let us ← rowUpdates (visitRequest db.base uid columns assign) db.requests.entries
  return { db := { db with requests := db.requests.applyUpdates us }, columns, updated := us }

def AppStatement.run (deps : Departments) (db : AppDb) : AppStatement → Except SqlError Effect
  | .admin stmt => do
      let base ← stmt.run deps db.base
      return { db := { db with base } }
  | .insertRequests uid now columns rows conflict => do
      refuseIf (¬ columns ⊆ insertGrant) .permissionDenied
      refuseIf (¬ conflict.columns ⊆ updateGrant) .permissionDenied
      let (requests, us) ←
        StarterKit.insertRequests db.base uid now columns conflict rows db.requests
      return { db := { db with requests }, columns := conflict.columns, updated := us }
  | .updateRequests uid columns assign => StarterKit.updateRequests db uid columns assign
  | .decide uid now requestId decision note => do
      refuseIf (∃ d, decision = some d ∧ d ∉ ["approved", "rejected"])
        (.raised "decision must be approved or rejected")
      let effect ← StarterKit.updateRequests db uid updateGrant fun id _ =>
        if id = requestId then some ⟨decision, some uid, some now, note⟩ else none
      refuseIf (effect.updated = []) (.raised "not permitted or not found")
      return effect
  | .updateProfiles uid columns assign => do
      refuseIf (¬ columns ⊆ profileGrant) .permissionDenied
      let us ← rowUpdates (visitProfile uid columns assign) db.base.profiles.entries
      return { db := { db with
        base := { db.base with profiles := db.base.profiles.applyUpdates us } } }
  | .ungranted _ => .error .permissionDenied

/-- A statement that fails leaves the database as it was. -/
def appStep (deps : Departments) (db : AppDb) (stmt : AppStatement) : Option AppDb :=
  match stmt.run deps db with
  | .ok effect => some effect.db
  | .error _ => some db

/-! ## What a statement does to a request -/

/-- The row was pending, and a manager of its department who is not its requester
has decided it. -/
structure DecidedBy (db : Db) (uid : Uuid) (old new : PurchaseRequest) : Prop where
  pending : old.status = .pending
  decided : new.status = .approved ∨ new.status = .rejected
  decider : new.decidedBy = some uid
  manager : ∃ p, db.profiles.get? uid = some p ∧ p.role = .manager ∧
    p.departmentId = new.departmentId
  notOwn : uid ≠ new.requesterId
  same : new = { old with
    status := new.status
    decidedBy := new.decidedBy
    decidedAt := new.decidedAt
    decisionNote := new.decisionNote }

/-- The row is a new request of the caller. -/
structure SubmittedBy (db : Db) (uid : Uuid) (r : PurchaseRequest) : Prop where
  pending : r.status = .pending
  undecided : r.decidedBy = none
  requester : r.requesterId = uid
  department : db.myDepartment uid = some r.departmentId

/-- What a statement of `uid` makes of the requests, with the updates it made: a key
that was not updated keeps its row, or has a new one. -/
structure Changes (db : Db) (uid : Uuid) (before after : KeyMap Uuid PurchaseRequest)
    (us : List (RowUpdate Uuid PurchaseRequest)) : Prop where
  once : (us.map RowUpdate.key).Nodup
  updated : ∀ u ∈ us, before.get? u.key = some u.old ∧ after.get? u.key = some u.new ∧
    DecidedBy db uid u.old u.new
  others : ∀ id, id ∉ us.map RowUpdate.key → after.get? id = before.get? id ∨
    before.get? id = none ∧ ∃ r, after.get? id = some r ∧ SubmittedBy db uid r

theorem DecidedBy.requester {db : Db} {uid : Uuid} {old new : PurchaseRequest}
    (h : DecidedBy db uid old new) : new.requesterId = old.requesterId := by
  rw [h.same]

/-- A decided row is decided once. -/
theorem DecidedBy.not_again {db db' : Db} {uid uid' : Uuid} {old new newer : PurchaseRequest}
    (h : DecidedBy db uid old new) : ¬ DecidedBy db' uid' new newer := by
  intro hagain
  have hpending := hagain.pending
  obtain hs | hs := h.decided
  · rw [hs] at hpending
    cases hpending
  · rw [hs] at hpending
    cases hpending

section Statements

variable {deps : Departments} {base : Db} {db : AppDb} {uid : Uuid} {now : Int}
  {columns : List RequestColumn} {effect : Effect}

theorem mayDecide_iff {r : PurchaseRequest} : mayDecide base uid r = true ↔
    (∃ p, base.profiles.get? uid = some p ∧ p.role = .manager ∧ p.departmentId = r.departmentId) ∧
      r.requesterId ≠ uid ∧ r.status = .pending := by
  unfold mayDecide Db.isManager Db.myDepartment
  cases base.profiles.get? uid with
  | none => simp
  | some p => simp [and_assoc]

/-- A row that passes USING and WITH CHECK is decided, and the statement names the status. -/
theorem newVersion_ok {a : Assignment} {r new : PurchaseRequest} (hmay : mayDecide base uid r = true)
    (h : newVersion base uid columns a r = .ok new) :
    DecidedBy base uid r new ∧ .status ∈ columns := by
  obtain ⟨⟨p, hp, hrole, hdept⟩, hown, hpending⟩ := mayDecide_iff.mp hmay
  obtain ⟨_, hcheck, h⟩ := bind_eq_ok.mp h
  obtain ⟨-, hstatus, hby⟩ := not_not.mp (refuseIf_eq_ok.mp hcheck)
  obtain ⟨status, htext, h⟩ := bind_eq_ok.mp h
  obtain ⟨_, -, h⟩ := bind_eq_ok.mp h
  have htext := orThrow_eq_ok.mp htext
  cases h
  have hnamed : RequestColumn.status ∈ columns := by
    by_contra hnot
    rw [if_neg hnot, hpending] at hstatus
    simp [Status.text] at hstatus
  have hdecided : status = .approved ∨ status = .rejected := by
    obtain hs | hs := hstatus
    · rw [hs] at htext
      exact .inl (Option.some.inj htext).symm
    · rw [hs] at htext
      exact .inr (Option.some.inj htext).symm
  exact ⟨⟨hpending, hdecided, hby, ⟨p, hp, hrole, hdept⟩, hown.symm, rfl⟩, hnamed⟩

theorem newRow_ok {new : NewRequest} {r : PurchaseRequest}
    (h : newRow base uid now columns new = .ok r) : SubmittedBy base uid r := by
  obtain ⟨dept, hdept, h⟩ := bind_eq_ok.mp h
  obtain ⟨item, -, h⟩ := bind_eq_ok.mp h
  obtain ⟨vendor, -, h⟩ := bind_eq_ok.mp h
  obtain ⟨amount, -, h⟩ := bind_eq_ok.mp h
  obtain ⟨justification, -, h⟩ := bind_eq_ok.mp h
  obtain ⟨_, -, h⟩ := bind_eq_ok.mp h
  cases h
  exact ⟨rfl, rfl, rfl, orThrow_eq_ok.mp hdept⟩

theorem visitRequest_ok {assign : Uuid → PurchaseRequest → Option Assignment} {id : Uuid}
    {r new : PurchaseRequest} (h : visitRequest base uid columns assign id r = .ok (some new)) :
    DecidedBy base uid r new ∧ .status ∈ columns := by
  unfold visitRequest at h
  split at h
  · rename_i hmay
    split at h
    · cases h
    · obtain ⟨v, hv, h⟩ := bind_eq_ok.mp h
      cases h
      exact newVersion_ok hmay hv
  · cases h

theorem changes_nil {requests : KeyMap Uuid PurchaseRequest} :
    Changes base uid requests requests [] :=
  ⟨List.nodup_nil, fun _ hu => absurd hu List.not_mem_nil, fun _ _ => .inl rfl⟩

theorem updateRequests_ok {assign : Uuid → PurchaseRequest → Option Assignment}
    (h : updateRequests db uid columns assign = .ok effect) :
    effect.db.base = db.base ∧
      Changes db.base uid db.requests effect.db.requests effect.updated ∧
      (effect.updated ≠ [] → .status ∈ effect.columns) := by
  obtain ⟨_, -, h⟩ := bind_eq_ok.mp h
  obtain ⟨us, hus, h⟩ := bind_eq_ok.mp h
  cases h
  obtain ⟨hsub, hmem⟩ := rowUpdates_ok hus
  have honce : (us.map RowUpdate.key).Nodup := db.requests.nodup.sublist hsub
  have hnew : ∀ u ∈ us, DecidedBy db.base uid u.old u.new ∧ RequestColumn.status ∈ columns :=
    fun u hu => visitRequest_ok ((hmem u).mp hu).2
  refine ⟨rfl, ⟨honce, fun u hu => ?_, fun id hid => ?_⟩, fun hne => ?_⟩
  · obtain ⟨v, hv, hkey, hold, -, hget⟩ | ⟨hid, -⟩ := KeyMap.get?_applyUpdates hus u.key
    · have hvu : v = u := List.inj_on_of_nodup_map honce hv hu hkey
      rw [hvu] at hold hget
      exact ⟨hold, hget, (hnew u hu).1⟩
    · exact absurd (List.mem_map_of_mem hu) hid
  · obtain ⟨v, hv, hkey, -⟩ | ⟨-, hget⟩ := KeyMap.get?_applyUpdates hus id
    · exact absurd (List.mem_map.mpr ⟨v, hv, hkey⟩) hid
    · exact .inl hget
  · obtain ⟨u, hu⟩ := List.exists_mem_of_ne_nil us hne
    exact (hnew u hu).2

/-- A request that the caller submitted is not theirs to decide. -/
theorem SubmittedBy.not_mayDecide {r : PurchaseRequest} (h : SubmittedBy base uid r) :
    mayDecide base uid r = false := by
  rw [Bool.eq_false_iff]
  intro hmay
  exact (mayDecide_iff.mp hmay).2.1 h.requester

theorem Changes.insert {before mid after : KeyMap Uuid PurchaseRequest} {id : Uuid}
    {r : PurchaseRequest} {us : List (RowUpdate Uuid PurchaseRequest)}
    (hfresh : before.get? id = none) (hr : SubmittedBy base uid r) (hmid : mid = before.set id r)
    (h : Changes base uid mid after us) : Changes base uid before after us := by
  subst hmid
  have hid : id ∉ us.map RowUpdate.key := by
    intro hmem
    obtain ⟨u, hu, rfl⟩ := List.mem_map.mp hmem
    obtain ⟨hold, -, hdecided⟩ := h.updated u hu
    rw [KeyMap.get?_set_self] at hold
    have hown := hdecided.notOwn
    rw [hdecided.requester, ← Option.some.inj hold] at hown
    exact hown hr.requester.symm
  refine ⟨h.once, fun u hu => ?_, fun k hk => ?_⟩
  · obtain ⟨hold, hnew, hdecided⟩ := h.updated u hu
    have hne : u.key ≠ id := by
      rintro rfl
      exact hid (List.mem_map_of_mem hu)
    rw [KeyMap.get?_set_of_ne _ _ hne] at hold
    exact ⟨hold, hnew, hdecided⟩
  · by_cases hkid : k = id
    · subst hkid
      refine .inr ⟨hfresh, ?_⟩
      obtain hsame | ⟨hnone, -⟩ := h.others k hk
      · rw [KeyMap.get?_set_self] at hsame
        exact ⟨r, hsame, hr⟩
      · rw [KeyMap.get?_set_self] at hnone
        cases hnone
    · have hothers := h.others k hk
      rw [KeyMap.get?_set_of_ne _ _ hkid] at hothers
      exact hothers

theorem Changes.update {before mid after : KeyMap Uuid PurchaseRequest} {id : Uuid}
    {old new : PurchaseRequest} {us : List (RowUpdate Uuid PurchaseRequest)}
    (hold : before.get? id = some old) (hnew : DecidedBy base uid old new)
    (hmid : mid = before.set id new) (h : Changes base uid mid after us) :
    Changes base uid before after (⟨id, old, new⟩ :: us) := by
  subst hmid
  have hid : id ∉ us.map RowUpdate.key := by
    intro hmem
    obtain ⟨u, hu, rfl⟩ := List.mem_map.mp hmem
    obtain ⟨hgot, -, hdecided⟩ := h.updated u hu
    rw [KeyMap.get?_set_self] at hgot
    rw [← Option.some.inj hgot] at hdecided
    exact hnew.not_again hdecided
  refine ⟨List.nodup_cons.mpr ⟨hid, h.once⟩, fun u hu => ?_, fun k hk => ?_⟩
  · obtain rfl | hin := List.mem_cons.mp hu
    · refine ⟨hold, ?_, hnew⟩
      obtain hsame | ⟨hnone, -⟩ := h.others id hid
      · rw [hsame, KeyMap.get?_set_self]
      · rw [KeyMap.get?_set_self] at hnone
        cases hnone
    · obtain ⟨hgot, hafter, hdecided⟩ := h.updated u hin
      have hne : u.key ≠ id := by
        rintro rfl
        exact hid (List.mem_map_of_mem hin)
      rw [KeyMap.get?_set_of_ne _ _ hne] at hgot
      exact ⟨hgot, hafter, hdecided⟩
  · rw [List.map_cons, List.mem_cons] at hk
    obtain ⟨hne, hk⟩ := not_or.mp hk
    have hothers := h.others k hk
    rw [KeyMap.get?_set_of_ne _ _ hne] at hothers
    exact hothers

theorem insertRequests_ok {conflict : OnConflict} {rows : List (Uuid × NewRequest)}
    {requests requests' : KeyMap Uuid PurchaseRequest}
    {us : List (RowUpdate Uuid PurchaseRequest)}
    (h : insertRequests base uid now columns conflict rows requests = .ok (requests', us)) :
    Changes base uid requests requests' us ∧ (us ≠ [] → .status ∈ conflict.columns) := by
  induction rows generalizing requests us with
  | nil =>
    cases h
    exact ⟨changes_nil, fun hne => absurd rfl hne⟩
  | cons e rest ih =>
    obtain ⟨id, new⟩ := e
    unfold insertRequests at h
    obtain ⟨row, hrow, hrest⟩ := bind_eq_ok.mp h
    split at hrest
    · rename_i hfresh
      obtain ⟨hchanges, hnamed⟩ := ih hrest
      exact ⟨hchanges.insert hfresh (newRow_ok hrow) rfl, hnamed⟩
    · cases hrest
    · exact ih hrest
    · rename_i old updated assign hold
      split at hrest
      · exact ih hrest
      · obtain ⟨_, hmay, hrest⟩ := bind_eq_ok.mp hrest
        obtain ⟨new, hnew, hrest⟩ := bind_eq_ok.mp hrest
        obtain ⟨⟨requests'', us'⟩, htail, hrest⟩ := bind_eq_ok.mp hrest
        cases hrest
        have hmay : mayDecide base uid old = true := Bool.not_eq_false _ ▸ refuseIf_eq_ok.mp hmay
        obtain ⟨hdecided, hnamed⟩ := newVersion_ok hmay hnew
        exact ⟨(ih htail).1.update hold hdecided rfl, fun _ => hnamed⟩

end Statements

/-! ## Runs -/

/-- Whose statement it is; `none` for the administrator. -/
def AppStatement.user : AppStatement → Option Uuid
  | .admin _ => none
  | .insertRequests uid _ _ _ _ => some uid
  | .updateRequests uid _ _ => some uid
  | .decide uid _ _ _ _ => some uid
  | .updateProfiles uid _ _ => some uid
  | .ungranted uid => some uid

/-- What a profile lets its user do. -/
def Db.access (db : Db) (id : Uuid) : Option (Uuid × Role) :=
  (db.profiles.get? id).map fun p => (p.departmentId, p.role)

/-- What a statement of a user does. -/
structure ByUser (db : AppDb) (uid : Uuid) (effect : Effect) : Prop where
  changes : Changes db.base uid db.requests effect.db.requests effect.updated
  named : effect.updated ≠ [] → .status ∈ effect.columns
  access : ∀ id, effect.db.base.access id = db.base.access id

section Runs

variable {deps : Departments} {db db' : AppDb} {uid : Uuid} {stmt : AppStatement} {effect : Effect}

theorem visitProfile_ok {columns : List ProfileColumn}
    {assign : Uuid → Profile → Option (Option String)} {id : Uuid} {p p' : Profile}
    (h : visitProfile uid columns assign id p = .ok (some p')) :
    p'.departmentId = p.departmentId ∧ p'.role = p.role := by
  unfold visitProfile at h
  split at h
  · split at h
    · cases h
    · obtain ⟨name, -, h⟩ := bind_eq_ok.mp h
      cases h
      exact ⟨rfl, rfl⟩
  · cases h

theorem run_user (huser : stmt.user = some uid) (h : stmt.run deps db = .ok effect) :
    ByUser db uid effect := by
  cases stmt with
  | admin stmt => cases huser
  | insertRequests uid now columns rows conflict =>
    cases huser
    obtain ⟨_, -, h⟩ := bind_eq_ok.mp h
    obtain ⟨_, -, h⟩ := bind_eq_ok.mp h
    obtain ⟨⟨requests, us⟩, hinsert, h⟩ := bind_eq_ok.mp h
    cases h
    obtain ⟨hchanges, hnamed⟩ := insertRequests_ok hinsert
    exact ⟨hchanges, hnamed, fun _ => rfl⟩
  | updateRequests uid columns assign =>
    cases huser
    obtain ⟨hbase, hchanges, hnamed⟩ := updateRequests_ok h
    exact ⟨hchanges, hnamed, fun _ => by rw [hbase]⟩
  | decide uid now requestId decision note =>
    cases huser
    obtain ⟨_, -, h⟩ := bind_eq_ok.mp h
    obtain ⟨effect', hupdate, h⟩ := bind_eq_ok.mp h
    obtain ⟨_, -, h⟩ := bind_eq_ok.mp h
    cases h
    obtain ⟨hbase, hchanges, hnamed⟩ := updateRequests_ok hupdate
    exact ⟨hchanges, hnamed, fun _ => by rw [hbase]⟩
  | updateProfiles uid columns assign =>
    cases huser
    obtain ⟨_, -, h⟩ := bind_eq_ok.mp h
    obtain ⟨us, hus, h⟩ := bind_eq_ok.mp h
    cases h
    refine ⟨changes_nil, fun hne => absurd rfl hne, fun id => ?_⟩
    unfold Db.access
    obtain ⟨u, -, -, hold, hvisit, hnew⟩ | ⟨-, hsame⟩ := KeyMap.get?_applyUpdates hus id
    · obtain ⟨hdept, hrole⟩ := visitProfile_ok hvisit
      rw [show (db.base.profiles.applyUpdates us).get? id = some u.new from hnew, hold]
      simp [hdept, hrole]
    · exact congrArg _ hsame
  | ungranted uid => cases h

theorem run_admin (huser : stmt.user = none) (h : stmt.run deps db = .ok effect) :
    effect.db.requests = db.requests ∧ effect.updated = [] := by
  cases stmt with
  | admin stmt =>
    obtain ⟨base, -, h⟩ := bind_eq_ok.mp h
    cases h
    exact ⟨rfl, rfl⟩
  | insertRequests => cases huser
  | updateRequests => cases huser
  | decide => cases huser
  | updateProfiles => cases huser
  | ungranted => cases huser

/-- What a statement may do to the row of one key. -/
inductive RowStep (db : AppDb) (stmt : AppStatement) :
    Option PurchaseRequest → Option PurchaseRequest → Prop where
  | kept (row : Option PurchaseRequest) : RowStep db stmt row row
  | submitted {uid : Uuid} {r : PurchaseRequest} (huser : stmt.user = some uid)
      (h : SubmittedBy db.base uid r) : RowStep db stmt none (some r)
  | decided {uid : Uuid} {old new : PurchaseRequest} (huser : stmt.user = some uid)
      (h : DecidedBy db.base uid old new) : RowStep db stmt (some old) (some new)

theorem appStep_row (hstep : appStep deps db stmt = some db') (id : Uuid) :
    RowStep db stmt (db.requests.get? id) (db'.requests.get? id) := by
  unfold appStep at hstep
  split at hstep
  · rename_i effect hrun
    cases hstep
    cases huser : stmt.user with
    | none =>
      rw [(run_admin huser hrun).1]
      exact .kept _
    | some uid =>
      have hchanges := (run_user huser hrun).changes
      by_cases hid : id ∈ effect.updated.map RowUpdate.key
      · obtain ⟨u, hu, rfl⟩ := List.mem_map.mp hid
        obtain ⟨hold, hnew, hdecided⟩ := hchanges.updated u hu
        rw [hold, hnew]
        exact .decided huser hdecided
      · obtain hsame | ⟨hnone, r, hr, hsubmitted⟩ := hchanges.others id hid
        · rw [hsame]
          exact .kept _
        · rw [hnone, hr]
          exact .submitted huser hsubmitted
  · cases hstep
    exact .kept _

theorem appStep_access (huser : stmt.user = some uid) (hstep : appStep deps db stmt = some db')
    (id : Uuid) : db'.base.access id = db.base.access id := by
  unfold appStep at hstep
  split at hstep
  · rename_i effect hrun
    cases hstep
    exact (run_user huser hrun).access id
  · cases hstep
    rfl

/-- The row was decided by a statement of the run, in the state that statement met. -/
def DecidedIn (deps : Departments) (es : List AppStatement) (id : Uuid) (r : PurchaseRequest) :
    Prop :=
  ∃ before stmt after m m' uid old, es = before ++ stmt :: after ∧
    runEvents (appStep deps) {} before = some m ∧ stmt.user = some uid ∧
    appStep deps m stmt = some m' ∧ m.requests.get? id = some old ∧
    m'.requests.get? id = some r ∧ DecidedBy m.base uid old r

theorem DecidedIn.concat {es : List AppStatement} {id : Uuid} {r : PurchaseRequest}
    (h : DecidedIn deps es id r) (stmt : AppStatement) : DecidedIn deps (es ++ [stmt]) id r := by
  obtain ⟨before, e, after, m, m', uid, old, hsplit, hrest⟩ := h
  refine ⟨before, e, after ++ [stmt], m, m', uid, old, ?_, hrest⟩
  rw [hsplit, List.append_assoc, List.cons_append]

/-- A request is undecided exactly while it is pending, and a decision has its statement. -/
theorem run_requests {es : List AppStatement} (hrun : runEvents (appStep deps) {} es = some db) :
    ∀ id r, db.requests.get? id = some r →
      (r.decidedBy = none ↔ r.status = .pending) ∧
        (r.status ≠ .pending → DecidedIn deps es id r) := by
  refine runEvents_invariant (I := fun es db => ∀ id r, db.requests.get? id = some r →
    (r.decidedBy = none ↔ r.status = .pending) ∧ (r.status ≠ .pending → DecidedIn deps es id r))
    (fun id r hr => ?_) (fun es m stmt m' hm ih hstep id r hr => ?_) es db hrun
  · cases hr
  · have hrow := appStep_row hstep id
    rw [hr] at hrow
    generalize hbefore : m.requests.get? id = row at hrow
    cases hrow with
    | kept =>
      obtain ⟨hnull, hdecided⟩ := ih id r hbefore
      exact ⟨hnull, fun hne => (hdecided hne).concat stmt⟩
    | submitted huser h =>
      exact ⟨iff_of_true h.undecided h.pending, fun hne => absurd h.pending hne⟩
    | decided huser h =>
      refine ⟨iff_of_false ?_ ?_, fun _ => ?_⟩
      · rw [h.decider]
        exact Option.some_ne_none _
      · obtain hs | hs := h.decided
        · rw [hs]
          exact Status.noConfusion
        · rw [hs]
          exact Status.noConfusion
      · exact ⟨es, stmt, [], m, m', _, _, rfl, hm, huser, hstep, hbefore, hr, h⟩

/-- A decided row stays as it is. -/
theorem appStep_decided {id : Uuid} {r : PurchaseRequest}
    (hr : db.requests.get? id = some r) (hdecided : r.status ≠ .pending)
    (hstep : appStep deps db stmt = some db') : db'.requests.get? id = some r := by
  have hrow := appStep_row hstep id
  rw [hr] at hrow
  generalize hafter : db'.requests.get? id = row at hrow
  cases hrow with
  | kept => rfl
  | decided huser h => exact absurd h.pending hdecided

/-- Every request is pending until a manager of its department, other than its
requester, decides it, and it stays as decided; and no user changes who may do what. -/
theorem request_lifecycle (deps : Departments) :
    (∀ es db, runEvents (appStep deps) {} es = some db →
      ∀ id r, db.requests.get? id = some r →
        (r.decidedBy = none ↔ r.status = .pending) ∧
          (r.status ≠ .pending → DecidedIn deps es id r)) ∧
    (∀ db stmt db', appStep deps db stmt = some db' →
      ∀ id r, db.requests.get? id = some r → ∃ r', db'.requests.get? id = some r' ∧
        (r' = r ∨ ∃ uid, stmt.user = some uid ∧ DecidedBy db.base uid r r')) ∧
    (∀ db es db', runEvents (appStep deps) db es = some db' →
      ∀ id r, db.requests.get? id = some r → r.status ≠ .pending →
        db'.requests.get? id = some r) ∧
    ∀ db stmt db' uid, stmt.user = some uid → appStep deps db stmt = some db' →
      ∀ id, db'.base.access id = db.base.access id := by
  refine ⟨fun es db hrun => run_requests hrun, fun db stmt db' hstep id r hr => ?_,
    fun db es db' hrun id r hr hdecided => ?_,
    fun db stmt db' uid huser hstep => appStep_access huser hstep⟩
  · have hrow := appStep_row hstep id
    rw [hr] at hrow
    generalize hafter : db'.requests.get? id = row at hrow
    cases hrow with
    | kept => exact ⟨r, rfl, .inl rfl⟩
    | decided huser h => exact ⟨_, rfl, .inr ⟨_, huser, h⟩⟩
  · exact runEvents_invariant (I := fun _ s => s.requests.get? id = some r) hr
      (fun _ m _ _ _ hm hstep => appStep_decided hm hdecided hstep) es db' hrun

end Runs

def bobId : Uuid := ⟨"33333333-3333-3333-3333-333333333333", by decide⟩

def laptopId : Uuid := ⟨"44444444-4444-4444-4444-444444444444", by decide⟩

/-- Alice asks for a laptop, and Bob, her manager, approves. -/
def laptopApproved : List AppStatement :=
  [.admin (.insertUsers [(aliceId, ⟨⟨some "Finance", none⟩, some "Alice"⟩),
      (bobId, ⟨⟨some "Finance", some "manager"⟩, some "Bob"⟩)]),
    .insertRequests aliceId 1 insertGrant
      [(laptopId, ⟨some "laptop", some "shop", some (.hundredths 99900), some "old one broke"⟩)] .fail,
    .decide bobId 2 laptopId (some "approved") none]

def laptop : PurchaseRequest where
  departmentId := financeId
  requesterId := aliceId
  item := "laptop"
  vendor := "shop"
  amount := .hundredths 99900
  justification := "old one broke"
  status := .approved
  decidedBy := some bobId
  decidedAt := some 2
  decisionNote := none
  createdAt := 1

theorem request_lifecycle_laptop : ∃ db,
    runEvents (appStep oneDepartment) {} laptopApproved = some db ∧
      db.requests.get? laptopId = some laptop ∧
      DecidedIn oneDepartment laptopApproved laptopId laptop ∧
      (∀ db', appStep oneDepartment db (.ungranted aliceId) = some db' →
        db'.requests.get? laptopId = some laptop ∧ db'.base.access bobId = db.base.access bobId) := by
  obtain ⟨hstates, -, hkept, haccess⟩ := request_lifecycle oneDepartment
  have hrun : (runEvents (appStep oneDepartment) {} laptopApproved).map
      (fun db => db.requests.get? laptopId) = some (some laptop) := by decide
  obtain ⟨db, hdb, hlaptop⟩ := Option.map_eq_some_iff.mp hrun
  refine ⟨db, hdb, hlaptop, (hstates _ _ hdb _ _ hlaptop).2 (by decide), fun db' hstep => ⟨?_, ?_⟩⟩
  · exact hkept db [.ungranted aliceId] db' (by rw [runEvents_cons, hstep]; rfl) _ _ hlaptop
      (by decide)
  · exact haccess db (.ungranted aliceId) db' aliceId rfl hstep bobId

end SupabaseLab.StarterKit
