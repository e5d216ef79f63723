/-
  StarterKit/Baseline.lean --- departments, profiles, and the trigger that syncs them.

  Source: experiments/governed-starter-kit/sql/00-baseline.sql.

  A statement of the administrator on auth.users fires `private.sync_profile` once
  for each row, after the rows are written; when one of the calls raises, the
  statement is undone as a whole.  `raw_app_meta_data` is kept as the two texts
  that `->>` takes from it.
-/
import SupabaseLab.Library.Machine
import SupabaseLab.Library.KeyMap
import SupabaseLab.Library.Except
import SupabaseLab.Library.Uuid

set_option autoImplicit false

namespace SupabaseLab.StarterKit

open Library

/-! ## Tables -/

structure Department where
  id : Uuid
  name : String
  deriving DecidableEq

/-- `public.departments`; a name is there once. -/
structure Departments where
  rows : List Department
  names : (rows.map Department.name).Nodup

inductive Role where
  | employee
  | manager
  deriving DecidableEq, Repr

def Role.text : Role → String
  | .employee => "employee"
  | .manager => "manager"

/-- `check (role in ('employee', 'manager'))`. -/
def Role.ofText? (text : String) : Option Role :=
  if text = "employee" then some .employee
  else if text = "manager" then some .manager
  else none

/-- A row of `public.profiles`, without its key. -/
structure Profile where
  departmentId : Uuid
  role : Role
  displayName : String
  deriving DecidableEq

/-- `raw_app_meta_data ->> 'department'` and `->> 'role'`. -/
structure AppMetadata where
  department : Option String := none
  role : Option String := none
  deriving DecidableEq

/-- A row of `auth.users`, without its key; of `raw_user_meta_data`, the display name. -/
structure User where
  rawAppMetaData : AppMetadata := {}
  displayName : Option String := none
  deriving DecidableEq

structure Db where
  users : KeyMap Uuid User := .empty
  profiles : KeyMap Uuid Profile := .empty

inductive SqlError where
  | uniqueViolation
  | checkViolation
  | notNullViolation
  | foreignKeyViolation
  | numericOverflow
  | permissionDenied
  | rowSecurity
  | raised (message : String)
  deriving DecidableEq, Repr

/-! ## The trigger -/

/-- `select d.id from departments d where d.name = …`; NULL is the name of none. -/
def Departments.idOf (deps : Departments) (name : Option String) : Option Uuid :=
  name.bind fun name => (deps.rows.find? fun d => d.name = name).map Department.id

/-- `private.sync_profile()` on one row. -/
def syncProfile (deps : Departments) (id : Uuid) (new : User) (profiles : KeyMap Uuid Profile) :
    Except SqlError (KeyMap Uuid Profile) :=
  match deps.idOf new.rawAppMetaData.department with
  | none => .ok profiles
  | some dept => do
      let role ← orThrow (Role.ofText? (new.rawAppMetaData.role.getD "employee")) .checkViolation
      match profiles.get? id with
      | none => .ok (profiles.set id ⟨dept, role, new.displayName.getD ""⟩)
      | some p => .ok (profiles.set id { p with departmentId := dept, role := role })

/-- The trigger, for each row. -/
def syncProfiles (deps : Departments) :
    List (Uuid × User) → KeyMap Uuid Profile → Except SqlError (KeyMap Uuid Profile)
  | [], profiles => .ok profiles
  | (id, new) :: rest, profiles => do
      let profiles ← syncProfile deps id new profiles
      syncProfiles deps rest profiles

/-! ## Statements of the administrator -/

inductive AdminStatement where
  /-- INSERT INTO auth.users. -/
  | insertUsers (rows : List (Uuid × User))
  /-- UPDATE auth.users SET raw_app_meta_data: what each row it hits gets. -/
  | updateAppMetadata (assign : Uuid → User → Option AppMetadata)

/-- The rows go in one by one; a key that is there is refused. -/
def putUsers : List (Uuid × User) → KeyMap Uuid User → Except SqlError (KeyMap Uuid User)
  | [], users => .ok users
  | (id, new) :: rest, users => do
      refuseIf (users.has id = true) .uniqueViolation
      putUsers rest (users.set id new)

/-- The rows an UPDATE hits, in their new version. -/
def hitUsers (assign : Uuid → User → Option AppMetadata) (users : KeyMap Uuid User) :
    List (Uuid × User) :=
  users.entries.filterMap fun (id, u) =>
    (assign id u).map fun appMeta => (id, { u with rawAppMetaData := appMeta })

def AdminStatement.run (deps : Departments) (db : Db) : AdminStatement → Except SqlError Db
  | .insertUsers rows => do
      let users ← putUsers rows db.users
      let profiles ← syncProfiles deps rows db.profiles
      return { users, profiles }
  | .updateAppMetadata assign => do
      let hits := hitUsers assign db.users
      let profiles ← syncProfiles deps hits db.profiles
      return { users := hits.foldl (fun users e => users.set e.1 e.2) db.users, profiles }

/-- A statement that fails leaves the database as it was. -/
def adminStep (deps : Departments) (db : Db) (stmt : AdminStatement) : Option Db :=
  match stmt.run deps db with
  | .ok db' => some db'
  | .error _ => some db

/-! ## What a statement does to one user -/

section Sync

variable {deps : Departments} {id : Uuid} {new : User} {profiles profiles' : KeyMap Uuid Profile}

theorem Role.text_of_ofText? {text : String} {role : Role} (h : Role.ofText? text = some role) :
    role.text = text := by
  unfold Role.ofText? at h
  split at h
  · rename_i htext
    cases h
    exact htext.symm
  · split at h
    · rename_i htext
      cases h
      exact htext.symm
    · cases h

/-- The row passes the check on roles, or names no department. -/
def Admissible (deps : Departments) (new : User) : Prop :=
  deps.idOf new.rawAppMetaData.department = none ∨
    (Role.ofText? (new.rawAppMetaData.role.getD "employee")).isSome

/-- What the trigger makes of the profile of one user. -/
def Follows (deps : Departments) (new : User) (before after : Option Profile) : Prop :=
  match deps.idOf new.rawAppMetaData.department with
  | none => after = before
  | some dept => ∃ p, after = some p ∧ p.departmentId = dept ∧
      p.role.text = new.rawAppMetaData.role.getD "employee"

theorem syncProfile_ok (h : syncProfile deps id new profiles = .ok profiles') :
    Follows deps new (profiles.get? id) (profiles'.get? id) ∧
      ∀ k, k ≠ id → profiles'.get? k = profiles.get? k := by
  unfold syncProfile at h
  unfold Follows
  split at h
  · cases h
    exact ⟨rfl, fun k _ => rfl⟩
  · obtain ⟨role, hrole, h⟩ := bind_eq_ok.mp h
    have htext := Role.text_of_ofText? (orThrow_eq_ok.mp hrole)
    split at h
    · cases h
      exact ⟨⟨_, KeyMap.get?_set_self .., rfl, htext⟩, fun k hk => KeyMap.get?_set_of_ne _ _ hk⟩
    · cases h
      exact ⟨⟨_, KeyMap.get?_set_self .., rfl, htext⟩, fun k hk => KeyMap.get?_set_of_ne _ _ hk⟩

theorem syncProfile_of_admissible (h : Admissible deps new) :
    ∃ profiles', syncProfile deps id new profiles = .ok profiles' := by
  unfold syncProfile
  split
  · exact ⟨_, rfl⟩
  · rename_i dept hdept
    obtain hnone | hsome := h
    · rw [hdept] at hnone
      cases hnone
    · obtain ⟨role, hrole⟩ := Option.isSome_iff_exists.mp hsome
      rw [hrole]
      cases profiles.get? id with
      | none => exact ⟨_, rfl⟩
      | some p => exact ⟨_, rfl⟩

/-- Each row of a statement has its own user, so its call is the only one that
touches that profile. -/
theorem syncProfiles_ok {rows : List (Uuid × User)} (honce : (rows.map Prod.fst).Nodup)
    (h : syncProfiles deps rows profiles = .ok profiles') :
    (∀ e ∈ rows, Follows deps e.2 (profiles.get? e.1) (profiles'.get? e.1)) ∧
      ∀ k, k ∉ rows.map Prod.fst → profiles'.get? k = profiles.get? k := by
  induction rows generalizing profiles with
  | nil =>
    cases h
    exact ⟨fun e he => absurd he List.not_mem_nil, fun k _ => rfl⟩
  | cons e rest ih =>
    obtain ⟨id, new⟩ := e
    obtain ⟨hfresh, honce⟩ := List.nodup_cons.mp honce
    obtain ⟨mid, hmid, h⟩ := bind_eq_ok.mp h
    obtain ⟨hfollows, hframe⟩ := syncProfile_ok hmid
    obtain ⟨hrest, hout⟩ := ih honce h
    refine ⟨fun x hx => ?_, fun k hk => ?_⟩
    · obtain rfl | hx' := List.mem_cons.mp hx
      · rw [hout id hfresh]
        exact hfollows
      · have hne : x.1 ≠ id := by
          rintro rfl
          exact hfresh (List.mem_map.mpr ⟨x, hx', rfl⟩)
        rw [← hframe x.1 hne]
        exact hrest x hx'
    · obtain ⟨hne, hk⟩ := not_or.mp (mt List.mem_cons.mpr hk)
      rw [hout k hk, hframe k hne]

theorem syncProfiles_of_admissible {rows : List (Uuid × User)}
    (h : ∀ e ∈ rows, Admissible deps e.2) :
    ∃ profiles', syncProfiles deps rows profiles = .ok profiles' := by
  induction rows generalizing profiles with
  | nil => exact ⟨profiles, rfl⟩
  | cons e rest ih =>
    obtain ⟨mid, hmid⟩ := @syncProfile_of_admissible deps e.1 e.2 profiles (h e List.mem_cons_self)
    obtain ⟨profiles', hrest⟩ := @ih mid fun x hx => h x (List.mem_cons_of_mem _ hx)
    exact ⟨profiles', bind_eq_ok.mpr ⟨mid, hmid, hrest⟩⟩

end Sync

section Users

variable {rows : List (Uuid × User)} {users users' : KeyMap Uuid User} {id : Uuid} {u : User}
  {assign : Uuid → User → Option AppMetadata}

/-- An INSERT that goes through is of users that were not there. -/
theorem putUsers_ok (h : putUsers rows users = .ok users') :
    (rows.map Prod.fst).Nodup ∧ (∀ e ∈ rows, users.get? e.1 = none ∧ users'.get? e.1 = some e.2) ∧
      ∀ k, k ∉ rows.map Prod.fst → users'.get? k = users.get? k := by
  induction rows generalizing users with
  | nil =>
    cases h
    exact ⟨List.nodup_nil, fun e he => absurd he List.not_mem_nil, fun k _ => rfl⟩
  | cons e rest ih =>
    obtain ⟨id, new⟩ := e
    obtain ⟨_, hfresh, h⟩ := bind_eq_ok.mp h
    have hfresh := refuseIf_eq_ok.mp hfresh
    rw [KeyMap.has_eq, Option.isSome_iff_ne_none, not_not] at hfresh
    obtain ⟨honce, hin, hout⟩ := ih h
    have hid : id ∉ rest.map Prod.fst := by
      intro hmem
      obtain ⟨x, hx, rfl⟩ := List.mem_map.mp hmem
      have hnone := (hin x hx).1
      rw [KeyMap.get?_set_self] at hnone
      cases hnone
    refine ⟨List.nodup_cons.mpr ⟨hid, honce⟩, fun x hx => ?_, fun k hk => ?_⟩
    · obtain rfl | hx' := List.mem_cons.mp hx
      · refine ⟨hfresh, ?_⟩
        rw [hout id hid, KeyMap.get?_set_self]
      · have hne : x.1 ≠ id := by
          rintro rfl
          exact hid (List.mem_map_of_mem hx')
        obtain ⟨hnone, hsome⟩ := hin x hx'
        rw [KeyMap.get?_set_of_ne _ _ hne] at hnone
        exact ⟨hnone, hsome⟩
    · obtain ⟨hne, hk⟩ := not_or.mp (mt List.mem_cons.mpr hk)
      rw [hout k hk, KeyMap.get?_set_of_ne _ _ hne]

theorem mem_hitUsers {e : Uuid × User} : e ∈ hitUsers assign users ↔
    ∃ u appMeta, users.get? e.1 = some u ∧ assign e.1 u = some appMeta ∧
      e.2 = { u with rawAppMetaData := appMeta } := by
  obtain ⟨id, new⟩ := e
  unfold hitUsers
  rw [List.mem_filterMap]
  refine ⟨fun ⟨x, hx, heq⟩ => ?_, fun ⟨u, appMeta, hu, hassign, hnew⟩ => ?_⟩
  · obtain ⟨appMeta, hassign, heq⟩ := Option.map_eq_some_iff.mp heq
    obtain ⟨rfl, rfl⟩ := Prod.mk.inj heq
    exact ⟨x.2, appMeta, KeyMap.mem_entries.mp hx, hassign, rfl⟩
  · refine ⟨(id, u), KeyMap.mem_entries.mpr hu, Option.map_eq_some_iff.mpr ⟨appMeta, hassign, ?_⟩⟩
    exact Prod.ext rfl hnew.symm

theorem hitUsers_once : ((hitUsers assign users).map Prod.fst).Nodup := by
  have hsub : ((hitUsers assign users).map Prod.fst).Sublist (users.entries.map Prod.fst) := by
    unfold hitUsers
    induction users.entries with
    | nil => exact List.Sublist.refl _
    | cons e rest ih =>
      obtain ⟨id, u⟩ := e
      rw [List.filterMap_cons]
      dsimp only
      cases assign id u with
      | none => exact ih.cons _
      | some appMeta => exact ih.cons_cons _
  exact users.nodup.sublist hsub

end Users

/-! ## Profiles mirror app_metadata -/

/-- The profile of a user, when all is in step: there is one exactly when the
metadata names a known department, and then with that department and that role. -/
def RowMirrors (deps : Departments) : Option User → Option Profile → Prop
  | some u, some p =>
      deps.idOf u.rawAppMetaData.department = some p.departmentId ∧
        p.role.text = u.rawAppMetaData.role.getD "employee"
  | some u, none => deps.idOf u.rawAppMetaData.department = none
  | none, p => p = none

def Mirrors (deps : Departments) (db : Db) : Prop :=
  ∀ id, RowMirrors deps (db.users.get? id) (db.profiles.get? id)

/-- An UPDATE that goes through and leaves a user of a known department with
metadata that names none. -/
def Withdraws (deps : Departments) (db : Db) : AdminStatement → Prop
  | .insertUsers _ => False
  | .updateAppMetadata assign =>
      (∀ e ∈ hitUsers assign db.users, Admissible deps e.2) ∧
        ∃ id u appMeta, db.users.get? id = some u ∧ assign id u = some appMeta ∧
          (deps.idOf u.rawAppMetaData.department).isSome ∧ deps.idOf appMeta.department = none

section Mirror

variable {deps : Departments} {db db' : Db} {stmt : AdminStatement}

theorem RowMirrors.follows {u : Option User} {p p' : Option Profile} {new : User}
    (h : RowMirrors deps u p) (hfollows : Follows deps new p p')
    (hkept : ∀ old, u = some old → deps.idOf new.rawAppMetaData.department = none →
      deps.idOf old.rawAppMetaData.department = none) :
    RowMirrors deps (some new) p' := by
  unfold Follows at hfollows
  split at hfollows
  · rename_i hnone
    have hp : p = none := by
      cases u with
      | none => exact h
      | some old =>
        cases p with
        | none => rfl
        | some p =>
          have hold := hkept old rfl hnone
          rw [h.1] at hold
          cases hold
    rw [hfollows, hp]
    exact hnone
  · rename_i dept hdept
    obtain ⟨q, rfl, rfl, hrole⟩ := hfollows
    exact ⟨hdept, hrole⟩

/-- What an UPDATE that goes through leaves of a user it hits, and of the others. -/
theorem update_ok {assign : Uuid → User → Option AppMetadata}
    (h : (AdminStatement.updateAppMetadata assign).run deps db = .ok db') :
    (∀ e ∈ hitUsers assign db.users, db'.users.get? e.1 = some e.2 ∧
      Follows deps e.2 (db.profiles.get? e.1) (db'.profiles.get? e.1)) ∧
    ∀ k, k ∉ (hitUsers assign db.users).map Prod.fst →
      db'.users.get? k = db.users.get? k ∧ db'.profiles.get? k = db.profiles.get? k := by
  obtain ⟨profiles, hsync, h⟩ := bind_eq_ok.mp h
  cases h
  obtain ⟨hfollows, hframe⟩ := syncProfiles_ok hitUsers_once hsync
  refine ⟨fun e he => ⟨KeyMap.get?_foldl_set_of_mem hitUsers_once he, hfollows e he⟩,
    fun k hk => ⟨KeyMap.get?_foldl_set_of_not_mem hk, hframe k hk⟩⟩

theorem update_of_admissible {assign : Uuid → User → Option AppMetadata}
    (h : ∀ e ∈ hitUsers assign db.users, Admissible deps e.2) :
    ∃ db', (AdminStatement.updateAppMetadata assign).run deps db = .ok db' := by
  obtain ⟨profiles, hsync⟩ := @syncProfiles_of_admissible deps db.profiles _ h
  exact ⟨_, bind_eq_ok.mpr ⟨profiles, hsync, rfl⟩⟩

/-- A call that went through was on a row that may be stored. -/
theorem admissible_of_syncProfile {id : Uuid} {new : User} {profiles profiles' : KeyMap Uuid Profile}
    (h : syncProfile deps id new profiles = .ok profiles') : Admissible deps new := by
  unfold syncProfile at h
  split at h
  · rename_i hnone
    exact .inl hnone
  · obtain ⟨role, hrole, -⟩ := bind_eq_ok.mp h
    exact .inr (Option.isSome_iff_exists.mpr ⟨role, orThrow_eq_ok.mp hrole⟩)

theorem admissible_of_syncProfiles {rows : List (Uuid × User)}
    {profiles profiles' : KeyMap Uuid Profile}
    (h : syncProfiles deps rows profiles = .ok profiles') : ∀ e ∈ rows, Admissible deps e.2 := by
  induction rows generalizing profiles with
  | nil => exact fun e he => absurd he List.not_mem_nil
  | cons e rest ih =>
    obtain ⟨mid, hmid, h⟩ := bind_eq_ok.mp h
    intro x hx
    obtain rfl | hx := List.mem_cons.mp hx
    · exact admissible_of_syncProfile hmid
    · exact ih h x hx

theorem run_mirrors (hdb : Mirrors deps db) (hkept : ¬ Withdraws deps db stmt)
    (h : stmt.run deps db = .ok db') : Mirrors deps db' := by
  intro id
  cases stmt with
  | insertUsers rows =>
    obtain ⟨users, hput, h⟩ := bind_eq_ok.mp h
    obtain ⟨profiles, hsync, h⟩ := bind_eq_ok.mp h
    cases h
    obtain ⟨honce, hin, hout⟩ := putUsers_ok hput
    obtain ⟨hfollows, hframe⟩ := syncProfiles_ok honce hsync
    by_cases hid : id ∈ rows.map Prod.fst
    · obtain ⟨e, he, rfl⟩ := List.mem_map.mp hid
      obtain ⟨hnone, hsome⟩ := hin e he
      have hrow := hdb e.1
      rw [hnone] at hrow
      show RowMirrors deps (users.get? e.1) (profiles.get? e.1)
      rw [hsome]
      refine RowMirrors.follows (u := none) hrow (hfollows e he) fun old hold => ?_
      cases hold
    · show RowMirrors deps (users.get? id) (profiles.get? id)
      rw [hout id hid, hframe id hid]
      exact hdb id
  | updateAppMetadata assign =>
    obtain ⟨hin, hout⟩ := update_ok h
    by_cases hid : id ∈ (hitUsers assign db.users).map Prod.fst
    · obtain ⟨e, he, rfl⟩ := List.mem_map.mp hid
      obtain ⟨hsome, hfollows⟩ := hin e he
      obtain ⟨u, appMeta, hu, hassign, hnew⟩ := mem_hitUsers.mp he
      rw [hsome]
      refine (hdb e.1).follows hfollows fun old hold hnone => ?_
      rw [hu] at hold
      cases hold
      -- were the old department known, the statement would withdraw it
      by_contra hknown
      obtain ⟨profiles, hsync, -⟩ := bind_eq_ok.mp h
      refine hkept ⟨admissible_of_syncProfiles hsync, e.1, u, appMeta, hu, hassign, ?_, ?_⟩
      · exact Option.isSome_iff_ne_none.mpr hknown
      · rw [hnew] at hnone
        exact hnone
    · obtain ⟨husers, hprofiles⟩ := hout id hid
      rw [husers, hprofiles]
      exact hdb id

theorem adminStep_mirrors (hkept : ¬ Withdraws deps db stmt) (hdb : Mirrors deps db)
    (h : adminStep deps db stmt = some db') : Mirrors deps db' := by
  unfold adminStep at h
  split at h
  · rename_i hrun
    cases h
    exact run_mirrors hdb hkept hrun
  · cases h
    exact hdb

/-- A withdrawal leaves the profile behind. -/
theorem Withdraws.not_mirrors (h : Withdraws deps db stmt) (hdb : Mirrors deps db)
    (hstep : adminStep deps db stmt = some db') : ¬ Mirrors deps db' := by
  cases stmt with
  | insertUsers rows => exact h.elim
  | updateAppMetadata assign =>
    obtain ⟨hadmissible, id, u, appMeta, hu, hassign, hknown, hnone⟩ := h
    obtain ⟨db'', hrun⟩ := update_of_admissible hadmissible
    unfold adminStep at hstep
    rw [hrun] at hstep
    cases hstep
    have he : (id, { u with rawAppMetaData := appMeta }) ∈ hitUsers assign db.users :=
      mem_hitUsers.mpr ⟨u, appMeta, hu, hassign, rfl⟩
    obtain ⟨hsome, hfollows⟩ := (update_ok hrun).1 _ he
    unfold Follows at hfollows
    rw [show deps.idOf (User.rawAppMetaData { u with rawAppMetaData := appMeta }).department = none
      from hnone] at hfollows
    intro hmirrors
    have hbefore := hdb id
    have hafter := hmirrors id
    dsimp only at hsome hfollows
    rw [hu] at hbefore
    rw [hsome, hfollows] at hafter
    cases hp : db.profiles.get? id with
    | none =>
      rw [hp] at hbefore
      rw [show deps.idOf u.rawAppMetaData.department = none from hbefore] at hknown
      cases hknown
    | some p =>
      rw [hp] at hafter
      rw [hafter.1] at hnone
      cases hnone

theorem mirrors_empty (deps : Departments) : Mirrors deps {} := fun _ => rfl

/-- Every state of a run mirrors the metadata exactly when no statement of the run
takes a user from a known department to none. -/
theorem profiles_mirror_iff (deps : Departments) (stmts : List AdminStatement) :
    (∀ before after db, stmts = before ++ after →
      runEvents (adminStep deps) {} before = some db → Mirrors deps db) ↔
    AlongRun (adminStep deps) (fun db stmt => ¬ Withdraws deps db stmt) {} stmts := by
  refine ⟨fun h before stmt after db hsplit hrun hwithdraws => ?_,
    fun h before after db hsplit hrun => ?_⟩
  · have hdb := h before (stmt :: after) db hsplit hrun
    have htotal : ∃ db', adminStep deps db stmt = some db' := by
      unfold adminStep
      cases stmt.run deps db with
      | ok db' => exact ⟨db', rfl⟩
      | error e => exact ⟨db, rfl⟩
    obtain ⟨db', hstep⟩ := htotal
    refine hwithdraws.not_mirrors hdb hstep (h (before ++ [stmt]) after db' ?_ ?_)
    · rw [hsplit, List.append_assoc, List.singleton_append]
    · exact runEvents_concat.mpr ⟨db, hrun, hstep⟩
  · refine AlongRun.invariant (mirrors_empty deps)
      (fun m stmt m' hkept hm hstep => adminStep_mirrors hkept hm hstep) before db ?_ hrun
    intro early stmt late m hcut hearly
    exact h early stmt (late ++ after) m (by rw [hsplit, hcut, List.append_assoc]; rfl) hearly

end Mirror

/-! ### Access that was withdrawn -/

def financeId : Uuid := ⟨"11111111-1111-1111-1111-111111111111", by decide⟩

def aliceId : Uuid := ⟨"22222222-2222-2222-2222-222222222222", by decide⟩

def oneDepartment : Departments := ⟨[⟨financeId, "Finance"⟩], List.nodup_singleton _⟩

/-- Alice is created in Finance, and her metadata is emptied. -/
def withdrawn : List AdminStatement :=
  [.insertUsers [(aliceId, ⟨⟨some "Finance", some "manager"⟩, some "Alice"⟩)],
    .updateAppMetadata fun _ _ => some {}]

/-- She is a manager of Finance still. -/
theorem profile_left_behind : ∃ db,
    runEvents (adminStep oneDepartment) {} withdrawn = some db ∧
      db.users.get? aliceId = some ⟨{}, some "Alice"⟩ ∧
      db.profiles.get? aliceId = some ⟨financeId, .manager, "Alice"⟩ ∧
      ¬ Mirrors oneDepartment db := by
  have hrun : ∃ db, runEvents (adminStep oneDepartment) {} withdrawn = some db :=
    ⟨_, rfl⟩
  obtain ⟨db, hdb⟩ := hrun
  have huser : (runEvents (adminStep oneDepartment) {} withdrawn).map
      (fun db => db.users.get? aliceId) = some (some ⟨{}, some "Alice"⟩) := by decide
  have hprofile : (runEvents (adminStep oneDepartment) {} withdrawn).map
      (fun db => db.profiles.get? aliceId) = some (some ⟨financeId, .manager, "Alice"⟩) := by decide
  rw [hdb] at huser hprofile
  have huser : db.users.get? aliceId = some ⟨{}, some "Alice"⟩ := Option.some.inj huser
  have hprofile : db.profiles.get? aliceId = some ⟨financeId, .manager, "Alice"⟩ :=
    Option.some.inj hprofile
  refine ⟨db, hdb, huser, hprofile, fun hmirrors => ?_⟩
  have hrow := hmirrors aliceId
  rw [huser, hprofile] at hrow
  cases hrow.1

end SupabaseLab.StarterKit
