/-
  Catalogue/Schema.lean --- the record catalogue: tables, policies, statements.

  Source: supabase/migrations/20261012000001_catalogue.sql (schema `app`).

      tenants ── memberships
         └────── records ── assets ── asset_chunks

  A statement is what one request to the Data API runs: an INSERT, with or without
  ON CONFLICT, an UPDATE or a DELETE on one table, as the user whose id the token
  carries.  Columns that no policy, trigger or constraint reads are left out, and so is
  `access_log`, which nothing reads back; `object_key` is unique because the row's id is
  part of it.
-/
import SupabaseLab.Library.Table
import SupabaseLab.Library.Uuid

set_option autoImplicit false

namespace SupabaseLab.Catalogue

open Library

/-! ## Tables -/

inductive MemberRole where
  | owner
  | editor
  | viewer
  deriving DecidableEq, Repr

structure Tenant where
  id : Uuid
  name : String
  homeRegion : String
  deriving DecidableEq, Repr

structure Membership where
  tenantId : Uuid
  userId : Uuid
  role : MemberRole
  deriving DecidableEq, Repr

def Membership.key (m : Membership) : Uuid × Uuid := (m.tenantId, m.userId)

structure Record where
  id : Uuid
  tenantId : Uuid
  title : String
  createdBy : Option Uuid
  status : String
  deriving DecidableEq, Repr

/-- One encrypted binary.  `tenantId` is denormalised from the record; a trigger
is to keep it honest. -/
structure Asset where
  id : Uuid
  recordId : Uuid
  tenantId : Uuid
  objectKey : String
  plaintextSize : Int
  chunkSize : Int
  chunkCount : Int
  ciphertextSize : Int
  cipher : String
  uploadState : String
  uploadMethod : Option String
  deriving DecidableEq, Repr

structure AssetChunk where
  assetId : Uuid
  idx : Int
  ciphertextSha256 : String
  deriving DecidableEq, Repr

def AssetChunk.key (c : AssetChunk) : Uuid × Int := (c.assetId, c.idx)

/-- The catalogue, with the users the memberships refer to. -/
structure Db where
  users : List Uuid
  tenants : List Tenant
  memberships : List Membership
  records : List Record
  assets : List Asset
  assetChunks : List AssetChunk
  deriving DecidableEq, Repr

def Db.empty : Db := ⟨[], [], [], [], [], []⟩

/-- How a statement fails; nothing of it remains then. -/
inductive Refusal where
  | rowSecurity (table : String)
  | unique (name : String)
  | foreignKey (name : String)
  | check (name : String)
  /-- `asset tenant % does not match its record`. -/
  | assetTenant (tenant : Uuid)
  deriving DecidableEq, Repr

/-! ## Role helpers -/

/-- `app.my_role`. -/
def myRole (db : Db) (uid : Uuid) (t : Uuid) : Option MemberRole :=
  (db.memberships.find? fun m => m.tenantId = t ∧ m.userId = uid).map (·.role)

/-- `app.asset_tenant`. -/
def assetTenant (db : Db) (a : Uuid) : Option Uuid :=
  (db.assets.find? (·.id = a)).map (·.tenantId)

def isMember (db : Db) (uid : Uuid) (t : Uuid) : Bool := (myRole db uid t).isSome

def isOwner (db : Db) (uid : Uuid) (t : Uuid) : Bool := myRole db uid t = some .owner

/-- `my_role(t) in ('owner', 'editor')`. -/
def mayEdit (db : Db) (uid : Uuid) (t : Uuid) : Bool :=
  myRole db uid t = some .owner || myRole db uid t = some .editor

/-- The `chunks_…` policies: `my_role(asset_tenant(asset_id)) in ('owner', 'editor')`. -/
def mayEditChunks (db : Db) (uid : Uuid) (a : Uuid) : Bool :=
  (assetTenant db a).any (mayEdit db uid)

/-! ## Row by row: triggers, policies and constraints of one row -/

/-- The trigger `assets_check`.  It runs as the caller, who sees a record only
as a member of its tenant. -/
def assetsCheck (db : Db) (uid : Uuid) (new : Asset) : Except Refusal Unit :=
  let seen := db.records.find? fun r => r.id = new.recordId ∧ isMember db uid r.tenantId
  refuseIf (seen.map (·.tenantId) ≠ some new.tenantId) (.assetTenant new.tenantId)

def objectKey (tenant asset : Uuid) : String := tenant.text ++ "/" ++ asset.text ++ "/data"

/-- The CHECK constraints of `assets`. -/
def assetChecks (a : Asset) : Except Refusal Unit := do
  refuseIf (a.plaintextSize < 0) (.check "assets_plaintext_size_check")
  refuseIf (a.chunkSize ≤ 0) (.check "assets_chunk_size_check")
  refuseIf (a.chunkCount < 0) (.check "assets_chunk_count_check")
  refuseIf (a.ciphertextSize < 0) (.check "assets_ciphertext_size_check")
  refuseIf (a.cipher ≠ "aes-256-gcm") (.check "assets_cipher_check")
  refuseIf (a.uploadState ∉ ["pending", "uploading", "complete", "failed"])
    (.check "assets_upload_state_check")
  refuseIf (∃ m ∈ a.uploadMethod, m ∉ ["s3-multipart", "tus"])
    (.check "assets_upload_method_check")
  refuseIf (a.objectKey ≠ objectKey a.tenantId a.id) (.check "assets_object_key_shape")

def admitMembership (db : Db) (uid : Uuid) (new : Membership) : Except Refusal Unit :=
  refuseIf (isOwner db uid new.tenantId = false) (.rowSecurity "memberships")

def admitRecord (db : Db) (uid : Uuid) (new : Record) : Except Refusal Unit := do
  refuseIf (mayEdit db uid new.tenantId = false) (.rowSecurity "records")
  refuseIf (new.status ∉ ["active", "archived"]) (.check "records_status_check")

/-- A BEFORE trigger comes first, then WITH CHECK, then the constraints; `fires`
is whether the trigger does. -/
def admitAsset (db : Db) (uid : Uuid) (fires : Bool) (new : Asset) : Except Refusal Unit := do
  if fires then assetsCheck db uid new else .ok ()
  refuseIf (mayEdit db uid new.tenantId = false) (.rowSecurity "assets")
  assetChecks new

def admitChunk (db : Db) (uid : Uuid) (new : AssetChunk) : Except Refusal Unit := do
  refuseIf (mayEditChunks db uid new.assetId = false) (.rowSecurity "asset_chunks")
  refuseIf (new.idx < 0) (.check "asset_chunks_idx_check")

/-! ## Deletes and their cascades -/

def Db.deleteAssets (db : Db) (gone : Asset → Bool) : Db :=
  let removed := (db.assets.filter gone).map (·.id)
  { db with
    assets := db.assets.filter fun a => !gone a
    assetChunks := db.assetChunks.filter fun c => c.assetId ∉ removed }

def Db.deleteRecords (db : Db) (gone : Record → Bool) : Db :=
  let removed := (db.records.filter gone).map (·.id)
  { db with records := db.records.filter fun r => !gone r }.deleteAssets
    fun a => a.recordId ∈ removed

/-! ## Statements -/

/-- An UPDATE of `assets`.  The trigger fires when the SET list names
`tenant_id` or `record_id`; where it does not, both stay. -/
structure AssetHits extends Hits Asset where
  setsTenantOrRecord : Bool
  stays : setsTenantOrRecord = false → ∀ p ∈ pairs,
    p.2.tenantId = p.1.tenantId ∧ p.2.recordId = p.1.recordId

/-- The rows of an upsert of `assets`, with what `AssetHits` says of its SET list. -/
structure AssetUpserts extends Upserts Asset.id where
  setsTenantOrRecord : Bool
  stays : setsTenantOrRecord = false → ∀ p ∈ proposals, ∀ old merged, p.2 old = some merged →
    merged.tenantId = old.tenantId ∧ merged.recordId = old.recordId

/-- A statement of a user; the argument of a DELETE is its WHERE clause.  An upsert is an
INSERT … ON CONFLICT; no policy lets a user insert a tenant. -/
inductive Statement where
  | insertTenants (new : List Tenant)
  | updateTenants (hits : Hits Tenant)
  | deleteTenants (which : Tenant → Bool)
  | insertMemberships (new : List Membership)
  | updateMemberships (hits : Hits Membership)
  | deleteMemberships (which : Membership → Bool)
  | upsertMemberships (new : Upserts Membership.key)
  | insertRecords (new : List Record)
  | updateRecords (hits : Hits Record)
  | deleteRecords (which : Record → Bool)
  | upsertRecords (new : Upserts Record.id)
  | insertAssets (new : List Asset)
  | updateAssets (hits : AssetHits)
  | deleteAssets (which : Asset → Bool)
  | upsertAssets (new : AssetUpserts)
  | insertChunks (new : List AssetChunk)
  | updateChunks (hits : Hits AssetChunk)
  | deleteChunks (which : AssetChunk → Bool)
  | upsertChunks (new : Upserts AssetChunk.key)

/-- `insert` on a table with no policy for it: no row passes. -/
def insertNone {ρ : Type} (db : Db) (table : String) (new : List ρ) : Except Refusal Db := do
  refuseIf (new ≠ []) (.rowSecurity table)
  return db

def membershipRefs (db : Db) (rows : List Membership) : Except Refusal Unit := do
  refuseIf (∃ m ∈ rows, m.tenantId ∉ db.tenants.map (·.id))
    (.foreignKey "memberships_tenant_id_fkey")
  refuseIf (∃ m ∈ rows, m.userId ∉ db.users) (.foreignKey "memberships_user_id_fkey")

def recordRefs (db : Db) (rows : List Record) : Except Refusal Unit :=
  refuseIf (∃ r ∈ rows, r.tenantId ∉ db.tenants.map (·.id)) (.foreignKey "records_tenant_id_fkey")

/-- No asset is left without its record. -/
def recordReferenced (db : Db) (rows : List Record) : Except Refusal Unit :=
  refuseIf (∃ a ∈ db.assets, a.recordId ∉ rows.map (·.id)) (.foreignKey "assets_record_id_fkey")

def assetRefs (db : Db) (rows : List Asset) : Except Refusal Unit := do
  refuseIf (∃ a ∈ rows, a.recordId ∉ db.records.map (·.id)) (.foreignKey "assets_record_id_fkey")
  refuseIf (∃ a ∈ rows, a.tenantId ∉ db.tenants.map (·.id)) (.foreignKey "assets_tenant_id_fkey")

/-- No chunk is left without its asset. -/
def assetReferenced (db : Db) (rows : List Asset) : Except Refusal Unit :=
  refuseIf (∃ c ∈ db.assetChunks, c.assetId ∉ rows.map (·.id))
    (.foreignKey "asset_chunks_asset_id_fkey")

def chunkRefs (db : Db) (rows : List AssetChunk) : Except Refusal Unit :=
  refuseIf (∃ c ∈ rows, c.assetId ∉ db.assets.map (·.id))
    (.foreignKey "asset_chunks_asset_id_fkey")

/-- A statement of the user `uid`.  Policies and triggers read the tables as the
statement found them; references are checked when all its rows are written.  A
row that USING hides is passed over. -/
def exec (db : Db) (uid : Uuid) : Statement → Except Refusal Db
  | .insertTenants new => insertNone db "tenants" new
  | .updateTenants _ => return db
  | .deleteTenants _ => return db
  | .insertMemberships new => do
      let rows ← insertRows Membership.key (admitMembership db uid) (.unique "memberships_pkey")
        db.memberships new
      membershipRefs db new
      return { db with memberships := rows }
  | .updateMemberships hits => do
      let pairs := hits.touching db.memberships fun m => isOwner db uid m.tenantId
      let rows ← updateRows Membership.key (fun _ new => admitMembership db uid new)
        (.unique "memberships_pkey") db.memberships pairs
      membershipRefs db (pairs.map (·.2))
      return { db with memberships := rows }
  | .deleteMemberships which =>
      return { db with memberships :=
        db.memberships.filter fun m => !(isOwner db uid m.tenantId && which m) }
  | .upsertMemberships new => do
      let rows ← upsertRows Membership.key (admitMembership db uid) (fun m => isOwner db uid m.tenantId)
        (fun _ m => admitMembership db uid m) (.rowSecurity "memberships") db.memberships new.proposals
      membershipRefs db (rows.filter (· ∉ db.memberships))
      return { db with memberships := rows }
  | .insertRecords new => do
      let rows ← insertRows Record.id (admitRecord db uid) (.unique "records_pkey") db.records new
      recordRefs db new
      return { db with records := rows }
  | .updateRecords hits => do
      let pairs := hits.touching db.records fun r => mayEdit db uid r.tenantId
      let rows ← updateRows Record.id (fun _ new => admitRecord db uid new)
        (.unique "records_pkey") db.records pairs
      recordRefs db (pairs.map (·.2))
      recordReferenced db rows
      return { db with records := rows }
  | .deleteRecords which =>
      return db.deleteRecords fun r => mayEdit db uid r.tenantId && which r
  | .upsertRecords new => do
      let rows ← upsertRows Record.id (admitRecord db uid) (fun r => mayEdit db uid r.tenantId)
        (fun _ r => admitRecord db uid r) (.rowSecurity "records") db.records new.proposals
      recordRefs db (rows.filter (· ∉ db.records))
      return { db with records := rows }
  | .insertAssets new => do
      let rows ← insertRows Asset.id (admitAsset db uid true) (.unique "assets_pkey") db.assets new
      assetRefs db new
      return { db with assets := rows }
  | .updateAssets hits => do
      let pairs := hits.touching db.assets fun a => mayEdit db uid a.tenantId
      let rows ← updateRows Asset.id (fun _ new => admitAsset db uid hits.setsTenantOrRecord new)
        (.unique "assets_pkey") db.assets pairs
      assetRefs db (pairs.map (·.2))
      assetReferenced db rows
      return { db with assets := rows }
  | .deleteAssets which =>
      return db.deleteAssets fun a => mayEdit db uid a.tenantId && which a
  | .upsertAssets new => do
      let rows ← upsertRows Asset.id (admitAsset db uid true) (fun a => mayEdit db uid a.tenantId)
        (fun _ a => admitAsset db uid new.setsTenantOrRecord a) (.rowSecurity "assets") db.assets
        new.proposals
      assetRefs db (rows.filter (· ∉ db.assets))
      return { db with assets := rows }
  | .insertChunks new => do
      let rows ← insertRows AssetChunk.key (admitChunk db uid) (.unique "asset_chunks_pkey")
        db.assetChunks new
      chunkRefs db new
      return { db with assetChunks := rows }
  | .updateChunks hits => do
      let pairs := hits.touching db.assetChunks fun c => mayEditChunks db uid c.assetId
      let rows ← updateRows AssetChunk.key (fun _ new => admitChunk db uid new)
        (.unique "asset_chunks_pkey") db.assetChunks pairs
      chunkRefs db (pairs.map (·.2))
      return { db with assetChunks := rows }
  | .deleteChunks _ => return db
  | .upsertChunks new => do
      let rows ← upsertRows AssetChunk.key (admitChunk db uid) (fun c => mayEditChunks db uid c.assetId)
        (fun _ c => admitChunk db uid c) (.rowSecurity "asset_chunks") db.assetChunks new.proposals
      chunkRefs db (rows.filter (· ∉ db.assetChunks))
      return { db with assetChunks := rows }

/-! ## Runs -/

/-- What happens to the catalogue: a user signs up, the operator sets a tenant
up with its members, or a user issues a statement. -/
inductive Event where
  | signUp (uid : Uuid)
  | createTenant (t : Tenant)
  | createMembership (m : Membership)
  | statement (uid : Uuid) (s : Statement)

def apply (db : Db) : Event → Except Refusal Db
  | .signUp uid => do
      refuseIf (uid ∈ db.users) (.unique "users_pkey")
      return { db with users := db.users ++ [uid] }
  | .createTenant t => do
      refuseIf (t.id ∈ db.tenants.map (·.id)) (.unique "tenants_pkey")
      return { db with tenants := db.tenants ++ [t] }
  | .createMembership m => do
      refuseIf (m.key ∈ db.memberships.map (·.key)) (.unique "memberships_pkey")
      membershipRefs db [m]
      return { db with memberships := db.memberships ++ [m] }
  | .statement uid s => exec db uid s

/-- A statement that fails is rolled back. -/
def step (db : Db) (e : Event) : Db :=
  match apply db e with
  | .ok db' => db'
  | .error _ => db

/-- Every state a run goes through, the first included. -/
def states (db : Db) : List Event → List Db
  | [] => [db]
  | e :: rest => db :: states (step db e) rest

end SupabaseLab.Catalogue
