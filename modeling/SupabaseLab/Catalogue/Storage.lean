/-
  Catalogue/Storage.lean --- storage policies, and what a user can read.

  Source: supabase/migrations/20261012000003_storage.sql, and the SELECT policies
  and grants of 20261012000001_catalogue.sql.

  `storage.objects` is the platform's table; of its columns the policies read the
  bucket and the name.  A user reads through the SELECT policies, whatever the
  shape of the query, and through the helpers the user may execute.
-/
import SupabaseLab.Catalogue.Schema

set_option autoImplicit false

namespace SupabaseLab.Catalogue

open Library

/-! ## Objects and their policies -/

/-- `split_part(name, '/', 1)`. -/
def firstSegment (name : String) : String := String.ofList (name.toList.takeWhile fun c => c ≠ '/')

/-- `app.key_tenant`. -/
def keyTenant (name : String) : Option Uuid :=
  if h : isUuid (firstSegment name) then some ⟨firstSegment name, h⟩ else none

/-- A row of `storage.objects`. -/
structure StorageObject where
  bucketId : String
  name : String
  metadata : String
  deriving DecidableEq, Repr

def StorageObject.key (o : StorageObject) : String × String := (o.bucketId, o.name)

/-- `ck_objects_read`. -/
def mayReadObject (db : Db) (uid : Uuid) (o : StorageObject) : Bool :=
  o.bucketId = "assets" && (keyTenant o.name).any (isMember db uid)

/-- `ck_objects_insert`, `ck_objects_update`, `ck_objects_delete`. -/
def mayEditObject (db : Db) (uid : Uuid) (o : StorageObject) : Bool :=
  o.bucketId = "assets" && (keyTenant o.name).any (mayEdit db uid)

def admitObject (db : Db) (uid : Uuid) (new : StorageObject) : Except Refusal Unit :=
  refuseIf (mayEditObject db uid new = false) (.rowSecurity "objects")

inductive ObjectStatement where
  | insert (new : List StorageObject)
  | update (hits : Hits StorageObject)
  | delete (which : StorageObject → Bool)
  | upsert (rows : Upserts StorageObject.key)

def execObject (db : Db) (objects : List StorageObject) (uid : Uuid) :
    ObjectStatement → Except Refusal (List StorageObject)
  | .insert new =>
      insertRows StorageObject.key (admitObject db uid) (.unique "bucketid_objname") objects new
  | .update hits =>
      updateRows StorageObject.key (fun _ new => admitObject db uid new)
        (.unique "bucketid_objname") objects (hits.touching objects (mayEditObject db uid))
  | .delete which => return objects.filter fun o => !(mayEditObject db uid o && which o)
  | .upsert rows =>
      upsertRows StorageObject.key (admitObject db uid) (mayEditObject db uid)
        (fun _ new => admitObject db uid new) (.rowSecurity "objects") objects rows.proposals

/-! ## A deployment -/

structure Deployment where
  db : Db
  objects : List StorageObject
  deriving DecidableEq, Repr

namespace Deployment

def empty : Deployment := ⟨Db.empty, []⟩

/-- What the user sees of every table: the rows its SELECT policies let through. -/
def view (s : Deployment) (uid : Uuid) : Deployment where
  db :=
    { users := []
      tenants := s.db.tenants.filter fun t => isMember s.db uid t.id
      memberships := s.db.memberships.filter fun m => m.userId = uid || isMember s.db uid m.tenantId
      records := s.db.records.filter fun r => isMember s.db uid r.tenantId
      assets := s.db.assets.filter fun a => isMember s.db uid a.tenantId
      assetChunks := s.db.assetChunks.filter fun c =>
        (assetTenant s.db c.assetId).any (isMember s.db uid) }
  objects := s.objects.filter (mayReadObject s.db uid)

/-- A query over the tables, or a call of a helper that `authenticated` may execute. -/
inductive Read where
  | select
  | myRole (t : Uuid)
  | keyTenant (name : String)
  | assetTenant (a : Uuid)
  deriving DecidableEq, Repr

inductive Answer where
  /-- A query computes its result from these rows. -/
  | rows (visible : Deployment)
  | role (r : Option MemberRole)
  | tenant (t : Option Uuid)
  deriving DecidableEq, Repr

def answer (s : Deployment) (uid : Uuid) : Read → Answer
  | .select => .rows (s.view uid)
  | .myRole t => .role (Catalogue.myRole s.db uid t)
  | .keyTenant name => .tenant (Catalogue.keyTenant name)
  | .assetTenant a => .tenant (Catalogue.assetTenant s.db a)

/-- What happens to a deployment.  Only the events of `catalogue` that are no
statements are the operator's. -/
inductive Event where
  | catalogue (e : Catalogue.Event)
  | storage (uid : Uuid) (s : ObjectStatement)
  | read (uid : Uuid) (r : Read)

/-- The user whose statement it is. -/
def Event.who : Event → Option Uuid
  | .catalogue (.statement uid _) => some uid
  | .catalogue _ => none
  | .storage uid _ => some uid
  | .read uid _ => some uid

/-- A statement that fails is rolled back. -/
def step (s : Deployment) : Event → Deployment
  | .catalogue e => { s with db := Catalogue.step s.db e }
  | .storage uid u =>
      match execObject s.db s.objects uid u with
      | .ok objects => { s with objects := objects }
      | .error _ => s
  | .read _ _ => s

def run (events : List Event) : Deployment := events.foldl step empty

/-- The user had a membership row of the tenant, after some of the events. -/
def wasMember (events : List Event) (uid : Uuid) (t : Uuid) : Bool :=
  events.inits.any fun before => isMember (run before).db uid t

/-! ## The rows of a tenant -/

/-- The deployment without the rows and objects of a tenant. -/
def without (s : Deployment) (t : Uuid) : Deployment where
  db :=
    { s.db with
      tenants := s.db.tenants.filter fun x => x.id ≠ t
      memberships := s.db.memberships.filter fun m => m.tenantId ≠ t
      records := s.db.records.filter fun r => r.tenantId ≠ t
      assets := s.db.assets.filter fun a => a.tenantId ≠ t
      assetChunks := s.db.assetChunks.filter fun c => assetTenant s.db c.assetId ≠ some t }
  objects := s.objects.filter fun o => Catalogue.keyTenant o.name ≠ some t

/-- The tenant has the same rows and objects in both. -/
structure SameRows (t : Uuid) (s s' : Deployment) : Prop where
  tenants : ∀ x, x.id = t → (x ∈ s'.db.tenants ↔ x ∈ s.db.tenants)
  memberships : ∀ m, m.tenantId = t → (m ∈ s'.db.memberships ↔ m ∈ s.db.memberships)
  records : ∀ r, r.tenantId = t → (r ∈ s'.db.records ↔ r ∈ s.db.records)
  assets : ∀ a, a.tenantId = t → (a ∈ s'.db.assets ↔ a ∈ s.db.assets)
  chunks : ∀ c, (c ∈ s'.db.assetChunks ∧ assetTenant s'.db c.assetId = some t) ↔
    (c ∈ s.db.assetChunks ∧ assetTenant s.db c.assetId = some t)
  objects : ∀ o, Catalogue.keyTenant o.name = some t → (o ∈ s'.objects ↔ o ∈ s.objects)

end Deployment

end SupabaseLab.Catalogue
