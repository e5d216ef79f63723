/-
  CliSurface/Fingerprint.lean --- a catalog as lines of text, and their difference.

  Source: experiments/cli-surface/lib/fingerprint.ts.

  A catalog is what the joins of the query find: objects carry the name of their
  schema, and what belongs to a relation stands in it.  What a `pg_get_…` function or
  `format_type` prints stands for what it is printed from, an owner or a role for its
  name.  A select yields rows, and a row is written as one line.
-/
import SupabaseLab.Library.Separated
import SupabaseLab.PartitionedTenancy.Acl

set_option autoImplicit false

namespace SupabaseLab.CliSurface

open Library

/-! ## Access privileges -/

inductive Privilege where
  | insert | select | update | delete | truncate | references | trigger | maintain
  | execute | usage | create | temporary | connect | set | alterSystem
  deriving DecidableEq, Repr

/-- `privilege_type` of `aclexplode`. -/
def Privilege.text : Privilege → String
  | .insert => "INSERT" | .select => "SELECT" | .update => "UPDATE" | .delete => "DELETE"
  | .truncate => "TRUNCATE" | .references => "REFERENCES" | .trigger => "TRIGGER"
  | .maintain => "MAINTAIN" | .execute => "EXECUTE" | .usage => "USAGE" | .create => "CREATE"
  | .temporary => "TEMPORARY" | .connect => "CONNECT" | .set => "SET"
  | .alterSystem => "ALTER SYSTEM"

/-- The letter of a privilege in the text of an item. -/
def Privilege.letter : Privilege → Char
  | .insert => 'a' | .select => 'r' | .update => 'w' | .delete => 'd' | .truncate => 'D'
  | .references => 'x' | .trigger => 't' | .maintain => 'm' | .execute => 'X' | .usage => 'U'
  | .create => 'C' | .temporary => 'T' | .connect => 'c' | .set => 's' | .alterSystem => 'A'

/-- An item of an ACL; no grantee is `PUBLIC`.  A privilege stands with its grant option. -/
structure AclItem where
  grantee : Option String
  grantor : String
  privileges : List (Privilege × Bool)
  deriving DecidableEq, Repr

/-- A row of `aclexplode`. -/
structure Grant where
  grantor : String
  grantee : Option String
  privilege : Privilege
  grantable : Bool
  deriving DecidableEq, Repr

def aclexplode (acl : List AclItem) : List Grant :=
  acl.flatMap fun i => i.privileges.map fun (p, grantable) => ⟨i.grantor, i.grantee, p, grantable⟩

/-- An item as the database writes it. -/
def AclItem.text (i : AclItem) : String :=
  String.ofList (i.grantee.elim [] PartitionedTenancy.aclName) ++ "=" ++
    String.ofList (i.privileges.flatMap fun (p, grantable) =>
      if grantable then [p.letter, '*'] else [p.letter]) ++
    "/" ++ String.ofList (PartitionedTenancy.aclName i.grantor)

/-- The name of the role with this OID; the OID of `PUBLIC` is 0, which is no role's. -/
def pgGetUserById (role : Option String) : String := role.getD "unknown (OID=0)"

/-- `coalesce(nullif(pg_get_userbyid(x.grantee), '-'), 'PUBLIC')`. -/
def granteeText (g : Grant) : String :=
  if pgGetUserById g.grantee = "-" then "PUBLIC" else pgGetUserById g.grantee

/-! ## Catalogs -/

structure Column where
  attname : String
  attnum : Int
  attisdropped : Bool := false
  type : String
  attnotnull : Bool := false
  default : Option String := none
  attgenerated : Option Char := none
  attidentity : Option Char := none
  description : Option String := none
  attacl : Option (List AclItem) := none

structure Constraint where
  conname : String
  definition : String
  convalidated : Bool

structure Trigger where
  definition : String
  tgisinternal : Bool

@[ext]
structure Sequence where
  seqstart : Int
  seqincrement : Int
  seqmin : Int
  seqmax : Int
  seqcache : Int
  seqcycle : Bool
  deriving DecidableEq

structure Relation where
  nspname : String
  relname : String
  relkind : Char
  relowner : String
  relacl : Option (List AclItem) := none
  relrowsecurity : Bool := false
  relforcerowsecurity : Bool := false
  reloptions : Option (List String) := none
  description : Option String := none
  columns : List Column := []
  constraints : List Constraint := []
  /-- `pg_get_indexdef` of each index. -/
  indexes : List String := []
  triggers : List Trigger := []
  sequence : Option Sequence := none

/-- A row of `pg_policies`. -/
structure Policy where
  schemaname : String
  tablename : String
  policyname : String
  permissive : String
  roles : List String
  cmd : String
  qual : Option String
  withCheck : Option String

structure Procedure where
  nspname : String
  proname : String
  prokind : Char
  identityArguments : String
  proowner : String
  proacl : Option (List AclItem)
  functiondef : String
  /-- A row of `pg_depend` makes it part of an extension. -/
  ofExtension : Bool

structure EnumType where
  nspname : String
  typname : String
  /-- In the order of `enumsortorder`. -/
  labels : List String

structure Namespace where
  nspname : String
  nspowner : String
  nspacl : Option (List AclItem)

structure DefaultAcl where
  role : String
  nspname : Option String
  objtype : Char
  acl : List AclItem

structure Extension where
  extname : String
  nspname : String

structure Catalog where
  namespaces : List Namespace := []
  relations : List Relation := []
  policies : List Policy := []
  procedures : List Procedure := []
  enums : List EnumType := []
  defaultAcls : List DefaultAcl := []
  extensions : List Extension := []

/-- The schemas asked for; `in ()` is no SQL. -/
abbrev Schemas := {names : List String // names ≠ []}

def FP_SCHEMAS : Schemas := ⟨["app", "public"], List.cons_ne_nil _ _⟩

/-! ## Rows -/

/-- What the selects read for one line. -/
inductive Row where
  | rel (nspname relname : String) (relkind : Char) (owner : String) (rls force : Bool)
      (opts : List String)
  | commentRel (nspname relname description : String)
  | col (nspname relname attname type : String) (notnull : Bool) (default : String)
      (gen identity : Option Char)
  | commentCol (nspname relname attname description : String)
  | con (nspname relname conname definition : String) (validated : Bool)
  | idx (definition : String)
  | policy (schemaname tablename policyname permissive : String) (roles : List String)
      (cmd qual withCheck : String)
  | trigger (nspname relname definition : String)
  | func (nspname proname arguments owner : String) (acl : List AclItem) (definition : String)
  | enum (nspname typname : String) (labels : List String)
  | seq (nspname relname : String) (s : Sequence)
  | aclRel (nspname relname : String) (g : Grant)
  | aclCol (nspname relname attname : String) (g : Grant)
  | aclSchema (nspname : String) (g : Grant)
  | defacl (role : String) (nspname : Option String) (objtype : Char) (g : Grant)
  | ext (extname nspname : String)
  deriving DecidableEq

section Rows

/- `acldefault`: what a NULL ACL of an object of this type stands for. -/
variable (acldefault : Char → String → List AclItem) (schemas : Schemas) (cat : Catalog)

/-- `ns`. -/
def Catalog.ns : List Namespace := cat.namespaces.filter fun n => n.nspname ∈ schemas.1

/-- `rel`. -/
def Catalog.rel : List Relation :=
  cat.relations.filter fun c => c.nspname ∈ schemas.1 ∧ c.relkind ∈ ['r', 'p', 'v', 'm', 'S', 'f']

/-- `a.attnum > 0 and not a.attisdropped`. -/
def Relation.userColumns (r : Relation) : List Column :=
  r.columns.filter fun a => 0 < a.attnum ∧ ¬ a.attisdropped

def relRow (r : Relation) : Row :=
  .rel r.nspname r.relname r.relkind r.relowner r.relrowsecurity r.relforcerowsecurity
    (r.reloptions.getD [])

def colRow (r : Relation) (a : Column) : Row :=
  .col r.nspname r.relname a.attname a.type a.attnotnull (a.default.getD "") a.attgenerated
    a.attidentity

def policyRow (p : Policy) : Row :=
  .policy p.schemaname p.tablename p.policyname p.permissive p.roles p.cmd (p.qual.getD "")
    (p.withCheck.getD "")

def funcRow (p : Procedure) : Row :=
  .func p.nspname p.proname p.identityArguments p.proowner
    (p.proacl.getD (acldefault 'f' p.proowner)) p.functiondef

/-- The rows of the selects, in their order. -/
def Catalog.rows : List Row :=
  let rel := cat.rel schemas
  rel.map relRow
    ++ rel.flatMap (fun r => r.description.toList.map (.commentRel r.nspname r.relname))
    ++ (rel.filter fun r => r.relkind ∈ ['r', 'p', 'v', 'm', 'f']).flatMap
        (fun r => r.userColumns.map (colRow r))
    ++ rel.flatMap (fun r => r.userColumns.flatMap fun a =>
        a.description.toList.map (.commentCol r.nspname r.relname a.attname))
    ++ rel.flatMap (fun r => r.constraints.map fun c =>
        .con r.nspname r.relname c.conname c.definition c.convalidated)
    ++ rel.flatMap (fun r => r.indexes.map .idx)
    ++ (cat.policies.filter fun p => p.schemaname ∈ schemas.1).map policyRow
    ++ rel.flatMap (fun r => (r.triggers.filter fun t => ¬ t.tgisinternal).map fun t =>
        .trigger r.nspname r.relname t.definition)
    ++ (cat.procedures.filter fun p =>
        p.nspname ∈ schemas.1 ∧ p.prokind ∈ ['f', 'p'] ∧ ¬ p.ofExtension).map (funcRow acldefault)
    ++ (cat.enums.filter fun t => t.nspname ∈ schemas.1 ∧ t.labels ≠ []).map
        (fun t => .enum t.nspname t.typname t.labels)
    ++ rel.flatMap (fun r => r.sequence.toList.map (.seq r.nspname r.relname))
    ++ rel.flatMap (fun r =>
        (aclexplode (r.relacl.getD (acldefault (if r.relkind = 'S' then 's' else 'r') r.relowner))).map
          (.aclRel r.nspname r.relname))
    ++ rel.flatMap (fun r => (r.columns.filter fun a => ¬ a.attisdropped).flatMap fun a =>
        a.attacl.toList.flatMap fun acl =>
          (aclexplode acl).map (.aclCol r.nspname r.relname a.attname))
    ++ (cat.ns schemas).flatMap (fun n =>
        (aclexplode (n.nspacl.getD (acldefault 'n' n.nspowner))).map (.aclSchema n.nspname))
    ++ (cat.defaultAcls.filter fun d => d.nspname.all fun n => n ∈ schemas.1).flatMap
        (fun d => (aclexplode d.acl).map (.defacl d.role d.nspname d.objtype))
    ++ cat.extensions.map (fun e => .ext e.extname e.nspname)

end Rows

/-! ## Lines -/

/-- A `boolean` as text. -/
def boolText (b : Bool) : String := if b then "true" else "false"

/-- A `"char"` as text. -/
def charText (c : Option Char) : String := c.elim "" String.singleton

/-- `array_to_string(…, ',')`, and `string_agg` with a comma. -/
def commaJoin (items : List String) : String := ",".intercalate items

/-- `replace(…, E'\n', ' ')`. -/
def oneLine (s : String) : String := s.map fun c => if c = '\n' then ' ' else c

/-- The operands of `||` that make a line. -/
def Row.operands : Row → List String
  | .rel nspname relname relkind owner rls force opts =>
    ["rel ", nspname, ".", relname, " kind=", String.singleton relkind, " owner=", owner,
      " rls=", boolText rls, " force=", boolText force,
      " opts=", commaJoin opts]
  | .commentRel nspname relname description =>
    ["comment rel ", nspname, ".", relname, " ", description]
  | .col nspname relname attname type notnull default gen identity =>
    ["col ", nspname, ".", relname, ".", attname, " ", type,
      " notnull=", boolText notnull, " default=", default,
      " gen=", charText gen, " identity=", charText identity]
  | .commentCol nspname relname attname description =>
    ["comment col ", nspname, ".", relname, ".", attname, " ", description]
  | .con nspname relname conname definition validated =>
    ["con ", nspname, ".", relname, " ", conname, " ", definition, " validated=", boolText validated]
  | .idx definition => ["idx ", definition]
  | .policy schemaname tablename policyname permissive roles cmd qual withCheck =>
    ["policy ", schemaname, ".", tablename, " ", policyname, " permissive=", permissive,
      " roles=", commaJoin roles, " cmd=", cmd,
      " using=", qual, " check=", withCheck]
  | .trigger nspname relname definition => ["trigger ", nspname, ".", relname, " ", definition]
  | .func nspname proname arguments owner acl definition =>
    ["func ", nspname, ".", proname, "(", arguments, ") owner=", owner,
      " acl=", commaJoin (acl.map AclItem.text),
      " def=", oneLine definition]
  | .enum nspname typname labels => ["enum ", nspname, ".", typname, " ", commaJoin labels]
  | .seq nspname relname s =>
    ["seq ", nspname, ".", relname, " start=", toString s.seqstart, " inc=", toString s.seqincrement,
      " min=", toString s.seqmin, " max=", toString s.seqmax, " cache=", toString s.seqcache,
      " cycle=", boolText s.seqcycle]
  | .aclRel nspname relname g =>
    ["acl rel ", nspname, ".", relname, " ", g.grantor, "->", granteeText g, " ",
      g.privilege.text, " grant=", boolText g.grantable]
  | .aclCol nspname relname attname g =>
    ["acl col ", nspname, ".", relname, ".", attname, " ", granteeText g, " ", g.privilege.text]
  | .aclSchema nspname g => ["acl schema ", nspname, " ", granteeText g, " ", g.privilege.text]
  | .defacl role nspname objtype g =>
    ["defacl ", role, " in ", nspname.getD "*", " type=", String.singleton objtype, " ",
      granteeText g, " ", g.privilege.text]
  | .ext extname nspname => ["ext ", extname, " schema=", nspname]

def Row.line (x : Row) : String := String.join x.operands

/-- `order by l`, in the order that the database compares texts by. -/
def fingerprint (acldefault : Char → String → List AclItem) (collation : String → String → Bool)
    (schemas : Schemas) (cat : Catalog) : List String :=
  ((cat.rows acldefault schemas).map Row.line).mergeSort collation

structure FpDiff where
  onlyA : List String
  onlyB : List String
  same : Nat
  deriving DecidableEq, Repr

def diffFingerprints (a b : List String) : FpDiff where
  onlyA := a.filter fun x => x ∉ b
  onlyB := b.filter fun x => x ∉ a
  same := (a.filter fun x => x ∈ b).length

end SupabaseLab.CliSurface
