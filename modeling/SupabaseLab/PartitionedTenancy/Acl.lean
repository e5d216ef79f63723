/-
  PartitionedTenancy/Acl.lean --- default privileges as text, and statements that put
  them back.

  Source: experiments/partitioned-tenancy/lib/acl.ts.

  A string of privilege letters is its list of characters.  A statement keeps the words
  that its SQL text is made of.  An error is its message.
-/
import SupabaseLab.Library.Except
import SupabaseLab.Library.JsString

set_option autoImplicit false

namespace SupabaseLab.PartitionedTenancy

open Library

structure DefaultAclRow where
  objtype : String
  acl : String
  deriving DecidableEq, Repr

structure AclItem where
  grantee : String
  privs : List Char
  grantable : List Char
  grantor : String
  deriving DecidableEq, Repr

structure ObjKind where
  kw : String
  privs : List (Char × String)
  deriving DecidableEq

/-- `OBJ`, with its keys. -/
def objKinds : List (String × ObjKind) :=
  [("r", ⟨"tables", [('a', "insert"), ('r', "select"), ('w', "update"), ('d', "delete"),
      ('D', "truncate"), ('x', "references"), ('t', "trigger"), ('m', "maintain")]⟩),
    ("S", ⟨"sequences", [('r', "select"), ('w', "update"), ('U', "usage")]⟩),
    ("f", ⟨"functions", [('X', "execute")]⟩),
    ("T", ⟨"types", [('U', "usage")]⟩),
    ("n", ⟨"schemas", [('U', "usage"), ('C', "create")]⟩)]

def objKind (objtype : String) : Option ObjKind := objKinds.lookup objtype

def ident (s : String) : String :=
  if s = "" then "public"
  else "\"" ++ String.ofList (s.toList.flatMap fun c => if c = '"' then ['"', '"'] else [c]) ++ "\""

/-! ## Reading an ACL -/

/-- The letters without their marks, and those that a mark follows. -/
def readLetters : List Char → List Char × List Char
  | [] => ([], [])
  | '*' :: rest => readLetters rest
  | c :: '*' :: rest => (c :: (readLetters rest).1, c :: (readLetters rest).2)
  | c :: rest => (c :: (readLetters rest).1, (readLetters rest).2)

def isAclLetter (c : Char) : Bool := c.isAlpha || c = '*'

/-- What `.` matches. -/
def isLineChar (c : Char) : Bool := !(c.toNat ∈ [0xA, 0xD, 0x2028, 0x2029])

/-- `/^([^=]*)=([A-Za-z*]*)\/(.+)$/`. -/
def matchItem (raw : List Char) : Option (List Char × List Char × List Char) :=
  match raw.dropWhile (· ≠ '=') with
  | [] => none
  | _ :: rest =>
    match rest.dropWhile isAclLetter with
    | '/' :: grantor =>
      if grantor ≠ [] ∧ grantor.all isLineChar then
        some (raw.takeWhile (· ≠ '='), rest.takeWhile isAclLetter, grantor)
      else none
    | _ => none

def parseItem (raw : List Char) : Except String AclItem :=
  match matchItem raw with
  | none => .error ("not an aclitem: " ++ String.ofList raw)
  | some (grantee, letters, grantor) =>
    .ok
      { grantee := String.ofList grantee
        privs := (readLetters letters).1
        grantable := (readLetters letters).2
        grantor := String.ofList grantor }

def parseAcl (text : String) : Except String (List AclItem) :=
  let t := jsTrim text
  if t = "" ∨ t = "absent" ∨ t = "\x7b\x7d" then .ok []
  else if t.toList.head? ≠ some '\x7b' ∨ t.toList.getLast? ≠ some '\x7d' then
    .error ("not an aclitem[]: " ++ t)
  else if '"' ∈ t.toList then .error ("quoted role names are not supported: " ++ t)
  else ((t.toList.drop 1).dropLast.splitOn ',').mapM parseItem

/-- `[...s].sort().join("")`. -/
def sortedText (letters : List Char) : String :=
  String.join (sortStrings (letters.map String.singleton))

def normaliseItem (i : AclItem) : String :=
  i.grantee ++ "=" ++ sortedText i.privs ++ "*" ++ sortedText i.grantable ++ "/" ++ i.grantor

def normaliseAcl (text : String) : Except String String :=
  (parseAcl text).map fun items => ",".intercalate (sortStrings (items.map normaliseItem))

/-! ## Restoring -/

inductive AclStatement where
  | revokeAll (kw grantee : String)
  | grant (words : List String) (kw grantee : String) (withGrantOption : Bool)
  deriving DecidableEq, Repr

/-- The text of a statement, after `pre`. -/
def AclStatement.text (pre : String) : AclStatement → String
  | .revokeAll kw grantee => pre ++ " revoke all on " ++ kw ++ " from " ++ ident grantee ++ ";"
  | .grant words kw grantee withGrantOption =>
    pre ++ " grant " ++ ", ".intercalate words ++ " on " ++ kw ++ " to " ++ ident grantee ++
      (if withGrantOption then " with grant option;" else ";")

def privList (objtype : String) (letters : List Char) : Except String (List String) :=
  letters.mapM fun c =>
    orThrow ((objKind objtype).bind fun o => o.privs.lookup c)
      ("privilege '" ++ String.singleton c ++ "' is not valid for object type '" ++ objtype ++ "'")

def aclOf (rows : List DefaultAclRow) (ty : String) : String :=
  ((rows.find? fun r => r.objtype = ty).map DefaultAclRow.acl).getD "absent"

def aclTypes (recorded current : List DefaultAclRow) : List String :=
  sortStrings (distinct ((recorded ++ current).map DefaultAclRow.objtype))

/-- `want === have || (parseAcl(want).length === 0 && parseAcl(have).length === 0)`. -/
def nothingToDo (want present : String) : Except String Bool :=
  if want = present then .ok true
  else do
    let target ← parseAcl want
    if target = [] then
      let held ← parseAcl present
      pure (decide (held = []))
    else pure false

/-- The grants that give an item of the target. -/
def grantItem (ty : String) (o : ObjKind) (i : AclItem) : Except String (List AclStatement) := do
  let plain := i.privs.filter fun c => c ∉ i.grantable
  let withOption ← if i.grantable = [] then pure []
    else do
      let words ← privList ty i.grantable
      pure [AclStatement.grant words o.kw i.grantee true]
  let without ← if plain = [] then pure []
    else do
      let words ← privList ty plain
      pure [AclStatement.grant words o.kw i.grantee false]
  pure (withOption ++ without)

/-- The statements for one object type. -/
def restoreType (recorded current : List DefaultAclRow) (role ty : String) :
    Except String (List AclStatement) := do
  let o ← orThrow (objKind ty) ("unsupported default-ACL object type '" ++ ty ++ "'")
  let want := aclOf recorded ty
  let present := aclOf current ty
  if ← nothingToDo want present then pure []
  else do
    let target ← parseAcl want
    match target.find? fun i => i.grantor ≠ role with
    | some i =>
      .error ("grantor " ++ i.grantor ++ " in " ++ want ++ ": ALTER DEFAULT PRIVILEGES FOR ROLE " ++
        role ++ " can only grant as " ++ role)
    | none => do
      let held ← parseAcl present
      let grantees := distinct ((held ++ target).map AclItem.grantee)
      let grants ← target.mapM (grantItem ty o)
      pure (grantees.map (AclStatement.revokeAll o.kw) ++ grants.flatten)

def restoreStatements (recorded current : List DefaultAclRow) (role : String) :
    Except String (List AclStatement) := do
  let perType ← (aclTypes recorded current).mapM (restoreType recorded current role)
  pure perType.flatten

def restoreDefaultAclSql (recorded current : List DefaultAclRow) (role schema : String) :
    Except String String :=
  let pre := "alter default privileges for role " ++ ident role ++ " in schema " ++ ident schema
  (restoreStatements recorded current role).map fun out =>
    "\n".intercalate (out.map (AclStatement.text pre))

/-! ## Comparing -/

structure AclComparison where
  exact : Bool
  same : Bool
  diff : List String
  deriving DecidableEq, Repr

/-- What one object type adds to the differences. -/
def diffType (recorded now : List DefaultAclRow) (ty : String) : Except String (List String) := do
  let a := aclOf recorded ty
  let b := aclOf now ty
  let na ← normaliseAcl a
  let nb ← normaliseAcl b
  pure (if na ≠ nb then [ty ++ ": recorded " ++ a ++ " now " ++ b] else [])

def compareDefaultAcl (recorded now : List DefaultAclRow) : Except String AclComparison := do
  let types := aclTypes recorded now
  let diffs ← types.mapM (diffType recorded now)
  pure
    { exact := types.all fun ty => aclOf recorded ty = aclOf now ty
      same := diffs.flatten = []
      diff := diffs.flatten }

/-! ## The database -/

/-- An item as the database keeps it. -/
structure AclEntry where
  grantee : String
  held : Finset Char
  grantable : Finset Char
  deriving DecidableEq

/-- The items of each object type, in their order; a row without items is no row. -/
abbrev DefaultAcls := String → List AclEntry

/-- The letter of a privilege. -/
def privLetters : List (String × Char) :=
  [("insert", 'a'), ("select", 'r'), ("update", 'w'), ("delete", 'd'), ("truncate", 'D'),
    ("references", 'x'), ("trigger", 't'), ("maintain", 'm'), ("usage", 'U'), ("create", 'C'),
    ("execute", 'X')]

/-- The type letter of a kind of objects. -/
def objLetters : List (String × String) :=
  [("tables", "r"), ("sequences", "S"), ("functions", "f"), ("types", "T"), ("schemas", "n")]

/-- A grant extends the grantee's item, or appends one. -/
def grantTo (items : List AclEntry) (grantee : String) (held grantable : Finset Char) :
    List AclEntry :=
  if items.any fun i => i.grantee = grantee then
    items.map fun i =>
      if i.grantee = grantee then ⟨grantee, i.held ∪ held, i.grantable ∪ grantable⟩ else i
  else items ++ [⟨grantee, held, grantable⟩]

def DefaultAcls.update (s : DefaultAcls) (ty : String) (items : List AclEntry) : DefaultAcls :=
  fun ty' => if ty' = ty then items else s ty'

/-- `ALTER DEFAULT PRIVILEGES`. -/
def execAcl (s : DefaultAcls) : AclStatement → DefaultAcls
  | .revokeAll kw grantee =>
    match objLetters.lookup kw with
    | none => s
    | some ty => s.update ty ((s ty).filter fun i => i.grantee ≠ grantee)
  | .grant words kw grantee withGrantOption =>
    match objLetters.lookup kw with
    | none => s
    | some ty =>
      let letters := (words.filterMap fun w => privLetters.lookup w).toFinset
      s.update ty (grantTo (s ty) grantee letters (if withGrantOption then letters else ∅))

/-! ## How the database writes an ACL -/

def isSafeAclChar (c : Char) : Bool := c.isAlphanum || c = '_'

/-- A role name in an item. -/
def aclName (name : String) : List Char :=
  if name.toList.all isSafeAclChar then name.toList
  else '"' :: name.toList.flatMap (fun c => if c = '"' then ['"', '"'] else [c]) ++ ['"']

/-- An element of an array. -/
def arrayElement (s : List Char) : List Char :=
  if s.any fun c => c ∈ ['"', '\\', '\x7b', '\x7d', ','] || c.isWhitespace then
    '"' :: s.flatMap (fun c => if c ∈ ['"', '\\'] then ['\\', c] else [c]) ++ ['"']
  else s

/-- An item as it is listed: each letter, with whether a mark follows. -/
structure ListedItem where
  grantee : String
  letters : List (Char × Bool)
  deriving DecidableEq

def ListedItem.text (role : String) (i : ListedItem) : List Char :=
  aclName i.grantee ++ '=' :: i.letters.flatMap (fun (c, marked) => if marked then [c, '*'] else [c]) ++
    '/' :: aclName role

def listedAcl (role : String) (items : List ListedItem) : String :=
  String.ofList ('\x7b' :: [','].intercalate (items.map fun i => arrayElement (i.text role)) ++ ['\x7d'])

/-- The order in which the database writes the letters. -/
def aclOrder : List Char := "arwdDxtXUCTcsAm".toList

def AclEntry.listed (e : AclEntry) : ListedItem :=
  { grantee := e.grantee
    letters := (aclOrder.filter fun c => c ∈ e.held).map fun c => (c, decide (c ∈ e.grantable)) }

/-- The rows of `defaultAclSql`. -/
def DefaultAcls.rows (s : DefaultAcls) (role : String) : List DefaultAclRow :=
  ((sortStrings (objKinds.map Prod.fst)).filter fun ty => s ty ≠ []).map fun ty =>
    ⟨ty, listedAcl role ((s ty).map AclEntry.listed)⟩

end SupabaseLab.PartitionedTenancy
