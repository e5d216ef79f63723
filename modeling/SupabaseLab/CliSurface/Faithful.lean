/-
  CliSurface/Faithful.lean --- which differences of two catalogs a fingerprint shows.

  A line is the cells of a row with fixed separators between them.  Nothing in a cell
  is quoted, some cells keep only a part of what the row says, and lists are one cell.
  So two rows have one line exactly when they are of one kind and their cells are the
  same, or one is a recut of the other.  Where no cell goes on over its separator and
  the rest of what a line leaves out is fixed, that comes to the rows saying the same.
-/
import SupabaseLab.CliSurface.Fingerprint

set_option autoImplicit false

namespace SupabaseLab.CliSurface

open Library

/-! ## Kinds of lines -/

inductive Kind where
  | rel | commentRel | col | commentCol | con | idx | policy | trigger | func | enum | seq
  | aclRel | aclCol | aclSchema | defacl | ext
  deriving DecidableEq

def Row.kind : Row → Kind
  | .rel .. => .rel | .commentRel .. => .commentRel | .col .. => .col
  | .commentCol .. => .commentCol | .con .. => .con | .idx .. => .idx | .policy .. => .policy
  | .trigger .. => .trigger | .func .. => .func | .enum .. => .enum | .seq .. => .seq
  | .aclRel .. => .aclRel | .aclCol .. => .aclCol | .aclSchema .. => .aclSchema
  | .defacl .. => .defacl | .ext .. => .ext

/-- What a line of this kind begins with. -/
def Kind.start : Kind → String
  | .rel => "rel " | .commentRel => "comment rel " | .col => "col " | .commentCol => "comment col "
  | .con => "con " | .idx => "idx " | .policy => "policy " | .trigger => "trigger "
  | .func => "func " | .enum => "enum " | .seq => "seq " | .aclRel => "acl rel "
  | .aclCol => "acl col " | .aclSchema => "acl schema " | .defacl => "defacl " | .ext => "ext "

/-- What stands after each cell but the last. -/
def Kind.separators : Kind → List String
  | .rel => [".", " kind=", " owner=", " rls=", " force=", " opts="]
  | .commentRel | .trigger | .enum => [".", " "]
  | .col => [".", ".", " ", " notnull=", " default=", " gen=", " identity="]
  | .commentCol => [".", ".", " "]
  | .con => [".", " ", " ", " validated="]
  | .idx => []
  | .policy => [".", " ", " permissive=", " roles=", " cmd=", " using=", " check="]
  | .func => [".", "(", ") owner=", " acl=", " def="]
  | .seq => [".", " start=", " inc=", " min=", " max=", " cache=", " cycle="]
  | .aclRel => [".", " ", "->", " ", " grant="]
  | .aclCol => [".", ".", " ", " "]
  | .aclSchema => [" ", " "]
  | .defacl => [" in ", " type=", " ", " "]
  | .ext => [" schema="]

/-- What a line shows of its row. -/
def Row.cells : Row → List String
  | .rel nspname relname relkind owner rls force opts =>
    [nspname, relname, String.singleton relkind, owner, boolText rls, boolText force, commaJoin opts]
  | .commentRel nspname relname description => [nspname, relname, description]
  | .col nspname relname attname type notnull default gen identity =>
    [nspname, relname, attname, type, boolText notnull, default, charText gen, charText identity]
  | .commentCol nspname relname attname description => [nspname, relname, attname, description]
  | .con nspname relname conname definition validated =>
    [nspname, relname, conname, definition, boolText validated]
  | .idx definition => [definition]
  | .policy schemaname tablename policyname permissive roles cmd qual withCheck =>
    [schemaname, tablename, policyname, permissive, commaJoin roles, cmd, qual, withCheck]
  | .trigger nspname relname definition => [nspname, relname, definition]
  -- the newlines of a definition are gone
  | .func nspname proname arguments owner acl definition =>
    [nspname, proname, arguments, owner, commaJoin (acl.map AclItem.text), oneLine definition]
  | .enum nspname typname labels => [nspname, typname, commaJoin labels]
  | .seq nspname relname s =>
    [nspname, relname, toString s.seqstart, toString s.seqincrement, toString s.seqmin,
      toString s.seqmax, toString s.seqcache, boolText s.seqcycle]
  | .aclRel nspname relname g =>
    [nspname, relname, g.grantor, granteeText g, g.privilege.text, boolText g.grantable]
  -- who granted it, and whether with the grant option, is in the lines of relations only
  | .aclCol nspname relname attname g =>
    [nspname, relname, attname, granteeText g, g.privilege.text]
  | .aclSchema nspname g => [nspname, granteeText g, g.privilege.text]
  | .defacl role nspname objtype g =>
    [role, nspname.getD "*", String.singleton objtype, granteeText g, g.privilege.text]
  | .ext extname nspname => [extname, nspname]

theorem line_eq (x : Row) : x.line.toList =
    x.kind.start.toList ++ joinWith (x.kind.separators.map String.toList) (x.cells.map String.toList) := by
  rw [Row.line, String.toList_join]
  cases x <;>
    simp only [Row.operands, Row.kind, Kind.start, Kind.separators, Row.cells, List.map_cons,
      List.map_nil, List.flatMap_cons, List.flatMap_nil, List.append_nil, joinWith]

theorem cells_length (x : Row) : x.cells.length = x.kind.separators.length + 1 := by
  cases x <;> rfl

/-- No kind's beginning is the beginning of another kind's. -/
theorem eq_of_start {k k' : Kind} : k.start.toList <+: k'.start.toList → k = k' := by
  cases k <;> cases k' <;> decide

/-! ## Rows with one line -/

/-- The rows say the same but for what no line shows: where an item of a list ends, newlines
in a definition, `PUBLIC` and a role that is written like it, and, but for relations, by
whom and with which option a privilege was granted. -/
def Blurred : Row → Row → Prop
  | .rel n r k o rls force opts, .rel n' r' k' o' rls' force' opts' =>
    (n, r, k, o, rls, force) = (n', r', k', o', rls', force') ∧ commaJoin opts = commaJoin opts'
  | .policy n t p perm roles cmd qual check, .policy n' t' p' perm' roles' cmd' qual' check' =>
    (n, t, p, perm) = (n', t', p', perm') ∧ commaJoin roles = commaJoin roles' ∧
      (cmd, qual, check) = (cmd', qual', check')
  | .func n p args o acl body, .func n' p' args' o' acl' body' =>
    (n, p, args, o) = (n', p', args', o') ∧
      commaJoin (acl.map AclItem.text) = commaJoin (acl'.map AclItem.text) ∧
      oneLine body = oneLine body'
  | .enum n t labels, .enum n' t' labels' =>
    (n, t) = (n', t') ∧ commaJoin labels = commaJoin labels'
  | .aclRel n r g, .aclRel n' r' g' =>
    (n, r, g.grantor) = (n', r', g'.grantor) ∧ granteeText g = granteeText g' ∧
      (g.privilege, g.grantable) = (g'.privilege, g'.grantable)
  | .aclCol n r a g, .aclCol n' r' a' g' =>
    (n, r, a) = (n', r', a') ∧ granteeText g = granteeText g' ∧ g.privilege = g'.privilege
  | .aclSchema n g, .aclSchema n' g' =>
    n = n' ∧ granteeText g = granteeText g' ∧ g.privilege = g'.privilege
  | .defacl role n t g, .defacl role' n' t' g' =>
    role = role' ∧ n.getD "*" = n'.getD "*" ∧ t = t' ∧ granteeText g = granteeText g' ∧
      g.privilege = g'.privilege
  | x, y => x = y

/-- A name or a text of one row goes on over the separator after it, and the cells behind
are cut otherwise. -/
def Moved (x y : Row) : Prop :=
  Recut (x.kind.separators.map String.toList) (x.cells.map String.toList)
    (y.cells.map String.toList)

def Alike (x y : Row) : Prop := x.kind = y.kind ∧ (Blurred x y ∨ Moved x y)

section Alike

variable {x y : Row}

theorem boolText_inj {a b : Bool} : boolText a = boolText b ↔ a = b := by
  cases a <;> cases b <;> decide

theorem charText_inj {a b : Option Char} : charText a = charText b ↔ a = b := by
  cases a with
  | none =>
    cases b with
    | none => exact iff_of_true rfl rfl
    | some d => simp [charText]
  | some c =>
    cases b with
    | none => simp [charText]
    | some d => simp [charText]

theorem Privilege.text_inj {p q : Privilege} : p.text = q.text ↔ p = q := by
  constructor
  · cases p <;> cases q <;> decide
  · intro h
    rw [h]

theorem cells_eq_iff (h : x.kind = y.kind) : x.cells = y.cells ↔ Blurred x y := by
  cases x <;> cases y <;> first
    | (cases h; done)
    | simp [Row.cells, Blurred, boolText_inj, charText_inj, Privilege.text_inj, Sequence.ext_iff,
        and_assoc]

/-- Two rows have one line exactly when they look alike. -/
theorem line_eq_iff : x.line = y.line ↔ Alike x y := by
  rw [← String.toList_inj, line_eq, line_eq]
  constructor
  · intro h
    have hkind : x.kind = y.kind := by
      have hx := List.prefix_append x.kind.start.toList
        (joinWith (x.kind.separators.map String.toList) (x.cells.map String.toList))
      rw [h] at hx
      rcases List.prefix_or_prefix_of_prefix hx (List.prefix_append _ _) with hp | hp
      · exact eq_of_start hp
      · exact (eq_of_start hp).symm
    rw [← hkind] at h
    have hrest := List.append_cancel_left h
    rw [joinWith_eq_iff (by simp [cells_length]) (by simp [cells_length, hkind])] at hrest
    refine ⟨hkind, hrest.imp_left fun hcells => ?_⟩
    exact (cells_eq_iff hkind).mp (List.map_injective_iff.mpr (fun _ _ => String.toList_injective) hcells)
  · rintro ⟨hkind, hblurred | hmoved⟩
    · rw [hkind, (cells_eq_iff hkind).mpr hblurred]
    · rw [← hkind]
      exact congrArg _ ((joinWith_eq_iff (by simp [cells_length]) (by simp [cells_length, hkind])).mpr
        (.inr hmoved))

/-- In no cell the separator after it begins, as it does in a schema's name with a dot. -/
def Plain (x : Row) : Prop :=
  ∀ p ∈ (x.kind.separators.map String.toList).zip (x.cells.map String.toList),
    ¬ p.1 <:+: p.2 ++ p.1.dropLast

theorem alike_iff_of_plain (hx : Plain x) (hy : Plain y) :
    Alike x y ↔ x.kind = y.kind ∧ Blurred x y := by
  constructor
  · rintro ⟨hkind, hblurred | hmoved⟩
    · exact ⟨hkind, hblurred⟩
    · refine absurd hmoved (not_recut hx ?_)
      rw [hkind]
      exact hy
  · rintro ⟨hkind, hblurred⟩
    exact ⟨hkind, .inl hblurred⟩

end Alike

/-! ## What a comparison shows -/

/-- The same property: the options of a relation and the grants on a function have no order. -/
def Same : Row → Row → Prop
  | .rel n r k o rls force opts, .rel n' r' k' o' rls' force' opts' =>
    (n, r, k, o, rls, force) = (n', r', k', o', rls', force') ∧ opts.toFinset = opts'.toFinset
  | .func n p args o acl body, .func n' p' args' o' acl' body' =>
    (n, p, args, o) = (n', p', args', o') ∧
      (aclexplode acl).toFinset = (aclexplode acl').toFinset ∧ body = body'
  | x, y => x = y

/-- The options or the ACL stand in another order. -/
def Relisted : Row → Row → Prop
  | .rel _ _ _ _ _ _ opts, .rel _ _ _ _ _ _ opts' => commaJoin opts ≠ commaJoin opts'
  | .func _ _ _ _ acl _, .func _ _ _ _ acl' _ =>
    commaJoin (acl.map AclItem.text) ≠ commaJoin (acl'.map AclItem.text)
  | _, _ => False

/-- Each row of either list has one like it in the other. -/
def Matched (R : Row → Row → Prop) (xs ys : List Row) : Prop :=
  (∀ x ∈ xs, ∃ y ∈ ys, R x y) ∧ ∀ y ∈ ys, ∃ x ∈ xs, R x y

section Compare

/- `acldefault` and `collation` belong to the database. -/
variable (acldefault : Char → String → List AclItem) (collation : String → String → Bool)
  (schemas : Schemas) (A B : Catalog)

/-- The catalogs agree on what a fingerprint covers. -/
def Agree : Prop := Matched Same (A.rows acldefault schemas) (B.rows acldefault schemas)

/-- The comparison shows a line exactly when the catalogs do not agree. -/
def TellsApart : Prop :=
  let d := diffFingerprints (fingerprint acldefault collation schemas A)
    (fingerprint acldefault collation schemas B)
  (¬ Agree acldefault schemas A B → d.onlyA ≠ [] ∨ d.onlyB ≠ []) ∧
    (Agree acldefault schemas A B → d.onlyA = [] ∧ d.onlyB = [])

/-- The catalogs do not agree, but each row of either looks like one of the other. -/
def Overlooked : Prop :=
  ¬ Agree acldefault schemas A B ∧
    Matched Alike (A.rows acldefault schemas) (B.rows acldefault schemas)

/-- The catalogs agree, but a row of one has its options or its ACL in another order than the
row of the other, and looks like none there. -/
def Reordered : Prop :=
  let xs := A.rows acldefault schemas
  let ys := B.rows acldefault schemas
  Agree acldefault schemas A B ∧
    ((∃ x ∈ xs, (∃ y ∈ ys, Same x y ∧ Relisted x y) ∧ ∀ y ∈ ys, ¬ Alike x y) ∨
      ∃ y ∈ ys, (∃ x ∈ xs, Same x y ∧ Relisted x y) ∧ ∀ x ∈ xs, ¬ Alike x y)

variable {acldefault collation schemas A B}

theorem mem_fingerprint {l : String} : l ∈ fingerprint acldefault collation schemas A ↔
    ∃ x ∈ A.rows acldefault schemas, x.line = l := by
  rw [fingerprint, List.mem_mergeSort, List.mem_map]

/-- No line is left on either side when the rows look alike. -/
theorem diff_empty_iff :
    ((diffFingerprints (fingerprint acldefault collation schemas A)
        (fingerprint acldefault collation schemas B)).onlyA = [] ∧
      (diffFingerprints (fingerprint acldefault collation schemas A)
        (fingerprint acldefault collation schemas B)).onlyB = []) ↔
      Matched Alike (A.rows acldefault schemas) (B.rows acldefault schemas) := by
  simp only [diffFingerprints, List.filter_eq_nil_iff, decide_not, Bool.not_eq_true',
    decide_eq_false_iff_not, not_not, mem_fingerprint, Matched, ← line_eq_iff]
  constructor
  · intro ⟨hA, hB⟩
    refine ⟨fun x hx => ?_, fun y hy => ?_⟩
    · obtain ⟨y, hy, heq⟩ := hA _ ⟨x, hx, rfl⟩
      exact ⟨y, hy, heq.symm⟩
    · exact hB _ ⟨y, hy, rfl⟩
  · intro ⟨hA, hB⟩
    refine ⟨?_, ?_⟩
    · rintro _ ⟨x, hx, rfl⟩
      obtain ⟨y, hy, heq⟩ := hA x hx
      exact ⟨y, hy, heq.symm⟩
    · rintro _ ⟨y, hy, rfl⟩
      exact hB y hy

theorem Same.kind_eq {x y : Row} (h : Same x y) : x.kind = y.kind := by
  cases x <;> cases y <;> first
    | rfl
    | cases h

theorem Blurred.refl (x : Row) : Blurred x x := (cells_eq_iff rfl).mp rfl

/-- The same property looks alike, unless a list stands in another order. -/
theorem Same.blurred {x y : Row} (h : Same x y) (hlist : ¬ Relisted x y) : Blurred x y := by
  cases x <;> cases y <;> first
    | exact ⟨h.1, not_not.mp hlist⟩
    | exact ⟨h.1, not_not.mp hlist, congrArg oneLine h.2.2⟩
    | (cases h; done)
    | (cases h; exact Blurred.refl _)

theorem Same.relisted {x y : Row} (h : Same x y) (hnot : ¬ Alike x y) : Relisted x y := by
  by_contra hlist
  exact hnot ⟨h.kind_eq, .inl (h.blurred hlist)⟩

theorem tellsApart_iff_matched : TellsApart acldefault collation schemas A B ↔
    (Agree acldefault schemas A B ↔
      Matched Alike (A.rows acldefault schemas) (B.rows acldefault schemas)) := by
  rw [TellsApart]
  simp only [diff_empty_iff]
  constructor
  · rintro ⟨hdiffer, hagree⟩
    refine ⟨hagree, fun hmatched => ?_⟩
    by_contra hnot
    rcases hdiffer hnot with h | h
    · exact h (diff_empty_iff.mpr hmatched).1
    · exact h (diff_empty_iff.mpr hmatched).2
  · intro h
    refine ⟨fun hnot => ?_, h.mp⟩
    by_contra hempty
    push Not at hempty
    exact hnot (h.mpr (diff_empty_iff.mp hempty))

theorem reordered_iff : Reordered acldefault schemas A B ↔ Agree acldefault schemas A B ∧
    ¬ Matched Alike (A.rows acldefault schemas) (B.rows acldefault schemas) := by
  constructor
  · rintro ⟨hagree, ⟨x, hx, _, hnone⟩ | ⟨y, hy, _, hnone⟩⟩
    · refine ⟨hagree, fun hmatched => ?_⟩
      obtain ⟨y, hy, halike⟩ := hmatched.1 x hx
      exact hnone y hy halike
    · refine ⟨hagree, fun hmatched => ?_⟩
      obtain ⟨x, hx, halike⟩ := hmatched.2 y hy
      exact hnone x hx halike
  · rintro ⟨hagree, hnot⟩
    refine ⟨hagree, ?_⟩
    by_contra hnone
    push Not at hnone
    refine hnot ⟨fun x hx => ?_, fun y hy => ?_⟩
    · by_contra hx'
      push Not at hx'
      obtain ⟨y, hy, hsame⟩ := hagree.1 x hx
      obtain ⟨z, hz, halike⟩ := hnone.1 x hx ⟨y, hy, hsame, hsame.relisted (hx' y hy)⟩
      exact hx' z hz halike
    · by_contra hy'
      push Not at hy'
      obtain ⟨x, hx, hsame⟩ := hagree.2 y hy
      obtain ⟨z, hz, halike⟩ := hnone.2 y hy ⟨x, hx, hsame, hsame.relisted (hy' x hx)⟩
      exact hy' z hz halike

/-- A comparison tells two catalogs apart unless it overlooks what they differ in, or takes
another order for a difference. -/
theorem tellsApart_iff (acldefault : Char → String → List AclItem)
    (collation : String → String → Bool) (schemas : Schemas) (A B : Catalog) :
    TellsApart acldefault collation schemas A B ↔
      ¬ Overlooked acldefault schemas A B ∧ ¬ Reordered acldefault schemas A B := by
  rw [tellsApart_iff_matched, reordered_iff, Overlooked]
  constructor
  · intro h
    exact ⟨fun ⟨hnot, hmatched⟩ => hnot (h.mpr hmatched), fun ⟨hagree, hnot⟩ => hnot (h.mp hagree)⟩
  · rintro ⟨hoverlooked, hreordered⟩
    refine ⟨fun hagree => ?_, fun hmatched => ?_⟩
    · by_contra hnot
      exact hreordered ⟨hagree, hnot⟩
    · by_contra hnot
      exact hoverlooked ⟨hnot, hmatched⟩

end Compare

/-! ## Ordinary catalogs -/

/-- No item is empty or has a comma in it. -/
def PlainItems (items : List String) : Prop := ∀ i ∈ items, i ≠ "" ∧ ',' ∉ i.toList

/-- A name that an item of an ACL shows as it is. -/
def PlainRole (name : String) : Prop := name ≠ "" ∧ ∀ c ∈ name.toList, PartitionedTenancy.isSafeAclChar c

/-- Neither `PUBLIC` nor the role that it would be taken for. -/
def NamedGrantee (g : Grant) : Prop := g.grantee ≠ some "unknown (OID=0)" ∧ g.grantee ≠ some "-"

/-- What the line leaves out is not there: list items end where they seem to, grantees are
who they are called, and the grants whose lines do not say it have this grantor and this
option. -/
def Shown (grantor : String) (grantable : Bool) : Row → Prop
  | .rel _ _ _ _ _ _ opts => PlainItems opts
  | .policy _ _ _ _ roles _ _ _ => PlainItems roles
  | .func _ _ _ _ acl _ => ∀ i ∈ acl, PlainRole i.grantor ∧ ∀ name ∈ i.grantee, PlainRole name
  | .enum _ _ labels => PlainItems labels
  | .aclRel _ _ g => NamedGrantee g
  | .aclCol _ _ _ g => NamedGrantee g ∧ g.grantor = grantor ∧ g.grantable = grantable
  | .aclSchema _ g => NamedGrantee g ∧ g.grantor = grantor ∧ g.grantable = grantable
  | .defacl _ n _ g => n ≠ some "*" ∧ NamedGrantee g ∧ g.grantor = grantor ∧ g.grantable = grantable
  | _ => True

structure Ordinary (grantor : String) (grantable : Bool) (x : Row) : Prop where
  plain : Plain x
  shown : Shown grantor grantable x

/-- Options and ACLs with the same items have them in one order, and definitions that differ
do so in more than a newline for a space. -/
def InStep : Row → Row → Prop
  | .rel _ _ _ _ _ _ opts, .rel _ _ _ _ _ _ opts' => opts.toFinset = opts'.toFinset → opts = opts'
  | .func _ _ _ _ acl body, .func _ _ _ _ acl' body' =>
    ((aclexplode acl).toFinset = (aclexplode acl').toFinset → acl = acl') ∧
      (oneLine body = oneLine body' → body = body')
  | _, _ => True

section Ordinary

variable {items items' : List String} {i i' : AclItem} {g g' : Grant} {x y : Row} {grantor : String}
  {grantable : Bool}

theorem splitOn_commaJoin (h : PlainItems items) (hne : items ≠ []) :
    (commaJoin items).toList.splitOn ',' = items.map String.toList := by
  rw [commaJoin, String.toList_intercalate]
  refine List.splitOn_intercalate ',' (fun cs hcs => ?_) (by simpa using hne)
  obtain ⟨i, hi, rfl⟩ := List.mem_map.mp hcs
  exact (h i hi).2

theorem commaJoin_eq_empty (h : PlainItems items) : commaJoin items = "" ↔ items = [] := by
  refine ⟨fun hempty => ?_, fun hnil => by rw [hnil]; rfl⟩
  by_contra hne
  have hsplit := splitOn_commaJoin h hne
  rw [hempty] at hsplit
  obtain ⟨i, rest, rfl⟩ := List.exists_cons_of_ne_nil hne
  exact (h i List.mem_cons_self).1 (String.toList_inj.mp (List.cons.inj hsplit).1.symm)

/-- Plain items are read back from their list. -/
theorem commaJoin_inj (h : PlainItems items) (h' : PlainItems items') :
    commaJoin items = commaJoin items' ↔ items = items' := by
  refine ⟨fun heq => ?_, congrArg commaJoin⟩
  by_cases hne : items = []
  · have hempty := (commaJoin_eq_empty h).mpr hne
    rw [hne, (commaJoin_eq_empty h').mp (heq ▸ hempty)]
  · have hne' : items' ≠ [] := fun hnil =>
      hne ((commaJoin_eq_empty h).mp (heq.trans ((commaJoin_eq_empty h').mpr hnil)))
    have hsplit := splitOn_commaJoin h hne
    rw [heq, splitOn_commaJoin h' hne'] at hsplit
    exact (List.map_injective_iff.mpr (fun _ _ => String.toList_inj.mp) hsplit).symm

theorem granteeText_inj (h : NamedGrantee g) (h' : NamedGrantee g') :
    granteeText g = granteeText g' ↔ g.grantee = g'.grantee := by
  have htext : ∀ {g : Grant}, NamedGrantee g → granteeText g = g.grantee.getD "unknown (OID=0)" := by
    intro g h
    unfold granteeText pgGetUserById
    refine if_neg fun hdash => ?_
    cases hg : g.grantee with
    | none =>
      rw [hg] at hdash
      exact absurd hdash (by decide)
    | some name =>
      rw [hg] at hdash
      exact h.2 (hg.trans (congrArg some hdash))
  rw [htext h, htext h']
  obtain ⟨hg, -⟩ := h
  obtain ⟨hg', -⟩ := h'
  cases hname : g.grantee with
  | none =>
    cases hname' : g'.grantee with
    | none => simp
    | some name' =>
      rw [hname'] at hg'
      simpa [eq_comm] using hg'
  | some name =>
    cases hname' : g'.grantee with
    | none =>
      rw [hname] at hg
      simpa using hg
    | some name' => simp

/-! ### Items of an ACL -/

/-- The privileges of an item, each with its mark. -/
def privilegeText (privileges : List (Privilege × Bool)) : List Char :=
  privileges.flatMap fun (p, grantable) => if grantable then [p.letter, '*'] else [p.letter]

theorem Privilege.letter_spec (p : Privilege) :
    p.letter ≠ '*' ∧ p.letter ≠ '/' ∧ p.letter ≠ ',' ∧ ∀ q : Privilege, p.letter = q.letter → p = q := by
  refine ⟨by cases p <;> decide, by cases p <;> decide, by cases p <;> decide, fun q => ?_⟩
  cases p <;> cases q <;> decide

theorem privilegeText_inj {ps qs : List (Privilege × Bool)} (h : privilegeText ps = privilegeText qs) :
    ps = qs := by
  induction ps generalizing qs with
  | nil =>
    cases qs with
    | nil => rfl
    | cons q qs =>
      obtain ⟨q, grantable⟩ := q
      cases grantable <;> cases h
  | cons p ps ih =>
    obtain ⟨p, grantable⟩ := p
    cases qs with
    | nil => cases grantable <;> cases h
    | cons q qs =>
      obtain ⟨q, grantable'⟩ := q
      have hhead : p = q := by
        refine p.letter_spec.2.2.2 q ?_
        cases grantable <;> cases grantable' <;> exact (List.cons.inj h).1
      subst hhead
      -- after a letter without a mark comes another letter, or the end
      have hstar : ∀ {ps : List (Privilege × Bool)} {cs : List Char}, privilegeText ps ≠ '*' :: cs := by
        intro ps cs heq
        cases ps with
        | nil => cases heq
        | cons q ps =>
          obtain ⟨q, grantable⟩ := q
          cases grantable <;> exact q.letter_spec.1 (List.cons.inj heq).1
      cases grantable with
      | true =>
        cases grantable' with
        | true => rw [ih (List.cons.inj (List.cons.inj h).2).2]
        | false => exact absurd (List.cons.inj h).2.symm hstar
      | false =>
        cases grantable' with
        | true => exact absurd (List.cons.inj h).2 hstar
        | false => rw [ih (List.cons.inj h).2]

theorem mem_privilegeText {c : Char} {ps : List (Privilege × Bool)} (h : c ∈ privilegeText ps) :
    c = '*' ∨ ∃ p : Privilege, c = p.letter := by
  obtain ⟨⟨p, grantable⟩, -, hc⟩ := List.mem_flatMap.mp h
  cases grantable with
  | true =>
    rcases List.mem_cons.mp hc with rfl | hc
    · exact .inr ⟨p, rfl⟩
    · exact .inl (List.mem_singleton.mp hc)
  | false => exact .inr ⟨p, List.mem_singleton.mp hc⟩

/-- A plain role stands in an item as it is called. -/
theorem aclName_plain {name : String} (h : PlainRole name) :
    PartitionedTenancy.aclName name = name.toList := if_pos (List.all_eq_true.mpr h.2)

/-- The grantee of an item, as its text has it. -/
def granteeName (grantee : Option String) : List Char := grantee.elim [] String.toList

theorem AclItem.toList_text (hgrantor : PlainRole i.grantor)
    (hgrantee : ∀ name ∈ i.grantee, PlainRole name) :
    i.text.toList = granteeName i.grantee ++ '=' :: (privilegeText i.privileges ++
      '/' :: i.grantor.toList) := by
  have hname : i.grantee.elim [] PartitionedTenancy.aclName = granteeName i.grantee := by
    cases h : i.grantee with
    | none => rfl
    | some name => exact aclName_plain (hgrantee name h)
  have heq : "=".toList = ['='] := rfl
  have hslash : "/".toList = ['/'] := rfl
  unfold AclItem.text
  rw [hname, aclName_plain hgrantor]
  simp only [String.toList_append, String.toList_ofList, heq, hslash, List.append_assoc,
    List.cons_append, List.nil_append]
  rfl

theorem notMem_plainRole {name : String} {c : Char} (h : PlainRole name)
    (hc : PartitionedTenancy.isSafeAclChar c = false) : c ∉ name.toList := by
  intro hmem
  rw [h.2 c hmem] at hc
  cases hc

theorem notMem_granteeName {grantee : Option String} {c : Char} (h : ∀ name ∈ grantee, PlainRole name)
    (hc : PartitionedTenancy.isSafeAclChar c = false) : c ∉ granteeName grantee := by
  cases grantee with
  | none => exact List.not_mem_nil
  | some name => exact notMem_plainRole (h name rfl) hc

theorem granteeName_inj {a b : Option String} (ha : ∀ name ∈ a, PlainRole name)
    (hb : ∀ name ∈ b, PlainRole name) (h : granteeName a = granteeName b) : a = b := by
  have hempty : ∀ name : String, PlainRole name → name.toList ≠ [] := fun name hname hnil =>
    hname.1 (String.toList_inj.mp hnil)
  cases a with
  | none =>
    cases b with
    | none => rfl
    | some name => exact absurd h.symm (hempty name (hb name rfl))
  | some name =>
    cases b with
    | none => exact absurd h (hempty name (ha name rfl))
    | some name' => exact congrArg some (String.toList_inj.mp h)

/-- Items with plain roles are read back from their text. -/
theorem AclItem.text_inj (hgrantor : PlainRole i.grantor) (hgrantee : ∀ name ∈ i.grantee, PlainRole name)
    (hgrantor' : PlainRole i'.grantor) (hgrantee' : ∀ name ∈ i'.grantee, PlainRole name)
    (h : i.text = i'.text) : i = i' := by
  have htext := congrArg String.toList h
  rw [i.toList_text hgrantor hgrantee, i'.toList_text hgrantor' hgrantee'] at htext
  have hslash : ∀ ps : List (Privilege × Bool), '/' ∉ privilegeText ps := by
    intro ps hmem
    obtain hstar | ⟨p, hp⟩ := mem_privilegeText hmem
    · exact absurd hstar (by decide)
    · exact p.letter_spec.2.1 hp.symm
  obtain ⟨hname, hrest⟩ := append_cons_inj (notMem_granteeName hgrantee (by decide))
    (notMem_granteeName hgrantee' (by decide)) htext
  obtain ⟨hprivileges, hlast⟩ := append_cons_inj (hslash _) (hslash _) hrest
  obtain ⟨grantee, grantor, privileges⟩ := i
  obtain ⟨grantee', grantor', privileges'⟩ := i'
  obtain rfl := String.toList_inj.mp hlast
  obtain rfl := privilegeText_inj hprivileges
  obtain rfl : grantee = grantee' := granteeName_inj hgrantee hgrantee' hname
  rfl

theorem plainItems_acl {acl : List AclItem}
    (h : ∀ i ∈ acl, PlainRole i.grantor ∧ ∀ name ∈ i.grantee, PlainRole name) :
    PlainItems (acl.map AclItem.text) := by
  intro text htext
  obtain ⟨i, hi, rfl⟩ := List.mem_map.mp htext
  obtain ⟨hgrantor, hgrantee⟩ := h i hi
  have hlist := i.toList_text hgrantor hgrantee
  refine ⟨fun hempty => ?_, fun hcomma => ?_⟩
  · rw [hempty] at hlist
    cases hname : granteeName i.grantee <;> rw [hname] at hlist <;> cases hlist
  · rw [hlist] at hcomma
    rcases List.mem_append.mp hcomma with hcomma | hcomma
    · exact notMem_granteeName hgrantee (by decide) hcomma
    rcases List.mem_cons.mp hcomma with hcomma | hcomma
    · exact absurd hcomma (by decide)
    rcases List.mem_append.mp hcomma with hcomma | hcomma
    · obtain hstar | ⟨p, hp⟩ := mem_privilegeText hcomma
      · exact absurd hstar (by decide)
      · exact p.letter_spec.2.2.1 hp.symm
    rcases List.mem_cons.mp hcomma with hcomma | hcomma
    · exact absurd hcomma (by decide)
    · exact notMem_plainRole hgrantor (by decide) hcomma

/-- So are lists of such items. -/
theorem commaJoin_acl_inj {acl acl' : List AclItem}
    (h : ∀ i ∈ acl, PlainRole i.grantor ∧ ∀ name ∈ i.grantee, PlainRole name)
    (h' : ∀ i ∈ acl', PlainRole i.grantor ∧ ∀ name ∈ i.grantee, PlainRole name) :
    commaJoin (acl.map AclItem.text) = commaJoin (acl'.map AclItem.text) ↔ acl = acl' := by
  rw [commaJoin_inj (plainItems_acl h) (plainItems_acl h')]
  refine ⟨fun htexts => ?_, fun heq => by rw [heq]⟩
  induction acl generalizing acl' with
  | nil => exact (List.map_eq_nil_iff.mp htexts.symm).symm
  | cons i acl ih =>
    cases acl' with
    | nil => cases htexts
    | cons i' acl' =>
      obtain ⟨hi, hacl⟩ := List.forall_mem_cons.mp h
      obtain ⟨hi', hacl'⟩ := List.forall_mem_cons.mp h'
      obtain ⟨hhead, htail⟩ := List.cons.inj htexts
      rw [AclItem.text_inj hi.1 hi.2 hi'.1 hi'.2 hhead, ih hacl hacl' htail]

/-! ### What ordinary rows look like -/

theorem grant_eq_iff (hg : NamedGrantee g) (hg' : NamedGrantee g') :
    g = g' ↔ granteeText g = granteeText g' ∧ g.privilege = g'.privilege ∧ g.grantor = g'.grantor ∧
      g.grantable = g'.grantable := by
  rw [granteeText_inj hg hg']
  obtain ⟨grantor, grantee, privilege, grantable⟩ := g
  obtain ⟨grantor', grantee', privilege', grantable'⟩ := g'
  rw [Grant.mk.injEq]
  tauto

/-- Ordinary rows of one kind say the same when their cells do. -/
theorem blurred_iff_same (hkind : x.kind = y.kind) (hx : Shown grantor grantable x)
    (hy : Shown grantor grantable y) (h : InStep x y) : Blurred x y ↔ Same x y := by
  cases x <;> cases y <;> first
    | (cases hkind; done)
    | exact Iff.rfl
    | skip
  case rel.rel =>
    exact and_congr_right fun _ => (commaJoin_inj hx hy).trans ⟨congrArg List.toFinset, h⟩
  case policy.policy => simp [Blurred, Same, commaJoin_inj hx hy, and_assoc]
  case func.func =>
    refine and_congr_right fun _ => and_congr ?_ ⟨h.2, congrArg oneLine⟩
    exact (commaJoin_acl_inj hx hy).trans ⟨congrArg fun acl => (aclexplode acl).toFinset, h.1⟩
  case enum.enum => simp [Blurred, Same, commaJoin_inj hx hy, and_assoc]
  case aclRel.aclRel =>
    simp only [Blurred, Same, Row.aclRel.injEq, grant_eq_iff hx hy, Prod.mk.injEq]
    tauto
  case aclCol.aclCol =>
    obtain ⟨hg, hgrantor, hgrantable⟩ := hx
    obtain ⟨hg', hgrantor', hgrantable'⟩ := hy
    simp only [Blurred, Same, Row.aclCol.injEq, grant_eq_iff hg hg', Prod.mk.injEq, hgrantor, hgrantor',
      hgrantable, hgrantable']
    tauto
  case aclSchema.aclSchema =>
    obtain ⟨hg, hgrantor, hgrantable⟩ := hx
    obtain ⟨hg', hgrantor', hgrantable'⟩ := hy
    simp only [Blurred, Same, Row.aclSchema.injEq, grant_eq_iff hg hg', hgrantor, hgrantor', hgrantable,
      hgrantable']
    tauto
  case defacl.defacl n t g role' n' t' g' =>
    obtain ⟨hn, hg, hgrantor, hgrantable⟩ := hx
    obtain ⟨hn', hg', hgrantor', hgrantable'⟩ := hy
    have hschema : n.getD "*" = n'.getD "*" ↔ n = n' := by
      cases n <;> cases n' <;> simp_all [eq_comm]
    simp only [Blurred, Same, Row.defacl.injEq, grant_eq_iff hg hg', hschema, hgrantor, hgrantor',
      hgrantable, hgrantable']
    tauto

theorem alike_iff_same (hx : Ordinary grantor grantable x) (hy : Ordinary grantor grantable y)
    (h : InStep x y) : Alike x y ↔ Same x y := by
  rw [alike_iff_of_plain hx.plain hy.plain]
  constructor
  · rintro ⟨hkind, hblurred⟩
    exact (blurred_iff_same hkind hx.shown hy.shown h).mp hblurred
  · intro hsame
    exact ⟨hsame.kind_eq, (blurred_iff_same hsame.kind_eq hx.shown hy.shown h).mpr hsame⟩

/-- A comparison tells ordinary catalogs apart. -/
theorem tellsApart_of_ordinary (grantor : String) (grantable : Bool)
    {acldefault : Char → String → List AclItem} {schemas : Schemas} {A B : Catalog} (hA : ∀ x ∈ A.rows acldefault schemas, Ordinary grantor grantable x)
    (hB : ∀ y ∈ B.rows acldefault schemas, Ordinary grantor grantable y)
    (hstep : ∀ x ∈ A.rows acldefault schemas, ∀ y ∈ B.rows acldefault schemas, InStep x y)
    (collation : String → String → Bool) : TellsApart acldefault collation schemas A B := by
  have halike : ∀ x ∈ A.rows acldefault schemas, ∀ y ∈ B.rows acldefault schemas,
      Alike x y ↔ Same x y := fun x hx y hy => alike_iff_same (hA x hx) (hB y hy) (hstep x hx y hy)
  rw [tellsApart_iff_matched]
  refine and_congr (forall₂_congr fun x hx => exists_congr fun y => and_congr_right fun hy => ?_)
    (forall₂_congr fun y hy => exists_congr fun x => and_congr_right fun hx => ?_)
  · exact (halike x hx y hy).symm
  · exact (halike x hx y hy).symm

end Ordinary

/-! ## A grant option that no line shows -/

/-- A table with a column that `anon` may read, with or without the right to grant it. -/
def readableColumn (grantable : Bool) : Catalog where
  relations :=
    [{ nspname := "app"
       relname := "t"
       relkind := 'r'
       relowner := "postgres"
       relacl := some []
       columns :=
         [{ attname := "c"
            attnum := 1
            type := "text"
            attacl := some [⟨some "anon", "postgres", [(.select, grantable)]⟩] }] }]

theorem rows_readableColumn (grantable : Bool) : (readableColumn grantable).rows (fun _ _ => []) FP_SCHEMAS =
    [.rel "app" "t" 'r' "postgres" false false [],
      .col "app" "t" "c" "text" false "" none none,
      .aclCol "app" "t" "c" ⟨"postgres", some "anon", .select, grantable⟩] := by
  cases grantable <;> decide

/-- Ordinary rows, which the comparison tells from none. -/
example (collation : String → String → Bool) :
    TellsApart (fun _ _ => []) collation FP_SCHEMAS (readableColumn false) {} := by
  have hplain : ∀ x ∈ (readableColumn false).rows (fun _ _ => []) FP_SCHEMAS, Plain x := by
    rw [rows_readableColumn]
    unfold Plain
    decide
  have hnone : ∀ y, y ∉ Catalog.rows (fun _ _ => []) FP_SCHEMAS {} := by
    rw [show Catalog.rows (fun _ _ => []) FP_SCHEMAS {} = [] by decide]
    exact fun y => List.not_mem_nil
  refine tellsApart_of_ordinary "postgres" false (fun x hx => ⟨hplain x hx, ?_⟩)
    (fun y hy => absurd hy (hnone y)) (fun x _ y hy => absurd hy (hnone y)) collation
  rw [rows_readableColumn] at hx
  rcases List.mem_cons.mp hx with rfl | hx
  · exact fun i hi => absurd hi List.not_mem_nil
  rcases List.mem_cons.mp hx with rfl | hx
  · trivial
  · rw [List.mem_singleton.mp hx]
    exact ⟨⟨by decide, by decide⟩, rfl, rfl⟩

theorem grant_option_overlooked : ¬ TellsApart (fun _ _ => []) (fun a b => a ≤ b) FP_SCHEMAS
    (readableColumn false) (readableColumn true) := by
  rintro ⟨hdiffer, _⟩
  have hlines : fingerprint (fun _ _ => []) (fun a b => a ≤ b) FP_SCHEMAS (readableColumn false) =
      fingerprint (fun _ _ => []) (fun a b => a ≤ b) FP_SCHEMAS (readableColumn true) :=
    congrArg (fun lines => List.mergeSort lines _) rfl
  have hnot : ¬ Agree (fun _ _ => []) FP_SCHEMAS (readableColumn false) (readableColumn true) := by
    intro hagree
    obtain ⟨y, hy, hsame⟩ := hagree.1 (.aclCol "app" "t" "c" ⟨"postgres", some "anon", .select, false⟩)
      (by decide)
    rw [rows_readableColumn] at hy
    rcases List.mem_cons.mp hy with rfl | hy
    · cases hsame
    rcases List.mem_cons.mp hy with rfl | hy
    · cases hsame
    rw [List.mem_singleton.mp hy] at hsame
    cases hsame
  rw [hlines] at hdiffer
  rcases hdiffer hnot with h | h
  · exact h (List.filter_eq_nil_iff.mpr fun l hl => by simp [hl])
  · exact h (List.filter_eq_nil_iff.mpr fun l hl => by simp [hl])

end SupabaseLab.CliSurface
