/-
  Library/Sql.lean --- the `SELECT` of one table: its text, and the rows it may return.

  The rows are numbers and texts, none null.  A statement may have any rows for result that
  are its rows sorted as its `ORDER BY` asks: rows that tie, and all rows without an
  `ORDER BY`, come in any order.  In the same way `row_number()` may number rows that tie in
  any order.
-/
import SupabaseLab.Library.Aggregate

set_option autoImplicit false

namespace SupabaseLab.Library.Sql

/-! ## Values -/

inductive Value where
  | int (n : ℤ)
  | real (q : ℚ)
  | text (s : String)
  deriving DecidableEq

namespace Value

def number? : Value → Option ℚ
  | int n => some n
  | real q => some q
  | text _ => none

/-- Numbers by their size and before all texts, texts by a collation. -/
def le (collation : String → String → Bool) : Value → Value → Bool
  | text s, text t => collation s t
  | a, b =>
      match a.number?, b.number? with
      | some p, some q => decide (p ≤ q)
      | some _, none => true
      | none, _ => false

/-- An operation of two integers, if both are. -/
def arith (f : ℤ → ℤ → Option ℤ) : Value → Value → Option Value
  | int a, int b => (f a b).map int
  | _, _ => none

section Order

variable (collation : String → String → Bool)

@[simp] theorem le_int (m n : ℤ) : le collation (int m) (int n) = decide (m ≤ n) := by
  simp [le, number?]

@[simp] theorem le_real (p q : ℚ) : le collation (real p) (real q) = decide (p ≤ q) := rfl

@[simp] theorem le_text (s t : String) : le collation (text s) (text t) = collation s t := rfl

end Order

end Value

/-- The columns of a row, each with its value. -/
abbrev Row := List (String × Value)

def Row.get? (r : Row) (column : String) : Option Value := List.lookup column r

@[simp] theorem Row.get?_cons (name : String) (v : Value) (r : Row) (column : String) :
    Row.get? ((name, v) :: r) column = if column = name then some v else Row.get? r column := by
  by_cases h : column = name
  · simp [Row.get?, h]
  · simp [Row.get?, h, List.lookup_cons, beq_eq_false_iff_ne.mpr h]

/-- The bytes of a text in UTF-8. -/
def utf8Bytes (s : String) : List ℕ := s.toList.flatMap fun c => (String.utf8EncodeChar c).map UInt8.toNat

/-- The collation by bytes: `"C"` of Postgres, `BINARY` of SQLite. -/
def bytesLe (s t : String) : Bool := decide (utf8Bytes s ≤ utf8Bytes t)

/-! ## Statements -/

inductive Expr where
  | col (name : String)
  | lit (n : ℕ)
  /-- The one parameter, under the mark of the dialect. -/
  | param (mark : String)
  | paren (e : Expr)
  | add (a b : Expr)
  | sub (a b : Expr)
  | mul (a b : Expr)
  | div (a b : Expr)
  deriving DecidableEq

inductive Cond where
  | eq (a b : Expr)
  | ge (a b : Expr)
  deriving DecidableEq

inductive Selected where
  | value (e : Expr)
  | count
  | rowNumber (partition order : String)
  | countOver (partition : String)
  deriving DecidableEq

structure Item where
  what : Selected
  as? : Option String := none
  deriving DecidableEq

structure OrderKey where
  column : String
  collate : Option String := none
  desc : Bool := false
  deriving DecidableEq

structure Select where
  items : List Item
  where? : Option Cond := none
  groupBy : List Expr := []
  orderBy : List OrderKey := []
  limit : Option ℕ := none
  deriving DecidableEq

/-- A statement over a table, or over another statement that is given a name. -/
inductive Query where
  | table (s : Select) (name : String)
  | sub (s : Select) (inner : Query) (name : String)
  deriving DecidableEq

/-! ## The text of a statement -/

def Expr.sql : Expr → String
  | col name => name
  | lit n => toString n
  | param mark => mark
  | paren e => "(" ++ e.sql ++ ")"
  | add a b => a.sql ++ " + " ++ b.sql
  | sub a b => a.sql ++ " - " ++ b.sql
  | mul a b => a.sql ++ " * " ++ b.sql
  | div a b => a.sql ++ " / " ++ b.sql

def Cond.sql : Cond → String
  | eq a b => a.sql ++ " = " ++ b.sql
  | ge a b => a.sql ++ " >= " ++ b.sql

def Selected.sql : Selected → String
  | value e => e.sql
  | count => "count(*)"
  | rowNumber partition order =>
      "row_number() OVER (PARTITION BY " ++ partition ++ " ORDER BY " ++ order ++ ")"
  | countOver partition => "count(*) OVER (PARTITION BY " ++ partition ++ ")"

def Item.sql (it : Item) : String :=
  it.what.sql ++ (it.as?.elim "" fun name => " AS " ++ name)

def OrderKey.sql (k : OrderKey) : String :=
  k.column ++ (k.collate.elim "" fun name => " COLLATE \"" ++ name ++ "\"") ++
    (if k.desc then " DESC" else "")

def commas (l : List String) : String := ", ".intercalate l

def Select.sql (s : Select) (source : String) : String :=
  "SELECT " ++ commas (s.items.map Item.sql) ++ " FROM " ++ source ++
    (s.where?.elim "" fun c => " WHERE " ++ c.sql) ++
    (if s.groupBy = [] then "" else " GROUP BY " ++ commas (s.groupBy.map Expr.sql)) ++
    (if s.orderBy = [] then "" else " ORDER BY " ++ commas (s.orderBy.map OrderKey.sql)) ++
    (s.limit.elim "" fun n => " LIMIT " ++ toString n)

def Query.sql : Query → String
  | table s name => s.sql name
  | sub s inner name => s.sql ("(" ++ inner.sql ++ ") " ++ name)

/-! ## Expressions -/

/-- Of integers a quotient is cut off, toward zero. -/
def Expr.eval (param : Option Value) (r : Row) : Expr → Option Value
  | col name => r.get? name
  | lit n => some (.int n)
  | .param _ => param
  | paren e => e.eval param r
  | add a b => (a.eval param r).bind fun x => (b.eval param r).bind (x.arith fun m n => some (m + n))
  | sub a b => (a.eval param r).bind fun x => (b.eval param r).bind (x.arith fun m n => some (m - n))
  | mul a b => (a.eval param r).bind fun x => (b.eval param r).bind (x.arith fun m n => some (m * n))
  | div a b => (a.eval param r).bind fun x =>
      (b.eval param r).bind (x.arith fun m n => if n = 0 then none else some (m.tdiv n))

def Expr.number? (param : Option Value) (r : Row) (e : Expr) : Option ℚ :=
  (e.eval param r).bind Value.number?

/-- A comparison of numbers. -/
def Cond.holds (param : Option Value) (r : Row) : Cond → Bool
  | eq a b =>
      match a.number? param r, b.number? param r with
      | some p, some q => decide (p = q)
      | _, _ => false
  | ge a b =>
      match a.number? param r, b.number? param r with
      | some p, some q => decide (q ≤ p)
      | _, _ => false

/-! ## Order -/

/-- The collation of a key: its own, or that of the database. -/
def OrderKey.collation (k : OrderKey) (dflt : String → String → Bool) : String → String → Bool :=
  if k.collate = some "C" then bytesLe else dflt

def OrderKey.le (dflt : String → String → Bool) (k : OrderKey) (r s : Row) : Bool :=
  match (if k.desc then s else r).get? k.column, (if k.desc then r else s).get? k.column with
  | some x, some y => x.le (k.collation dflt) y
  | _, _ => false

/-- By the first key, and where that ties by the next. -/
def rowLe (dflt : String → String → Bool) : List OrderKey → Row → Row → Bool
  | [], _, _ => true
  | k :: ks, r, s => k.le dflt r s && (!k.le dflt s r || rowLe dflt ks r s)

@[simp] theorem rowLe_nil (dflt : String → String → Bool) (r s : Row) : rowLe dflt [] r s = true := rfl

theorem rowLe_cons_iff {dflt : String → String → Bool} {k : OrderKey} {ks : List OrderKey}
    {r s : Row} : rowLe dflt (k :: ks) r s = true ↔
      k.le dflt r s = true ∧ (k.le dflt s r = true → rowLe dflt ks r s = true) := by
  rw [rowLe, Bool.and_eq_true, Bool.or_eq_true, Bool.not_eq_true', imp_iff_not_or,
    Bool.not_eq_true]

/-! ## Windows -/

section Windows

variable {α κ : Type} [DecidableEq κ]

/-- The place of each row among those of its partition, after `seen`. -/
def ranks (part : α → κ) : List α → List α → List ℕ
  | _, [] => []
  | seen, a :: l => ((groupOf part seen (part a)).length + 1) :: ranks part (seen ++ [a]) l

/-- `number` counts through each partition in an order that the window allows. -/
def Numbered (part : α → κ) (le : α → α → Bool) (number : α → ℕ) (rows : List α) : Prop :=
  ∃ arr : List α, arr.Perm rows ∧
    arr.Pairwise (fun a b => part a = part b → le a b = true) ∧
    arr.map number = ranks part [] arr

end Windows

/-! ## Results -/

/-- A row with its number under each window. -/
abbrev Tagged := Row × (Selected → ℕ)

def Item.name (it : Item) : String :=
  match it.as?, it.what with
  | some name, _ => name
  | none, .value (.col name) => name
  | none, _ => "?column?"

/-- The item of a group of rows; a plain expression is that of any of them. -/
def Item.ofGroup (param : Option Value) (group : List Row) (it : Item) : Option (String × Value) :=
  match it.what with
  | .value e => (group.head?.bind fun r => e.eval param r).map fun v => (it.name, v)
  | .count => some (it.name, .int group.length)
  | _ => none

/-- The item of a row among the rows. -/
def Item.ofRow (param : Option Value) (rows : List Row) (t : Tagged) (it : Item) :
    Option (String × Value) :=
  match it.what with
  | .value e => (e.eval param t.1).map fun v => (it.name, v)
  | .count => none
  | .rowNumber _ _ => some (it.name, .int (t.2 it.what))
  | .countOver partition =>
      some (it.name, .int (groupOf (fun r : Row => r.get? partition) rows (t.1.get? partition)).length)

/-- The numbers are those of the windows of the items. -/
def TagsFit (dflt : String → String → Bool) (items : List Item) (tagged : List Tagged) : Prop :=
  ∀ partition order, Selected.rowNumber partition order ∈ items.map Item.what →
    Numbered (fun t : Tagged => t.1.get? partition)
      (fun t u => OrderKey.le dflt { column := order } t.1 u.1)
      (fun t => t.2 (.rowNumber partition order)) tagged

namespace Select

variable (dflt : String → String → Bool) (param : Option Value) (s : Select)

def aggregates : Bool :=
  decide (s.groupBy ≠ []) || s.items.any fun it => decide (it.what = .count)

def kept (rows : List Row) : List Row :=
  rows.filter fun r => s.where?.all fun c => c.holds param r

def groupKey (r : Row) : Option (List Value) := s.groupBy.mapM fun e => e.eval param r

/-- Without a `GROUP BY` all rows are one group, also where there are none. -/
def groups (rows : List Row) : List (List Row) :=
  if s.groupBy = [] then [rows]
  else (distinct (rows.map (s.groupKey param))).map (groupOf (s.groupKey param) rows)

/-- The rows before they are sorted. -/
inductive Selects (rows : List Row) : List Row → Prop where
  | grouped {out : List Row} (hagg : s.aggregates = true)
      (hout : (s.groups param (s.kept param rows)).mapM
        (fun g => s.items.mapM (Item.ofGroup param g)) = some out) : Selects rows out
  | plain {out : List Row} (tagged : List Tagged) (hagg : s.aggregates = false)
      (hrows : tagged.map Prod.fst = s.kept param rows) (htags : TagsFit dflt s.items tagged)
      (hout : tagged.mapM (fun t => s.items.mapM (Item.ofRow param (s.kept param rows) t)) =
        some out) : Selects rows out

/-- The result may be any arrangement of the rows that is sorted, up to the limit. -/
def Returns (rows out : List Row) : Prop :=
  ∃ selected sorted : List Row, s.Selects dflt param rows selected ∧ sorted.Perm selected ∧
    sorted.Pairwise (fun a b => rowLe dflt s.orderBy a b = true) ∧
    out = s.limit.elim sorted sorted.take

end Select

/-- The rows that a statement may return, from tables and a parameter. -/
def Query.Returns (dflt : String → String → Bool) (param : Option Value)
    (tables : String → List Row) : Query → List Row → Prop
  | table s name, out => s.Returns dflt param (tables name) out
  | sub s inner _, out => ∃ mid, inner.Returns dflt param tables mid ∧ s.Returns dflt param mid out

/-! ## Rules for windows -/

section Windows

variable {α κ : Type} [DecidableEq κ] {part : α → κ} {le : α → α → Bool} {number : α → ℕ}
  {rows arr l seen : List α} {k : κ}

theorem groupOf_cons (part : α → κ) (a : α) (l : List α) (k : κ) :
    groupOf part (a :: l) k = if part a = k then a :: groupOf part l k else groupOf part l k := by
  rw [groupOf, List.filter_cons]
  by_cases h : part a = k <;> simp [h, groupOf]

theorem groupOf_perm (part : α → κ) (h : l.Perm arr) (k : κ) : (groupOf part l k).Perm (groupOf part arr k) :=
  h.filter _

theorem length_ranks (part : α → κ) (seen l : List α) : (ranks part seen l).length = l.length := by
  induction l generalizing seen with
  | nil => rfl
  | cons a l ih => rw [ranks, List.length_cons, ih, List.length_cons]

/-- Each partition is counted through from where `seen` left it. -/
theorem map_groupOf_of_ranks (h : l.map number = ranks part seen l) (k : κ) :
    (groupOf part l k).map number =
      List.range' ((groupOf part seen k).length + 1) (groupOf part l k).length := by
  induction l generalizing seen with
  | nil => rfl
  | cons a l ih =>
      rw [List.map_cons, ranks] at h
      obtain ⟨hhead, htail⟩ := List.cons.inj h
      have hrest := ih htail
      have hseen : groupOf part (seen ++ [a]) k = groupOf part seen k ++ groupOf part [a] k :=
        List.filter_append ..
      rw [hseen, groupOf_cons] at hrest
      rw [groupOf_cons]
      by_cases hk : part a = k
      · subst hk
        rw [if_pos rfl, List.map_cons, List.length_cons, List.range'_succ, hhead]
        rw [if_pos rfl, List.length_append] at hrest
        exact congrArg _ hrest
      · rw [if_neg hk] at hrest ⊢
        rw [hrest, show groupOf part ([] : List α) k = [] from rfl, List.append_nil]

/-- Rows counted through have one row of each number. -/
theorem filter_number {n i : ℕ} {a : α} (h : l.map number = List.range' n l.length)
    (hi : l[i]? = some a) : (l.filter fun b => decide (number b = n + i)) = [a] := by
  induction l generalizing n i with
  | nil => simp at hi
  | cons b l ih =>
      rw [List.map_cons, List.length_cons, List.range'_succ] at h
      obtain ⟨hhead, htail⟩ := List.cons.inj h
      cases i with
      | zero =>
          have hlater : (l.filter fun c => decide (number c = n + 0)) = [] := by
            refine List.filter_eq_nil_iff.mpr fun c hc => ?_
            have hmem := List.mem_map_of_mem (f := number) hc
            rw [htail, List.mem_range'_1] at hmem
            rw [decide_eq_true_eq]
            omega
          rw [List.filter_cons, hlater, if_pos (by simpa using hhead)]
          simpa using hi
      | succ i =>
          have hne : ¬ number b = n + (i + 1) := by omega
          rw [List.filter_cons, if_neg (by simpa using hne)]
          have hrest := ih htail (by simpa using hi)
          rwa [show n + 1 + i = n + (i + 1) by omega] at hrest

theorem flatMap_groupOf_perm_of_nodup {ks : List κ} (hks : ks.Nodup) (h : ∀ a ∈ l, part a ∈ ks) :
    (ks.flatMap (groupOf part l)).Perm l := by
  induction ks generalizing l with
  | nil =>
      rw [List.eq_nil_iff_forall_not_mem.mpr fun a ha => List.not_mem_nil (h a ha)]
      exact List.Perm.refl _
  | cons k ks ih =>
      obtain ⟨hk, hks⟩ := List.nodup_cons.mp hks
      have hothers : ∀ a ∈ l.filter (fun a => !decide (part a = k)), part a ∈ ks := by
        intro a ha
        obtain ⟨hmem, hne⟩ := List.mem_filter.mp ha
        exact (List.mem_cons.mp (h a hmem)).resolve_left (by simpa using hne)
      have hsame : ks.flatMap (groupOf part l) =
          ks.flatMap (groupOf part (l.filter fun a => !decide (part a = k))) := by
        refine List.flatMap_congr fun k' hk' => ?_
        rw [groupOf, groupOf, List.filter_filter]
        refine List.filter_congr fun a _ => ?_
        have hne : k' ≠ k := fun heq => hk (heq ▸ hk')
        by_cases heq : part a = k'
        · simp [heq, hne]
        · simp [heq]
      rw [List.flatMap_cons, hsame]
      exact ((ih hks hothers).append_left _).trans (List.filter_append_perm _ l)

/-- The rows are those of their partitions. -/
theorem flatMap_groupOf_perm (part : α → κ) (l : List α) :
    ((distinct (l.map part)).flatMap (groupOf part l)).Perm l :=
  flatMap_groupOf_perm_of_nodup (nodup_distinct _) fun _ ha =>
    mem_distinct.mpr (List.mem_map_of_mem ha)

/-- What is a permutation of the images is the images of a permutation. -/
theorem exists_perm_of_map_perm {β : Type} {f : β → α} {tagged : List β}
    (h : (tagged.map f).Perm rows) : ∃ tagged' : List β, tagged'.Perm tagged ∧ tagged'.map f = rows := by
  induction rows generalizing tagged with
  | nil =>
      rw [List.map_eq_nil_iff.mp h.eq_nil]
      exact ⟨[], List.Perm.refl _, rfl⟩
  | cons a rows ih =>
      obtain ⟨t, ht, rfl⟩ := List.mem_map.mp (h.mem_iff.mpr List.mem_cons_self)
      obtain ⟨front, back, rfl⟩ := List.append_of_mem ht
      have hmiddle : (front ++ t :: back).Perm (t :: (front ++ back)) := List.perm_middle
      have hrest : ((front ++ back).map f).Perm rows := by
        have hall := (hmiddle.symm.map f).trans h
        rw [List.map_cons] at hall
        exact hall.cons_inv
      obtain ⟨tagged', hperm, hmap⟩ := ih hrest
      exact ⟨t :: tagged', (hperm.cons t).trans hmiddle.symm, by rw [List.map_cons, hmap]⟩

theorem ranks_map {β : Type} (part : α → κ) (f : β → α) (seen l : List β) :
    ranks (fun b => part (f b)) seen l = ranks part (seen.map f) (l.map f) := by
  induction l generalizing seen with
  | nil => rfl
  | cons b l ih =>
      have hcount : (groupOf (fun b => part (f b)) seen (part (f b))).length =
          (groupOf part (seen.map f) (part (f b))).length := by
        rw [groupOf, groupOf, List.filter_map, List.length_map]
        rfl
      rw [ranks, List.map_cons, ranks, ih, hcount, List.map_append, List.map_singleton]

theorem ranks_injective {κ' : Type} [DecidableEq κ'] (part : α → κ) {f : κ → κ'} (hf : Function.Injective f)
    (seen l : List α) : ranks (fun a => f (part a)) seen l = ranks part seen l := by
  induction l generalizing seen with
  | nil => rfl
  | cons a l ih =>
      have hgroup : groupOf (fun a => f (part a)) seen (f (part a)) = groupOf part seen (part a) :=
        List.filter_congr fun b _ => decide_eq_decide.mpr hf.eq_iff
      rw [ranks, ranks, ih, hgroup]

/-- Rows beside their ranks. -/
theorem zip_ranks (part : α → κ) (l : List α) :
    (l.zip (ranks part [] l)).map Prod.fst = l ∧
      (l.zip (ranks part [] l)).map Prod.snd =
        ranks (fun x => part x.1) [] (l.zip (ranks part [] l)) := by
  have hlen := length_ranks part [] l
  have hfst : (l.zip (ranks part [] l)).map Prod.fst = l := List.map_fst_zip hlen.ge
  refine ⟨hfst, ?_⟩
  rw [List.map_snd_zip hlen.le, ranks_map part Prod.fst, hfst, List.map_nil]

end Windows

/-! ## Rules for results -/

namespace Select

variable {dflt : String → String → Bool} {param : Option Value} {s : Select}
  {rows out selected all : List Row}

theorem selects_grouped (hagg : s.aggregates = true) :
    s.Selects dflt param rows out ↔ (s.groups param (s.kept param rows)).mapM
      (fun g => s.items.mapM (Item.ofGroup param g)) = some out := by
  constructor
  · rintro (⟨-, hout⟩ | ⟨-, hplain, -, -, -⟩)
    · exact hout
    · rw [hagg] at hplain
      exact absurd hplain (by decide)
  · exact .grouped hagg

theorem selects_plain (hagg : s.aggregates = false) :
    s.Selects dflt param rows out ↔ ∃ tagged : List Tagged,
      tagged.map Prod.fst = s.kept param rows ∧ TagsFit dflt s.items tagged ∧
      tagged.mapM (fun t => s.items.mapM (Item.ofRow param (s.kept param rows) t)) = some out := by
  constructor
  · rintro (⟨hgroup, -⟩ | ⟨tagged, -, hrows, htags, hout⟩)
    · rw [hagg] at hgroup
      exact absurd hgroup (by decide)
    · exact ⟨tagged, hrows, htags, hout⟩
  · rintro ⟨tagged, hrows, htags, hout⟩
    exact .plain tagged hagg hrows htags hout

/-- The groups of rows that are made of records, by a key of the records. -/
theorem groups_map {ρ κ : Type} [DecidableEq κ] {key : ρ → κ} {toRow : ρ → Row}
    {f : κ → Option (List Value)} {l : List ρ} (hgroup : s.groupBy ≠ [])
    (hkey : ∀ e ∈ l, s.groupKey param (toRow e) = f (key e))
    (hinj : ∀ a ∈ l, ∀ b ∈ l, f (key a) = f (key b) → key a = key b) :
    s.groups param (l.map toRow) =
      (distinct (l.map key)).map fun k => (groupOf key l k).map toRow := by
  have hkeys : (l.map toRow).map (s.groupKey param) = (l.map key).map f := by
    rw [List.map_map, List.map_map]
    exact List.map_congr_left hkey
  have hkeyInj : ∀ a ∈ l.map key, ∀ b ∈ l.map key, f a = f b → a = b := by
    intro a ha b hb
    obtain ⟨x, hx, rfl⟩ := List.mem_map.mp ha
    obtain ⟨y, hy, rfl⟩ := List.mem_map.mp hb
    exact hinj x hx y hy
  rw [groups, if_neg hgroup, hkeys, distinct_map hkeyInj, List.map_map]
  refine List.map_congr_left fun k hk => ?_
  obtain ⟨x, hx, rfl⟩ := List.mem_map.mp (mem_distinct.mp hk)
  rw [Function.comp_apply, groupOf, List.filter_map]
  refine congrArg (List.map toRow) (List.filter_congr fun e he => ?_)
  rw [Function.comp_apply, hkey e he]
  exact decide_eq_decide.mpr ⟨hinj e he x hx, congrArg f⟩

/-- A statement that counts the records of each key. -/
theorem selects_count {ρ κ : Type} [DecidableEq κ] {key : ρ → κ} {toRow : ρ → Row}
    {f : κ → Option (List Value)} {row : κ × ℕ → Row} {l : List ρ} (hagg : s.aggregates = true)
    (hgroup : s.groupBy ≠ []) (hwhere : s.where? = none)
    (hkey : ∀ e ∈ l, s.groupKey param (toRow e) = f (key e))
    (hinj : ∀ a ∈ l, ∀ b ∈ l, f (key a) = f (key b) → key a = key b)
    (hitems : ∀ e ∈ l, ∀ rest, s.items.mapM (Item.ofGroup param (toRow e :: rest)) =
      some (row (key e, rest.length + 1))) :
    s.Selects dflt param (l.map toRow) out ↔ out = (Library.groupBy key List.length l).map row := by
  have hkept : s.kept param (l.map toRow) = l.map toRow := by
    rw [kept, hwhere]
    exact List.filter_eq_self.mpr fun _ _ => rfl
  have hrows : ((distinct (l.map key)).map fun k => (groupOf key l k).map toRow).map
      (fun g => s.items.mapM (Item.ofGroup param g)) =
      ((Library.groupBy key List.length l).map row).map some := by
    rw [Library.groupBy, List.map_map, List.map_map, List.map_map]
    refine List.map_congr_left fun k hk => ?_
    obtain ⟨x, hx, hxk⟩ := List.mem_map.mp (mem_distinct.mp hk)
    have hin : x ∈ groupOf key l k := List.mem_filter.mpr ⟨hx, decide_eq_true hxk⟩
    obtain ⟨e, rest, hgroup⟩ := List.exists_cons_of_ne_nil (List.ne_nil_of_mem hin)
    have hmem := List.mem_filter.mp (hgroup ▸ List.mem_cons_self : e ∈ groupOf key l k)
    have hlen : (groupOf key l k).length = rest.length + 1 := congrArg List.length hgroup
    have hmap : (groupOf key l k).map toRow = toRow e :: rest.map toRow :=
      congrArg (List.map toRow) hgroup
    simp only [Function.comp_apply]
    rw [hmap, hitems e hmem.1, List.length_map, hlen, of_decide_eq_true hmem.2]
  rw [selects_grouped hagg, hkept, groups_map hgroup hkey hinj, mapM_eq_some, hrows]
  constructor
  · intro h
    exact (List.map_injective_iff.mpr (Option.some_injective _) h).symm
  · rintro rfl
    rfl

/-- Where no two different rows tie there is one result: the rows, sorted, up to the limit. -/
theorem returns_iff_of_sorted
    (hselected : ∀ out, s.Selects dflt param rows out → out.Perm all)
    (hex : s.Selects dflt param rows selected)
    (hsorted : all.Pairwise fun a b => rowLe dflt s.orderBy a b = true)
    (htied : ∀ a ∈ all, ∀ b ∈ all, rowLe dflt s.orderBy a b = true →
      rowLe dflt s.orderBy b a = true → a = b) :
    s.Returns dflt param rows out ↔ out = s.limit.elim all all.take := by
  constructor
  · rintro ⟨chosen, sorted, hchosen, hsort, hpairs, rfl⟩
    have hall : sorted.Perm all := hsort.trans (hselected chosen hchosen)
    have heq : sorted = all := List.Perm.eq_of_pairwise
      (fun a b ha hb => htied a (hall.mem_iff.mp ha) b hb) hpairs hsorted hall
    rw [heq]
  · rintro rfl
    exact ⟨selected, all, hex, (hselected selected hex).symm, hsorted, rfl⟩

/-- Records sorted by a key, each made into a row, where the `ORDER BY` compares by that key. -/
theorem returns_iff_of_key {α γ : Type} [LinearOrder γ] {row : α → Row} {f : α → γ}
    {sorted : List α} (hsorted : sorted.Pairwise fun a b => f a ≤ f b)
    (hle : ∀ a ∈ sorted, ∀ b ∈ sorted, rowLe dflt s.orderBy (row a) (row b) = true ↔ f a ≤ f b)
    (hinj : ∀ a ∈ sorted, ∀ b ∈ sorted, f a = f b → row a = row b)
    (hselected : ∀ out, s.Selects dflt param rows out → out.Perm (sorted.map row))
    (hex : ∃ out, s.Selects dflt param rows out) :
    s.Returns dflt param rows out ↔ out = s.limit.elim (sorted.map row) (sorted.map row).take := by
  obtain ⟨selected, hex⟩ := hex
  refine returns_iff_of_sorted hselected hex ?_ ?_
  · rw [List.pairwise_map]
    exact hsorted.imp_of_mem fun ha hb hab => (hle _ ha _ hb).mpr hab
  · intro a ha b hb hab hba
    obtain ⟨x, hx, rfl⟩ := List.mem_map.mp ha
    obtain ⟨y, hy, rfl⟩ := List.mem_map.mp hb
    exact hinj x hx y hy (le_antisymm ((hle x hx y hy).mp hab) ((hle y hy x hx).mp hba))

/-- Without an `ORDER BY` the rows come in any order. -/
theorem returns_unsorted (horder : s.orderBy = []) (hlimit : s.limit = none) :
    s.Returns dflt param rows out ↔ ∃ selected, s.Selects dflt param rows selected ∧
      out.Perm selected := by
  rw [Returns, horder, hlimit]
  constructor
  · rintro ⟨selected, sorted, hselected, hsort, -, rfl⟩
    exact ⟨selected, hselected, hsort⟩
  · rintro ⟨selected, hselected, hperm⟩
    exact ⟨selected, out, hselected, hperm, List.pairwise_of_forall fun _ _ => rfl, rfl⟩

end Select

end SupabaseLab.Library.Sql
