/-
  Library/Aggregate.lean --- `group by` and `sum`.

  `sum` passes over nulls, and is null where there is nothing else.  A group is
  named by its key, and null is a key like any other.
-/
import SupabaseLab.Library.JsString
import SupabaseLab.Library.KeyMap

set_option autoImplicit false

namespace SupabaseLab.Library

/-! ## Sums -/

section Sums

variable {N : Type} [AddCommSemigroup N]

/-- One more value for `sum`. -/
def addNullable : Option N → Option N → Option N
  | none, b => b
  | some a, none => some a
  | some a, some b => some (a + b)

/-- `sum(…)`. -/
def sumNullable (values : List (Option N)) : Option N := values.foldl addNullable none

theorem addNullable_comm (a b : Option N) : addNullable a b = addNullable b a := by
  cases a with
  | none => cases b <;> rfl
  | some a =>
    cases b with
    | none => rfl
    | some b => exact congrArg some (add_comm a b)

theorem addNullable_assoc (a b c : Option N) :
    addNullable (addNullable a b) c = addNullable a (addNullable b c) := by
  cases a with
  | none => rfl
  | some a =>
    cases b with
    | none => rfl
    | some b =>
      cases c with
      | none => rfl
      | some c => exact congrArg some (add_assoc a b c)

/-- The order of the rows does not matter to `sum`. -/
theorem sumNullable_perm {l l' : List (Option N)} (h : l.Perm l') :
    sumNullable l = sumNullable l' := by
  have : RightCommutative (addNullable : Option N → Option N → Option N) :=
    ⟨fun a b c => by rw [addNullable_assoc, addNullable_comm b c, ← addNullable_assoc]⟩
  exact h.foldl_eq none

end Sums

/-! ## Groups -/

section Groups

variable {ρ κ ν : Type} [DecidableEq κ] {key : ρ → κ} {agg : List ρ → ν} {rows rows' : List ρ}
  {k : κ}

/-- The rows of one group. -/
def groupOf (key : ρ → κ) (rows : List ρ) (k : κ) : List ρ := rows.filter fun r => key r = k

/-- `select key, agg(…) from rows group by key`. -/
def groupBy (key : ρ → κ) (agg : List ρ → ν) (rows : List ρ) : List (κ × ν) :=
  (distinct (rows.map key)).map fun k => (k, agg (groupOf key rows k))

theorem mem_groupBy {v : ν} :
    (k, v) ∈ groupBy key agg rows ↔ k ∈ rows.map key ∧ v = agg (groupOf key rows k) := by
  unfold groupBy
  rw [List.mem_map]
  constructor
  · rintro ⟨k', hk', heq⟩
    obtain ⟨rfl, rfl⟩ := Prod.mk.inj heq
    exact ⟨mem_distinct.mp hk', rfl⟩
  · rintro ⟨hk, rfl⟩
    exact ⟨k, mem_distinct.mpr hk, rfl⟩

theorem groupBy_keys : (groupBy key agg rows).map Prod.fst = distinct (rows.map key) := by
  unfold groupBy
  rw [List.map_map]
  exact List.map_id _

theorem groupBy_nodup : ((groupBy key agg rows).map Prod.fst).Nodup := by
  rw [groupBy_keys]
  exact nodup_distinct _

/-- Keys that are renamed one to one stay distinct. -/
theorem distinct_map {κ' : Type} [DecidableEq κ'] {f : κ → κ'} {l : List κ}
    (hinj : ∀ a ∈ l, ∀ b ∈ l, f a = f b → a = b) : distinct (l.map f) = (distinct l).map f := by
  induction l with
  | nil => rfl
  | cons a l ih =>
      have hrest := ih fun b hb c hc => hinj b (List.mem_cons_of_mem _ hb) c (List.mem_cons_of_mem _ hc)
      rw [List.map_cons, distinct, distinct, hrest, List.map_cons, List.filter_map]
      refine congrArg (f a :: List.map f ·) (List.filter_congr fun b hb => ?_)
      have hmem : b ∈ a :: l := List.mem_cons_of_mem _ (mem_distinct.mp hb)
      exact decide_eq_decide.mpr
        ⟨fun hne heq => hne (congrArg f heq), fun hne heq => hne (hinj b hmem a List.mem_cons_self heq)⟩

/-! ### Groups collected in a map -/

/-- A map filled row by row; a row changes the value of its key, which is `dflt` at first. -/
def collect (key : ρ → κ) (step : ν → ρ → ν) (dflt : ν) (rows : List ρ) : KeyMap κ ν :=
  rows.foldl (fun m r => m.set (key r) (step ((m.get? (key r)).getD dflt) r)) .empty

variable {step : ν → ρ → ν} {dflt : ν}

theorem groupOf_concat (key : ρ → κ) (rows : List ρ) (r : ρ) (k : κ) :
    groupOf key (rows ++ [r]) k = groupOf key rows k ++ if key r = k then [r] else [] := by
  rw [groupOf, List.filter_append]
  by_cases h : key r = k <;> simp [h, groupOf]

theorem groupOf_eq_nil {k : κ} (h : k ∉ rows.map key) : groupOf key rows k = [] := by
  refine List.filter_eq_nil_iff.mpr fun r hr heq => h ?_
  exact List.mem_map.mpr ⟨r, hr, of_decide_eq_true heq⟩

theorem get?_collect (k : κ) : (collect key step dflt rows).get? k =
    if k ∈ rows.map key then some ((groupOf key rows k).foldl step dflt) else none := by
  induction rows using List.reverseRecOn generalizing k with
  | nil => rfl
  | append_singleton rows r ih =>
      have hlast : collect key step dflt (rows ++ [r]) = (collect key step dflt rows).set (key r)
          (step (((collect key step dflt rows).get? (key r)).getD dflt) r) := List.foldl_concat ..
      -- a key that is new has had no rows
      have hvalue : ((collect key step dflt rows).get? (key r)).getD dflt =
          (groupOf key rows (key r)).foldl step dflt := by
        rw [ih]
        split
        · rfl
        · rename_i hnew
          rw [groupOf_eq_nil hnew]
          rfl
      rw [hlast, KeyMap.get?_set, hvalue, groupOf_concat, List.map_append, List.map_singleton]
      by_cases hk : k = key r
      · subst hk
        rw [if_pos rfl, if_pos (List.mem_append_right _ List.mem_cons_self), if_pos rfl,
          List.foldl_append]
        rfl
      · have hne : ¬ key r = k := fun heq => hk heq.symm
        rw [if_neg hk, if_neg hne, List.append_nil, ih]
        simp [hk]

theorem collect_perm (key : ρ → κ) (step : ν → ρ → ν) (dflt : ν) (rows : List ρ) :
    (collect key step dflt rows).entries.Perm
      (groupBy key (fun group => group.foldl step dflt) rows) := by
  refine (List.perm_ext_iff_of_nodup (List.Nodup.of_map _ (collect key step dflt rows).nodup)
    (List.Nodup.of_map _ groupBy_nodup)).mpr ?_
  rintro ⟨k, v⟩
  rw [KeyMap.mem_entries, mem_groupBy, get?_collect]
  by_cases hk : k ∈ rows.map key
  · rw [if_pos hk, Option.some_inj, and_iff_right hk, eq_comm]
  · rw [if_neg hk]
    simp [hk]

end Groups

/-! ## Rows that are all taken, or none -/

section Rows

variable {α β : Type} {f : α → Option β} {l : List α} {l' : List β}

theorem mapM_eq_some : l.mapM f = some l' ↔ l.map f = l'.map some := by
  induction l generalizing l' with
  | nil =>
    rw [List.mapM_nil]
    cases l' <;> simp
  | cons a l ih =>
    rw [List.mapM_cons, List.map_cons]
    cases ha : f a with
    | none => cases l' <;> simp
    | some b =>
      cases l' with
      | nil => simp [Option.bind_eq_some_iff]
      | cons b' l' => simp [Option.bind_eq_some_iff, ih, and_comm]

theorem exists_mapM_eq_some : (∃ l', l.mapM f = some l') ↔ ∀ a ∈ l, (f a).isSome = true := by
  induction l with
  | nil => simp
  | cons a l ih =>
    rw [List.mapM_cons, List.forall_mem_cons, ← ih]
    cases ha : f a with
    | none => simp
    | some b => simp [Option.bind_eq_some_iff]

end Rows

end SupabaseLab.Library
