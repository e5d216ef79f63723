/-
  Library/RowUpdate.lean --- an UPDATE over a keyed table.

  An UPDATE visits every row; `f` refuses the statement, passes a row over, or
  gives its new version.  The updates it made are kept, since triggers that run
  after the statement see each with its old and its new row.
-/
import SupabaseLab.Library.Except
import SupabaseLab.Library.KeyMap

set_option autoImplicit false

namespace SupabaseLab.Library

variable {K V ε : Type}

structure RowUpdate (K V : Type) where
  key : K
  old : V
  new : V
  deriving DecidableEq

/-- The updates of a statement, in the order of the rows. -/
def rowUpdates (f : K → V → Except ε (Option V)) :
    List (K × V) → Except ε (List (RowUpdate K V))
  | [] => .ok []
  | (k, v) :: rest => do
      let r ← f k v
      let us ← rowUpdates f rest
      match r with
      | none => return us
      | some v' => return ⟨k, v, v'⟩ :: us

section Spec

variable {f : K → V → Except ε (Option V)} {rows : List (K × V)} {us : List (RowUpdate K V)}

/-- A row is visited once, and each update is one that `f` made of a row. -/
theorem rowUpdates_ok (h : rowUpdates f rows = .ok us) :
    (us.map RowUpdate.key).Sublist (rows.map Prod.fst) ∧
      ∀ u, u ∈ us ↔ (u.key, u.old) ∈ rows ∧ f u.key u.old = .ok (some u.new) := by
  induction rows generalizing us with
  | nil =>
    cases h
    refine ⟨List.Sublist.refl _, fun u => ?_⟩
    refine ⟨fun hu => absurd hu List.not_mem_nil, fun hu => absurd hu.1 List.not_mem_nil⟩
  | cons e rest ih =>
    obtain ⟨k, v⟩ := e
    obtain ⟨r, hr, h⟩ := bind_eq_ok.mp h
    obtain ⟨tail, htail, h⟩ := bind_eq_ok.mp h
    obtain ⟨hsub, hmem⟩ := ih htail
    cases r with
    | none =>
      cases h
      refine ⟨hsub.cons _, fun u => ?_⟩
      rw [hmem u, List.mem_cons]
      refine ⟨fun hu => ⟨.inr hu.1, hu.2⟩, fun ⟨hin, hf⟩ => ?_⟩
      obtain heq | hin := hin
      · obtain ⟨hk, hv⟩ := Prod.mk.inj heq
        rw [hk, hv, hr] at hf
        cases hf
      · exact ⟨hin, hf⟩
    | some v' =>
      cases h
      refine ⟨hsub.cons_cons _, fun u => ?_⟩
      rw [List.mem_cons, hmem u, List.mem_cons]
      refine ⟨fun hu => ?_, fun ⟨hin, hf⟩ => ?_⟩
      · obtain rfl | hu := hu
        · exact ⟨.inl rfl, hr⟩
        · exact ⟨.inr hu.1, hu.2⟩
      · obtain heq | hin := hin
        · obtain ⟨hk, hv⟩ := Prod.mk.inj heq
          rw [hk, hv, hr] at hf
          refine .inl ?_
          obtain ⟨key, old, new⟩ := u
          cases heq
          cases hf
          rfl
        · exact .inr ⟨hin, hf⟩

end Spec

namespace KeyMap

variable [DecidableEq K]

/-- The table after the updates. -/
def applyUpdates (m : KeyMap K V) (us : List (RowUpdate K V)) : KeyMap K V :=
  us.foldl (fun m u => m.set u.key u.new) m

variable {f : K → V → Except ε (Option V)} {m : KeyMap K V} {us : List (RowUpdate K V)}

theorem applyUpdates_eq :
    m.applyUpdates us = (us.map fun u => (u.key, u.new)).foldl (fun m e => m.set e.1 e.2) m := by
  unfold applyUpdates
  rw [List.foldl_map]

/-- After an UPDATE a key holds what `f` made of its row, or what it held. -/
theorem get?_applyUpdates (h : rowUpdates f m.entries = .ok us) (k : K) :
    (∃ u ∈ us, u.key = k ∧ m.get? k = some u.old ∧ f k u.old = .ok (some u.new) ∧
      (m.applyUpdates us).get? k = some u.new) ∨
    k ∉ us.map RowUpdate.key ∧ (m.applyUpdates us).get? k = m.get? k := by
  obtain ⟨hsub, hmem⟩ := rowUpdates_ok h
  have hkeys : (us.map fun u => (u.key, u.new)).map Prod.fst = us.map RowUpdate.key := by
    rw [List.map_map]
    rfl
  rw [applyUpdates_eq]
  by_cases hk : k ∈ us.map RowUpdate.key
  · obtain ⟨u, hu, rfl⟩ := List.mem_map.mp hk
    obtain ⟨hin, hf⟩ := (hmem u).mp hu
    refine .inl ⟨u, hu, rfl, mem_entries.mp hin, hf, get?_foldl_set_of_mem ?_ ?_⟩
    · rw [hkeys]
      exact m.nodup.sublist hsub
    · exact List.mem_map.mpr ⟨u, hu, rfl⟩
  · refine .inr ⟨hk, get?_foldl_set_of_not_mem ?_⟩
    rw [hkeys]
    exact hk

end KeyMap

end SupabaseLab.Library
