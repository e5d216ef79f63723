/-
  Library/JsMap.lean --- the `Map` of JavaScript, with its insertion order.

  Setting a present key keeps its place, a new key goes to the end, and a
  deleted key that comes back goes to the end again.
-/
import Mathlib

set_option autoImplicit false

namespace SupabaseLab.Library

/-- The entries of a `Map`, oldest key first. -/
abbrev JsMap (K V : Type) := List (K × V)

namespace JsMap

variable {K V : Type} [DecidableEq K]

def get? (m : JsMap K V) (k : K) : Option V := List.lookup k m

def has (m : JsMap K V) (k : K) : Bool := (m.get? k).isSome

def set (m : JsMap K V) (k : K) (v : V) : JsMap K V :=
  if m.has k then m.map fun e => if e.1 = k then (k, v) else e else m ++ [(k, v)]

def delete (m : JsMap K V) (k : K) : JsMap K V := m.filter fun e => e.1 ≠ k

@[simp] theorem get?_nil (k : K) : get? ([] : JsMap K V) k = none := rfl

theorem get?_cons (k' : K) (v : V) (m : JsMap K V) (k : K) :
    get? ((k', v) :: m) k = if k = k' then some v else get? m k := by
  by_cases h : k = k'
  · simp [get?, h]
  · simp [get?, h, List.lookup_cons, beq_eq_false_iff_ne.mpr h]

theorem get?_append (m m' : JsMap K V) (k : K) :
    get? (m ++ m') k = (get? m k).or (get? m' k) := by
  induction m with
  | nil => rfl
  | cons e m ih =>
    obtain ⟨k', v⟩ := e
    rw [List.cons_append, get?_cons, get?_cons, ih]
    split
    · rfl
    · rfl

theorem get?_overwrite (m : JsMap K V) (k : K) (v : V) (k' : K) :
    get? (m.map fun e => if e.1 = k then (k, v) else e) k' =
      if k' = k then (get? m k).map fun _ => v else get? m k' := by
  induction m with
  | nil => simp
  | cons e m ih =>
    obtain ⟨k₀, v₀⟩ := e
    rw [List.map_cons, get?_cons k₀, get?_cons k₀]
    by_cases h₀ : k₀ = k
    · subst h₀
      rw [if_pos rfl, get?_cons, ih]
      by_cases h : k' = k₀
      · simp [h]
      · simp [h]
    · rw [if_neg h₀, get?_cons, ih]
      by_cases h : k' = k
      · subst h
        have hne : k' ≠ k₀ := fun hk => h₀ hk.symm
        simp [hne]
      · simp [h]

theorem get?_set (m : JsMap K V) (k : K) (v : V) (k' : K) :
    (m.set k v).get? k' = if k' = k then some v else m.get? k' := by
  rw [set, has]
  cases hk : m.get? k with
  | some w =>
      rw [Option.isSome_some, if_pos rfl, get?_overwrite, hk]
      rfl
  | none =>
      rw [Option.isSome_none, if_neg (by decide), get?_append, get?_cons, get?_nil]
      by_cases h : k' = k
      · rw [if_pos h, if_pos h, h, hk]
        rfl
      · rw [if_neg h, if_neg h, Option.or_none]

theorem get?_delete (m : JsMap K V) (k k' : K) :
    (m.delete k).get? k' = if k' = k then none else m.get? k' := by
  induction m with
  | nil => simp [delete]
  | cons e m ih =>
    obtain ⟨k₀, v₀⟩ := e
    rw [delete, List.filter_cons]
    by_cases h₀ : k₀ = k
    · subst h₀
      rw [if_neg (by simp)]
      rw [delete] at ih
      rw [ih, get?_cons]
      by_cases h : k' = k₀
      · simp [h]
      · simp [h]
    · rw [if_pos (by simpa using h₀), get?_cons, get?_cons]
      rw [delete] at ih
      rw [ih]
      by_cases h : k' = k₀
      · subst h
        simp [h₀]
      · simp [h]

end JsMap

end SupabaseLab.Library
