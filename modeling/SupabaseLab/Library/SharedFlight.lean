/-
  Library/SharedFlight.lean --- work in flight, shared through a cell.

  Asynchronous work is a list of flights, oldest first.  A cell holds, under each
  key, the flight that later callers are to share; it is set when a flight starts
  and cleared when the flight is over.  `Tracks` is what such a cell has to keep:
  it holds the live flight of its key and nothing else, so a key has one live
  flight at most.
-/
import Mathlib

set_option autoImplicit false

namespace SupabaseLab.Library

variable {κ φ : Type} {key : φ → κ} {live : φ → Prop} {flights : List φ}
  {cell cell' : κ → Option Nat} {i j : Nat} {f f' : φ} {k : κ}

/-! ## Lists of flights -/

/-- An entry of a list with one more is an old entry or the new one. -/
theorem getElem?_concat_cases (h : (flights ++ [f])[i]? = some f') :
    flights[i]? = some f' ∨ i = flights.length ∧ f' = f := by
  rw [List.getElem?_append] at h
  split at h
  · exact .inl h
  · obtain ⟨hlen, hget⟩ := List.getElem?_eq_some_iff.mp h
    rw [List.getElem_singleton] at hget
    rw [List.length_singleton] at hlen
    exact .inr ⟨by omega, hget.symm⟩

/-- An entry of a list with one changed is an old entry or the changed one. -/
theorem getElem?_set_cases (h : (flights.set i f)[j]? = some f') :
    j ≠ i ∧ flights[j]? = some f' ∨ j = i ∧ f' = f := by
  rw [List.getElem?_set] at h
  split at h
  · rename_i hij
    split at h
    · exact .inr ⟨hij.symm, (Option.some.inj h).symm⟩
    · cases h
  · rename_i hij
    exact .inl ⟨fun hji => hij hji.symm, h⟩

theorem getElem?_concat_of_some (h : flights[i]? = some f) (f' : φ) :
    (flights ++ [f'])[i]? = some f := by
  obtain ⟨hlen, -⟩ := List.getElem?_eq_some_iff.mp h
  rw [List.getElem?_append_left hlen]
  exact h

/-! ## The cell -/

/-- Under each key the cell holds the live flight of that key, if there is one. -/
def Tracks (key : φ → κ) (live : φ → Prop) (flights : List φ) (cell : κ → Option Nat) : Prop :=
  ∀ k i, cell k = some i ↔ ∃ f, flights[i]? = some f ∧ key f = k ∧ live f

theorem Tracks.nil : Tracks key live [] fun _ => none := by
  intro k i
  simp

section

variable (h : Tracks key live flights cell)

include h

/-- Two live flights of one key are the same flight. -/
theorem Tracks.unique (hi : flights[i]? = some f) (hj : flights[j]? = some f')
    (hkey : key f = key f') (hf : live f) (hf' : live f') : i = j := by
  have hcell : cell (key f') = some i := (h _ i).mpr ⟨f, hi, hkey, hf⟩
  have hcell' : cell (key f') = some j := (h _ j).mpr ⟨f', hj, rfl, hf'⟩
  exact Option.some.inj (hcell.symm.trans hcell')

/-- A flight may start under a key whose cell is empty. -/
theorem Tracks.start [DecidableEq κ] (hkey : key f = k) (hlive : live f) (hempty : cell k = none)
    (hcell : ∀ k', cell' k' = if k' = k then some flights.length else cell k') :
    Tracks key live (flights ++ [f]) cell' := by
  intro k' i
  rw [hcell]
  split
  · rename_i hk
    subst hk
    constructor
    · intro hi
      cases hi
      exact ⟨f, List.getElem?_concat_length, hkey, hlive⟩
    · rintro ⟨g, hget, hkey', hg⟩
      obtain hold | ⟨rfl, -⟩ := getElem?_concat_cases hget
      · have hcell' := (h k' i).mpr ⟨g, hold, hkey', hg⟩
        rw [hempty] at hcell'
        cases hcell'
      · rfl
  · rename_i hk
    rw [h k' i]
    constructor
    · rintro ⟨g, hget, hkey', hg⟩
      exact ⟨g, getElem?_concat_of_some hget f, hkey', hg⟩
    · rintro ⟨g, hget, hkey', hg⟩
      obtain hold | ⟨-, rfl⟩ := getElem?_concat_cases hget
      · exact ⟨g, hold, hkey', hg⟩
      · exact absurd (hkey'.symm.trans hkey) hk

/-- A flight may go on without telling the cell. -/
theorem Tracks.goesOn (hget : flights[i]? = some f) (hkey : key f' = key f)
    (hlive : live f' ↔ live f) : Tracks key live (flights.set i f') cell := by
  intro k j
  rw [h k j, List.getElem?_set]
  obtain ⟨hlen, -⟩ := List.getElem?_eq_some_iff.mp hget
  by_cases hij : i = j
  · subst hij
    rw [if_pos rfl, if_pos hlen, hget]
    constructor
    · rintro ⟨g, hg, hkey', hgl⟩
      cases hg
      exact ⟨f', rfl, hkey.trans hkey', hlive.mpr hgl⟩
    · rintro ⟨g, hg, hkey', hgl⟩
      cases hg
      exact ⟨f, rfl, hkey.symm.trans hkey', hlive.mp hgl⟩
  · rw [if_neg hij]

/-- A flight that is over leaves its cell empty. -/
theorem Tracks.lands [DecidableEq κ] (hget : flights[i]? = some f) (hlive : live f)
    (hover : ¬ live f')
    (hcell : ∀ k', cell' k' = if k' = key f then none else cell k') :
    Tracks key live (flights.set i f') cell' := by
  intro k j
  rw [hcell, List.getElem?_set]
  obtain ⟨hlen, -⟩ := List.getElem?_eq_some_iff.mp hget
  by_cases hij : i = j
  · subst hij
    rw [if_pos rfl, if_pos hlen]
    constructor
    · intro hk
      split at hk
      · cases hk
      · rename_i hne
        obtain ⟨g, hg, hkey', -⟩ := (h k i).mp hk
        rw [hget] at hg
        cases hg
        exact absurd hkey'.symm hne
    · rintro ⟨g, hg, -, hgl⟩
      cases hg
      exact absurd hgl hover
  · rw [if_neg hij]
    split
    · rename_i hk
      constructor
      · intro hnone
        cases hnone
      · rintro ⟨g, hg, hkey', hgl⟩
        exact absurd (h.unique hget hg (hkey'.trans hk).symm hlive hgl) hij
    · exact h k j

end

end SupabaseLab.Library
