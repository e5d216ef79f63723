/-
  Library/Occurrences.lean --- where one list stands in another, and counting it
  in pieces.

  Occurrences may overlap.  One that is not in `l` but is in `l ++ u` ends beyond
  `l`, so it starts in the last `needle.length - 1` elements of `l`: a reader that
  carries these over to the next piece misses none, and counts none twice.
-/
import Mathlib

set_option autoImplicit false

namespace SupabaseLab.Library

variable {α : Type} [DecidableEq α] {needle l u : List α} {i : Nat}

/-- The positions at which `needle` stands in `l`. -/
def occurrences (needle l : List α) : Finset Nat :=
  (Finset.range (l.length + 1)).filter fun i => needle <+: l.drop i

theorem mem_occurrences (h : needle ≠ []) : i ∈ occurrences needle l ↔ needle <+: l.drop i := by
  rw [occurrences, Finset.mem_filter, Finset.mem_range, and_iff_right_iff_imp]
  intro hprefix
  by_contra hbeyond
  rw [List.drop_eq_nil_of_le (by omega)] at hprefix
  exact h (List.prefix_nil.mp hprefix)

/-- An occurrence lies in the list. -/
theorem add_length_le_of_mem_occurrences (h : needle ≠ []) (hi : i ∈ occurrences needle l) :
    i + needle.length ≤ l.length := by
  have hlen := ((mem_occurrences h).mp hi).length_le
  have hpos := List.length_pos_iff.mpr h
  rw [List.length_drop] at hlen
  omega

/-- The first element of the needle stands where the needle does. -/
theorem getElem?_of_mem_occurrences (h : needle ≠ []) (hi : i ∈ occurrences needle l) :
    l[i]? = needle[0]? := by
  obtain ⟨rest, hrest⟩ := (mem_occurrences h).mp hi
  have hpos := List.length_pos_iff.mpr h
  rw [← List.getElem?_append_left hpos, hrest, List.getElem?_drop, Nat.add_zero]

/-- The elements that an occurrence that is still to be completed can start at. -/
def carried (needle l : List α) : List α := l.drop (l.length - (needle.length - 1))

omit [DecidableEq α] in
theorem carried_append_eq : carried needle l ++ u = (l ++ u).drop (l.length - (needle.length - 1)) := by
  rw [carried, List.drop_append_of_le_length (by omega)]

omit [DecidableEq α] in
/-- What is carried over from a list is carried over from what was carried. -/
theorem carried_carried_append : carried needle (carried needle l ++ u) = carried needle (l ++ u) := by
  rw [carried_append_eq, carried, carried, List.drop_drop, List.length_drop, List.length_append]
  congr 1
  omega

/-- An occurrence in the longer list that ends in the shorter one is one of it. -/
theorem mem_occurrences_append_iff (h : needle ≠ []) (hi : i + needle.length ≤ l.length) :
    i ∈ occurrences needle (l ++ u) ↔ i ∈ occurrences needle l := by
  rw [mem_occurrences h, mem_occurrences h, List.drop_append_of_le_length (by omega)]
  constructor
  · intro hlong
    refine List.prefix_of_prefix_length_le hlong (List.prefix_append _ _) ?_
    rw [List.length_drop]
    omega
  · intro hshort
    exact hshort.trans (List.prefix_append _ _)

/-- **Counting in pieces.**  What is in the longer list is in the shorter one, or is found
behind what was carried over from it. -/
theorem card_occurrences_append (h : needle ≠ []) :
    (occurrences needle (l ++ u)).card =
      (occurrences needle l).card + (occurrences needle (carried needle l ++ u)).card := by
  have hpos := List.length_pos_iff.mpr h
  let k := l.length - (needle.length - 1)
  have hearly : (occurrences needle (l ++ u)).filter (· < k) = occurrences needle l := by
    ext i
    rw [Finset.mem_filter]
    constructor
    · rintro ⟨hi, hlt⟩
      exact (mem_occurrences_append_iff h (by omega)).mp hi
    · intro hi
      have hin := add_length_le_of_mem_occurrences h hi
      exact ⟨(mem_occurrences_append_iff h hin).mpr hi, by omega⟩
  have hlate : (occurrences needle (l ++ u)).filter (¬ · < k) =
      (occurrences needle (carried needle l ++ u)).map (addLeftEmbedding k) := by
    ext i
    rw [Finset.mem_filter, Finset.mem_map]
    constructor
    · rintro ⟨hi, hge⟩
      refine ⟨i - k, ?_, ?_⟩
      · rw [mem_occurrences h, carried_append_eq, List.drop_drop, Nat.add_sub_cancel' (by omega)]
        exact (mem_occurrences h).mp hi
      · exact Nat.add_sub_cancel' (by omega)
    · rintro ⟨j, hj, rfl⟩
      rw [mem_occurrences h, carried_append_eq, List.drop_drop] at hj
      exact ⟨(mem_occurrences h).mpr hj, Nat.not_lt.mpr (Nat.le_add_right k j)⟩
  rw [← Finset.card_filter_add_card_filter_not (s := occurrences needle (l ++ u)) (· < k), hearly, hlate,
    Finset.card_map]

end SupabaseLab.Library
