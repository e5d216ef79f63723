/-
  Library/Slice.lean --- half-open slices of lists, tilings, and block layouts.

  `slice l a b` is the typed-array window `l.subarray(a, b)`: both ends are
  clamped to the list, and a window that ends before it starts is empty.

  Two ways of laying a list out in numbered pieces are used everywhere else.
  A *tiling* cuts one list at multiples of a fixed width (the last tile may be
  short).  A *block layout* goes the other way: it joins blocks of any lengths,
  and block `i` starts where the blocks before it end.
-/
import Mathlib

set_option autoImplicit false

namespace SupabaseLab.Library

variable {α : Type}

/-! ## Slices -/

/-- The elements of `l` at positions `a`, ..., `b - 1`, as far as they exist. -/
def slice (l : List α) (a b : Nat) : List α := (l.take b).drop a

@[simp] theorem length_slice (l : List α) (a b : Nat) :
    (slice l a b).length = min b l.length - a := by
  simp [slice]

theorem length_slice_of_le {l : List α} {a b : Nat} (hb : b ≤ l.length) :
    (slice l a b).length = b - a := by
  rw [length_slice, Nat.min_eq_left hb]

@[simp] theorem slice_zero_length (l : List α) : slice l 0 l.length = l := by
  simp [slice]

theorem slice_eq_nil {l : List α} {a b : Nat} (h : b ≤ a) : slice l a b = [] := by
  apply List.eq_nil_of_length_eq_zero
  rw [length_slice]
  omega

theorem getElem?_slice (l : List α) (a b i : Nat) :
    (slice l a b)[i]? = if a + i < b then l[a + i]? else none := by
  rw [slice, List.getElem?_drop, List.getElem?_take]

/-- An end beyond the list is the same as the end of the list. -/
theorem slice_min_length (l : List α) (a b : Nat) :
    slice l a (min b l.length) = slice l a b := by
  apply List.ext_getElem?
  intro i
  rw [getElem?_slice, getElem?_slice]
  by_cases hb : a + i < b
  · by_cases hl : a + i < l.length
    · rw [if_pos hb, if_pos (by omega)]
    · rw [if_pos hb, if_neg (by omega), List.getElem?_eq_none (by omega)]
  · rw [if_neg hb, if_neg (by omega)]

/-- Adjacent slices join. -/
theorem slice_append_slice {l : List α} {a b c : Nat} (hab : a ≤ b) (hbc : b ≤ c) :
    slice l a b ++ slice l b c = slice l a c := by
  have hb : l.take b = (l.take c).take b := by
    rw [List.take_take, Nat.min_eq_left hbc]
  by_cases ha : a ≤ (l.take b).length
  · calc slice l a b ++ slice l b c
        = (l.take b).drop a ++ (l.take c).drop b := rfl
      _ = ((l.take b) ++ (l.take c).drop b).drop a := by
          rw [List.drop_append_of_le_length ha]
      _ = (((l.take c).take b) ++ (l.take c).drop b).drop a := by rw [← hb]
      _ = slice l a c := by rw [List.take_append_drop, slice]
  · -- the list ends before `a`: every slice here is empty
    have hl : l.length < a := by
      rw [List.length_take] at ha
      omega
    have hempty : ∀ x y : Nat, a ≤ x → slice l x y = [] := by
      intro x y hx
      apply List.eq_nil_of_length_eq_zero
      rw [length_slice]
      omega
    rw [hempty a b (Nat.le_refl a), hempty b c hab, hempty a c (Nat.le_refl a), List.nil_append]

theorem slice_slice (l : List α) (a b c d : Nat) :
    slice (slice l a b) c d = slice l (a + c) (min b (a + d)) := by
  apply List.ext_getElem?
  intro i
  rw [getElem?_slice, getElem?_slice, getElem?_slice]
  by_cases hd : c + i < d
  · by_cases hb : a + (c + i) < b
    · rw [if_pos hd, if_pos hb, if_pos (by omega), Nat.add_assoc]
    · rw [if_pos hd, if_neg hb, if_neg (by omega)]
  · rw [if_neg hd, if_neg (by omega)]

/-- The middle of three joined lists is the slice between the joints. -/
theorem slice_append_middle (p q r : List α) :
    slice (p ++ q ++ r) p.length (p.length + q.length) = q := by
  rw [slice, List.take_append_of_le_length (by rw [List.length_append]),
    List.take_of_length_le (by rw [List.length_append]), List.drop_left]

/-! ## Tilings -/

/-- Tile `i` of `l` when `l` is cut at the multiples of `c`. -/
def tile (c : Nat) (l : List α) (i : Nat) : List α := slice l (i * c) ((i + 1) * c)

theorem length_tile (c : Nat) (l : List α) (i : Nat) :
    (tile c l i).length = min c (l.length - i * c) := by
  rw [tile, length_slice, Nat.succ_mul]
  omega

theorem getElem?_tile {c : Nat} {l : List α} {i j : Nat} (hj : j < c) :
    (tile c l i)[j]? = l[i * c + j]? := by
  rw [tile, getElem?_slice, if_pos]
  rw [Nat.succ_mul]
  omega

/-- Consecutive tiles join to one slice. -/
theorem flatMap_tile (c : Nat) (l : List α) (first n : Nat) :
    (List.range' first n).flatMap (tile c l) = slice l (first * c) ((first + n) * c) := by
  induction n with
  | zero => simp [slice_eq_nil]
  | succ n ih =>
    rw [List.range'_concat, List.flatMap_append, ih, Nat.one_mul, List.flatMap_singleton, tile,
      slice_append_slice (Nat.mul_le_mul_right c (Nat.le_add_right first n))
        (Nat.mul_le_mul_right c (Nat.le_add_right _ 1)), Nat.add_assoc]

/-- Enough tiles give the whole list back. -/
theorem flatMap_tile_range {c : Nat} {l : List α} {n : Nat} (h : l.length ≤ n * c) :
    (List.range n).flatMap (tile c l) = l := by
  rw [List.range_eq_range', flatMap_tile, Nat.zero_add, Nat.zero_mul, ← slice_min_length,
    Nat.min_eq_right h, slice_zero_length]

/-! ## Block layouts -/

/-- Where block `i` starts when the blocks `f 0`, `f 1`, ... are joined. -/
def blockStart (f : Nat → List α) (i : Nat) : Nat := ((List.range i).flatMap f).length

@[simp] theorem blockStart_zero (f : Nat → List α) : blockStart f 0 = 0 := rfl

theorem blockStart_succ (f : Nat → List α) (i : Nat) :
    blockStart f (i + 1) = blockStart f i + (f i).length := by
  simp [blockStart, List.range_succ]

/-- Blocks of one width start at its multiples. -/
theorem blockStart_of_width {f : Nat → List α} {w i : Nat}
    (hw : ∀ j, j < i → (f j).length = w) : blockStart f i = i * w := by
  induction i with
  | zero => simp
  | succ i ih =>
    rw [blockStart_succ, ih (fun j hj => hw j (by omega)), hw i (by omega), Nat.succ_mul]

/-- The numbers below `i + k` are those below `i` and then `k` more. -/
theorem range_add_eq (i k : Nat) : List.range (i + k) = List.range i ++ List.range' i k := by
  rw [List.range_eq_range', List.range_eq_range', ← List.range'_append_1, Nat.zero_add]

/-- The joined blocks, cut between the starts of blocks `i` and `i + k`, are the
blocks `i`, ..., `i + k - 1`. -/
theorem slice_blocks (f : Nat → List α) {i k n : Nat} (h : i + k ≤ n) :
    slice ((List.range n).flatMap f) (blockStart f i) (blockStart f (i + k)) =
      (List.range' i k).flatMap f := by
  obtain ⟨rest, rfl⟩ := Nat.exists_eq_add_of_le h
  have hstop : blockStart f (i + k) =
      ((List.range i).flatMap f).length + ((List.range' i k).flatMap f).length := by
    rw [blockStart, range_add_eq, List.flatMap_append, List.length_append]
  rw [range_add_eq, range_add_eq, List.flatMap_append, List.flatMap_append, hstop]
  exact slice_append_middle _ _ _

/-- A list that has each of the blocks in its place starts with the joined blocks. -/
theorem slice_eq_blocks {f : Nat → List α} {l : List α} {n : Nat}
    (h : ∀ i < n, slice l (blockStart f i) (blockStart f (i + 1)) = f i) :
    slice l 0 (blockStart f n) = (List.range n).flatMap f := by
  induction n with
  | zero => rfl
  | succ n ih =>
    have hle : blockStart f n ≤ blockStart f (n + 1) := by
      rw [blockStart_succ]
      omega
    rw [← slice_append_slice (Nat.zero_le _) hle, ih fun i hi => h i (by omega), h n (by omega),
      List.range_succ, List.flatMap_append, List.flatMap_singleton]

end SupabaseLab.Library
