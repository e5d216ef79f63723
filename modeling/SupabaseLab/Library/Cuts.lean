/-
  Library/Cuts.lean --- a text, the matches in it, and the pieces between them.

  Matches lie in a text from left to right, none is empty and none overlaps the next.
  Where a match begins can be told from the lengths of the pieces up to it and of the
  matches before it.  Rows that are numbered in order give those lengths as window sums.
-/
import SupabaseLab.Library.Slice

set_option autoImplicit false

namespace SupabaseLab.Library

variable {α : Type}

/-! ## Matches in order -/

/-- Stretches that follow one another from a position on, up to the end of a text. -/
def Apart (length : Nat) : Nat → List (Nat × Nat) → Prop
  | i, [] => i ≤ length
  | i, s :: rest => i ≤ s.1 ∧ s.1 < s.2 ∧ Apart length s.2 rest

instance decidableApart (length : Nat) : ∀ i spans, Decidable (Apart length i spans)
  | i, [] => inferInstanceAs (Decidable (i ≤ length))
  | i, s :: rest =>
      have := decidableApart length s.2 rest
      inferInstanceAs (Decidable (i ≤ s.1 ∧ s.1 < s.2 ∧ Apart length s.2 rest))

/-- The matches in a text, each from its first place to the place behind it. -/
structure Cuts (text : List α) where
  spans : List (Nat × Nat)
  apart : Apart text.length 0 spans

/-- The pieces from a position on that the stretches leave. -/
def piecesFrom (text : List α) : Nat → List (Nat × Nat) → List (List α)
  | i, [] => [text.drop i]
  | i, s :: rest => slice text i s.1 :: piecesFrom text s.2 rest

namespace Cuts

variable {text : List α}

/-- The texts of the matches. -/
def matched (c : Cuts text) : List (List α) := c.spans.map fun s => slice text s.1 s.2

/-- The texts before, between and after the matches. -/
def pieces (c : Cuts text) : List (List α) := piecesFrom text 0 c.spans

end Cuts

section Apart

variable {text : List α} {i k : Nat} {s : Nat × Nat} {spans : List (Nat × Nat)} {length : Nat}

theorem Apart.le (h : Apart length i spans) : i ≤ length := by
  induction spans generalizing i with
  | nil => exact h
  | cons s rest ih => exact h.1.trans (h.2.1.le.trans (ih h.2.2))

theorem Apart.mono {j : Nat} (h : Apart length i spans) (hji : j ≤ i) : Apart length j spans := by
  cases spans with
  | nil => exact hji.trans h
  | cons s rest => exact ⟨hji.trans h.1, h.2⟩

theorem Apart.mem (h : Apart length i spans) (hs : s ∈ spans) : i ≤ s.1 ∧ s.1 < s.2 ∧ s.2 ≤ length := by
  induction spans generalizing i with
  | nil => exact absurd hs List.not_mem_nil
  | cons t rest ih =>
    obtain ⟨hi, ht, hrest⟩ := h
    rcases List.mem_cons.mp hs with rfl | hs
    · exact ⟨hi, ht, hrest.le⟩
    · obtain ⟨hle, hlt, hend⟩ := ih hrest hs
      exact ⟨hi.trans (ht.le.trans hle), hlt, hend⟩

/-- Each begins after the one before. -/
theorem Apart.increasing (h : Apart length i spans) : spans.Pairwise fun s t => s.1 < t.1 := by
  induction spans generalizing i with
  | nil => exact .nil
  | cons s rest ih =>
    obtain ⟨-, hs, hrest⟩ := h
    exact .cons (fun t ht => hs.trans_le (hrest.mem ht).1) (ih hrest)

/-- And where the one before has ended. -/
theorem Apart.disjoint (h : Apart length i spans) : spans.Pairwise fun s t => s.2 ≤ t.1 := by
  induction spans generalizing i with
  | nil => exact .nil
  | cons s rest ih =>
    obtain ⟨-, -, hrest⟩ := h
    exact .cons (fun t ht => (hrest.mem ht).1) (ih hrest)

theorem length_piecesFrom : (piecesFrom text i spans).length = spans.length + 1 := by
  induction spans generalizing i with
  | nil => rfl
  | cons s rest ih => rw [piecesFrom, List.length_cons, ih, List.length_cons]

/-- **A match begins where the pieces up to it and the matches before it end.** -/
theorem sum_lengths (h : Apart text.length i spans) (hk : spans[k]? = some s) :
    i + (((piecesFrom text i spans).take (k + 1)).map List.length).sum +
      (((spans.map fun s => slice text s.1 s.2).take k).map List.length).sum = s.1 := by
  induction spans generalizing i k with
  | nil => cases hk
  | cons t rest ih =>
    obtain ⟨hi, ht, hrest⟩ := h
    have hend := hrest.le
    rw [piecesFrom, List.take_succ_cons, List.map_cons, List.sum_cons,
      length_slice_of_le (ht.le.trans hend)]
    cases k with
    | zero =>
      cases hk
      rw [List.take_zero, List.take_zero, List.map_nil, List.sum_nil]
      omega
    | succ k =>
      have hsum := ih hrest hk
      rw [List.map_cons, List.take_succ_cons, List.map_cons, List.sum_cons, length_slice_of_le hend]
      omega

end Apart

/-! ## A matcher -/

/-- From left to right, past each match of more than nothing; `takes` is the length of the
match at a place. -/
def scanFrom (takes : Nat → Nat) (length : Nat) : Nat → Nat → List (Nat × Nat)
  | 0, _ => []
  | n + 1, i =>
      if 0 < takes i ∧ i + takes i ≤ length then (i, i + takes i) :: scanFrom takes length n (i + takes i)
      else if i < length then scanFrom takes length n (i + 1)
      else []

theorem apart_scanFrom (takes : Nat → Nat) {length i : Nat} (n : Nat) (hi : i ≤ length) :
    Apart length i (scanFrom takes length n i) := by
  fun_induction scanFrom takes length n i with
  | case1 => exact hi
  | case2 n i htakes ih => exact ⟨le_rfl, Nat.lt_add_of_pos_right htakes.1, ih htakes.2⟩
  | case3 n i _ hlt ih => exact (ih hlt).mono (Nat.le_succ i)
  | case4 => exact hi

def Cuts.scan (takes : Nat → Nat) (text : List α) : Cuts text :=
  ⟨scanFrom takes text.length (text.length + 1) 0, apart_scanFrom takes _ (Nat.zero_le _)⟩

/-- The places from a position on where something is taken. -/
def takenFrom (takes : Nat → Nat) (length i : Nat) : List Nat :=
  (List.range' i (length + 1 - i)).filter fun j => 0 < takes j

section Taken

variable {takes : Nat → Nat} {length i j n : Nat} {s : Nat × Nat}

theorem mem_takenFrom : j ∈ takenFrom takes length i ↔ i ≤ j ∧ j ≤ length ∧ 0 < takes j := by
  rw [takenFrom, List.mem_filter, List.mem_range'_1, decide_eq_true_iff]
  omega

theorem takenFrom_increasing : (takenFrom takes length i).Pairwise (· < ·) :=
  List.Pairwise.filter _ List.pairwise_lt_range'

theorem takenFrom_of_lt (h : length < i) : takenFrom takes length i = [] := by
  rw [takenFrom, Nat.sub_eq_zero_of_le h]
  rfl

theorem takenFrom_of_le (h : i ≤ length) : takenFrom takes length i =
    if 0 < takes i then i :: takenFrom takes length (i + 1) else takenFrom takes length (i + 1) := by
  rw [takenFrom, takenFrom, show length + 1 - i = length + 1 - (i + 1) + 1 by omega, List.range'_succ,
    List.filter_cons]
  simp only [decide_eq_true_eq]

/-- Nothing is taken before the place where the search goes on. -/
theorem takenFrom_skip {m : Nat} (him : i ≤ m) (hm : m ≤ length + 1)
    (hnone : ∀ j, i ≤ j → j < m → takes j = 0) :
    takenFrom takes length i = takenFrom takes length m := by
  obtain ⟨k, rfl⟩ := Nat.exists_eq_add_of_le him
  induction k generalizing i with
  | zero => rfl
  | succ k ih =>
    rw [takenFrom_of_le (by omega), if_neg (by rw [hnone i le_rfl (by omega)]; exact lt_irrefl 0),
      ih (by omega) (by omega) fun j hj hlt => hnone j (by omega) (by omega)]
    exact congrArg _ (by omega)

/-- A match of a scan is one that is taken where it begins. -/
theorem taken_of_mem_scan (h : s ∈ scanFrom takes length n i) : 0 < takes s.1 ∧ s.2 = s.1 + takes s.1 := by
  fun_induction scanFrom takes length n i with
  | case1 => cases h
  | case2 n i htakes ih =>
    rcases List.mem_cons.mp h with rfl | h
    · exact ⟨htakes.1, rfl⟩
    · exact ih h
  | case3 n i _ _ ih => exact ih h
  | case4 => cases h

/-- Nothing that is taken begins inside of something else. -/
def Clear (takes : Nat → Nat) (length : Nat) : Prop :=
  ∀ i j, i < j → j ≤ length → 0 < takes i → 0 < takes j → i + takes i ≤ j

instance : Decidable (Clear takes length) :=
  decidable_of_iff (∀ j ≤ length, ∀ i < j, 0 < takes i → 0 < takes j → i + takes i ≤ j)
    ⟨fun h i j hij hj => h j hj i hij, fun h j hj i hij => h i j hij hj⟩

/-- Where the matches are clear of one another a scan finds each of them. -/
theorem scanFrom_of_clear (hfit : ∀ i, 0 < takes i → i + takes i ≤ length) (hclear : Clear takes length)
    (hn : length + 1 - i ≤ n) :
    scanFrom takes length n i = (takenFrom takes length i).map fun j => (j, j + takes j) := by
  induction n generalizing i with
  | zero => rw [takenFrom_of_lt (by omega), scanFrom, List.map_nil]
  | succ n ih =>
    rw [scanFrom]
    by_cases htakes : 0 < takes i
    · have hend := hfit i htakes
      have hskip : takenFrom takes length (i + 1) = takenFrom takes length (i + takes i) := by
        refine takenFrom_skip (by omega) (by omega) fun j hj hlt => Nat.eq_zero_of_not_pos fun hpos => ?_
        have := hclear i j hj (by omega) htakes hpos
        omega
      rw [if_pos ⟨htakes, hend⟩, takenFrom_of_le (by omega), if_pos htakes, List.map_cons, hskip,
        ih (by omega)]
    · rw [if_neg fun h => htakes h.1]
      split
      · rw [takenFrom_of_le (by omega : i ≤ length), if_neg htakes]
        exact ih (by omega)
      · by_cases hi : i ≤ length
        · rw [takenFrom_of_le hi, if_neg htakes, takenFrom_of_lt (by omega), List.map_nil]
        · rw [takenFrom_of_lt (by omega), List.map_nil]

/-- A scan that finds every match has them clear of one another. -/
theorem clear_of_scan (h : (scanFrom takes length n 0).map Prod.fst = takenFrom takes length 0) :
    Clear takes length := by
  intro i j hij hj hi hpos
  have hin : ∀ m, m ≤ length → 0 < takes m → (m, m + takes m) ∈ scanFrom takes length n 0 := by
    intro m hm hpos
    have hmem : m ∈ (scanFrom takes length n 0).map Prod.fst :=
      h ▸ mem_takenFrom.mpr ⟨Nat.zero_le m, hm, hpos⟩
    obtain ⟨s, hs, rfl⟩ := List.mem_map.mp hmem
    rw [← (taken_of_mem_scan hs).2]
    exact hs
  have hapart := apart_scanFrom takes n (Nat.zero_le length)
  have hne : (i, i + takes i) ≠ (j, j + takes j) := fun heq => absurd (congrArg Prod.fst heq) hij.ne
  have hi := hin i (by omega) hi
  have hj := hin j hj hpos
  obtain ⟨m, hm, hgeti⟩ := List.getElem_of_mem hi
  obtain ⟨m', hm', hgetj⟩ := List.getElem_of_mem hj
  have hdisjoint := List.pairwise_iff_getElem.mp hapart.disjoint
  rcases Nat.lt_trichotomy m m' with hlt | rfl | hgt
  · have := hdisjoint m m' hm hm' hlt
    rw [hgeti, hgetj] at this
    exact this
  · exact absurd (hgeti.symm.trans hgetj) hne
  · have := hdisjoint m' m hm' hm hgt
    rw [hgeti, hgetj] at this
    change j + takes j ≤ i at this
    omega

end Taken

/-! ## Numbered rows -/

section Numbered

variable {xs : List α} {x : α} {n k : Nat}

/-- The rows up to a number are the first ones. -/
theorem filter_zipIdx_lt (xs : List α) (k n : Nat) :
    ((xs.zipIdx k).filter fun r => r.2 < k + n).map Prod.fst = xs.take n := by
  induction xs generalizing k n with
  | nil => rw [List.zipIdx_nil, List.filter_nil, List.map_nil, List.take_nil]
  | cons x xs ih =>
    rw [List.zipIdx_cons, List.filter_cons]
    cases n with
    | zero =>
      rw [if_neg (by simp), List.take_zero, ← List.take_zero, ← ih (k + 1) 0]
      refine congrArg (List.map Prod.fst) (List.filter_congr fun r hr => ?_)
      have := List.le_snd_of_mem_zipIdx hr
      rw [decide_eq_false (by omega), decide_eq_false (by omega)]
    | succ n =>
      rw [if_pos (by simp), List.map_cons, List.take_succ_cons, ← ih (k + 1) n]
      refine congrArg (x :: ·) (congrArg (List.map Prod.fst) (List.filter_congr fun r _ => ?_))
      rw [show k + (n + 1) = k + 1 + n by omega]

/-- One row has a number. -/
theorem filter_zipIdx_eq (h : xs[n]? = some x) :
    ((xs.zipIdx k).filter fun r => r.2 = k + n) = [(x, k + n)] := by
  induction xs generalizing k n with
  | nil => cases h
  | cons y xs ih =>
    rw [List.zipIdx_cons, List.filter_cons]
    cases n with
    | zero =>
      cases h
      rw [if_pos (decide_eq_true (Nat.add_zero k).symm)]
      refine congrArg ((x, k) :: ·) (List.filter_eq_nil_iff.mpr fun r hr heq => ?_)
      have := List.le_snd_of_mem_zipIdx hr
      have := of_decide_eq_true heq
      omega
    | succ n =>
      rw [if_neg (by simp), show k + (n + 1) = k + 1 + n by omega]
      exact ih h

/-- Rows that each give one row under their number. -/
theorem flatMap_zipIdx {β : Type} {g : α × Nat → List β} {f : α → β}
    (h : ∀ j y, xs[j]? = some y → g (y, k + j) = [f y]) : (xs.zipIdx k).flatMap g = xs.map f := by
  induction xs generalizing k with
  | nil => rfl
  | cons y ys ih =>
    have hrest := ih (k := k + 1) fun j z hz => by
      rw [Nat.add_assoc, Nat.add_comm 1 j]
      exact h (j + 1) z hz
    have hfirst : g (y, k) = [f y] := h 0 y rfl
    rw [List.zipIdx_cons, List.flatMap_cons, hrest, hfirst, List.map_cons]
    rfl

end Numbered

end SupabaseLab.Library
