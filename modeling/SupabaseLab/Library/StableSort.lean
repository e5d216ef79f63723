/-
  Library/StableSort.lean --- an ORDER BY, and its first rows under a LIMIT.

  Insertion sort keeps rows that tie in the order they came in, and with the places that
  the rows came from no two ever tie.  A database may return any arrangement that its
  order allows: `Arranges`.  A row may stand right after those that go strictly before
  it, and where no two rows tie that a limit leaves room for, all arrangements have the
  same first rows.
-/
import Mathlib.Data.List.Sort

set_option autoImplicit false

namespace SupabaseLab.Library

variable {α : Type} {r : α → α → Prop} {a b : α} {l l' : List α} {p : α → Bool} {n : Nat}

/-- The first of the sorted rows goes before each of them. -/
theorem rel_of_insertionSort_eq_cons [DecidableRel r] [Std.Total r] [IsTrans α r]
    (h : l.insertionSort r = a :: l') (hb : b ∈ l) : r a b := by
  have hsorted := List.pairwise_insertionSort r l
  rw [h] at hsorted
  have hmem := (List.mem_insertionSort r).mpr hb
  rw [h] at hmem
  rcases List.mem_cons.mp hmem with rfl | htail
  · exact refl_of r b
  · exact (List.pairwise_cons.mp hsorted).1 b htail

/-- Rows that do not tie are sorted the same however they came in. -/
theorem mergeSort_congr {le : α → α → Bool}
    (trans : ∀ a b c, le a b = true → le b c = true → le a c = true)
    (total : ∀ a b, (le a b || le b a) = true)
    (tied : ∀ a ∈ l, ∀ b ∈ l, le a b = true → le b a = true → a = b) (h : l.Perm l') :
    l.mergeSort le = l'.mergeSort le := by
  have hl := List.mergeSort_perm l le
  have hl' := List.mergeSort_perm l' le
  refine List.Perm.eq_of_pairwise (fun a b ha hb hab hba => ?_) (List.pairwise_mergeSort trans total l)
    (List.pairwise_mergeSort trans total l') (hl.trans (h.trans hl'.symm))
  exact tied a (hl.mem_iff.mp ha) b (h.mem_iff.mpr (hl'.mem_iff.mp hb)) hab hba

/-! ## Arrangements -/

/-- The rows in an order that `order by` allows; rows that tie may stand either way. -/
structure Arranges (r : α → α → Prop) (rows arranged : List α) : Prop where
  perm : arranged.Perm rows
  sorted : arranged.Pairwise r

/-- How many rows go strictly before `a`. -/
def countAhead (r : α → α → Prop) [DecidableRel r] (rows : List α) (a : α) : Nat :=
  rows.countP fun b => !decide (r a b)

theorem arranges_insertionSort [DecidableRel r] [Std.Total r] [IsTrans α r] (l : List α) :
    Arranges r l (l.insertionSort r) :=
  ⟨List.perm_insertionSort r l, List.pairwise_insertionSort r l⟩

/-- Rows that no other row may go before stand first. -/
theorem eq_filter_append (hsorted : l.Pairwise r)
    (hfirst : ∀ a ∈ l, ∀ b ∈ l, p a = false → p b = true → ¬ r a b) :
    l = l.filter p ++ l.filter fun x => !p x := by
  induction l with
  | nil => rfl
  | cons a l ih =>
    obtain ⟨hhead, htail⟩ := List.pairwise_cons.mp hsorted
    have hrest := ih htail fun b hb c hc =>
      hfirst b (List.mem_cons_of_mem _ hb) c (List.mem_cons_of_mem _ hc)
    rw [List.filter_cons, List.filter_cons]
    cases ha : p a with
    | true => exact congrArg (a :: ·) hrest
    | false =>
      -- then none of the rows after it goes first
      have hnone : l.filter p = [] := List.filter_eq_nil_iff.mpr fun b hb hpb =>
        hfirst a List.mem_cons_self b (List.mem_cons_of_mem _ hb) ha hpb (hhead b hb)
      rw [hnone, List.nil_append] at hrest
      rw [hnone]
      exact congrArg (a :: ·) hrest

/-- A limit that such rows fill, when there are others, keeps nothing else. -/
theorem take_eq_take_filter (hsorted : l.Pairwise r)
    (hfirst : ∀ a ∈ l, ∀ b ∈ l, p a = false → p b = true → ¬ r a b)
    (hfull : (∃ x ∈ l, p x = false) → n ≤ (l.filter p).length) :
    l.take n = (l.filter p).take n := by
  by_cases hall : ∀ x ∈ l, p x = true
  · rw [List.filter_eq_self.mpr hall]
  · obtain ⟨x, hx⟩ := not_forall.mp hall
    obtain ⟨hx, hpx⟩ := Classical.not_imp.mp hx
    have hlen := hfull ⟨x, hx, (Bool.not_eq_true _).mp hpx⟩
    conv_lhs => rw [eq_filter_append hsorted hfirst]
    exact List.take_append_of_le_length hlen

section Ahead

variable [DecidableRel r]

theorem countAhead_eq_of_perm (h : l'.Perm l) : countAhead r l' a = countAhead r l a :=
  h.countP_eq _

theorem countAhead_le [IsTrans α r] (h : r a b) : countAhead r l a ≤ countAhead r l b := by
  refine List.countP_mono_left fun c _ hc => ?_
  rw [Bool.not_eq_true', decide_eq_false_iff_not] at hc ⊢
  exact fun hbc => hc (IsTrans.trans _ _ _ h hbc)

variable [Std.Total r] {arranged arranged' : List α}

/-- No row goes before the first of an arrangement. -/
theorem countAhead_cons (h : (a :: l).Pairwise r) : countAhead r (a :: l) a = 0 := by
  refine List.countP_eq_zero.mpr fun b hb => ?_
  have hrel : r a b := by
    rcases List.mem_cons.mp hb with rfl | hb
    · exact refl_of r _
    · exact (List.pairwise_cons.mp h).1 b hb
  rw [decide_eq_true hrel]
  exact Bool.false_ne_true

/-- A row at place `i` has no more than `i` rows ahead of it. -/
theorem Arranges.countAhead_le_of_getElem? (h : Arranges r l arranged) {i : Nat}
    (ha : arranged[i]? = some a) : countAhead r l a ≤ i := by
  obtain ⟨hi, heq⟩ := List.getElem?_eq_some_iff.mp ha
  have hdrop : arranged.drop i = a :: arranged.drop (i + 1) := heq ▸ List.drop_eq_getElem_cons hi
  have hafter := countAhead_cons (hdrop ▸ h.sorted.sublist (List.drop_sublist i arranged))
  rw [← hdrop, countAhead] at hafter
  rw [← countAhead_eq_of_perm h.perm, countAhead, ← List.take_append_drop i arranged,
    List.countP_append, hafter, Nat.add_zero]
  exact List.countP_le_length.trans (List.length_take_le i arranged)

theorem Arranges.countAhead_lt (h : Arranges r l arranged) (ha : a ∈ arranged.take n) :
    countAhead r l a < n := by
  obtain ⟨i, hi, heq⟩ := List.getElem_of_mem ha
  rw [List.length_take] at hi
  refine Nat.lt_of_le_of_lt (h.countAhead_le_of_getElem? (i := i) ?_) (Nat.lt_min.mp hi).1
  rw [← heq, List.getElem_take]
  exact List.getElem?_eq_getElem _

variable [IsTrans α r]

/-- The rows that `n` places leave room for fill them, when there are others. -/
theorem Arranges.take_eq_take_filter (h : Arranges r l arranged) :
    arranged.take n = (arranged.filter fun a => countAhead r l a < n).take n := by
  have hfirst : ∀ a ∈ arranged, ∀ b ∈ arranged, decide (countAhead r l a < n) = false →
      decide (countAhead r l b < n) = true → ¬ r a b := by
    intro a _ b _ ha hb hab
    exact of_decide_eq_false ha (Nat.lt_of_le_of_lt (countAhead_le hab) (of_decide_eq_true hb))
  refine Library.take_eq_take_filter h.sorted hfirst fun ⟨x, hx, hnot⟩ => ?_
  have hsplit := eq_filter_append h.sorted hfirst
  cases hrest : arranged.filter (fun a => !decide (countAhead r l a < n)) with
  | nil =>
    have hmem : x ∈ arranged.filter fun a => !decide (countAhead r l a < n) :=
      List.mem_filter.mpr ⟨hx, by rw [hnot]; rfl⟩
    rw [hrest] at hmem
    cases hmem
  | cons y rest =>
    -- the first of the others has at least `n` rows ahead, and none of them is among the others
    have hy : y ∈ arranged ∧ (!decide (countAhead r l y < n)) = true :=
      List.mem_filter.mp (hrest ▸ List.mem_cons_self)
    have hn : n ≤ countAhead r l y :=
      Nat.not_lt.mp (of_decide_eq_false ((Bool.not_eq_true' _).mp hy.2))
    have hsorted := h.sorted.filter fun a => !decide (countAhead r l a < n)
    rw [hrest] at hsorted hsplit
    have hnone := countAhead_cons hsorted
    rw [countAhead] at hnone
    rw [← countAhead_eq_of_perm h.perm, countAhead, hsplit, List.countP_append, hnone,
      Nat.add_zero] at hn
    exact hn.trans List.countP_le_length

/-- Where no two rows tie that `n` places leave room for, every arrangement has the same
first `n` rows. -/
theorem Arranges.take_eq (h : Arranges r l arranged) (h' : Arranges r l arranged')
    (huntied : ∀ a ∈ l, ∀ b ∈ l, countAhead r l a < n → countAhead r l b < n → r a b → r b a →
      a = b) : arranged.take n = arranged'.take n := by
  rw [h.take_eq_take_filter, h'.take_eq_take_filter]
  refine congrArg (List.take n) (List.Perm.eq_of_pairwise (fun a b ha hb hab hba => ?_)
    (h.sorted.filter _) (h'.sorted.filter _) ((h.perm.trans h'.perm.symm).filter _))
  obtain ⟨ha, hroom⟩ := List.mem_filter.mp ha
  obtain ⟨hb, hroom'⟩ := List.mem_filter.mp hb
  exact huntied a (h.perm.mem_iff.mp ha) b (h'.perm.mem_iff.mp hb) (of_decide_eq_true hroom)
    (of_decide_eq_true hroom') hab hba

/-- Any row may stand right after the rows that are ahead of it. -/
theorem exists_arranges_getElem? (ha : a ∈ l) :
    ∃ arranged, Arranges r l arranged ∧ arranged[countAhead r l a]? = some a := by
  classical
  have hsort := arranges_insertionSort (r := r) l
  have hmem : a ∈ l.insertionSort r := hsort.perm.mem_iff.mpr ha
  have hfirst : ∀ x ∈ l.insertionSort r, ∀ y ∈ l.insertionSort r, (!decide (r a x)) = false →
      (!decide (r a y)) = true → ¬ r x y := by
    intro x _ y _ hx hy hxy
    rw [Bool.not_eq_false', decide_eq_true_iff] at hx
    rw [Bool.not_eq_true', decide_eq_false_iff_not] at hy
    exact hy (IsTrans.trans _ _ _ hx hxy)
  have hsplit := eq_filter_append hsort.sorted hfirst
  have hrest : a ∈ (l.insertionSort r).filter fun x => !(!decide (r a x)) := by
    refine List.mem_filter.mpr ⟨hmem, ?_⟩
    rw [decide_eq_true (refl_of r a)]
    rfl
  refine ⟨(l.insertionSort r).filter (fun x => !decide (r a x)) ++
    a :: ((l.insertionSort r).filter fun x => !(!decide (r a x))).erase a, ⟨?_, ?_⟩, ?_⟩
  · refine List.Perm.trans ?_ hsort.perm
    conv_rhs => rw [hsplit]
    exact (List.perm_cons_erase hrest).symm.append_left _
  · have hsorted := hsort.sorted
    rw [hsplit] at hsorted
    obtain ⟨hahead, hlater, hcross⟩ := List.pairwise_append.mp hsorted
    refine List.pairwise_append.mpr ⟨hahead, List.pairwise_cons.mpr ⟨fun b hb => ?_,
      hlater.sublist List.erase_sublist⟩, fun x hx y hy => ?_⟩
    · have hb := (List.mem_filter.mp (List.mem_of_mem_erase hb)).2
      rwa [Bool.not_not, decide_eq_true_iff] at hb
    · rcases List.mem_cons.mp hy with rfl | hy
      · exact hcross x hx y hrest
      · exact hcross x hx y (List.mem_of_mem_erase hy)
  · have hlen : ((l.insertionSort r).filter fun x => !decide (r a x)).length = countAhead r l a := by
      rw [← List.countP_eq_length_filter]
      exact countAhead_eq_of_perm hsort.perm
    rw [List.getElem?_append_right (Nat.le_of_eq hlen), hlen, Nat.sub_self]
    rfl

end Ahead

/-! ## Places -/

/-- The order of a stable sort: rows that tie stand in the order of their places. -/
def ByPlace (r : α → α → Prop) (p q : α × Nat) : Prop := r p.1 q.1 ∧ (r q.1 p.1 → p.2 ≤ q.2)

instance [DecidableRel r] : DecidableRel (ByPlace r) := fun _ _ => inferInstanceAs (Decidable (_ ∧ (_ → _)))

instance [Std.Total r] : Std.Total (ByPlace r) where
  total p q := by
    by_cases hpq : r p.1 q.1
    · by_cases hqp : r q.1 p.1
      · exact (Nat.le_total p.2 q.2).imp (fun h => ⟨hpq, fun _ => h⟩) fun h => ⟨hqp, fun _ => h⟩
      · exact .inl ⟨hpq, fun h => absurd h hqp⟩
    · exact .inr ⟨(Std.Total.total p.1 q.1).resolve_left hpq, fun h => absurd h hpq⟩

instance [IsTrans α r] : IsTrans (α × Nat) (ByPlace r) where
  trans p q s hpq hqs := by
    refine ⟨IsTrans.trans _ _ _ hpq.1 hqs.1, fun hsp => ?_⟩
    have hqp : r q.1 p.1 := IsTrans.trans _ _ _ hqs.1 hsp
    have hsq : r s.1 q.1 := IsTrans.trans _ _ _ hsp hpq.1
    exact (hpq.2 hqp).trans (hqs.2 hsq)

variable [DecidableRel r]

/-- The sorted rows, each with the place it came from. -/
def sortedPlaces (r : α → α → Prop) [DecidableRel r] (l : List α) : List (α × Nat) :=
  l.zipIdx.insertionSort (ByPlace r)

theorem map_fst_orderedInsert {p : α × Nat} {ps : List (α × Nat)} (h : ∀ q ∈ ps, p.2 ≤ q.2) :
    (ps.orderedInsert (ByPlace r) p).map Prod.fst = (ps.map Prod.fst).orderedInsert r p.1 := by
  induction ps with
  | nil => rfl
  | cons q ps ih =>
    have hq : ByPlace r p q ↔ r p.1 q.1 := and_iff_left fun _ => h q List.mem_cons_self
    rw [List.map_cons, List.orderedInsert_cons, List.orderedInsert_cons]
    by_cases hpq : r p.1 q.1
    · rw [if_pos hpq, if_pos (hq.mpr hpq)]
      rfl
    · rw [if_neg hpq, if_neg (mt hq.mp hpq), List.map_cons,
        ih fun x hx => h x (List.mem_cons_of_mem _ hx)]

theorem map_fst_insertionSort_zipIdx (l : List α) (n : Nat) :
    ((l.zipIdx n).insertionSort (ByPlace r)).map Prod.fst = l.insertionSort r := by
  induction l generalizing n with
  | nil => rfl
  | cons a l ih =>
    rw [List.zipIdx_cons, List.insertionSort_cons, List.insertionSort_cons, ← ih (n + 1)]
    refine map_fst_orderedInsert fun q hq => ?_
    have hlater := List.le_snd_of_mem_zipIdx ((List.mem_insertionSort _).mp hq)
    exact (Nat.le_succ n).trans hlater

theorem map_fst_sortedPlaces (l : List α) : (sortedPlaces r l).map Prod.fst = l.insertionSort r :=
  map_fst_insertionSort_zipIdx l 0

theorem mem_sortedPlaces {p : α × Nat} : p ∈ sortedPlaces r l ↔ p ∈ l.zipIdx :=
  List.mem_insertionSort _

/-- No two rows tie any more. -/
theorem byPlace_sortedPlaces_iff [Std.Total r] [IsTrans α r] {i j : Nat} {p q : α × Nat}
    (hp : (sortedPlaces r l)[i]? = some p) (hq : (sortedPlaces r l)[j]? = some q) :
    ByPlace r p q ↔ i ≤ j := by
  obtain ⟨hi, rfl⟩ := List.getElem?_eq_some_iff.mp hp
  obtain ⟨hj, rfl⟩ := List.getElem?_eq_some_iff.mp hq
  have hsorted := List.pairwise_iff_getElem.mp (List.pairwise_insertionSort (ByPlace r) l.zipIdx)
  have hplaces : ((sortedPlaces r l).map Prod.snd).Nodup := by
    refine ((List.perm_insertionSort _ _).map Prod.snd).nodup_iff.mpr ?_
    rw [List.zipIdx_map_snd]
    exact List.nodup_range'
  constructor
  · intro h
    by_contra hlt
    have hlt := Nat.lt_of_not_le hlt
    have hback : ByPlace r (sortedPlaces r l)[j] (sortedPlaces r l)[i] := hsorted j i hj hi hlt
    have hsame : (sortedPlaces r l)[j].2 = (sortedPlaces r l)[i].2 :=
      le_antisymm (hback.2 h.1) (h.2 hback.1)
    have hne := List.pairwise_iff_getElem.mp hplaces j i (by simpa using hj) (by simpa using hi) hlt
    rw [List.getElem_map, List.getElem_map] at hne
    exact hne hsame
  · intro h
    rcases h.eq_or_lt with rfl | hlt
    · exact refl_of (ByPlace r) _
    · exact hsorted i j hi hj hlt

end SupabaseLab.Library
