/-
  Library/Keyset.lean --- reading a ranked collection page by page, by the key of the last row.

  The rows are spread over parts, and no two have the same key.  A page is made of the
  first rows of every part after the cursor, ranked again and cut.  Rank within a part
  is no worse than rank overall, so the page is the one the whole collection would give.
-/
import Mathlib.Data.List.Sort
import Mathlib.Data.List.Perm.Subperm

set_option autoImplicit false

namespace SupabaseLab.Library

variable {α κ γ : Type} [LinearOrder κ] {key : α → κ} {l l' s : List α} {x : α} {n : Nat}
  {p : α → Bool}

/-! ## Ranked lists -/

/-- The greatest key first. -/
def Ranked (key : α → κ) (l : List α) : Prop := l.Pairwise fun a b => key b < key a

theorem Ranked.filter (h : Ranked key l) : Ranked key (l.filter p) := List.Pairwise.filter p h

/-- Ranked rows are determined by which they are. -/
theorem Ranked.eq_of_perm (h : Ranked key l) (h' : Ranked key l') (hperm : l.Perm l') : l = l' :=
  List.Perm.eq_of_pairwise (fun _ _ _ _ hab hba => absurd hba (lt_asymm hab)) h h' hperm

/-- A row ranks no worse among some of the rows than among all. -/
theorem mem_take_filter (hx : x ∈ l.take n) (hp : p x = true) : x ∈ (l.filter p).take n := by
  induction l generalizing n with
  | nil => simp at hx
  | cons y l ih =>
    cases n with
    | zero => simp at hx
    | succ n =>
      rw [List.take_succ_cons, List.mem_cons] at hx
      by_cases hy : p y = true
      · rw [List.filter_cons_of_pos hy, List.take_succ_cons, List.mem_cons]
        exact hx.imp id ih
      · rw [List.filter_cons_of_neg hy]
        obtain rfl | hx := hx
        · exact absurd hp hy
        · exact List.take_subset_take_left _ (Nat.le_succ n) (ih hx)

/-- When the first rows are all kept, cutting commutes with the choice of rows. -/
theorem take_filter_of_take (h : ∀ x ∈ l.take n, p x = true) : (l.filter p).take n = l.take n := by
  have hfirst : (l.take n).filter p = l.take n := List.filter_eq_self.mpr h
  conv_lhs => rw [← List.take_append_drop n l, List.filter_append, hfirst]
  by_cases hn : n ≤ l.length
  · exact List.take_left' (by rw [List.length_take, Nat.min_eq_left hn])
  · rw [List.drop_eq_nil_of_le (by omega), List.filter_nil, List.append_nil]
    exact List.take_of_length_le (by rw [List.length_take]; omega)

/-! ## Ranking -/

/-- The rows, the greatest key first. -/
def rank (key : α → κ) (l : List α) : List α := l.mergeSort fun a b => decide (key b ≤ key a)

theorem rank_perm (key : α → κ) (l : List α) : (rank key l).Perm l := List.mergeSort_perm _ _

@[simp] theorem mem_rank : x ∈ rank key l ↔ x ∈ l := (rank_perm key l).mem_iff

theorem length_rank : (rank key l).length = l.length := (rank_perm key l).length_eq

theorem ranked_rank (h : (l.map key).Nodup) : Ranked key (rank key l) := by
  have hsorted : (rank key l).Pairwise fun a b => key b ≤ key a := by
    refine List.Pairwise.imp of_decide_eq_true (List.pairwise_mergeSort ?_ ?_ l)
    · intro a b c hab hbc
      exact decide_eq_true (le_trans (of_decide_eq_true hbc) (of_decide_eq_true hab))
    · intro a b
      rw [Bool.or_eq_true, decide_eq_true_eq, decide_eq_true_eq]
      exact le_total _ _
  have hdistinct : (rank key l).Pairwise fun a b => key a ≠ key b :=
    List.pairwise_map.mp (((rank_perm key l).map key).nodup_iff.mpr h)
  exact hsorted.imp₂ (fun a b hle hne => lt_of_le_of_ne hle hne.symm) hdistinct

theorem Ranked.nodup (h : Ranked key l) : l.Nodup := by
  refine List.Pairwise.imp ?_ h
  rintro a b hlt rfl
  exact lt_irrefl _ hlt

/-- Ranking some of the rows is choosing them among the ranked ones. -/
theorem rank_eq_filter [DecidableEq α] (hs : Ranked key s) (hl : (l.map key).Nodup) (hsub : l ⊆ s) :
    rank key l = s.filter fun x => x ∈ l := by
  refine (ranked_rank hl).eq_of_perm hs.filter ?_
  refine (List.perm_ext_iff_of_nodup (ranked_rank hl).nodup hs.filter.nodup).mpr fun x => ?_
  rw [mem_rank, List.mem_filter, decide_eq_true_eq]
  exact ⟨fun hx => ⟨hsub hx, hx⟩, And.right⟩

/-! ## Pages -/

/-- The first `n` rows. -/
def page (key : α → κ) (n : Nat) (l : List α) : List α := (rank key l).take n

theorem page_subperm (key : α → κ) (n : Nat) (l : List α) : (page key n l).Subperm l :=
  (List.take_sublist n _).subperm.trans (rank_perm key l).subperm

theorem flatMap_page_subperm (key : α → κ) (n : Nat) (parts : List (List α)) :
    (parts.flatMap (page key n)).Subperm parts.flatten := by
  induction parts with
  | nil => exact List.Subperm.refl _
  | cons part parts ih =>
    rw [List.flatMap_cons, List.flatten_cons]
    exact (page_subperm key n part).append ih

/-- The page of the parts' pages is the page of all rows. -/
theorem page_merge (parts : List (List α)) (hdistinct : (parts.flatten.map key).Nodup) :
    page key n (parts.flatMap (page key n)) = page key n parts.flatten := by
  classical
  have hranked := ranked_rank hdistinct
  have hmerged := flatMap_page_subperm key n parts
  have hsub : ∀ {l : List α}, l.Subperm parts.flatten → l ⊆ rank key parts.flatten := fun h x hx =>
    mem_rank.mpr (h.subset hx)
  have hnodup : ∀ {l : List α}, l.Subperm parts.flatten → (l.map key).Nodup := by
    rintro l ⟨l', hperm, hsublist⟩
    exact (hperm.map key).nodup_iff.mp ((hsublist.map key).nodup hdistinct)
  unfold page at hmerged ⊢
  rw [rank_eq_filter hranked (hnodup hmerged) (hsub hmerged)]
  refine take_filter_of_take fun x hx => decide_eq_true ?_
  obtain ⟨part, hpart, hmem⟩ := List.mem_flatten.mp (mem_rank.mp (List.mem_of_mem_take hx))
  have hpart' : part.Subperm parts.flatten := (List.sublist_flatten_of_mem hpart).subperm
  refine List.mem_flatMap.mpr ⟨part, hpart, ?_⟩
  rw [rank_eq_filter hranked (hnodup hpart') (hsub hpart')]
  exact mem_take_filter hx (decide_eq_true hmem)

/-! ## Reading all pages -/

/-- Pages from a cursor on, until one is shorter than `n`; `none` when a page fails or the
fuel ends. -/
def readPages (readPage : Option γ → Option (List α)) (cursor : α → γ) (n : Nat) :
    Nat → Option γ → Option (List α)
  | 0, _ => none
  | fuel + 1, c => (readPage c).bind fun rows =>
      if rows.length < n then some rows
      else match rows.getLast? with
        | none => some rows
        | some last => (readPages readPage cursor n fuel (some (cursor last))).map (rows ++ ·)

/-- What a row's cursor leaves of the ranked rows is what comes after it. -/
theorem Ranked.filter_lt {before after : List α} (h : Ranked key (before ++ x :: after)) :
    ((before ++ x :: after).filter fun y => key y < key x) = after := by
  obtain ⟨-, hafter, hbefore⟩ := List.pairwise_append.mp h
  rw [List.filter_append, List.filter_cons_of_neg (by simp),
    List.filter_eq_nil_iff.mpr, List.nil_append, List.filter_eq_self.mpr]
  · intro y hy
    exact decide_eq_true ((List.pairwise_cons.mp hafter).1 y hy)
  · intro y hy
    rw [decide_eq_true_eq]
    exact lt_asymm (hbefore y hy x List.mem_cons_self)

/-- Pages that go on after the last row of the one before give all rows, in order. -/
theorem readPages_eq {readPage : Option γ → Option (List α)} {cursor : α → γ} (hn : 0 < n)
    (hnext : ∀ before x after, s = before ++ x :: after →
      readPage (some (cursor x)) = some (after.take n))
    {c : Option γ} {rest before : List α} (hrest : s = before ++ rest)
    (hpage : readPage c = some (rest.take n)) {fuel : Nat} (hfuel : rest.length / n < fuel) :
    readPages readPage cursor n fuel c = some rest := by
  induction fuel generalizing c rest before with
  | zero => exact absurd hfuel (Nat.not_lt_zero _)
  | succ fuel ih =>
    rw [readPages, hpage, Option.bind_some]
    by_cases hshort : rest.length < n
    · have hall : rest.take n = rest := List.take_of_length_le (Nat.le_of_lt hshort)
      rw [hall, if_pos hshort]
    · have hfull : (rest.take n).length = n := by
        rw [List.length_take]
        omega
      have hne : rest.take n ≠ [] := List.ne_nil_of_length_pos (by omega)
      obtain ⟨front, last, hlast⟩ := List.eq_nil_or_concat (rest.take n) |>.resolve_left hne
      have hsplit : s = (before ++ front) ++ last :: rest.drop n := by
        calc s = before ++ (rest.take n ++ rest.drop n) := by rw [hrest, List.take_append_drop]
          _ = (before ++ front) ++ last :: rest.drop n := by rw [hlast]; simp
      have hnextPage := hnext _ last _ hsplit
      have hlength : (rest.drop n).length / n < fuel := by
        have hdiv := Nat.div_eq_sub_div hn (Nat.not_lt.mp hshort)
        rw [List.length_drop]
        omega
      have hsplit' : s = (before ++ rest.take n) ++ rest.drop n := by
        rw [List.append_assoc, List.take_append_drop]
        exact hrest
      have htail := ih hsplit' hnextPage hlength
      have hgetLast : (rest.take n).getLast? = some last := by rw [hlast]; simp
      rw [if_neg (by omega), hgetLast]
      dsimp only
      rw [htail, Option.map_some, List.take_append_drop]

end SupabaseLab.Library
