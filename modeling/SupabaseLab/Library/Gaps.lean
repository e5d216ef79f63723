/-
  Library/Gaps.lean --- the gaps between the successive elements of an ordered list.

  Where events are ordered by their times, a gap is a stretch between two of them with
  none inside.  Any stretch that is free of events, and does not begin before the first
  of them, lies in a gap.
-/
import Mathlib

set_option autoImplicit false

namespace SupabaseLab.Library

variable {α : Type} {l : List α} {a b c x : α}

/-- Each element with the one after it. -/
def gaps (l : List α) : List (α × α) := l.zip l.tail

theorem gaps_cons_cons : gaps (a :: b :: l) = (a, b) :: gaps (b :: l) := rfl

theorem gaps_ne_nil : gaps l ≠ [] ↔ 2 ≤ l.length := by
  match l with
  | [] => simp [gaps]
  | [_] => simp [gaps]
  | a :: b :: l => simp [gaps_cons_cons]

/-! ## Gaps of ordered lists -/

section Order

variable [LinearOrder α] {g : α × α} {p : α → Bool}

/-- Nothing lies inside a gap. -/
structure GapIn (l : List α) (g : α × α) : Prop where
  left : g.1 ∈ l
  right : g.2 ∈ l
  le : g.1 ≤ g.2
  clear : ∀ x ∈ l, x ≤ g.1 ∨ g.2 ≤ x

theorem gapIn_of_mem (hsorted : l.Pairwise (· ≤ ·)) (hg : g ∈ gaps l) : GapIn l g := by
  induction l with
  | nil => exact absurd hg List.not_mem_nil
  | cons a l ih =>
    obtain ⟨hhead, htail⟩ := List.pairwise_cons.mp hsorted
    cases l with
    | nil => exact absurd hg List.not_mem_nil
    | cons b l =>
      rw [gaps_cons_cons] at hg
      rcases List.mem_cons.mp hg with rfl | hrest
      · refine ⟨List.mem_cons_self, List.mem_cons_of_mem _ List.mem_cons_self,
          hhead b List.mem_cons_self, fun x hx => ?_⟩
        rcases List.mem_cons.mp hx with rfl | hx
        · exact .inl le_rfl
        · rcases List.mem_cons.mp hx with rfl | hx
          · exact .inr le_rfl
          · exact .inr ((List.pairwise_cons.mp htail).1 x hx)
      · obtain ⟨hleft, hright, hle, hclear⟩ := ih htail hrest
        refine ⟨List.mem_cons_of_mem _ hleft, List.mem_cons_of_mem _ hright, hle, fun x hx => ?_⟩
        rcases List.mem_cons.mp hx with rfl | hx
        · exact .inl (hhead _ hleft)
        · exact hclear x hx

/-- A gap ends at every element that is not the least. -/
theorem exists_gap_to (hsorted : l.Pairwise (· ≤ ·)) (hb : b ∈ l) (hc : c ∈ l) (hlt : c < b) :
    ∃ a, (a, b) ∈ gaps l ∧ a < b := by
  induction l generalizing c with
  | nil => exact absurd hb List.not_mem_nil
  | cons x l ih =>
    obtain ⟨hhead, htail⟩ := List.pairwise_cons.mp hsorted
    have hbl : b ∈ l := by
      rcases List.mem_cons.mp hb with rfl | hbl
      · rcases List.mem_cons.mp hc with rfl | hcl
        · exact absurd hlt (lt_irrefl _)
        · exact absurd hlt (not_lt_of_ge (hhead c hcl))
      · exact hbl
    cases l with
    | nil => exact absurd hbl List.not_mem_nil
    | cons y l =>
      rw [gaps_cons_cons]
      by_cases hless : ∃ d ∈ y :: l, d < b
      · obtain ⟨d, hd, hdb⟩ := hless
        obtain ⟨a, ha, hab⟩ := ih htail hbl hd hdb
        exact ⟨a, List.mem_cons_of_mem _ ha, hab⟩
      · -- `b` is the first of the rest, so the gap before it is the first one
        have hyb : y = b := by
          refine le_antisymm ?_ (not_lt.mp fun h => hless ⟨y, List.mem_cons_self, h⟩)
          rcases List.mem_cons.mp hbl with rfl | hbl
          · exact le_rfl
          · exact (List.pairwise_cons.mp htail).1 b hbl
        have hcx : c = x := by
          rcases List.mem_cons.mp hc with rfl | hcl
          · rfl
          · exact absurd ⟨c, hcl, hlt⟩ hless
        rw [hyb, ← hcx]
        exact ⟨c, List.mem_cons_self, hlt⟩

/-- The first element that is wanted is the least of them. -/
theorem find?_isLeast (hsorted : l.Pairwise (· ≤ ·)) :
    l.find? p = some x ↔ IsLeast {y | y ∈ l ∧ p y = true} x := by
  have hfound : ∀ {x}, l.find? p = some x → IsLeast {y | y ∈ l ∧ p y = true} x := by
    intro x hx
    obtain ⟨hp, before, after, rfl, hbefore⟩ := List.find?_eq_some_iff_append.mp hx
    refine ⟨⟨List.mem_append_right _ List.mem_cons_self, hp⟩, fun y ⟨hy, hpy⟩ => ?_⟩
    rcases List.mem_append.mp hy with hy | hy
    · have hnot := hbefore y hy
      rw [hpy] at hnot
      cases hnot
    · rcases List.mem_cons.mp hy with rfl | hy
      · exact le_rfl
      · exact (List.pairwise_cons.mp (List.pairwise_append.mp hsorted).2.1).1 y hy
  refine ⟨hfound, fun h => ?_⟩
  cases hfind : l.find? p with
  | none => exact absurd h.1.2 (List.find?_eq_none.mp hfind x h.1.1)
  | some y => rw [(hfound hfind).unique h]

end Order

/-! ## The widest gap -/

section Widest

variable [LinearOrder α] [AddCommGroup α] [IsOrderedAddMonoid α] {late : α → Bool} {w : α}

/-- The length of the widest gap among those that end late. -/
def widest (late : α → Bool) (l : List α) : Option α :=
  (gaps l).foldl
    (fun best g => if late g.2 then some (max (best.getD 0) (g.2 - g.1)) else best) none

/-- What a scan over gaps has found so far. -/
structure WidestOf (late : α → Bool) (gs : List (α × α)) (best : Option α) : Prop where
  none : best = none ↔ ∀ g ∈ gs, late g.2 = false
  some : ∀ w, best = some w → IsGreatest {d | ∃ g ∈ gs, late g.2 = true ∧ g.2 - g.1 = d} w

theorem widestOf_foldl {gs : List (α × α)} (hgs : ∀ g ∈ gs, g.1 ≤ g.2) :
    WidestOf late gs (gs.foldl
      (fun best g => if late g.2 then some (max (best.getD 0) (g.2 - g.1)) else best) none) := by
  induction gs using List.reverseRecOn with
  | nil =>
    exact ⟨⟨fun _ _ h => absurd h List.not_mem_nil, fun _ => rfl⟩, fun _ h => nomatch h⟩
  | append_singleton gs g ih =>
    have hold := ih fun g hg => hgs g (List.mem_append_left _ hg)
    have hg := hgs g (List.mem_append_right _ List.mem_cons_self)
    rw [List.foldl_append, List.foldl_cons, List.foldl_nil]
    generalize gs.foldl
      (fun best g => if late g.2 then some (max (best.getD 0) (g.2 - g.1)) else best) none = best
      at hold ⊢
    cases hlate : late g.2 with
    | false =>
      rw [if_neg (by decide)]
      refine ⟨hold.none.trans ?_, fun w hw => ?_⟩
      · rw [List.forall_mem_append, List.forall_mem_singleton]
        exact (and_iff_left hlate).symm
      · obtain ⟨⟨g', hg', hlate', hd⟩, hupper⟩ := hold.some w hw
        refine ⟨⟨g', List.mem_append_left _ hg', hlate', hd⟩, fun d ⟨g'', hg'', hlate'', hd'⟩ => ?_⟩
        rcases List.mem_append.mp hg'' with hmem | hmem
        · exact hupper ⟨g'', hmem, hlate'', hd'⟩
        · rw [List.mem_singleton.mp hmem, hlate] at hlate''
          cases hlate''
    | true =>
      rw [if_pos rfl]
      refine ⟨⟨fun h => (nomatch h), fun h => ?_⟩, fun w hw => ?_⟩
      · have hnot := h g (List.mem_append_right _ List.mem_cons_self)
        rw [hlate] at hnot
        cases hnot
      · cases Option.some.inj hw
        have hthis : ∃ g' ∈ gs ++ [g], late g'.2 = true ∧ g'.2 - g'.1 = g.2 - g.1 :=
          ⟨g, List.mem_append_right _ List.mem_cons_self, hlate, rfl⟩
        cases best with
        | none =>
          have hnone := hold.none.mp rfl
          rw [Option.getD_none, max_eq_right (sub_nonneg.mpr hg)]
          refine ⟨hthis, fun d ⟨g', hg', hlate', hd⟩ => ?_⟩
          rcases List.mem_append.mp hg' with hmem | hmem
          · rw [hnone g' hmem] at hlate'
            cases hlate'
          · rw [List.mem_singleton.mp hmem] at hd
            exact le_of_eq hd.symm
        | some v =>
          obtain ⟨⟨g₀, hg₀, hlate₀, hd₀⟩, hupper⟩ := hold.some v rfl
          rw [Option.getD_some]
          refine ⟨?_, fun d ⟨g', hg', hlate', hd⟩ => ?_⟩
          · rcases max_choice v (g.2 - g.1) with hmax | hmax
            · rw [hmax]
              exact ⟨g₀, List.mem_append_left _ hg₀, hlate₀, hd₀⟩
            · rw [hmax]
              exact hthis
          · rcases List.mem_append.mp hg' with hmem | hmem
            · exact le_trans (hupper ⟨g', hmem, hlate', hd⟩) (le_max_left _ _)
            · rw [List.mem_singleton.mp hmem] at hd
              exact le_trans (le_of_eq hd.symm) (le_max_right _ _)

theorem widestOf_gaps (hsorted : l.Pairwise (· ≤ ·)) : WidestOf late (gaps l) (widest late l) :=
  widestOf_foldl fun _ hg => (gapIn_of_mem hsorted hg).le

end Widest

end SupabaseLab.Library
