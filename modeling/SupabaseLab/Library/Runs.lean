/-
  Library/Runs.lean --- the maximal runs of a list.

  A run is a stretch of consecutive elements that meet a predicate and that cannot
  be made longer.  `runs` finds them in one pass that keeps the position where the
  open run began; `mem_runs` says that it finds all of them and nothing else.
-/
import Mathlib

set_option autoImplicit false

namespace SupabaseLab.Library

variable {α : Type} {bad : α → Bool} {l pre xs : List α} {x : α} {i j n : Nat} {cur : Option Nat}

/-- The elements from position `i` up to `j` meet `bad`, and neither the one before
nor the one after does. -/
structure IsRun (bad : α → Bool) (l : List α) (i j : Nat) : Prop where
  lt : i < j
  le : j ≤ l.length
  inside : ∀ k, i ≤ k → k < j → ∀ x, l[k]? = some x → bad x = true
  before : ∀ k, k + 1 = i → ∀ x, l[k]? = some x → bad x = false
  after : ∀ x, l[j]? = some x → bad x = false

/-- The runs of a list whose first element stands at position `n`, when `cur` is
where the run that is open there began. -/
def runsFrom (bad : α → Bool) : Nat → Option Nat → List α → List (Nat × Nat)
  | _, none, [] => []
  | n, some i, [] => [(i, n)]
  | n, cur, x :: xs =>
      if bad x then runsFrom bad (n + 1) (some (cur.getD n)) xs
      else (cur.map fun i => (i, n)).toList ++ runsFrom bad (n + 1) none xs

/-- The maximal runs, each as the positions of its first element and of the element
after its last. -/
def runs (bad : α → Bool) (l : List α) : List (Nat × Nat) := runsFrom bad 0 none l

theorem runsFrom_bad (h : bad x = true) :
    runsFrom bad n cur (x :: xs) = runsFrom bad (n + 1) (some (cur.getD n)) xs := by
  cases cur <;> exact if_pos h

theorem runsFrom_good (h : bad x = false) : runsFrom bad n cur (x :: xs) =
    (cur.map fun i => (i, n)).toList ++ runsFrom bad (n + 1) none xs := by
  cases cur <;> exact if_neg (by rw [h]; exact Bool.false_ne_true)

/-- What is open after the elements of `pre`. -/
structure Opened (bad : α → Bool) (pre : List α) (cur : Option Nat) : Prop where
  begun : ∀ i, cur = some i → i < pre.length ∧
    (∀ k, i ≤ k → ∀ x, pre[k]? = some x → bad x = true) ∧
    ∀ k, k + 1 = i → ∀ x, pre[k]? = some x → bad x = false
  closed : cur = none → ∀ k, k + 1 = pre.length → ∀ x, pre[k]? = some x → bad x = false

theorem opened_nil : Opened bad [] none :=
  ⟨fun _ h => absurd h (Option.some_ne_none _).symm, fun _ k hk => absurd hk (Nat.succ_ne_zero k)⟩

theorem getElem?_concat_eq_some {y : α} {k : Nat} :
    (pre ++ [x])[k]? = some y ↔ pre[k]? = some y ∨ (k = pre.length ∧ y = x) := by
  constructor
  · intro h
    rcases Nat.lt_or_ge k pre.length with hlt | hge
    · exact .inl (List.getElem?_append_left hlt ▸ h)
    · rw [List.getElem?_append_right hge] at h
      rw [List.getElem?_singleton] at h
      split at h
      · exact .inr ⟨by omega, (Option.some.inj h).symm⟩
      · cases h
  · rintro (h | ⟨rfl, rfl⟩)
    · rw [List.getElem?_append_left (List.getElem?_eq_some_iff.mp h).1]
      exact h
    · exact List.getElem?_concat_length

theorem Opened.concat_bad (h : Opened bad pre cur) (hx : bad x = true) :
    Opened bad (pre ++ [x]) (some (cur.getD pre.length)) := by
  refine ⟨fun i hi => ?_, fun hnone => by cases hnone⟩
  cases hi
  cases cur with
  | none =>
    refine ⟨by simp, fun k hk y hy => ?_, fun k hk y hy => ?_⟩
    · obtain hold | ⟨-, rfl⟩ := getElem?_concat_eq_some.mp hy
      · exact absurd (List.getElem?_eq_some_iff.mp hold).1 (Nat.not_lt.mpr hk)
      · exact hx
    · obtain hold | ⟨rfl, -⟩ := getElem?_concat_eq_some.mp hy
      · exact h.closed rfl k hk y hold
      · exact absurd hk (Nat.succ_ne_self _)
  | some i =>
    obtain ⟨hlt, hinside, hbefore⟩ := h.begun i rfl
    refine ⟨by simp only [Option.getD_some, List.length_append, List.length_singleton]; omega,
      fun k hk y hy => ?_, fun k hk y hy => ?_⟩
    · obtain hold | ⟨-, rfl⟩ := getElem?_concat_eq_some.mp hy
      · exact hinside k hk y hold
      · exact hx
    · obtain hold | ⟨rfl, -⟩ := getElem?_concat_eq_some.mp hy
      · exact hbefore k hk y hold
      · exact absurd hk (by simp only [Option.getD_some]; omega)

theorem Opened.concat_good (hx : bad x = false) : Opened bad (pre ++ [x]) none := by
  refine ⟨fun i hi => absurd hi (Option.some_ne_none i).symm, fun _ k hk y hy => ?_⟩
  rw [List.length_append, List.length_singleton, Nat.add_right_cancel_iff] at hk
  subst hk
  rw [List.getElem?_concat_length] at hy
  exact Option.some.inj hy ▸ hx

/-- The open run is a run when a good element or the end follows. -/
theorem Opened.isRun (h : Opened bad pre (some i))
    (hafter : ∀ x, (pre ++ xs)[pre.length]? = some x → bad x = false) :
    IsRun bad (pre ++ xs) i pre.length := by
  obtain ⟨hlt, hinside, hbefore⟩ := h.begun i rfl
  refine ⟨hlt, by simp, fun k hk hlt y hy => ?_, fun k hk y hy => ?_, hafter⟩
  · rw [List.getElem?_append_left hlt] at hy
    exact hinside k hk y hy
  · rw [List.getElem?_append_left (by omega)] at hy
    exact hbefore k hk y hy

/-- A run that ends after the elements of `pre` is the open one, or begins later. -/
theorem Opened.start_cases {i' j' : Nat} (h : Opened bad pre cur)
    (hrun : IsRun bad (pre ++ xs) i' j') (hlt : pre.length ≤ j') :
    cur = some i' ∨ (pre.length ≤ i') := by
  by_cases hi : pre.length ≤ i'
  · exact .inr hi
  · refine .inl ?_
    have hi : i' < pre.length := Nat.not_le.mp hi
    cases cur with
    | none =>
      obtain ⟨y, hy⟩ : ∃ y, pre[pre.length - 1]? = some y :=
        ⟨_, List.getElem?_eq_getElem (by omega)⟩
      have hgood := h.closed rfl (pre.length - 1) (by omega) y hy
      rw [hrun.inside (pre.length - 1) (by omega) (by omega) y
        (by rw [List.getElem?_append_left (by omega)]; exact hy)] at hgood
      cases hgood
    | some i =>
      obtain ⟨hlt', hinside, hbefore⟩ := h.begun i rfl
      refine congrArg some (Nat.le_antisymm ?_ ?_)
      · by_contra hne
        obtain ⟨y, hy⟩ : ∃ y, pre[i - 1]? = some y := ⟨_, List.getElem?_eq_getElem (by omega)⟩
        have hgood := hbefore (i - 1) (by omega) y hy
        rw [hrun.inside (i - 1) (by omega) (by omega) y
          (by rw [List.getElem?_append_left (by omega)]; exact hy)] at hgood
        cases hgood
      · by_contra hne
        obtain ⟨y, hy⟩ : ∃ y, pre[i' - 1]? = some y := ⟨_, List.getElem?_eq_getElem (by omega)⟩
        have hgood := hrun.before (i' - 1) (by omega) y
          (by rw [List.getElem?_append_left (by omega)]; exact hy)
        rw [hinside (i' - 1) (by omega) y hy] at hgood
        cases hgood

theorem mem_runsFrom (h : Opened bad pre cur) :
    (i, j) ∈ runsFrom bad pre.length cur xs ↔ IsRun bad (pre ++ xs) i j ∧ pre.length ≤ j := by
  induction xs generalizing pre cur with
  | nil =>
    rw [List.append_nil]
    constructor
    · intro hmem
      cases cur with
      | none => exact absurd hmem List.not_mem_nil
      | some i =>
        cases List.mem_singleton.mp hmem
        have hrun : IsRun bad (pre ++ []) i pre.length := h.isRun fun x hx => by
          rw [List.append_nil, List.getElem?_eq_none (Nat.le_refl _)] at hx
          cases hx
        rw [List.append_nil] at hrun
        exact ⟨hrun, Nat.le_refl _⟩
    · rintro ⟨hrun, hlen⟩
      have hj : j = pre.length := Nat.le_antisymm hrun.le hlen
      rw [← List.append_nil pre] at hrun
      obtain rfl | hi := h.start_cases hrun hlen
      · rw [hj]
        exact List.mem_singleton_self _
      · exact absurd hrun.lt (by omega)
  | cons x xs ih =>
    have hhead : (pre ++ x :: xs)[pre.length]? = some x := by
      rw [List.getElem?_append_right (Nat.le_refl _), Nat.sub_self, List.getElem?_cons_zero]
    have hlen : (pre ++ [x]).length = pre.length + 1 := List.length_append
    cases hx : bad x with
    | true =>
      rw [runsFrom_bad hx, ← hlen, ih (h.concat_bad hx), List.append_assoc, List.singleton_append,
        hlen]
      refine ⟨fun ⟨hrun, hle⟩ => ⟨hrun, Nat.le_of_succ_le hle⟩, fun ⟨hrun, hle⟩ => ⟨hrun, ?_⟩⟩
      refine Nat.lt_of_le_of_ne hle fun heq => ?_
      have hgood := hrun.after x (heq ▸ hhead)
      rw [hx] at hgood
      cases hgood
    | false =>
      rw [runsFrom_good hx, List.mem_append, ← hlen, ih (Opened.concat_good hx), List.append_assoc,
        List.singleton_append, hlen]
      constructor
      · rintro (hmem | ⟨hrun, hle⟩)
        · cases cur with
          | none => exact absurd hmem List.not_mem_nil
          | some i =>
            cases List.mem_singleton.mp hmem
            exact ⟨h.isRun fun y hy => Option.some.inj (hhead.symm.trans hy) ▸ hx, Nat.le_refl _⟩
        · exact ⟨hrun, Nat.le_of_succ_le hle⟩
      · rintro ⟨hrun, hle⟩
        obtain heq | hlt := Nat.eq_or_lt_of_le hle
        · obtain rfl | hi := h.start_cases hrun hle
          · exact .inl (heq ▸ List.mem_singleton_self _)
          · exact absurd hrun.lt (by omega)
        · exact .inr ⟨hrun, hlt⟩

/-- `runs` finds the maximal runs and nothing else. -/
theorem mem_runs : (i, j) ∈ runs bad l ↔ IsRun bad l i j := by
  have h : (i, j) ∈ runsFrom bad ([] : List α).length none l ↔
      IsRun bad ([] ++ l) i j ∧ ([] : List α).length ≤ j := mem_runsFrom opened_nil
  rw [List.nil_append, List.length_nil] at h
  exact h.trans ⟨fun h => h.1, fun h => ⟨h, Nat.zero_le j⟩⟩

theorem runsFrom_start (hcur : ∀ i, cur = some i → i ≤ n) :
    ∀ r ∈ runsFrom bad n cur xs, cur.getD n ≤ r.1 := by
  induction xs generalizing n cur with
  | nil =>
    intro r hr
    cases cur with
    | none => exact absurd hr List.not_mem_nil
    | some i =>
      cases List.mem_singleton.mp hr
      exact Nat.le_refl i
  | cons x xs ih =>
    have hle : cur.getD n ≤ n := by
      cases cur with
      | none => exact Nat.le_refl n
      | some i => exact hcur i rfl
    cases hx : bad x with
    | true =>
      rw [runsFrom_bad hx]
      exact ih fun i hi => by cases hi; exact Nat.le_succ_of_le hle
    | false =>
      rw [runsFrom_good hx]
      intro r hr
      obtain hr | hr := List.mem_append.mp hr
      · cases cur with
        | none => exact absurd hr List.not_mem_nil
        | some i =>
          cases List.mem_singleton.mp hr
          exact Nat.le_refl i
      · have hnone : ∀ i, (none : Option Nat) = some i → i ≤ n + 1 := fun i hi =>
          absurd hi (Option.some_ne_none i).symm
        have hlater := ih hnone r hr
        exact Nat.le_trans hle (Nat.le_of_succ_le hlater)

/-- The runs come in the order of the list, each after the one before it has ended. -/
theorem runsFrom_pairwise : (runsFrom bad n cur xs).Pairwise fun r r' => r.2 < r'.1 := by
  induction xs generalizing n cur with
  | nil => cases cur <;> simp [runsFrom]
  | cons x xs ih =>
    cases hx : bad x with
    | true =>
      rw [runsFrom_bad hx]
      exact ih
    | false =>
      rw [runsFrom_good hx]
      cases cur with
      | none => exact ih
      | some i =>
        refine List.pairwise_cons.mpr ⟨fun r hr => ?_, ih⟩
        have hnone : ∀ i, (none : Option Nat) = some i → i ≤ n + 1 := fun i hi =>
          absurd hi (Option.some_ne_none i).symm
        exact runsFrom_start hnone r hr

theorem runs_pairwise : (runs bad l).Pairwise fun r r' => r.2 < r'.1 := runsFrom_pairwise

end SupabaseLab.Library
