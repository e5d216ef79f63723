/-
  Library/RateLimit.lean --- logs whose entries were let in one at a time.

  An entry at time `t` is admitted by what the log holds then: the last entries
  are at least `gap` away, and fewer than `most` of them are less than `window`
  old.  What follows about a whole log speaks of any two entries and of any
  window, not only of the ones that end at an entry.
-/
import Mathlib

set_option autoImplicit false

namespace SupabaseLab.Library

/-- The log lets an entry in at `t`. -/
structure Admits (gap window : Int) (most : Nat) (log : List Int) (t : Int) : Prop where
  ordered : ∀ u ∈ log, u ≤ t
  spaced : ∀ u ∈ log, gap ≤ t - u
  room : (log.filter fun u => t - u < window).length < most

/-- A log every entry of which was admitted. -/
inductive Admitted (gap window : Int) (most : Nat) : List Int → Prop where
  | nil : Admitted gap window most []
  | snoc {log : List Int} {t : Int} (hlog : Admitted gap window most log)
      (ht : Admits gap window most log t) : Admitted gap window most (log ++ [t])

variable {gap window : Int} {most : Nat} {log : List Int}

/-- Any two entries are at least `gap` apart. -/
theorem Admitted.spaced (h : Admitted gap window most log) :
    log.Pairwise fun u t => gap ≤ t - u := by
  induction h with
  | nil => exact .nil
  | snoc hlog ht ih =>
      rw [List.pairwise_append]
      refine ⟨ih, List.pairwise_singleton _ _, ?_⟩
      intro u hu t' ht'
      rw [List.mem_singleton.mp ht']
      exact ht.spaced u hu

/-- No window of length `window` holds more than `most` entries. -/
theorem Admitted.window_le (h : Admitted gap window most log) (x : Int) :
    (log.filter fun u => x < u ∧ u ≤ x + window).length ≤ most := by
  induction h with
  | nil => exact Nat.zero_le _
  | @snoc log t hlog ht ih =>
      rw [List.filter_append, List.length_append]
      by_cases hin : x < t ∧ t ≤ x + window
      · -- what lies in the window with `t` is recent at `t`
        have hsub : (log.filter fun u => x < u ∧ u ≤ x + window).length ≤
            (log.filter fun u => t - u < window).length := by
          rw [← List.countP_eq_length_filter, ← List.countP_eq_length_filter]
          apply List.countP_mono_left
          intro u hu hux
          simp only [decide_eq_true_eq] at hux ⊢
          omega
        have hroom := ht.room
        have hone : ([t].filter fun u => x < u ∧ u ≤ x + window).length ≤ 1 :=
          List.length_filter_le _ _
        omega
      · rw [List.filter_cons_of_neg (by simpa using hin)]
        exact ih

/-- A log that is part of a larger one is easier to join. -/
theorem Admits.of_larger {more : List Int} {t t' : Int} (hsub : log.Sublist more)
    (hspaced : ∀ u ∈ more, gap ≤ t' - u)
    (hroom : (more.filter fun u => t' - u < window).length < most) (ht : t' ≤ t)
    (hordered : ∀ u ∈ log, u ≤ t) : Admits gap window most log t where
  ordered := hordered
  spaced u hu := by
    have := hspaced u (hsub.subset hu)
    omega
  room := by
    refine Nat.lt_of_le_of_lt ?_ hroom
    calc (log.filter fun u => t - u < window).length
        ≤ (log.filter fun u => t' - u < window).length := by
          rw [← List.countP_eq_length_filter, ← List.countP_eq_length_filter]
          apply List.countP_mono_left
          intro u _ hu
          simp only [decide_eq_true_eq] at hu ⊢
          omega
      _ ≤ (more.filter fun u => t' - u < window).length := (hsub.filter _).length_le

end SupabaseLab.Library
