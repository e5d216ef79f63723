/-
  Library/Period.lean --- the instants at which something periodic falls due.

  The periods are numbered along the clock: `t / p` is the number of the period that holds
  `t`, and period `k` begins at `k * p`.
-/
import Mathlib.Data.Int.Interval
import Mathlib.Tactic

set_option autoImplicit false

namespace SupabaseLab.Library.Period

variable {p a b t x stop : ℤ}

/-- When the period that holds `t` began. -/
def startOf (p t : ℤ) : ℤ := t / p * p

theorem dvd_startOf (p t : ℤ) : p ∣ startOf p t := Dvd.intro_left _ rfl

theorem startOf_le (hp : 0 < p) (t : ℤ) : startOf p t ≤ t := Int.ediv_mul_le t (ne_of_gt hp)

theorem emod_eq_sub_startOf (p t : ℤ) : t % p = t - startOf p t := by
  rw [Int.emod_def, startOf, mul_comm]

/-- The start of a period is the last multiple of the period by `t`. -/
theorem le_startOf_iff (hp : 0 < p) (hx : p ∣ x) : x ≤ startOf p t ↔ x ≤ t := by
  constructor
  · intro h
    exact h.trans (startOf_le hp t)
  · intro h
    obtain ⟨k, rfl⟩ := hx
    rw [mul_comm] at h ⊢
    exact Int.mul_le_mul_of_nonneg_right ((Int.le_ediv_iff_mul_le hp).mpr h) hp.le

theorem startOf_eq (hp : 0 < p) (hx : p ∣ x) (hle : x ≤ t) (hlt : t < x + p) :
    startOf p t = x := by
  obtain ⟨k, rfl⟩ := hx
  have hk : t / p = k := by
    refine Int.le_antisymm (Int.lt_add_one_iff.mp ?_) ((Int.le_ediv_iff_mul_le hp).mpr ?_)
    · refine (Int.ediv_lt_iff_lt_mul hp).mpr ?_
      linarith
    · linarith
  rw [startOf, hk, mul_comm]

/-! ## The starts from one instant up to another -/

/-- `b`, `b + p`, and so on below `stop`. -/
def instantsFrom (p b stop : ℤ) : List ℤ :=
  if 0 < p ∧ b < stop then b :: instantsFrom p (b + p) stop else []
termination_by (stop - b).toNat
decreasing_by omega

theorem mem_instantsFrom (hp : 0 < p) (hb : p ∣ b) :
    x ∈ instantsFrom p b stop ↔ p ∣ x ∧ b ≤ x ∧ x < stop := by
  induction b using instantsFrom.induct p stop with
  | case1 b hlt ih =>
      obtain ⟨-, hlt⟩ := hlt
      rw [instantsFrom, if_pos ⟨hp, hlt⟩, List.mem_cons, ih (dvd_add hb (dvd_refl p))]
      constructor
      · rintro (rfl | ⟨hx, hle, hstop⟩)
        · exact ⟨hb, le_refl x, hlt⟩
        · exact ⟨hx, by omega, hstop⟩
      · rintro ⟨hx, hle, hstop⟩
        -- no multiple of the period lies strictly between two of its neighbours
        rcases eq_or_lt_of_le hle with rfl | hgt
        · exact Or.inl rfl
        · have hgap : p ≤ x - b := Int.le_of_dvd (by omega) (dvd_sub hx hb)
          exact Or.inr ⟨hx, by omega, hstop⟩
  | case2 b hnot =>
      rw [instantsFrom, if_neg hnot]
      have hge : stop ≤ b := by
        by_contra hlt
        exact hnot ⟨hp, by omega⟩
      simp only [List.not_mem_nil, false_iff, not_and]
      intro _ hle
      omega

theorem pairwise_instantsFrom (hp : 0 < p) (hb : p ∣ b) :
    (instantsFrom p b stop).Pairwise (· < ·) := by
  induction b using instantsFrom.induct p stop with
  | case1 b hlt ih =>
      have hnext : p ∣ b + p := dvd_add hb (dvd_refl p)
      rw [instantsFrom, if_pos hlt, List.pairwise_cons]
      refine ⟨fun x hx => ?_, ih hnext⟩
      have hle := ((mem_instantsFrom hp hnext).mp hx).2.1
      omega
  | case2 b hnot =>
      rw [instantsFrom, if_neg hnot]
      exact List.Pairwise.nil

/-- From the first start after `t`. -/
theorem mem_instantsFrom_next (hp : 0 < p) :
    x ∈ instantsFrom p ((t / p + 1) * p) stop ↔ p ∣ x ∧ t < x ∧ x < stop := by
  rw [mem_instantsFrom hp (Dvd.intro_left _ rfl)]
  refine and_congr_right fun hx => and_congr_left fun _ => ?_
  obtain ⟨k, rfl⟩ := hx
  rw [mul_comm p k, Int.mul_le_mul_right hp, Int.add_one_le_iff]
  exact Int.ediv_lt_iff_lt_mul hp

/-! ## Periods counted -/

/-- The periods that begin after `a` and by `b`. -/
def begun (p a b : ℤ) : Finset ℤ :=
  @Finset.Ioc ℤ Int.instLinearOrder.toPreorder _ (a / p) (b / p)

theorem mem_begun (hp : 0 < p) : t / p ∈ begun p a b ↔ a < startOf p t ∧ startOf p t ≤ b := by
  rw [begun, Finset.mem_Ioc, startOf, Int.ediv_lt_iff_lt_mul hp, Int.le_ediv_iff_mul_le hp]

theorem card_begun (hp : 0 < p) (hab : a ≤ b) : ((begun p a b).card : ℤ) = b / p - a / p :=
  Int.card_Ioc_of_le _ _ (Int.ediv_le_ediv hp hab)

end SupabaseLab.Library.Period
