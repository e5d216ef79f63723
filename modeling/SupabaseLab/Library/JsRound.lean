/-
  Library/JsRound.lean --- `Math.round`, which rounds ties up.
-/
import Mathlib.Algebra.Order.Round
import Mathlib.Data.Rat.Floor
import Mathlib.Tactic.Linarith

set_option autoImplicit false

namespace SupabaseLab.Library

/-- `Math.round`. -/
def mathRound (x : ℚ) : ℤ := ⌊x + 1 / 2⌋

variable {x y : ℚ} {n : ℤ}

theorem mathRound_mono (h : x ≤ y) : mathRound x ≤ mathRound y :=
  Int.floor_le_floor (add_le_add_left h _)

theorem mathRound_intCast (n : ℤ) : mathRound n = n := by
  rw [mathRound, Int.floor_eq_iff]
  constructor <;> linarith

/-- What is not above an integer is not rounded above it. -/
theorem mathRound_le_of_le (h : x ≤ n) : mathRound x ≤ n :=
  (mathRound_mono h).trans_eq (mathRound_intCast n)

end SupabaseLab.Library
