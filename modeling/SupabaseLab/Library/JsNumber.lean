/-
  Library/JsNumber.lean --- decimal numbers as JavaScript reads and rounds them.

  A run of decimal digits denotes a natural number; `Number(text)` rounds it to
  the nearest double, ties to even, and gives `Infinity` beyond the largest one.
-/
import Mathlib

set_option autoImplicit false

namespace SupabaseLab.Library

/-! ## Rounding to a double -/

/-- Everything that rounds to this or more is `Infinity`. -/
def doubleLimit : Nat := 2 ^ 1024

/-- The double nearest to a natural number, which is again a natural number;
`none` is `Infinity`.  A 53-bit significand is kept. -/
def toDouble (n : Nat) : Option Nat :=
  let unit := 2 ^ (n.log2 - 52)
  let m := n / unit
  let r := n % unit
  let rounded := if unit < 2 * r ∨ (unit = 2 * r ∧ m % 2 = 1) then m + 1 else m
  if rounded * unit < doubleLimit then some (rounded * unit) else none

theorem two_pow_le_doubleLimit {e : Nat} (h : e ≤ 1024) : 2 ^ e ≤ doubleLimit := by
  unfold doubleLimit
  gcongr
  decide

/-- Below `2^53` every integer is a double. -/
theorem toDouble_of_lt {n : Nat} (h : n < 2 ^ 53) : toDouble n = some n := by
  have hlog : n.log2 - 52 = 0 := by
    by_cases h0 : n = 0
    · subst h0
      decide
    · have := (Nat.log2_lt h0).mpr h
      omega
  have hbig : n < doubleLimit := Nat.lt_of_lt_of_le h (two_pow_le_doubleLimit (by decide))
  have hround : (if 1 < 0 ∨ 1 = 0 ∧ n % 2 = 1 then n + 1 else n) = n := if_neg (by omega)
  simp only [toDouble, hlog, Nat.pow_zero, Nat.div_one, Nat.mod_one, Nat.mul_zero, Nat.mul_one,
    hround]
  exact if_pos hbig

/-- The value before overflow is checked: a multiple of the unit, next to the number. -/
theorem toDouble_eq (n : Nat) : ∃ rounded,
    (rounded = n / 2 ^ (n.log2 - 52) ∨ rounded = n / 2 ^ (n.log2 - 52) + 1) ∧
      toDouble n =
        if rounded * 2 ^ (n.log2 - 52) < doubleLimit then some (rounded * 2 ^ (n.log2 - 52))
        else none := by
  unfold toDouble
  generalize doubleLimit = limit
  refine ⟨_, ?_, rfl⟩
  by_cases hup : 2 ^ (n.log2 - 52) < 2 * (n % 2 ^ (n.log2 - 52)) ∨
      (2 ^ (n.log2 - 52) = 2 * (n % 2 ^ (n.log2 - 52)) ∧ n / 2 ^ (n.log2 - 52) % 2 = 1)
  · exact .inr (if_pos hup)
  · exact .inl (if_neg hup)

/-- The unit is no more than the number. -/
theorem two_pow_le_of_pos {n : Nat} (hn : 0 < n) : 2 ^ (n.log2 - 52) ≤ n :=
  Nat.le_trans (Nat.pow_le_pow_right (by decide) (Nat.sub_le _ _)) (Nat.log2_self_le (by omega))

/-- Only a number of half the limit or more can be `Infinity`. -/
theorem toDouble_eq_none {n : Nat} (hn : 0 < n) (h : toDouble n = none) : doubleLimit ≤ n + n := by
  obtain ⟨rounded, hrounded, heq⟩ := toDouble_eq n
  have hunit := two_pow_le_of_pos hn
  have hdiv := Nat.div_mul_le_self n (2 ^ (n.log2 - 52))
  rw [heq] at h
  generalize 2 ^ (n.log2 - 52) = unit at hrounded h hunit hdiv
  generalize doubleLimit = limit at h ⊢
  have hlarge : limit ≤ rounded * unit := by
    by_contra hsmall
    rw [if_pos (Nat.lt_of_not_le hsmall)] at h
    cases h
  obtain rfl | rfl := hrounded
  · omega
  · rw [Nat.succ_mul] at hlarge
    omega

/-- From `2^53` on the nearest double is from `2^53` on. -/
theorem le_toDouble {n t : Nat} (hn : 2 ^ 53 ≤ n) (h : toDouble n = some t) : 2 ^ 53 ≤ t := by
  obtain ⟨rounded, hrounded, heq⟩ := toDouble_eq n
  have hlog : 53 ≤ n.log2 := (Nat.le_log2 (by omega)).mpr hn
  have hm : 2 ^ 52 ≤ n / 2 ^ (n.log2 - 52) := by
    rw [Nat.le_div_iff_mul_le (Nat.two_pow_pos _), ← Nat.pow_add,
      Nat.add_sub_cancel' (Nat.le_of_succ_le hlog)]
    exact Nat.log2_self_le (by omega)
  have hunit : 2 ^ 1 ≤ 2 ^ (n.log2 - 52) := Nat.pow_le_pow_right (by decide) (by omega)
  rw [heq] at h
  generalize 2 ^ (n.log2 - 52) = unit at hrounded h hunit hm
  generalize doubleLimit = limit at h
  have ht : rounded * unit = t := by
    by_cases hsmall : rounded * unit < limit
    · rw [if_pos hsmall] at h
      exact Option.some.inj h
    · rw [if_neg hsmall] at h
      cases h
  calc 2 ^ 53 = 2 ^ 52 * 2 ^ 1 := (Nat.pow_add 2 52 1)
    _ ≤ rounded * unit := Nat.mul_le_mul (by omega) hunit
    _ = t := ht

/-- Numbers that compare equal as doubles are equal, as far as doubles count. -/
theorem eq_of_toDouble {m n : Nat} (hn : n < 2 ^ 53) (hm : m + m < doubleLimit)
    (h : toDouble m = none ∨ toDouble m = toDouble n) : m = n := by
  by_cases hsmall : m < 2 ^ 53
  · rw [toDouble_of_lt hsmall, toDouble_of_lt hn] at h
    obtain hnone | heq := h
    · cases hnone
    · exact Option.some.inj heq
  · have hlarge := Nat.not_lt.mp hsmall
    obtain hnone | heq := h
    · have hpos : 0 < m := Nat.lt_of_lt_of_le (Nat.two_pow_pos 53) hlarge
      exact absurd (toDouble_eq_none hpos hnone) (Nat.not_le.mpr hm)
    · rw [toDouble_of_lt hn] at heq
      exact absurd (le_toDouble hlarge heq) (Nat.not_le.mpr hn)

/-! ## Decimal digits at the end of a text -/

/-- The number written by the digits that follow the last character, a slash,
that is no digit: the capture of `\/(\d+)$`. -/
def slashNumber? (s : String) : Option Nat :=
  let digits := s.toList.rtakeWhile Char.isDigit
  let front := s.toList.rdropWhile Char.isDigit
  if digits = [] ∨ front.getLast? ≠ some '/' then none
  else some (Nat.ofDigitChars 10 digits 0)

theorem rtakeWhile_append_of_not {α : Type} {p : α → Bool} {front tail : List α} {x : α}
    (hx : p x = false) (htail : ∀ y ∈ tail, p y = true) :
    (front ++ x :: tail).rtakeWhile p = tail := by
  rw [List.rtakeWhile, List.reverse_append, List.reverse_cons, List.append_assoc,
    List.takeWhile_append_of_pos (by simpa using htail)]
  simp [hx]

theorem rdropWhile_append_of_not {α : Type} {p : α → Bool} {front tail : List α} {x : α}
    (hx : p x = false) (htail : ∀ y ∈ tail, p y = true) :
    (front ++ x :: tail).rdropWhile p = front ++ [x] := by
  rw [List.rdropWhile, List.reverse_append, List.reverse_cons, List.append_assoc,
    List.dropWhile_append_of_pos (by simpa using htail)]
  simp [hx]

/-- A decimal number printed after a slash is read back. -/
theorem slashNumber?_append (front : String) (n : Nat) :
    slashNumber? (front ++ "/" ++ toString n) = some n := by
  have hslash : Char.isDigit '/' = false := by decide
  have hdigits : ∀ c ∈ Nat.toDigits 10 n, Char.isDigit c = true := fun c hc =>
    Nat.isDigit_of_mem_toDigits (by decide) (by decide) hc
  have hlist : (front ++ "/" ++ toString n).toList =
      front.toList ++ '/' :: Nat.toDigits 10 n := by
    rw [String.toList_append, String.toList_append, Nat.toString_eq_repr, Nat.toList_repr]
    simp
  rw [slashNumber?, hlist, rtakeWhile_append_of_not hslash hdigits,
    rdropWhile_append_of_not hslash hdigits]
  rw [if_neg (by simp [Nat.toDigits_ne_nil]), Nat.ofDigitChars_ten_toDigits]

end SupabaseLab.Library
