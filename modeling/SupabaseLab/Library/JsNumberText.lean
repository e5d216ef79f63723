/-
  Library/JsNumberText.lean --- the text of a number, as JavaScript writes it.

  The digits are the fewest that are read back as the number, and of those the ones
  nearest to it.  Very large and very small numbers are written with an exponent.
-/
import SupabaseLab.Library.JsDouble

set_option autoImplicit false

namespace SupabaseLab.Library.Double

/-- The `k` digits nearest to a positive number, if they are read back as it, with the
power of ten that they count. -/
def digits? (x : ℚ) (k : ℕ) : Option (ℕ × ℤ) :=
  let power := Int.log 10 x + 1 - k
  let scaled := x / 10 ^ power
  let low := ⌊scaled⌋₊
  let lowFirst := 2 * (scaled - low) < 1 ∨ 2 * (scaled - low) = 1 ∧ low % 2 = 0
  let nearest : List ℕ := if lowFirst then [low, low + 1] else [low + 1, low]
  (nearest.find? fun (s : ℕ) => rounded ((s : ℚ) * 10 ^ power) = x).map fun (s : ℕ) => (s, power)

/-- The fewest digits; 17 are always enough. -/
def fewestDigits (x : ℚ) : ℕ × ℤ :=
  ((List.range' 1 17).findSome? (digits? x)).getD (0, 0)

/-- Digits with the decimal point after so many of them, or with an exponent. -/
def placePoint (digits : List Char) (point : ℤ) : List Char :=
  if digits.length ≤ point ∧ point ≤ 21 then
    digits ++ List.replicate (point.toNat - digits.length) '0'
  else if 0 < point ∧ point ≤ 21 then
    digits.take point.toNat ++ '.' :: digits.drop point.toNat
  else if -6 < point ∧ point ≤ 0 then
    '0' :: '.' :: (List.replicate (-point).toNat '0' ++ digits)
  else
    digits.take 1 ++ (if digits.length = 1 then [] else '.' :: digits.drop 1) ++
      'e' :: (if point ≤ 0 then '-' else '+') :: Nat.toDigits 10 (point - 1).natAbs

/-- The text of a positive number. -/
def positiveText (x : ℚ) : List Char :=
  let (s, power) := fewestDigits x
  let written := Nat.toDigits 10 s
  placePoint (written.reverse.dropWhile fun c => c = '0').reverse (written.length + power)

/-- `String(value)`. -/
def text : Double → List Char
  | .nan => "NaN".toList
  | .inf neg => if neg then "-Infinity".toList else "Infinity".toList
  | .fin x =>
      if x = 0 then ['0']
      else if x < 0 then '-' :: positiveText (-x)
      else positiveText x

/-- The characters that a number is written with. -/
def isNumberChar (c : Char) : Bool := c.isAlphanum || c = '.' || c = '-' || c = '+'

theorem isNumberChar_of_mem_toDigits {n : ℕ} {c : Char} (h : c ∈ Nat.toDigits 10 n) :
    isNumberChar c = true := by
  have hdigit := Nat.isDigit_of_mem_toDigits (by decide) (by decide) h
  simp [isNumberChar, Char.isAlphanum, hdigit]

theorem isNumberChar_of_mem_placePoint {digits : List Char} {point : ℤ} {c : Char}
    (hdigits : ∀ d ∈ digits, isNumberChar d = true) (h : c ∈ placePoint digits point) :
    isNumberChar c = true := by
  have hzeros : ∀ n, ∀ d ∈ List.replicate n '0', isNumberChar d = true := by
    intro n d hd
    rw [(List.mem_replicate.mp hd).2]
    decide
  unfold placePoint at h
  split at h
  · rcases List.mem_append.mp h with h | h
    · exact hdigits c h
    · exact hzeros _ c h
  · split at h
    · simp only [List.mem_append, List.mem_cons] at h
      rcases h with h | rfl | h
      · exact hdigits c (List.mem_of_mem_take h)
      · decide
      · exact hdigits c (List.mem_of_mem_drop h)
    · split at h
      · simp only [List.mem_append, List.mem_cons] at h
        rcases h with rfl | rfl | h | h
        · decide
        · decide
        · exact hzeros _ c h
        · exact hdigits c h
      · simp only [List.mem_append, List.mem_cons] at h
        rcases h with (h | h) | rfl | h | h
        · exact hdigits c (List.mem_of_mem_take h)
        · split at h
          · cases h
          · rcases List.mem_cons.mp h with rfl | h
            · decide
            · exact hdigits c (List.mem_of_mem_drop h)
        · decide
        · rw [h]
          split
          · decide
          · decide
        · exact isNumberChar_of_mem_toDigits h

theorem isNumberChar_of_mem_positiveText {x : ℚ} {c : Char} (h : c ∈ positiveText x) :
    isNumberChar c = true := by
  refine isNumberChar_of_mem_placePoint (fun d hd => ?_) h
  have := (List.dropWhile_sublist _).mem (List.mem_reverse.mp hd)
  exact isNumberChar_of_mem_toDigits (List.mem_reverse.mp this)

/-- **A number is written with digits, letters, a point and signs.** -/
theorem isNumberChar_of_mem_text {d : Double} {c : Char} (h : c ∈ text d) :
    isNumberChar c = true := by
  cases d with
  | nan => exact List.all_eq_true.mp (by decide : "NaN".toList.all isNumberChar = true) c h
  | inf neg =>
    cases neg with
    | true => exact List.all_eq_true.mp (by decide : "-Infinity".toList.all isNumberChar = true) c h
    | false => exact List.all_eq_true.mp (by decide : "Infinity".toList.all isNumberChar = true) c h
  | fin x =>
    rw [text] at h
    split at h
    · rw [List.mem_singleton.mp h]
      decide
    · split at h
      · rcases List.mem_cons.mp h with rfl | h
        · decide
        · exact isNumberChar_of_mem_positiveText h
      · exact isNumberChar_of_mem_positiveText h

example : text (.fin 12019) = "12019".toList ∧ text (round (-1 / 1000)) = "-0.001".toList := by
  decide +kernel

end SupabaseLab.Library.Double
