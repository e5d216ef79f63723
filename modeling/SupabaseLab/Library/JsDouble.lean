/-
  Library/JsDouble.lean --- numbers as JavaScript computes with them.

  A number is a double: `NaN`, an infinity, or a rational that was rounded to 53
  binary digits, ties to even.  The two zeros are one here.  Sums are rounded;
  what can be said of one is that it lies on the same side of an integer as the
  exact sum, as long as the integer is not too far from the numbers.
-/
import Mathlib

set_option autoImplicit false

namespace SupabaseLab.Library

/-! ## Rounding -/

/-- The integer nearest to `q`; of two, the even one. -/
def roundEven (q : ℚ) : ℤ :=
  let low := ⌊q⌋
  if q - low < 1 / 2 then low
  else if 1 / 2 < q - low then low + 1
  else if low % 2 = 0 then low
  else low + 1

theorem abs_roundEven_sub_le (q : ℚ) : |(roundEven q : ℚ) - q| ≤ 1 / 2 := by
  have hlow := Int.floor_le q
  have hhigh := Int.lt_floor_add_one q
  unfold roundEven
  dsimp only
  split
  · rw [abs_le]
    constructor
    · linarith
    · linarith
  · split
    · rw [abs_le]
      push_cast
      constructor
      · linarith
      · linarith
    · split
      · rw [abs_le]
        constructor
        · linarith
        · linarith
      · rw [abs_le]
        push_cast
        constructor
        · linarith
        · linarith

/-- No integer lies between a number and what it is rounded to. -/
theorem le_roundEven {n : ℤ} {q : ℚ} (h : (n : ℚ) ≤ q) : n ≤ roundEven q := by
  have hfloor : n ≤ ⌊q⌋ := Int.le_floor.mpr h
  unfold roundEven
  dsimp only
  split
  · exact hfloor
  · split
    · omega
    · split
      · exact hfloor
      · omega

theorem roundEven_le {n : ℤ} {q : ℚ} (h : q ≤ n) : roundEven q ≤ n := by
  have hfloor : ⌊q⌋ ≤ n := by exact_mod_cast (Int.floor_le q).trans h
  rcases hfloor.eq_or_lt with heq | hlt
  · have hq : q = n := le_antisymm h (heq ▸ Int.floor_le q)
    unfold roundEven
    dsimp only
    rw [heq, hq, sub_self, if_pos (by norm_num)]
  · unfold roundEven
    dsimp only
    split
    · exact hfloor
    · split
      · omega
      · split
        · exact hfloor
        · omega

/-- The exponent of the last binary digit that is kept. -/
def unitExponent (q : ℚ) : ℤ := max (Int.log 2 |q| - 52) (-1074)

inductive Double where
  | nan
  | inf (neg : Bool)
  | fin (q : ℚ)
  deriving DecidableEq

namespace Double

/-- The nearest number of 53 binary digits. -/
def rounded (q : ℚ) : ℚ := roundEven (q / 2 ^ unitExponent q) * 2 ^ unitExponent q

/-- The double nearest to `q`. -/
def round (q : ℚ) : Double :=
  if |rounded q| < 2 ^ 1024 then .fin (rounded q) else .inf (decide (q < 0))

/-- `+`. -/
def add : Double → Double → Double
  | .fin a, .fin b => round (a + b)
  | .nan, _ | _, .nan => .nan
  | .inf s, .inf t => if s = t then .inf s else .nan
  | .inf s, .fin _ | .fin _, .inf s => .inf s

/-- `<`. -/
def lt : Double → Double → Bool
  | .fin a, .fin b => decide (a < b)
  | .inf true, .fin _ | .inf true, .inf false | .fin _, .inf false => true
  | _, _ => false

/-- `<=`. -/
def le (a b : Double) : Bool := decide (a ≠ .nan) && decide (b ≠ .nan) && !b.lt a

/-- `Number.isFinite`. -/
def isFinite : Double → Bool
  | .fin _ => true
  | _ => false

/-- The number itself; zero where there is none. -/
def value : Double → ℚ
  | .fin q => q
  | _ => 0

section Order

variable {a b c : Double}

theorem lt_fin_iff {p q : ℚ} : (fin p).lt (fin q) = true ↔ p < q := decide_eq_true_iff

theorem le_fin_iff {p q : ℚ} : (fin p).le (fin q) = true ↔ p ≤ q := by
  rw [le, Bool.and_eq_true, Bool.not_eq_true', lt, decide_eq_false_iff_not, not_lt]
  exact and_iff_right rfl

theorem isFinite_iff : a.isFinite = true ↔ a = fin a.value := by
  cases a with
  | nan | inf neg => exact ⟨fun h => absurd h Bool.false_ne_true, fun h => Double.noConfusion h⟩
  | fin q => exact ⟨fun _ => rfl, fun _ => rfl⟩

theorem lt_of_le_of_lt (hab : a.le b = true) (hbc : b.lt c = true) : a.lt c = true := by
  rcases a with _ | (_ | _) | p <;> rcases b with _ | (_ | _) | q <;> rcases c with _ | (_ | _) | r
  case fin.fin.fin => exact lt_fin_iff.mpr ((le_fin_iff.mp hab).trans_lt (lt_fin_iff.mp hbc))
  all_goals first
    | rfl
    | exact absurd hab Bool.false_ne_true
    | exact absurd hbc Bool.false_ne_true

theorem lt_of_lt_of_le (hab : a.lt b = true) (hbc : b.le c = true) : a.lt c = true := by
  rcases a with _ | (_ | _) | p <;> rcases b with _ | (_ | _) | q <;> rcases c with _ | (_ | _) | r
  case fin.fin.fin => exact lt_fin_iff.mpr ((lt_fin_iff.mp hab).trans_le (le_fin_iff.mp hbc))
  all_goals first
    | rfl
    | exact absurd hab Bool.false_ne_true
    | exact absurd hbc Bool.false_ne_true

end Order

/-- The integer part. -/
def truncate (q : ℚ) : ℤ := if q < 0 then ⌈q⌉ else ⌊q⌋

/-- `ToIntegerOrInfinity`, taken as a position in an array of `length` elements: a negative
one counts from the end, and one that is out of range is at an end. -/
def position (length : Nat) : Double → Nat
  | .nan => 0
  | .inf neg => if neg then 0 else length
  | .fin q =>
      if truncate q < 0 then (length + truncate q).toNat
      else min (truncate q).toNat length

theorem position_of_nonneg {q : ℚ} (hq : 0 ≤ q) (length : Nat) :
    (fin q).position length = min ⌊q⌋.toNat length := by
  have htruncate : truncate q = ⌊q⌋ := if_neg (not_lt.mpr hq)
  show (if truncate q < 0 then _ else min (truncate q).toNat length) = _
  rw [htruncate, if_neg (not_lt.mpr (Int.floor_nonneg.mpr hq))]

/-! ## What rounding keeps -/

section Rounding

variable {q v : ℚ} {n : ℕ}

theorem two_zpow_pos (e : ℤ) : (0 : ℚ) < 2 ^ e := zpow_pos (by norm_num) e

/-- A unit is small against its number, or against one. -/
theorem two_zpow_unitExponent_le (q : ℚ) : (2 : ℚ) ^ unitExponent q ≤ (|q| + 1) / 2 ^ 52 := by
  have hsmall : (2 : ℚ) ^ (-1074 : ℤ) ≤ 1 / 2 ^ 52 := by
    rw [one_div, ← zpow_natCast, ← zpow_neg]
    exact zpow_le_zpow_right₀ (by norm_num) (by norm_num)
  have hlog : (2 : ℚ) ^ (Int.log 2 |q| - 52) ≤ (|q| + 1) / 2 ^ 52 := by
    rw [zpow_sub₀ (by norm_num)]
    refine div_le_div_of_nonneg_right ?_ (by positivity)
    rcases eq_or_ne q 0 with rfl | hq
    · rw [abs_zero, Int.log_zero_right, zpow_zero, zero_add]
    · have := Int.zpow_log_le_self (b := 2) (by norm_num) (abs_pos.mpr hq)
      rw [Nat.cast_ofNat] at this
      linarith
  unfold unitExponent
  rcases le_total (Int.log 2 |q| - 52) (-1074) with hle | hle
  · rw [max_eq_right hle]
    refine hsmall.trans (div_le_div_of_nonneg_right ?_ (by positivity))
    linarith [abs_nonneg q]
  · rw [max_eq_left hle]
    exact hlog

theorem abs_rounded_sub_le (q : ℚ) : |rounded q - q| ≤ (|q| + 1) / 2 ^ 53 := by
  have hunit := two_zpow_pos (unitExponent q)
  have hle := two_zpow_unitExponent_le q
  have herror := abs_roundEven_sub_le (q / 2 ^ unitExponent q)
  rw [rounded]
  generalize (2 : ℚ) ^ unitExponent q = unit at hunit hle herror
  have hscaled : (roundEven (q / unit) : ℚ) * unit - q = (roundEven (q / unit) - q / unit) * unit := by
    rw [sub_mul, div_mul_cancel₀ q hunit.ne']
  rw [hscaled, abs_mul, abs_of_pos hunit]
  calc |(roundEven (q / unit) : ℚ) - q / unit| * unit
      ≤ 1 / 2 * unit := mul_le_mul_of_nonneg_right herror hunit.le
    _ ≤ 1 / 2 * ((|q| + 1) / 2 ^ 52) := mul_le_mul_of_nonneg_left hle (by norm_num)
    _ = (|q| + 1) / 2 ^ 53 := by ring

/-- From one on, nothing is rounded below one. -/
theorem one_le_rounded (hq : 1 ≤ q) : 1 ≤ rounded q := by
  have hlog : 0 ≤ Int.log 2 |q| := by
    rw [← Int.zpow_le_iff_le_log (b := 2) (by norm_num) (abs_pos.mpr (by linarith)), zpow_zero]
    exact hq.trans (le_abs_self q)
  have hunit : unitExponent q = Int.log 2 |q| - 52 := max_eq_left (by omega)
  have hpow : (2 : ℚ) ^ Int.log 2 |q| ≤ q := by
    have := Int.zpow_log_le_self (b := 2) (r := q) (by norm_num) (by linarith)
    rw [Nat.cast_ofNat] at this
    rwa [abs_of_pos (by linarith)]
  have hdigits : ((2 ^ 52 : ℤ) : ℚ) ≤ q / 2 ^ unitExponent q := by
    rw [hunit, zpow_sub₀ (by norm_num), le_div_iff₀ (by positivity)]
    push_cast
    rw [mul_div_cancel₀ _ (by norm_num)]
    exact hpow
  calc (1 : ℚ) ≤ 2 ^ Int.log 2 |q| := one_le_zpow₀ (by norm_num) hlog
    _ = (2 ^ 52 : ℤ) * 2 ^ unitExponent q := by
      rw [hunit, zpow_sub₀ (by norm_num)]
      push_cast
      rw [mul_div_cancel₀ _ (by norm_num)]
    _ ≤ roundEven (q / 2 ^ unitExponent q) * 2 ^ unitExponent q :=
      mul_le_mul_of_nonneg_right (by exact_mod_cast le_roundEven hdigits) (two_zpow_pos _).le

/-- A double is a whole number of its units. -/
def IsDouble (v : ℚ) : Prop := ∃ m e : ℤ, v = m * 2 ^ e ∧ |v| ≤ 2 ^ 53 * 2 ^ e

theorem isDouble_rounded (q : ℚ) : IsDouble (rounded q) := by
  refine ⟨_, _, rfl, ?_⟩
  have hunit := two_zpow_pos (unitExponent q)
  have hbig : |q| ≤ 2 ^ 53 * 2 ^ unitExponent q := by
    have hlog : |q| < 2 ^ (Int.log 2 |q| + 1) := by
      have := Int.lt_zpow_succ_log_self (b := 2) (by norm_num) |q|
      rwa [Nat.cast_ofNat] at this
    refine hlog.le.trans ?_
    rw [← zpow_natCast, ← zpow_add₀ (by norm_num)]
    refine zpow_le_zpow_right₀ (by norm_num) ?_
    have : Int.log 2 |q| - 52 ≤ unitExponent q := le_max_left _ _
    push_cast
    omega
  have hbounds := abs_le.mp hbig
  have hlow : ((-2 ^ 53 : ℤ) : ℚ) ≤ q / 2 ^ unitExponent q := by
    rw [le_div_iff₀ hunit]
    push_cast
    linarith
  have hhigh : q / 2 ^ unitExponent q ≤ ((2 ^ 53 : ℤ) : ℚ) := by
    rw [div_le_iff₀ hunit]
    push_cast
    exact hbounds.2
  rw [rounded, abs_mul, abs_of_pos hunit]
  refine mul_le_mul_of_nonneg_right ?_ hunit.le
  have hlow := le_roundEven hlow
  have hhigh := roundEven_le hhigh
  exact_mod_cast abs_le.mpr ⟨hlow, hhigh⟩

/-- Away from zero the units are those of one, at least. -/
theorem IsDouble.exists_unit (h : IsDouble v) (hv : 1 ≤ |v|) : ∃ k : ℤ, v = k / 2 ^ 52 := by
  obtain ⟨m, e, hval, hbound⟩ := h
  rcases le_or_gt (-52) e with he | he
  · obtain ⟨d, rfl⟩ : ∃ d : ℕ, e = (d : ℤ) - 52 := ⟨(e + 52).toNat, by omega⟩
    refine ⟨m * 2 ^ d, ?_⟩
    rw [hval, zpow_sub₀ (by norm_num), zpow_natCast]
    push_cast
    ring
  · -- its units are so small that it is one, or minus one
    have hunit : (2 : ℚ) ^ e ≤ 1 / 2 ^ 53 := by
      rw [one_div, ← zpow_natCast, ← zpow_neg]
      exact zpow_le_zpow_right₀ (by norm_num) (by push_cast; omega)
    have hone : |v| = 1 := by
      refine le_antisymm (hbound.trans ?_) hv
      linarith
    rcases eq_or_eq_neg_of_abs_eq hone with rfl | rfl
    · exact ⟨2 ^ 52, by norm_num⟩
    · exact ⟨-2 ^ 52, by norm_num⟩

/-- **A sum is below one when the exact sum is.** -/
theorem rounded_add_lt_one {len : ℚ} (hn : 2 ≤ n) (hlen : IsDouble len) (hsum : n + len < 1) :
    rounded (n + len) < 1 := by
  obtain ⟨k, hk⟩ : ∃ k : ℤ, len = k / 2 ^ 52 := by
    apply hlen.exists_unit
    have hn : (2 : ℚ) ≤ n := by exact_mod_cast hn
    rw [abs_of_neg (by linarith)]
    linarith
  -- the sum is a whole number of units too, so it is a unit below one
  have hgap : (n : ℚ) + len ≤ 1 - 1 / 2 ^ 52 := by
    rw [hk] at hsum ⊢
    have hint : (n : ℤ) * 2 ^ 52 + k < 2 ^ 52 := by
      have : (n : ℚ) * 2 ^ 52 + k < 2 ^ 52 := by linarith
      exact_mod_cast this
    have hle : (n : ℚ) * 2 ^ 52 + k ≤ 2 ^ 52 - 1 := by exact_mod_cast Int.le_sub_one_of_lt hint
    linarith
  have herror := (abs_le.mp (abs_rounded_sub_le ((n : ℚ) + len))).2
  rcases le_total 0 ((n : ℚ) + len) with hpos | hneg
  · rw [abs_of_nonneg hpos] at herror
    linarith
  · rw [abs_of_nonpos hneg] at herror
    linarith

/-- A sum that is not far from zero is finite. -/
theorem round_of_small (hlow : 0 ≤ q) (hhigh : q < 1) : round q = .fin (rounded q) := by
  have hbounds := abs_le.mp (abs_rounded_sub_le q)
  rw [abs_of_nonneg hlow] at hbounds
  have hsmall : |rounded q| ≤ 2 := abs_le.mpr ⟨by linarith, by linarith⟩
  have hlimit : (2 : ℚ) < 2 ^ 1024 := lt_self_pow₀ (by norm_num) (by norm_num)
  exact if_pos (hsmall.trans_lt hlimit)

/-- What rounding can give. -/
theorem round_cases (q : ℚ) : round q = .fin (rounded q) ∨ round q = .inf (decide (q < 0)) := by
  unfold round
  split
  · exact .inl rfl
  · exact .inr rfl

end Rounding

/-! ## Reading a number -/

/-- An unsigned decimal number: digits with or without a point, and an exponent. -/
def decimal? (text : List Char) : Option ℚ :=
  let whole := text.takeWhile Char.isDigit
  let point := text.dropWhile Char.isDigit
  let rest := if point.head? = some '.' then point.tail else point
  let fraction := if point.head? = some '.' then rest.takeWhile Char.isDigit else []
  let exponent := rest.drop fraction.length
  let mantissa : ℚ := Nat.ofDigitChars 10 (whole ++ fraction) 0 / 10 ^ fraction.length
  if whole = [] ∧ fraction = [] then none
  else
    match exponent with
    | [] => some mantissa
    | c :: signed =>
        let digits := if signed.head? = some '+' ∨ signed.head? = some '-' then signed.tail else signed
        let power := Nat.ofDigitChars 10 digits 0
        if c.toLower = 'e' ∧ digits ≠ [] ∧ digits.all Char.isDigit then
          some (if signed.head? = some '-' then mantissa / 10 ^ power else mantissa * 10 ^ power)
        else none

/-- An unsigned number of another base, behind its prefix. -/
def based? (text : List Char) : Option ℕ :=
  let digits := text.drop 2
  let base := match text.take 2 with
    | ['0', c] => match c.toLower with
      | 'x' => 16
      | 'o' => 8
      | 'b' => 2
      | _ => 0
    | _ => 0
  let value (c : Char) : ℕ := if c.isDigit then c.toNat - 48 else c.toLower.toNat - 87
  if digits ≠ [] ∧ digits.all fun c => c.isAlphanum && decide (value c < base) then
    some (digits.foldl (fun n c => base * n + value c) 0)
  else none

/-- `Number(text)`, of a text without white space at its ends. -/
def ofText (text : List Char) : Double :=
  let unsigned := if text.head? = some '+' ∨ text.head? = some '-' then text.tail else text
  let neg := decide (text.head? = some '-')
  if text = [] then .fin 0
  else if unsigned = "Infinity".toList then .inf neg
  else
    match based? text with
    | some n => round n
    | none =>
        match decimal? unsigned with
        | some q => round (if neg then -q else q)
        | none => .nan

/-- An infinity, or a rational double. -/
def IsNumber (d : Double) : Prop := (∃ neg, d = .inf neg) ∨ ∃ q, d = .fin q ∧ IsDouble q

theorem isNumber_zero : IsNumber (.fin 0) := .inr ⟨0, rfl, 0, 0, by norm_num, by norm_num⟩

theorem isNumber_round (q : ℚ) : IsNumber (round q) := by
  rcases round_cases q with heq | heq
  · exact .inr ⟨_, heq, isDouble_rounded q⟩
  · exact .inl ⟨_, heq⟩

/-- What is read is a number, or `NaN`. -/
theorem ofText_isNumber {text : List Char} (h : ofText text ≠ .nan) : IsNumber (ofText text) := by
  unfold ofText at h ⊢
  dsimp only at h ⊢
  generalize (if text.head? = some '+' ∨ text.head? = some '-' then text.tail else text) = unsigned at h ⊢
  split
  · exact isNumber_zero
  · rename_i htext
    split
    · exact .inl ⟨_, rfl⟩
    · rename_i hinf
      rw [if_neg htext, if_neg hinf] at h
      split
      · exact isNumber_round _
      · rename_i hbased
        rw [hbased] at h
        dsimp only at h
        split
        · exact isNumber_round _
        · rename_i hdecimal
          rw [hdecimal] at h
          exact absurd rfl h

/-! ## Whole numbers, read back -/

theorem isDigit_of_mem_digits {n : ℕ} {c : Char} (h : c ∈ Nat.toDigits 10 n) : c.isDigit = true :=
  Nat.isDigit_of_mem_toDigits (by decide) (by decide) h

theorem toLower_of_isDigit {c : Char} (h : c.isDigit = true) : c.toLower = c := by
  refine Char.toLower_eq_of_not_isUpper fun hup => ?_
  simp only [Char.isDigit, Char.isUpper, Bool.and_eq_true, decide_eq_true_eq,
    UInt32.le_iff_toNat_le, ge_iff_le] at h hup
  have hA : 'A'.val.toNat = 65 := rfl
  have hnine : '9'.val.toNat = 57 := rfl
  omega

/-- The digits of a number are not those of another base. -/
theorem based?_eq_none {text : List Char} (h : ∀ c ∈ text.tail, c.isDigit = true) :
    based? text = none := by
  unfold based?
  have hbase : (match text.take 2 with
    | ['0', c] => match c.toLower with
      | 'x' => 16
      | 'o' => 8
      | 'b' => 2
      | _ => 0
    | _ => 0) = (0 : ℕ) := by
    split
    · rename_i c htake
      have hmem : c ∈ text.tail := by
        match text, htake with
        | [_, _], htake => simp_all
        | _ :: _ :: _ :: _, htake => simp_all
      have hdigit := h c hmem
      rw [toLower_of_isDigit hdigit]
      split <;> first | rfl | exact absurd hdigit (by decide)
    · rfl
  refine if_neg ?_
  rintro ⟨hne, hall⟩
  obtain ⟨c, rest, hdrop⟩ := List.exists_cons_of_ne_nil hne
  have hfirst := List.all_eq_true.mp hall c (hdrop ▸ List.mem_cons_self)
  have hlow := of_decide_eq_true (Bool.and_eq_true_iff.mp hfirst).2
  exact absurd (hlow.trans_eq hbase) (Nat.not_lt_zero _)

theorem decimal?_digits (n : ℕ) : decimal? (Nat.toDigits 10 n) = some (n : ℚ) := by
  have htake : (Nat.toDigits 10 n).takeWhile Char.isDigit = Nat.toDigits 10 n :=
    List.takeWhile_eq_self_iff.mpr fun c hc => isDigit_of_mem_digits hc
  have hdrop : (Nat.toDigits 10 n).dropWhile Char.isDigit = [] :=
    List.dropWhile_eq_nil_iff.mpr fun c hc => isDigit_of_mem_digits hc
  have hne : Nat.toDigits 10 n ≠ [] := Nat.toDigits_ne_nil
  simp [decimal?, htake, hdrop, hne]

theorem digits_ne_infinity (n : ℕ) : Nat.toDigits 10 n ≠ "Infinity".toList := by
  intro h
  have hmem : 'I' ∈ "Infinity".toList := by decide
  rw [← h] at hmem
  exact absurd (isDigit_of_mem_digits hmem) (by decide)

theorem ofText_digits (n : ℕ) : ofText (Nat.toDigits 10 n) = round n := by
  have hhead : ∀ c ∈ (Nat.toDigits 10 n).head?, c.isDigit = true := fun c hc =>
    isDigit_of_mem_digits (List.mem_of_mem_head? hc)
  have hplus : (Nat.toDigits 10 n).head? ≠ some '+' := fun h => absurd (hhead '+' h) (by decide)
  have hminus : (Nat.toDigits 10 n).head? ≠ some '-' := fun h => absurd (hhead '-' h) (by decide)
  have hbased : based? (Nat.toDigits 10 n) = none :=
    based?_eq_none fun d hd => isDigit_of_mem_digits (List.mem_of_mem_tail hd)
  unfold ofText
  dsimp only
  rw [if_neg (not_or.mpr ⟨hplus, hminus⟩), if_neg Nat.toDigits_ne_nil, if_neg (digits_ne_infinity n),
    hbased, decimal?_digits, decide_eq_false hminus]
  rfl

theorem ofText_neg_digits (n : ℕ) : ofText ('-' :: Nat.toDigits 10 n) = round (-n) := by
  have hbased : based? ('-' :: Nat.toDigits 10 n) = none :=
    based?_eq_none fun d hd => isDigit_of_mem_digits hd
  have hhead : ('-' :: Nat.toDigits 10 n).head? = some '-' := rfl
  unfold ofText
  dsimp only
  rw [if_pos (Or.inr hhead), List.tail_cons, if_neg (List.cons_ne_nil _ _),
    if_neg (digits_ne_infinity n), hbased, decimal?_digits, decide_eq_true hhead]
  rfl

end Double

end SupabaseLab.Library
