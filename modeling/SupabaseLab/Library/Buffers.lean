/-
  Library/Buffers.lean --- byte buffers that are searched, cut and read as text.

  An offset below zero counts from the end of the buffer.  A separator of two bytes is
  found behind what stands before it, as long as its second byte does not stand there.
  Texts are given by their code units.
-/
import SupabaseLab.Library.Framing
import SupabaseLab.Library.Utf8

set_option autoImplicit false

namespace SupabaseLab.Library

/-- A buffer; none is longer than the runtime allows. -/
structure Buffer where
  bytes : Bytes
  bounded : bytes.length < 2 ^ 53

/-! ## Offsets -/

/-- The place an offset stands for. -/
def fromStart (length : Nat) (i : Int) : Nat := if i < 0 then (length + i).toNat else i.toNat

/-- `b.indexOf(text, i)`. -/
def indexFrom (text b : Bytes) (i : Int) : Option Nat :=
  let start := fromStart b.length i
  (indexOf text (b.drop start)).map (start + ·)

/-- `b.subarray(i, j)`. -/
def subarray (b : Bytes) (i j : Int) : Bytes := slice b (fromStart b.length i) (fromStart b.length j)

theorem fromStart_natCast (length i : Nat) : fromStart length (i : Int) = i := by
  rw [fromStart, if_neg (Int.not_lt.mpr (Int.natCast_nonneg i)), Int.toNat_natCast]

/-! ## A separator of two elements -/

/-- `split`, where the separator is `[a, b]`. -/
def splitPairAt {β : Type} [DecidableEq β] (a b : β) : List β → List (List β)
  | [] => [[]]
  | [x] => [[x]]
  | x :: y :: rest =>
      if x = a ∧ y = b then [] :: splitPairAt a b rest
      else
        match splitPairAt a b (y :: rest) with
        | [] => [[x]]
        | line :: lines => (x :: line) :: lines

section Separator

variable {β : Type} [DecidableEq β] {a b : β} {line rest text : List β}

omit [DecidableEq β] in
/-- The separator does not begin before the end of a text without its second element. -/
theorem not_prefix_of_notMem (rest : List β) (hab : a ≠ b) (hne : line ≠ []) (hline : b ∉ line) :
    ¬ [a, b] <+: line ++ a :: rest := by
  intro h
  cases line with
  | nil => exact hne rfl
  | cons x line =>
    have hsecond := (List.cons_prefix_cons.mp h).2
    cases line with
    | nil => exact hab (List.cons_prefix_cons.mp hsecond).1.symm
    | cons y line =>
      have heq : b = y := (List.cons_prefix_cons.mp hsecond).1
      exact hline (by rw [heq]; exact List.mem_cons_of_mem _ List.mem_cons_self)

theorem indexOf_pair (hab : a ≠ b) (hline : b ∉ line) :
    indexOf [a, b] (line ++ a :: b :: rest) = some line.length := by
  induction line with
  | nil => exact if_pos ⟨rest, rfl⟩
  | cons x line ih =>
    have hnot := not_prefix_of_notMem (b :: rest) hab (List.cons_ne_nil x line) hline
    rw [List.cons_append] at hnot ⊢
    rw [indexOf, if_neg hnot, ih fun hmem => hline (List.mem_cons_of_mem _ hmem)]
    rfl

theorem indexOf_pair_none (h : b ∉ text) : indexOf [a, b] text = none := by
  cases hfound : indexOf [a, b] text with
  | none => rfl
  | some i =>
    exfalso
    induction text generalizing i with
    | nil => cases hfound
    | cons x text ih =>
      rw [indexOf] at hfound
      split at hfound
      · rename_i hhere
        exact h (hhere.subset (List.mem_cons_of_mem _ List.mem_cons_self))
      · obtain ⟨j, hj, -⟩ := Option.map_eq_some_iff.mp hfound
        exact ih (fun hmem => h (List.mem_cons_of_mem _ hmem)) j hj

theorem indexOf_singleton {x : β} (h : x ∉ line) : indexOf [x] (line ++ x :: rest) = some line.length := by
  induction line with
  | nil => exact if_pos ⟨rest, rfl⟩
  | cons y line ih =>
    have hne : x ≠ y := fun heq => h (heq ▸ List.mem_cons_self)
    rw [List.cons_append, indexOf, if_neg fun hprefix => hne (List.cons_prefix_cons.mp hprefix).1,
      ih fun hmem => h (List.mem_cons_of_mem _ hmem)]
    rfl

theorem splitPairAt_append (hab : a ≠ b) (hline : b ∉ line) :
    splitPairAt a b (line ++ a :: b :: rest) = line :: splitPairAt a b rest := by
  induction line with
  | nil => exact if_pos ⟨rfl, rfl⟩
  | cons x line ih =>
    have ih := ih fun hmem => hline (List.mem_cons_of_mem _ hmem)
    cases line with
    | nil =>
      rw [List.nil_append] at ih
      show splitPairAt a b (x :: a :: b :: rest) = _
      rw [splitPairAt, if_neg fun h => hab h.2, ih]
    | cons y line =>
      have hy : y ≠ b := fun heq => hline (heq ▸ List.mem_cons_of_mem _ List.mem_cons_self)
      rw [List.cons_append] at ih
      rw [List.cons_append, List.cons_append, splitPairAt, if_neg fun h => hy h.2, ih]

theorem splitPairAt_self (h : b ∉ text) : splitPairAt a b text = [text] := by
  induction text with
  | nil => rfl
  | cons x text ih =>
    have ih := ih fun hmem => h (List.mem_cons_of_mem _ hmem)
    cases text with
    | nil => rfl
    | cons y text =>
      have hy : y ≠ b := fun heq => h (heq ▸ List.mem_cons_of_mem _ List.mem_cons_self)
      rw [splitPairAt, if_neg fun h => hy h.2, ih]

end Separator

/-! ## Code units -/

/-- White space and line terminators, as `trim` knows them. -/
def isTrimUnit (u : Nat) : Bool := isBlankUnit u || isLineTerminator u

/-- `trim()`. -/
def trimUnits (text : List Nat) : List Nat :=
  ((text.dropWhile isTrimUnit).reverse.dropWhile isTrimUnit).reverse

/-- White space behind a word is trimmed. -/
theorem trimUnits_append {word blanks : List Nat} (hword : ∀ u ∈ word, isTrimUnit u = false)
    (hblanks : ∀ u ∈ blanks, isTrimUnit u = true) : trimUnits (word ++ blanks) = word := by
  have hkept : ∀ w : List Nat, (∀ u ∈ w, isTrimUnit u = false) → w.dropWhile isTrimUnit = w := by
    intro w hw
    cases w with
    | nil => rfl
    | cons u w => exact List.dropWhile_cons_of_neg (Bool.eq_false_iff.mp (hw u List.mem_cons_self))
  have hback : (blanks.reverse ++ word.reverse).dropWhile isTrimUnit = word.reverse := by
    rw [List.dropWhile_append_of_pos fun u hu => hblanks u (List.mem_reverse.mp hu)]
    exact hkept _ fun u hu => hword u (List.mem_reverse.mp hu)
  unfold trimUnits
  cases word with
  | nil =>
    have hall : blanks.dropWhile isTrimUnit = [] := List.dropWhile_eq_nil_iff.mpr hblanks
    rw [List.nil_append, hall]
    rfl
  | cons u word =>
    have hfront : (u :: word ++ blanks).dropWhile isTrimUnit = u :: word ++ blanks :=
      List.dropWhile_cons_of_neg (Bool.eq_false_iff.mp (hword u List.mem_cons_self))
    rw [hfront, List.reverse_append, hback, List.reverse_reverse]

def isHexUnit (u : Nat) : Bool := (hexDigit? u).isSome

/-- The value of hex digits. -/
def hexValue (digits : List Nat) : Nat := digits.foldl (fun n u => 16 * n + (hexDigit? u).getD 0) 0

/-- `parseInt(text, 16)`; `none` is `NaN`. -/
def parseIntHex (text : List Nat) : Option Int :=
  let signed := text.dropWhile isTrimUnit
  let unsigned := if signed.head? = some 43 ∨ signed.head? = some 45 then signed.tail else signed
  let number :=
    if unsigned.head? = some 48 ∧ (unsigned[1]? = some 120 ∨ unsigned[1]? = some 88) then unsigned.drop 2
    else unsigned
  let digits := number.takeWhile isHexUnit
  if digits = [] then none
  else if signed.head? = some 45 then some (-hexValue digits) else some (hexValue digits)

/-- From here on an integer is rounded to an infinity. -/
def finiteLimit : Nat := 2 ^ 970 * (2 ^ 54 - 1)

/-- `Number.isFinite`, of the double that an integer is rounded to. -/
def IsFiniteInteger (n : Int) : Prop := n.natAbs < finiteLimit

instance (n : Int) : Decidable (IsFiniteInteger n) := inferInstanceAs (Decidable (_ < _))

theorem isFiniteInteger_of_lt_pow {n k : Nat} (h : n < 2 ^ k) (hk : k ≤ 970) : IsFiniteInteger n := by
  have hlimit : ∀ e m, k ≤ e → 0 < m → 2 ^ k ≤ 2 ^ e * m := fun e m he hm =>
    (Nat.pow_le_pow_right Nat.two_pos he).trans (Nat.le_mul_of_pos_right _ hm)
  unfold IsFiniteInteger
  rw [Int.natAbs_natCast]
  exact h.trans_le (hlimit _ _ hk (by decide))

section HexDigits

variable {digits : List Nat} {u : Nat}

theorem isHexUnit_iff : isHexUnit u = true ↔
    (48 ≤ u ∧ u ≤ 57) ∨ (97 ≤ u ∧ u ≤ 102) ∨ 65 ≤ u ∧ u ≤ 70 := by
  unfold isHexUnit hexDigit?
  split_ifs <;> simp <;> omega

theorem isTrimUnit_of_isHexUnit (h : isHexUnit u = true) : isTrimUnit u = false := by
  rw [isHexUnit_iff] at h
  unfold isTrimUnit isBlankUnit isLineTerminator
  simp
  omega

/-- Digits alone are their value. -/
theorem parseIntHex_digits (hne : digits ≠ []) (hdigits : ∀ u ∈ digits, isHexUnit u = true) :
    parseIntHex digits = some (hexValue digits : Int) := by
  cases digits with
  | nil => exact absurd rfl hne
  | cons u us =>
    have hu := hdigits u List.mem_cons_self
    have hrange := isHexUnit_iff.mp hu
    have hsigned : (u :: us).dropWhile isTrimUnit = u :: us :=
      List.dropWhile_cons_of_neg (Bool.eq_false_iff.mp (isTrimUnit_of_isHexUnit hu))
    have hsign : ¬ (some u = some 43 ∨ some u = some 45) := by
      rw [Option.some.injEq, Option.some.injEq]
      omega
    -- a prefix `0x` has a letter that is no digit
    have hprefix : ¬ ((u :: us)[1]? = some 120 ∨ (u :: us)[1]? = some 88) := by
      rintro (h | h) <;> exact absurd (hdigits _ (List.mem_of_getElem? h)) (by decide)
    have hall : (u :: us).takeWhile isHexUnit = u :: us := List.takeWhile_eq_self_iff.mpr hdigits
    unfold parseIntHex
    dsimp only
    rw [hsigned, List.head?_cons, if_neg hsign]
    have hnumber : ¬ ((u :: us).head? = some 48 ∧
        ((u :: us)[1]? = some 120 ∨ (u :: us)[1]? = some 88)) := fun h => hprefix h.2
    rw [if_neg hnumber, hall, if_neg (List.cons_ne_nil u us), if_neg fun h => hsign (.inr h)]

end HexDigits

end SupabaseLab.Library
