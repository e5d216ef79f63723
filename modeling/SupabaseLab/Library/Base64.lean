/-
  Library/Base64.lean --- base64 text of a byte string, and the lenient decoder.

  Encoding takes three bytes to four digits of six bits and pads with `=`.  The
  decoder is the one of `Buffer`: both alphabets are read, characters outside
  them are skipped, and the first `=` ends the text.
-/
import SupabaseLab.Library.Octets

set_option autoImplicit false

namespace SupabaseLab.Library

/-! ## Digits of six bits -/

/-- The 64 characters of the standard alphabet. -/
def base64Alphabet : List Char :=
  "ABCDEFGHIJKLMNOPQRSTUVWXYZabcdefghijklmnopqrstuvwxyz0123456789+/".toList

/-- The character of a digit. -/
def base64Char (n : Nat) : Char := base64Alphabet.getD n 'A'

/-- The digit of a character of the standard or of the URL-safe alphabet. -/
def base64Digit? (c : Char) : Option Nat :=
  let u := c.toNat
  if 65 ≤ u ∧ u ≤ 90 then some (u - 65)
  else if 97 ≤ u ∧ u ≤ 122 then some (u - 71)
  else if 48 ≤ u ∧ u ≤ 57 then some (u + 4)
  else if u = 43 ∨ u = 45 then some 62
  else if u = 47 ∨ u = 95 then some 63
  else none

theorem base64Digit?_base64Char {n : Nat} (h : n < 64) : base64Digit? (base64Char n) = some n := by
  have hall : ∀ n ∈ List.range 64, base64Digit? (base64Char n) = some n := by decide
  exact hall n (List.mem_range.mpr h)

/-- No digit is written as padding. -/
theorem base64Char_ne_pad {n : Nat} (h : n < 64) : base64Char n ≠ '=' := by
  intro hpad
  have hnone : base64Digit? '=' = none := by decide
  have hdigit := base64Digit?_base64Char h
  rw [hpad, hnone] at hdigit
  cases hdigit

/-- The digits of a byte string; a last group of one or two bytes is filled with zero bits. -/
def base64Digits : Bytes → List Nat
  | x :: y :: z :: rest =>
      [x.toNat / 4, x.toNat % 4 * 16 + y.toNat / 16, y.toNat % 16 * 4 + z.toNat / 64,
        z.toNat % 64] ++ base64Digits rest
  | [x, y] => [x.toNat / 4, x.toNat % 4 * 16 + y.toNat / 16, y.toNat % 16 * 4]
  | [x] => [x.toNat / 4, x.toNat % 4 * 16]
  | [] => []

/-- The bytes that digits stand for; bits that fill no byte are dropped. -/
def base64Bytes : List Nat → Bytes
  | a :: b :: c :: d :: rest =>
      [UInt8.ofNat (a * 4 + b / 16), UInt8.ofNat (b * 16 + c / 4), UInt8.ofNat (c * 64 + d)] ++
        base64Bytes rest
  | [a, b, c] => [UInt8.ofNat (a * 4 + b / 16), UInt8.ofNat (b * 16 + c / 4)]
  | [a, b] => [UInt8.ofNat (a * 4 + b / 16)]
  | [_] => []
  | [] => []

theorem base64Digits_lt (u : Bytes) : ∀ n ∈ base64Digits u, n < 64 := by
  induction u using base64Digits.induct with
  | case1 x y z rest ih =>
    have hx := x.toNat_lt
    have hy := y.toNat_lt
    have hz := z.toNat_lt
    intro n hn
    simp only [base64Digits, List.mem_append, List.mem_cons, List.not_mem_nil, or_false] at hn
    obtain (rfl | rfl | rfl | rfl) | hrest := hn
    · omega
    · omega
    · omega
    · omega
    · exact ih n hrest
  | case2 x y =>
    have hx := x.toNat_lt
    have hy := y.toNat_lt
    intro n hn
    simp only [base64Digits, List.mem_cons, List.not_mem_nil, or_false] at hn
    omega
  | case3 x =>
    have hx := x.toNat_lt
    intro n hn
    simp only [base64Digits, List.mem_cons, List.not_mem_nil, or_false] at hn
    omega
  | case4 => exact fun n hn => absurd hn List.not_mem_nil

/-- A byte is the value of its bits, whatever is cut off above them. -/
theorem ofNat_eq_of_mod {n : Nat} {b : UInt8} (h : n % 256 = b.toNat) : UInt8.ofNat n = b := by
  apply UInt8.toNat_inj.mp
  rw [UInt8.toNat_ofNat', h]

theorem base64Bytes_base64Digits (u : Bytes) : base64Bytes (base64Digits u) = u := by
  induction u using base64Digits.induct with
  | case1 x y z rest ih =>
    have hx := x.toNat_lt
    have hy := y.toNat_lt
    have hz := z.toNat_lt
    simp only [base64Digits, List.cons_append, List.nil_append, base64Bytes, ih]
    congr 1
    · exact ofNat_eq_of_mod (by omega)
    congr 1
    · exact ofNat_eq_of_mod (by omega)
    congr 1
    · exact ofNat_eq_of_mod (by omega)
  | case2 x y =>
    have hx := x.toNat_lt
    have hy := y.toNat_lt
    simp only [base64Digits, base64Bytes]
    congr 1
    · exact ofNat_eq_of_mod (by omega)
    congr 1
    · exact ofNat_eq_of_mod (by omega)
  | case3 x =>
    have hx := x.toNat_lt
    simp only [base64Digits, base64Bytes]
    congr 1
    · exact ofNat_eq_of_mod (by omega)
  | case4 => rfl

/-! ## Text -/

/-- The padding after the digits of `u`. -/
def base64Pad (u : Bytes) : List Char := List.replicate ((3 - u.length % 3) % 3) '='

/-- `Buffer.from(u).toString("base64")`. -/
def b64 (u : Bytes) : String :=
  String.ofList ((base64Digits u).map base64Char ++ base64Pad u)

/-- `Buffer.from(s, "base64")`. -/
def unb64 (s : String) : Bytes :=
  base64Bytes ((s.toList.takeWhile (· ≠ '=')).filterMap base64Digit?)

/-- Padding ends the text, so nothing of it is read. -/
theorem takeWhile_digits_pad {ds : List Nat} (hlt : ∀ n ∈ ds, n < 64) (pads : Nat) :
    (ds.map base64Char ++ List.replicate pads '=').takeWhile (· ≠ '=') = ds.map base64Char := by
  have hdigits : ∀ c ∈ ds.map base64Char, decide (c ≠ '=') = true := by
    intro c hc
    obtain ⟨n, hn, rfl⟩ := List.mem_map.mp hc
    exact decide_eq_true (base64Char_ne_pad (hlt n hn))
  rw [List.takeWhile_append_of_pos hdigits]
  cases pads with
  | zero => simp
  | succ k => simp [List.replicate_succ]

theorem filterMap_digits {ds : List Nat} (hlt : ∀ n ∈ ds, n < 64) :
    (ds.map base64Char).filterMap base64Digit? = ds := by
  induction ds with
  | nil => rfl
  | cons n ds ih =>
    rw [List.map_cons,
      List.filterMap_cons_some (base64Digit?_base64Char (hlt n List.mem_cons_self)),
      ih fun m hm => hlt m (List.mem_cons_of_mem _ hm)]

/-- Decoding undoes encoding. -/
@[simp] theorem unb64_b64 (u : Bytes) : unb64 (b64 u) = u := by
  rw [unb64, b64, String.toList_ofList, base64Pad, takeWhile_digits_pad (base64Digits_lt u),
    filterMap_digits (base64Digits_lt u), base64Bytes_base64Digits]

end SupabaseLab.Library
