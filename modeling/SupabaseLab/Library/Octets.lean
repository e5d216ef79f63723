/-
  Library/Octets.lean --- byte strings: big-endian 32-bit fields, UTF-8 and hex.

  A byte string is a `List UInt8`.  The codecs here are the ones a protocol
  header is made of, each with the fact that it loses nothing.
-/
import SupabaseLab.Library.Slice

set_option autoImplicit false

namespace SupabaseLab.Library

/-- A byte string. -/
abbrev Bytes : Type := List UInt8

/-! ## Big-endian 32-bit fields -/

/-- `DataView.setUint32`: four bytes, most significant first, of `n` modulo `2^32`. -/
def uint32be (n : Nat) : Bytes :=
  [UInt8.ofNat (n / 2 ^ 24), UInt8.ofNat (n / 2 ^ 16), UInt8.ofNat (n / 2 ^ 8), UInt8.ofNat n]

@[simp] theorem length_uint32be (n : Nat) : (uint32be n).length = 4 := rfl

/-- Below `2^32` the field determines the number. -/
theorem uint32be_injective {m n : Nat} (hm : m < 2 ^ 32) (hn : n < 2 ^ 32)
    (h : uint32be m = uint32be n) : m = n := by
  simp only [uint32be, List.cons.injEq, and_true] at h
  obtain ⟨h₃, h₂, h₁, h₀⟩ := h
  have e₃ := congrArg UInt8.toNat h₃
  have e₂ := congrArg UInt8.toNat h₂
  have e₁ := congrArg UInt8.toNat h₁
  have e₀ := congrArg UInt8.toNat h₀
  simp only [UInt8.toNat_ofNat'] at e₃ e₂ e₁ e₀
  omega

/-! ## UTF-8 -/

/-- `TextEncoder.encode`. -/
def utf8 (s : String) : Bytes := s.toByteArray.data.toList

theorem utf8_injective {s t : String} (h : utf8 s = utf8 t) : s = t := by
  have hdata : s.toByteArray.data = t.toByteArray.data := Array.toList_inj.mp h
  exact String.toByteArray_inj.mp (ByteArray.ext hdata)

/-! ## Hexadecimal text -/

/-- The two lower-case hex digits of a byte. -/
def hexByte (b : UInt8) : List Char :=
  [Nat.digitChar (b.toNat / 16), Nat.digitChar (b.toNat % 16)]

/-- The value of a hex digit given by its UTF-16 code unit. -/
def hexDigit? (u : Nat) : Option Nat :=
  if 48 ≤ u ∧ u ≤ 57 then some (u - 48)
  else if 97 ≤ u ∧ u ≤ 102 then some (u - 87)
  else if 65 ≤ u ∧ u ≤ 70 then some (u - 55)
  else none

theorem hexDigit?_digitChar {n : Nat} (h : n < 16) :
    hexDigit? (Nat.digitChar n).toNat = some n := by
  have hall : ∀ n ∈ List.range 16, hexDigit? (Nat.digitChar n).toNat = some n := by decide
  exact hall n (List.mem_range.mpr h)

/-- The UTF-16 code units of a text. -/
def utf16 (cs : List Char) : List Nat :=
  cs.flatMap fun c =>
    if c.toNat < 0x10000 then [c.toNat]
    else [0xD800 + (c.toNat - 0x10000) / 0x400, 0xDC00 + (c.toNat - 0x10000) % 0x400]

/-- A string of JavaScript: its UTF-16 code units. -/
abbrev JsText : Type := List Nat

/-- A literal of the source. -/
def units (s : String) : JsText := utf16 s.toList

/-- The characters of the first `n` code units.  A character that is cut in two is the
replacement character then, which it is wherever the text is encoded. -/
def cutChars : Nat → List Char → List Char
  | 0, _ | _, [] => []
  | 1, c :: _ => [if c.toNat < 0x10000 then c else Char.ofNat 0xFFFD]
  | n + 2, c :: cs => c :: cutChars (if c.toNat < 0x10000 then n + 1 else n) cs

/-- `text.slice(0, n)`, of a text that is shown and not compared. -/
def cut (n : Nat) (text : String) : String := String.ofList (cutChars n text.toList)

/-- Code units that `parseInt` skips at the start of its argument. -/
def isBlankUnit (u : Nat) : Bool :=
  u ∈ [9, 11, 12, 32, 160, 0x1680, 0x202F, 0x205F, 0x3000, 0xFEFF] ||
    (0x2000 ≤ u && u ≤ 0x200A)

/-- Code units that `.` does not match in a regular expression. -/
def isLineTerminator (u : Nat) : Bool := u ∈ [10, 13, 0x2028, 0x2029]

/-- `parseInt` with radix 16 of a text of two code units, stored into a byte.
A second unit that is no digit ends the number; `NaN` is stored as 0. -/
def parseHexPair (a b : Nat) : UInt8 :=
  match hexDigit? a, hexDigit? b with
  | some x, some y => UInt8.ofNat (16 * x + y)
  | some x, none => UInt8.ofNat x
  | none, some y =>
      if isBlankUnit a || a == 43 then UInt8.ofNat y
      else if a == 45 then UInt8.ofNat (256 - y)
      else 0
  | none, none => 0

/-- The matches of the global pattern of two characters, each parsed as hex. -/
def parseHexPairs : List Nat → Bytes
  | [] => []
  | [_] => []
  | a :: b :: rest =>
      if isLineTerminator a || isLineTerminator b then parseHexPairs (b :: rest)
      else parseHexPair a b :: parseHexPairs rest

theorem utf16_cons_of_lt {c : Char} (h : c.toNat < 0x10000) (cs : List Char) :
    utf16 (c :: cs) = c.toNat :: utf16 cs := by
  simp [utf16, h]

/-- A hex digit is one code unit, and no line terminator. -/
theorem digitChar_unit {n : Nat} (h : n < 16) :
    (Nat.digitChar n).toNat < 0x10000 ∧ isLineTerminator (Nat.digitChar n).toNat = false := by
  have hall : ∀ n ∈ List.range 16, (Nat.digitChar n).toNat < 0x10000 ∧
      isLineTerminator (Nat.digitChar n).toNat = false := by decide
  exact hall n (List.mem_range.mpr h)

theorem parseHexPairs_hexByte (b : UInt8) (cs : List Char) :
    parseHexPairs (utf16 (hexByte b ++ cs)) = b :: parseHexPairs (utf16 cs) := by
  have hb : b.toNat < 256 := b.toNat_lt_size
  have hhi : b.toNat / 16 < 16 := by omega
  have hlo : b.toNat % 16 < 16 := by omega
  obtain ⟨huhi, hthi⟩ := digitChar_unit hhi
  obtain ⟨hulo, htlo⟩ := digitChar_unit hlo
  have hvalue : UInt8.ofNat (16 * (b.toNat / 16) + b.toNat % 16) = b := by
    rw [Nat.div_add_mod, UInt8.ofNat_toNat]
  rw [hexByte, List.cons_append, List.cons_append, List.nil_append, utf16_cons_of_lt huhi,
    utf16_cons_of_lt hulo, parseHexPairs, hthi, htlo]
  simp [parseHexPair, hexDigit?_digitChar hhi, hexDigit?_digitChar hlo, hvalue]

theorem parseHexPairs_flatMap_hexByte (u : Bytes) :
    parseHexPairs (utf16 (u.flatMap hexByte)) = u := by
  induction u with
  | nil => rfl
  | cons b u ih => rw [List.flatMap_cons, parseHexPairs_hexByte, ih]

end SupabaseLab.Library
