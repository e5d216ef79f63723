/-
  Library/BigEndian.lean --- big-endian fields of any width, read at an offset.

  A field of `w` bytes holds a number modulo `256 ^ w`.  A read past the end of the
  buffer throws; a signed read gives the field's two's complement.
-/
import SupabaseLab.Library.Octets

set_option autoImplicit false

namespace SupabaseLab.Library

/-- `n` in `w` bytes, most significant first. -/
def bytesBE : ℕ → ℕ → Bytes
  | 0, _ => []
  | w + 1, n => UInt8.ofNat (n / 256 ^ w) :: bytesBE w n

/-- The number that bytes stand for. -/
def natBE (bs : Bytes) : ℕ := bs.foldl (fun n b => 256 * n + b.toNat) 0

/-- An unsigned read at an offset; `none` when it throws. -/
def readUIntBE (w : ℕ) (b : Bytes) (o : ℕ) : Option ℕ :=
  if o + w ≤ b.length then some (natBE (slice b o (o + w))) else none

/-- A signed read at an offset. -/
def readIntBE (w : ℕ) (b : Bytes) (o : ℕ) : Option ℤ :=
  (readUIntBE w b o).map fun n : ℕ => if 2 * n < 256 ^ w then (n : ℤ) else n - 256 ^ w

section Fields

variable {w n : ℕ}

@[simp] theorem length_bytesBE (w n : ℕ) : (bytesBE w n).length = w := by
  induction w with
  | zero => rfl
  | succ w ih => rw [bytesBE, List.length_cons, ih]

theorem foldl_bytesBE (w n start : ℕ) :
    (bytesBE w n).foldl (fun n b => 256 * n + b.toNat) start = start * 256 ^ w + n % 256 ^ w := by
  induction w generalizing start with
  | zero => simp [bytesBE, Nat.mod_one]
  | succ w ih =>
    rw [bytesBE, List.foldl_cons, ih, UInt8.toNat_ofNat']
    -- the first byte counts what the others leave of `n`
    have hsplit : n % 256 ^ (w + 1) = n % 256 ^ w + 256 ^ w * (n / 256 ^ w % 256) := by
      rw [pow_succ, Nat.mod_mul]
    rw [hsplit]
    ring

theorem natBE_bytesBE (w n : ℕ) : natBE (bytesBE w n) = n % 256 ^ w := by
  rw [natBE, foldl_bytesBE, Nat.zero_mul, Nat.zero_add]

/-- A field is read where it stands. -/
theorem readUIntBE_append {front : Bytes} {o : ℕ} (hfront : front.length = o) (rest : Bytes) :
    readUIntBE w (front ++ (bytesBE w n ++ rest)) o = some (n % 256 ^ w) := by
  subst hfront
  have hslice := slice_append_middle front (bytesBE w n) rest
  rw [length_bytesBE, List.append_assoc] at hslice
  rw [readUIntBE, if_pos (by simp), hslice, natBE_bytesBE]

theorem readIntBE_append {front : Bytes} {o : ℕ} (hfront : front.length = o) (rest : Bytes)
    (h : 2 * n < 256 ^ w) : readIntBE w (front ++ (bytesBE w n ++ rest)) o = some (n : ℤ) := by
  have hmod : n % 256 ^ w = n := Nat.mod_eq_of_lt (by omega)
  rw [readIntBE, readUIntBE_append hfront, hmod, Option.map_some, if_pos h]

end Fields

end SupabaseLab.Library
