/-
  Library/UrlText.lean --- texts in the query of a URL.

  `encodeURIComponent` writes the UTF-8 bytes of a text, those that are not unreserved as
  `%XX`.  A server reads `%XX` as a byte and `+` as a space; it gets the text back, and
  no separator of the query stands in what was written.
-/
import SupabaseLab.Library.Octets

set_option autoImplicit false

namespace SupabaseLab.Library

/-! ## Writing -/

/-- Letters, digits and `-_.!~*'()`. -/
def isUnreserved (b : UInt8) : Bool :=
  (48 ≤ b && b ≤ 57) || (65 ≤ b && b ≤ 90) || (97 ≤ b && b ≤ 122) ||
    b ∈ ([45, 95, 46, 33, 126, 42, 39, 40, 41] : List UInt8)

/-- An upper-case hex digit. -/
def upperHex (n : Nat) : Char := (Nat.digitChar n).toUpper

def encodeByte (b : UInt8) : List Char :=
  if isUnreserved b then [Char.ofNat b.toNat]
  else ['%', upperHex (b.toNat / 16), upperHex (b.toNat % 16)]

def encodeURIComponent (s : String) : String := String.ofList ((utf8 s).flatMap encodeByte)

/-! ## Reading -/

/-- The bytes of a part of a query. -/
def decodeBytes : List Char → Bytes
  | [] => []
  | '%' :: a :: b :: rest =>
      match hexDigit? a.toNat, hexDigit? b.toNat with
      | some x, some y => UInt8.ofNat (16 * x + y) :: decodeBytes rest
      | _, _ => 37 :: decodeBytes (a :: b :: rest)
  | '+' :: rest => 32 :: decodeBytes rest
  | c :: rest => UInt8.ofNat c.toNat :: decodeBytes rest

/-- The text of a part of a query; `none` when its bytes are no UTF-8. -/
def decodeText (cs : List Char) : Option String :=
  String.fromUTF8? ⟨(decodeBytes cs).toArray⟩

/-- `name=value`, both still encoded. -/
def splitPair (cs : List Char) : List Char × List Char :=
  (cs.takeWhile (· ≠ '='), (cs.dropWhile (· ≠ '=')).drop 1)

/-- The pairs of a query. -/
def queryPairs (query : String) : List (List Char × List Char) :=
  (query.toList.splitOn '&').map splitPair

theorem splitPair_append {name : List Char} (value : List Char) (h : '=' ∉ name) :
    splitPair (name ++ '=' :: value) = (name, value) := by
  have hname : ∀ c ∈ name, decide (c ≠ '=') = true := by
    rintro c hc
    rw [decide_eq_true_eq]
    rintro rfl
    exact h hc
  unfold splitPair
  rw [List.takeWhile_append_of_pos hname, List.dropWhile_append_of_pos hname]
  simp

/-! ## What is written is read back -/

theorem hexDigit?_upperHex {n : Nat} (h : n < 16) : hexDigit? (upperHex n).toNat = some n := by
  have hall : ∀ n ∈ List.range 16, hexDigit? (upperHex n).toNat = some n := by decide
  exact hall n (List.mem_range.mpr h)

/-- An unreserved byte is a character that means itself, and no separator. -/
theorem unreserved_char {b : UInt8} (h : isUnreserved b = true) :
    (Char.ofNat b.toNat).toNat = b.toNat ∧ Char.ofNat b.toNat ∉ ['%', '+', '&', '='] := by
  have hall : ∀ n ∈ List.range 256, isUnreserved (UInt8.ofNat n) = true →
      (Char.ofNat n).toNat = n ∧ Char.ofNat n ∉ ['%', '+', '&', '='] := by decide +kernel
  have hb := b.toNat_lt
  refine hall b.toNat (List.mem_range.mpr hb) ?_
  rwa [UInt8.ofNat_toNat]

/-- `%XX` is read as its byte. -/
theorem decodeBytes_percent (b : UInt8) (rest : List Char) :
    decodeBytes (['%', upperHex (b.toNat / 16), upperHex (b.toNat % 16)] ++ rest) =
      b :: decodeBytes rest := by
  have hb := b.toNat_lt
  rw [List.cons_append, List.cons_append, List.cons_append, List.nil_append, decodeBytes,
    hexDigit?_upperHex (by omega), hexDigit?_upperHex (by omega)]
  dsimp only
  rw [Nat.div_add_mod, UInt8.ofNat_toNat]

theorem decodeBytes_unreserved {b : UInt8} (h : isUnreserved b = true) (rest : List Char) :
    decodeBytes (Char.ofNat b.toNat :: rest) = b :: decodeBytes rest := by
  obtain ⟨hvalue, hplain⟩ := unreserved_char h
  simp only [List.mem_cons, List.not_mem_nil, or_false, not_or] at hplain
  rw [decodeBytes, hvalue, UInt8.ofNat_toNat]
  · exact fun _ _ _ heq => absurd heq hplain.1
  · exact hplain.2.1

theorem decodeBytes_encodeByte (b : UInt8) (rest : List Char) :
    decodeBytes (encodeByte b ++ rest) = b :: decodeBytes rest := by
  unfold encodeByte
  split
  · next h => exact decodeBytes_unreserved h rest
  · exact decodeBytes_percent b rest

theorem decodeBytes_flatMap (bs : Bytes) : decodeBytes (bs.flatMap encodeByte) = bs := by
  induction bs with
  | nil => rfl
  | cons b bs ih => rw [List.flatMap_cons, decodeBytes_encodeByte, ih]

theorem decodeText_eq {cs : List Char} {s : String} (h : decodeBytes cs = utf8 s) :
    decodeText cs = some s := by
  unfold decodeText
  have hbytes : (⟨(utf8 s).toArray⟩ : ByteArray) = s.toByteArray := by
    unfold utf8
    rw [Array.toArray_toList]
  rw [h, hbytes]
  unfold String.fromUTF8?
  rw [dif_pos s.isValidUTF8]
  rfl

theorem decodeText_encodeURIComponent (s : String) :
    decodeText (encodeURIComponent s).toList = some s := by
  refine decodeText_eq ?_
  unfold encodeURIComponent
  rw [String.toList_ofList, decodeBytes_flatMap]

theorem separator_notMem_percent {c : Char} (b : UInt8) (hc : c = '&' ∨ c = '=') :
    c ∉ ['%', upperHex (b.toNat / 16), upperHex (b.toNat % 16)] := by
  have hb := b.toNat_lt
  have hhex : ∀ n ∈ List.range 16, upperHex n ≠ '&' ∧ upperHex n ≠ '=' := by decide
  have hhigh := hhex (b.toNat / 16) (List.mem_range.mpr (by omega))
  have hlow := hhex (b.toNat % 16) (List.mem_range.mpr (by omega))
  simp only [List.mem_cons, List.not_mem_nil, or_false, not_or]
  obtain rfl | rfl := hc
  · exact ⟨by decide, hhigh.1.symm, hlow.1.symm⟩
  · exact ⟨by decide, hhigh.2.symm, hlow.2.symm⟩

theorem separator_notMem_unreserved {c : Char} {b : UInt8} (h : isUnreserved b = true)
    (hc : c = '&' ∨ c = '=') : c ∉ [Char.ofNat b.toNat] := by
  intro hmem
  have hplain := (unreserved_char h).2
  rw [← List.mem_singleton.mp hmem] at hplain
  obtain rfl | rfl := hc <;> simp at hplain

/-- No separator of the query stands in an encoded text. -/
theorem separator_notMem_encodeURIComponent {c : Char} (s : String) (hc : c = '&' ∨ c = '=') :
    c ∉ (encodeURIComponent s).toList := by
  unfold encodeURIComponent
  rw [String.toList_ofList, List.mem_flatMap]
  rintro ⟨b, -, hmem⟩
  unfold encodeByte at hmem
  split at hmem
  · next h => exact separator_notMem_unreserved h hc hmem
  · exact separator_notMem_percent b hc hmem

theorem utf8_ofList (cs : List Char) : utf8 (String.ofList cs) = cs.flatMap String.utf8EncodeChar := by
  unfold utf8
  rw [String.toByteArray_ofList, List.utf8Encode, List.data_toByteArray]

/-- A text of ASCII characters, none of them an escape, is itself. -/
theorem decodeText_plain {cs : List Char} (h : ∀ c ∈ cs, c.toNat < 128 ∧ c ≠ '%' ∧ c ≠ '+') :
    decodeText cs = some (String.ofList cs) := by
  refine decodeText_eq ?_
  rw [utf8_ofList]
  induction cs with
  | nil => rfl
  | cons c cs ih =>
    obtain ⟨⟨hascii, hescape, hplus⟩, hrest⟩ := List.forall_mem_cons.mp h
    have hbyte : String.utf8EncodeChar c = [UInt8.ofNat c.toNat] := by
      simp only [String.utf8EncodeChar]
      exact if_pos (Nat.le_of_lt_succ hascii)
    rw [List.flatMap_cons, hbyte, decodeBytes, ih hrest]
    · rfl
    · exact fun _ _ _ heq => absurd heq hescape
    · exact hplus

end SupabaseLab.Library
