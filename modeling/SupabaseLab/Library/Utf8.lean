/-
  Library/Utf8.lean --- `Buffer.toString("utf8")`, and a text read in pieces.

  The decoder is the one of the Encoding Standard: bytes that are no character
  become U+FFFD, one for each longest beginning of a character.  A character that
  is cut by the end of a piece is lost, and nothing else: the pieces of a text
  decode to the text with such marks in place of some characters that are no
  ASCII (`Blur`).
-/
import SupabaseLab.Library.UrlText

set_option autoImplicit false

namespace SupabaseLab.Library

/-! ## The decoder -/

/-- A character of several bytes that has begun: how many bytes it still needs,
between which bounds the next one lies, and its bits so far. -/
structure Begun where
  need : Nat
  low : Nat
  high : Nat
  point : Nat

/-- What a byte at the start of a character makes: the character it is, or the one
it begins. -/
def firstByte (b : Nat) : Option Begun × List Char :=
  if b < 0x80 then (none, [Char.ofNat b])
  else if 0xC2 ≤ b ∧ b ≤ 0xDF then (some ⟨1, 0x80, 0xBF, b - 0xC0⟩, [])
  else if 0xE0 ≤ b ∧ b ≤ 0xEF then
    (some ⟨2, if b = 0xE0 then 0xA0 else 0x80, if b = 0xED then 0x9F else 0xBF, b - 0xE0⟩, [])
  else if 0xF0 ≤ b ∧ b ≤ 0xF4 then
    (some ⟨3, if b = 0xF0 then 0x90 else 0x80, if b = 0xF4 then 0x8F else 0xBF, b - 0xF0⟩, [])
  else (none, [Char.ofNat 0xFFFD])

def decodeFrom : Option Begun → Bytes → List Char
  | none, [] => []
  | some _, [] => [Char.ofNat 0xFFFD]
  | none, b :: bs => (firstByte b.toNat).2 ++ decodeFrom (firstByte b.toNat).1 bs
  | some c, b :: bs =>
      if c.low ≤ b.toNat ∧ b.toNat ≤ c.high then
        if c.need = 1 then Char.ofNat (c.point * 64 + (b.toNat - 0x80)) :: decodeFrom none bs
        else decodeFrom (some ⟨c.need - 1, 0x80, 0xBF, c.point * 64 + (b.toNat - 0x80)⟩) bs
      else Char.ofNat 0xFFFD :: (firstByte b.toNat).2 ++ decodeFrom (firstByte b.toNat).1 bs

/-- `toString("utf8")`. -/
def decodeUtf8 (bs : Bytes) : List Char := decodeFrom none bs

@[simp] theorem decodeUtf8_nil : decodeUtf8 [] = [] := rfl

/-- A byte inside a character. -/
def IsTail (b : UInt8) : Prop := 0x80 ≤ b.toNat ∧ b.toNat ≤ 0xBF

/-- The bytes that complete a character that has begun. -/
inductive Completes : Begun → Bytes → Char → Prop
  | last {low high point : Nat} {b : UInt8} (hb : low ≤ b.toNat ∧ b.toNat ≤ high) (htail : IsTail b) :
      Completes ⟨1, low, high, point⟩ [b] (Char.ofNat (point * 64 + (b.toNat - 0x80)))
  | more {need low high point : Nat} {b : UInt8} {bs : Bytes} {c : Char}
      (hb : low ≤ b.toNat ∧ b.toNat ≤ high) (htail : IsTail b)
      (hrest : Completes ⟨need + 1, 0x80, 0xBF, point * 64 + (b.toNat - 0x80)⟩ bs c) :
      Completes ⟨need + 2, low, high, point⟩ (b :: bs) c

section Character

variable {c : Char} {begun : Begun} {bs ts p q : Bytes} {b : UInt8}

theorem Completes.tails (h : Completes begun ts c) : ∀ b ∈ ts, IsTail b := by
  induction h with
  | last hb htail => simpa using htail
  | more hb htail hrest ih => exact List.forall_mem_cons.mpr ⟨htail, ih⟩

theorem Completes.decodeFrom (h : Completes begun ts c) (bs : Bytes) :
    decodeFrom (some begun) (ts ++ bs) = c :: decodeUtf8 bs := by
  induction h with
  | last hb htail => simp [Library.decodeFrom, hb, decodeUtf8]
  | more hb htail hrest ih =>
    rw [← ih]
    simp [Library.decodeFrom, hb]

/-- A character whose end is missing is one mark. -/
theorem Completes.decodeFrom_cut (h : Completes begun (p ++ q) c) (hq : q ≠ []) :
    Library.decodeFrom (some begun) p = [Char.ofNat 0xFFFD] := by
  generalize hts : p ++ q = ts at h
  induction h generalizing p with
  | last hb htail =>
    obtain ⟨rfl, -⟩ | ⟨rfl, rfl⟩ := List.append_eq_singleton_iff.mp hts
    · rfl
    · exact absurd rfl hq
  | more hb htail hrest ih =>
    cases p with
    | nil => rfl
    | cons x p =>
      obtain ⟨rfl, hsplit⟩ := List.cons.inj hts
      rw [← ih hsplit]
      simp [Library.decodeFrom, hb]

theorem firstByte_two {n : Nat} (h : 0xC2 ≤ n ∧ n ≤ 0xDF) :
    firstByte n = (some ⟨1, 0x80, 0xBF, n - 0xC0⟩, []) := by
  rw [firstByte, if_neg (by omega), if_pos h]

theorem firstByte_three {n : Nat} (h : 0xE0 ≤ n ∧ n ≤ 0xEF) :
    firstByte n = (some ⟨2, if n = 0xE0 then 0xA0 else 0x80, if n = 0xED then 0x9F else 0xBF,
      n - 0xE0⟩, []) := by
  rw [firstByte, if_neg (by omega), if_neg (by omega), if_pos h]

theorem firstByte_four {n : Nat} (h : 0xF0 ≤ n ∧ n ≤ 0xF4) :
    firstByte n = (some ⟨3, if n = 0xF0 then 0x90 else 0x80, if n = 0xF4 then 0x8F else 0xBF,
      n - 0xF0⟩, []) := by
  rw [firstByte, if_neg (by omega), if_neg (by omega), if_neg (by omega), if_pos h]

/-- A byte that completes a character, given by its number. -/
theorem Completes.last_ofNat {low high point n : Nat} (hn : n < 64)
    (hb : low ≤ n + 0x80 ∧ n + 0x80 ≤ high) (hc : Char.ofNat (point * 64 + n) = c) :
    Completes ⟨1, low, high, point⟩ [UInt8.ofNat (n + 0x80)] c := by
  have hbyte : (UInt8.ofNat (n + 0x80)).toNat = n + 0x80 := UInt8.toNat_ofNat_of_lt' (by
    rw [UInt8.size]
    omega)
  have hlast : Completes ⟨1, low, high, point⟩ [UInt8.ofNat (n + 0x80)]
      (Char.ofNat (point * 64 + ((UInt8.ofNat (n + 0x80)).toNat - 0x80))) :=
    .last (by rw [hbyte]; exact hb) (by rw [IsTail, hbyte]; omega)
  rw [hbyte, Nat.add_sub_cancel, hc] at hlast
  exact hlast

theorem Completes.more_ofNat {need low high point n : Nat} (hn : n < 64)
    (hb : low ≤ n + 0x80 ∧ n + 0x80 ≤ high)
    (hrest : Completes ⟨need + 1, 0x80, 0xBF, point * 64 + n⟩ bs c) :
    Completes ⟨need + 2, low, high, point⟩ (UInt8.ofNat (n + 0x80) :: bs) c := by
  have hbyte : (UInt8.ofNat (n + 0x80)).toNat = n + 0x80 := UInt8.toNat_ofNat_of_lt' (by
    rw [UInt8.size]
    omega)
  refine .more (by rw [hbyte]; exact hb) (by rw [IsTail, hbyte]; omega) ?_
  rw [hbyte, Nat.add_sub_cancel]
  exact hrest

/-- A character is one ASCII byte, or a byte that begins it and the bytes that complete it. -/
theorem encodeChar_cases (c : Char) :
    (c.toNat < 0x80 ∧ String.utf8EncodeChar c = [UInt8.ofNat c.toNat]) ∨
      (0x80 ≤ c.toNat ∧ ∃ b begun ts, String.utf8EncodeChar c = b :: ts ∧ ts ≠ [] ∧
        firstByte b.toNat = (some begun, []) ∧ Completes begun ts c) := by
  have hvalid : c.toNat < 0xD800 ∨ 0xDFFF < c.toNat ∧ c.toNat < 0x110000 := c.valid
  have hc : Char.ofNat c.toNat = c := Char.ofNat_toNat c
  have hval : c.val.toNat = c.toNat := rfl
  have hbyte : ∀ n < 256, (UInt8.ofNat n).toNat = n := fun n hn =>
    UInt8.toNat_ofNat_of_lt' hn
  unfold String.utf8EncodeChar
  simp only [hval]
  generalize c.toNat = v at hvalid hc
  split_ifs with h₁ h₂ h₃
  · exact .inl ⟨by omega, rfl⟩
  · refine .inr ⟨by omega, _, ⟨1, 0x80, 0xBF, v / 64 % 32 + 0xC0 - 0xC0⟩, _, rfl, by simp, ?_, ?_⟩
    · rw [hbyte _ (by omega)]
      exact firstByte_two (by omega)
    · refine .last_ofNat (by omega) (by omega) ?_
      rw [← hc]
      congr 1
      omega
  · refine .inr ⟨by omega, _, ⟨2, if v / 4096 % 16 + 0xE0 = 0xE0 then 0xA0 else 0x80,
      if v / 4096 % 16 + 0xE0 = 0xED then 0x9F else 0xBF, v / 4096 % 16 + 0xE0 - 0xE0⟩, _, rfl,
      by simp, ?_, ?_⟩
    · rw [hbyte _ (by omega)]
      exact firstByte_three (by omega)
    · refine .more_ofNat (by omega) (by split_ifs <;> omega) (.last_ofNat (by omega) (by omega) ?_)
      rw [← hc]
      congr 1
      omega
  · refine .inr ⟨by omega, _, ⟨3, if v / 262144 % 8 + 0xF0 = 0xF0 then 0x90 else 0x80,
      if v / 262144 % 8 + 0xF0 = 0xF4 then 0x8F else 0xBF, v / 262144 % 8 + 0xF0 - 0xF0⟩, _, rfl,
      by simp, ?_, ?_⟩
    · rw [hbyte _ (by omega)]
      exact firstByte_four (by omega)
    · refine .more_ofNat (by omega) (by split_ifs <;> omega)
        (.more_ofNat (by omega) (by omega) (.last_ofNat (by omega) (by omega) ?_))
      rw [← hc]
      congr 1
      omega

/-- A whole character is decoded, whatever follows it. -/
theorem decodeUtf8_char (c : Char) (bs : Bytes) :
    decodeUtf8 (String.utf8EncodeChar c ++ bs) = c :: decodeUtf8 bs := by
  rcases encodeChar_cases c with ⟨hascii, hbytes⟩ | ⟨-, b, begun, ts, hbytes, -, hfirst, hcompletes⟩
  · have hbyte : (UInt8.ofNat c.toNat).toNat = c.toNat := UInt8.toNat_ofNat_of_lt' (by
      rw [UInt8.size]
      omega)
    rw [hbytes]
    simp [decodeUtf8, decodeFrom, hbyte, firstByte, hascii]
  · rw [hbytes, List.cons_append, decodeUtf8, decodeFrom, hfirst]
    exact hcompletes.decodeFrom bs

theorem decodeUtf8_text (text : List Char) (bs : Bytes) :
    decodeUtf8 (text.flatMap String.utf8EncodeChar ++ bs) = text ++ decodeUtf8 bs := by
  induction text with
  | nil => rfl
  | cons c text ih => rw [List.flatMap_cons, List.append_assoc, decodeUtf8_char, ih, List.cons_append]

/-- A byte from inside a character is a mark where it comes first. -/
theorem decodeUtf8_tail (h : IsTail b) (bs : Bytes) :
    decodeUtf8 (b :: bs) = Char.ofNat 0xFFFD :: decodeUtf8 bs := by
  have hfirst : firstByte b.toNat = (none, [Char.ofNat 0xFFFD]) := by
    obtain ⟨hlow, hhigh⟩ := h
    rw [firstByte, if_neg (by omega), if_neg (by omega), if_neg (by omega), if_neg (by omega)]
  rw [decodeUtf8, decodeFrom, hfirst]
  rfl

end Character

/-! ## Texts in pieces -/

/-- Two strings, given by their code units, that are the same but for runs of
characters that are no ASCII. -/
inductive Blur : List Nat → List Nat → Prop
  | nil : Blur [] []
  | same {s t : List Nat} (u : Nat) (h : Blur s t) : Blur (u :: s) (u :: t)
  | lost {s t a b : List Nat} (ha : a ≠ []) (hb : b ≠ []) (hall : ∀ u ∈ a, 128 ≤ u)
      (hall' : ∀ u ∈ b, 128 ≤ u) (h : Blur s t) : Blur (a ++ s) (b ++ t)

/-- The code units of what a piece is decoded to. -/
def readUtf8 (bs : Bytes) : List Nat := utf16 (decodeUtf8 bs)

section Pieces

variable {pieces : List Bytes} {bs tail : Bytes} {b : UInt8} {c : Char}

theorem utf16_append (s t : List Char) : utf16 (s ++ t) = utf16 s ++ utf16 t := List.flatMap_append

theorem utf16_cons (c : Char) (s : List Char) : utf16 (c :: s) = utf16 [c] ++ utf16 s := by
  rw [← List.singleton_append, utf16_append]

theorem utf16_mark (s : List Char) : utf16 (Char.ofNat 0xFFFD :: s) = 0xFFFD :: utf16 s :=
  utf16_cons_of_lt (by decide) s

theorem utf16_wide (h : 0x80 ≤ c.toNat) : utf16 [c] ≠ [] ∧ ∀ u ∈ utf16 [c], 128 ≤ u := by
  unfold utf16
  rw [List.flatMap_singleton]
  split_ifs with hplane
  · simp [h]
  · simp
    omega

/-- The piece that holds the first byte. -/
theorem exists_first_piece (h : pieces.flatten = b :: bs) : ∃ (d : Bytes) (ds : List Bytes),
    pieces.flatMap readUtf8 = readUtf8 (b :: d) ++ ds.flatMap readUtf8 ∧ d ++ ds.flatten = bs := by
  induction pieces with
  | nil => simp at h
  | cons piece pieces ih =>
    cases piece with
    | nil =>
      obtain ⟨d, ds, heq, hbs⟩ := ih (by simpa using h)
      exact ⟨d, ds, by simpa [readUtf8, utf16] using heq, hbs⟩
    | cons x d =>
      obtain ⟨rfl, hbs⟩ := List.cons.inj (by simpa using h)
      exact ⟨d, pieces, by simp, hbs⟩

/-- The rest of a character that was cut. -/
theorem readPieces_tails (htails : ∀ b ∈ tail, IsTail b) (h : pieces.flatten = tail ++ bs) :
    ∃ pieces' : List Bytes, pieces.flatMap readUtf8 =
        List.replicate tail.length 0xFFFD ++ pieces'.flatMap readUtf8 ∧ pieces'.flatten = bs := by
  induction tail generalizing pieces with
  | nil => exact ⟨pieces, rfl, h⟩
  | cons b tail ih =>
    obtain ⟨hb, hrest⟩ := List.forall_mem_cons.mp htails
    obtain ⟨d, ds, heq, hbs⟩ := exists_first_piece h
    have hflat : (d :: ds).flatten = tail ++ bs := by simpa using hbs
    obtain ⟨pieces', heq', hbs'⟩ := ih hrest hflat
    refine ⟨pieces', ?_, hbs'⟩
    rw [heq, readUtf8, decodeUtf8_tail hb, utf16_mark, List.length_cons, List.replicate_succ,
      List.cons_append, List.cons_append, ← heq']
    rfl

theorem readPieces_char (h : pieces.flatten = String.utf8EncodeChar c ++ bs) :
    ∃ (out : List Nat) (pieces' : List Bytes), pieces.flatMap readUtf8 = out ++ pieces'.flatMap readUtf8 ∧
      pieces'.flatten = bs ∧ ∀ {s t : List Nat}, Blur s t → Blur (utf16 [c] ++ s) (out ++ t) := by
  have hsame : ∀ {l s t : List Nat}, Blur s t → Blur (l ++ s) (l ++ t) := by
    intro l s t hblur
    induction l with
    | nil => exact hblur
    | cons u l ih => exact .same u ih
  rcases encodeChar_cases c with ⟨hascii, hbytes⟩ | ⟨hwide, b, begun, ts, hbytes, hne, hfirst, hcompletes⟩
  · rw [hbytes] at h
    obtain ⟨d, ds, heq, hbs⟩ := exists_first_piece h
    refine ⟨utf16 [c], d :: ds, ?_, by simpa using hbs, hsame⟩
    have hdecode := decodeUtf8_char c d
    rw [hbytes, List.singleton_append] at hdecode
    rw [heq, readUtf8, hdecode, utf16_cons, List.append_assoc]
    rfl
  · rw [hbytes] at h
    obtain ⟨d, ds, heq, hbs⟩ := exists_first_piece h
    rcases List.append_eq_append_iff.mp hbs with ⟨q, hts, hds⟩ | ⟨d', hd, hbs'⟩
    · by_cases hq : q = []
      · subst hq
        have hdecode := decodeUtf8_char c []
        rw [hbytes, List.append_nil, hts, List.append_nil] at hdecode
        refine ⟨utf16 [c], ds, ?_, by simpa using hds, hsame⟩
        rw [heq, readUtf8, hdecode]
        rfl
      -- The piece ends inside the character: its beginning is one mark, and each byte left another.
      · have hcut : decodeUtf8 (b :: d) = [Char.ofNat 0xFFFD] := by
          rw [decodeUtf8, decodeFrom, hfirst]
          exact (hts ▸ hcompletes).decodeFrom_cut hq
        have htails : ∀ b ∈ q, IsTail b := fun b hb => hcompletes.tails b (by simp [hts, hb])
        obtain ⟨pieces', heq', hbs'⟩ := readPieces_tails htails hds
        refine ⟨0xFFFD :: List.replicate q.length 0xFFFD, pieces', ?_, hbs', fun hblur => ?_⟩
        · rw [heq, heq', readUtf8, hcut, utf16_mark]
          rfl
        · obtain ⟨hchar, hunits⟩ := utf16_wide hwide
          exact .lost hchar (by simp) hunits (by simp) hblur
    · refine ⟨utf16 [c], d' :: ds, ?_, by simpa using hbs'.symm, hsame⟩
      have hdecode := decodeUtf8_char c d'
      rw [hbytes, List.cons_append, ← hd] at hdecode
      rw [heq, readUtf8, hdecode, utf16_cons, List.append_assoc]
      rfl

/-- A text is read from any pieces as itself, but for characters that were cut. -/
theorem readPieces_text (text : List Char)
    (h : pieces.flatten = text.flatMap String.utf8EncodeChar ++ bs) :
    ∃ (out : List Nat) (pieces' : List Bytes), pieces.flatMap readUtf8 = out ++ pieces'.flatMap readUtf8 ∧
      pieces'.flatten = bs ∧ Blur (utf16 text) out := by
  induction text generalizing pieces with
  | nil => exact ⟨[], pieces, rfl, h, .nil⟩
  | cons c text ih =>
    rw [List.flatMap_cons, List.append_assoc] at h
    obtain ⟨out, pieces', heq, hbs, hblur⟩ := readPieces_char h
    obtain ⟨out', pieces'', heq', hbs', hblur'⟩ := ih hbs
    refine ⟨out ++ out', pieces'', ?_, hbs', ?_⟩
    · rw [heq, heq', List.append_assoc]
    · rw [utf16_cons]
      exact hblur hblur'

end Pieces

/-! ## What blurring keeps -/

section Blur

variable {s t p : List Nat}

theorem Blur.mem_iff (h : Blur s t) {u : Nat} (hu : u < 128) : u ∈ s ↔ u ∈ t := by
  induction h with
  | nil => exact Iff.rfl
  | same v _ ih => simp [ih]
  | lost _ _ hall hall' _ ih =>
    have hnot : ∀ l : List Nat, (∀ v ∈ l, 128 ≤ v) → u ∉ l := fun l hl hmem =>
      absurd (hl u hmem) (Nat.not_le.mpr hu)
    simp [hnot _ hall, hnot _ hall', ih]

theorem Blur.isPrefix_iff (h : Blur s t) (hp : ∀ u ∈ p, u < 128) : p <+: s ↔ p <+: t := by
  induction h generalizing p with
  | nil => exact Iff.rfl
  | same v _ ih =>
    cases p with
    | nil => simp
    | cons u p => simp [List.cons_prefix_cons, ih (List.forall_mem_cons.mp hp).2]
  | @lost s t a b ha hb hall hall' _ _ =>
    obtain ⟨v, a, rfl⟩ := List.exists_cons_of_ne_nil ha
    obtain ⟨w, b, rfl⟩ := List.exists_cons_of_ne_nil hb
    cases p with
    | nil => simp
    | cons u p =>
      have hu := hp u (.head _)
      have hv := hall v (.head _)
      have hw := hall' w (.head _)
      simp only [List.cons_append, List.cons_prefix_cons]
      omega

theorem not_isPrefix_wide {u : Nat} (hu : 128 ≤ u) (hp : ∀ u ∈ p, u < 128) (hne : p ≠ []) :
    ¬ p <+: u :: s := by
  obtain ⟨v, p, rfl⟩ := List.exists_cons_of_ne_nil hne
  have hv := hp v (.head _)
  rw [List.cons_prefix_cons]
  omega

theorem isInfix_append_wide {a : List Nat} (ha : ∀ u ∈ a, 128 ≤ u) (hp : ∀ u ∈ p, u < 128)
    (hne : p ≠ []) : p <:+: a ++ s ↔ p <:+: s := by
  induction a with
  | nil => exact Iff.rfl
  | cons u a ih =>
    obtain ⟨hu, ha⟩ := List.forall_mem_cons.mp ha
    rw [List.cons_append, List.infix_cons_iff, ih ha]
    simp [not_isPrefix_wide hu hp hne]

/-- A text of ASCII occurs in both or in neither. -/
theorem Blur.isInfix_iff (h : Blur s t) (hp : ∀ u ∈ p, u < 128) (hne : p ≠ []) :
    p <:+: s ↔ p <:+: t := by
  induction h with
  | nil => exact Iff.rfl
  | same v h ih => rw [List.infix_cons_iff, List.infix_cons_iff, ih, (Blur.same v h).isPrefix_iff hp]
  | lost _ _ hall hall' _ ih =>
    rw [isInfix_append_wide hall hp hne, isInfix_append_wide hall' hp hne, ih]

end Blur

/-! ## ASCII bytes -/

section Ascii

variable {bs : Bytes} {begun : Begun}

/-- What a character that has begun can still become is no ASCII. -/
def Begun.Wide (c : Begun) : Prop := 128 ≤ (c.point * 64 + (c.low - 0x80)) * 64 ^ (c.need - 1)

theorem firstByte_wide {b : Nat} (h : (firstByte b).1 = some begun) : begun.Wide := by
  unfold firstByte at h
  split_ifs at h <;> cases h
  all_goals
    simp only [Begun.Wide, Nat.reduceSub, Nat.reducePow]
    omega

theorem eq_toNat_of_ofNat {n : Nat} {a : Char} (ha : 0 < a.toNat) (h : Char.ofNat n = a) :
    n = a.toNat := by
  by_cases hvalid : n.isValidChar
  · have hval := congrArg Char.toNat h
    rw [Char.toNat_ofNat, if_pos hvalid] at hval
    exact hval
  · rw [Char.ofNat, dif_neg hvalid] at h
    rw [← h] at ha
    exact absurd ha (by decide)

/-- An ASCII character other than NUL. -/
def IsAscii (a : Char) : Prop := 0 < a.toNat ∧ a.toNat < 0x80

theorem IsAscii.ne_mark {a : Char} (ha : IsAscii a) : a ≠ Char.ofNat 0xFFFD := by
  rintro rfl
  exact absurd ha.2 (by decide)

theorem ascii_notMem_firstByte {a : Char} {b : Nat} (ha : IsAscii a) (h : b ≠ a.toNat) :
    a ∉ (firstByte b).2 := by
  unfold firstByte
  split
  · exact fun hmem => h (eq_toNat_of_ofNat ha.1 (List.mem_singleton.mp hmem).symm)
  · split
    · exact List.not_mem_nil
    · split
      · exact List.not_mem_nil
      · split
        · exact List.not_mem_nil
        · exact fun hmem => ha.ne_mark (List.mem_singleton.mp hmem)

/-- An ASCII character is decoded from its own byte only. -/
theorem ascii_notMem_decodeFrom {a : Char} (ha : IsAscii a) (h : ∀ b ∈ bs, b.toNat ≠ a.toNat) :
    ∀ st : Option Begun, (∀ begun, st = some begun → begun.Wide) → a ∉ decodeFrom st bs := by
  induction bs with
  | nil =>
    intro st _
    cases st with
    | none => exact List.not_mem_nil
    | some begun => exact fun hmem => ha.ne_mark (List.mem_singleton.mp hmem)
  | cons b bs ih =>
    obtain ⟨hb, hbs⟩ := List.forall_mem_cons.mp h
    have ih := ih hbs
    have hfirst : a ∉ (firstByte b.toNat).2 ++ decodeFrom (firstByte b.toNat).1 bs := by
      rw [List.mem_append, not_or]
      exact ⟨ascii_notMem_firstByte ha hb, ih _ fun begun => firstByte_wide⟩
    intro st hwide
    cases st with
    | none => exact hfirst
    | some begun =>
      have hbegun := hwide begun rfl
      unfold Begun.Wide at hbegun
      rw [decodeFrom]
      split_ifs with hrange hneed
      · rw [hneed, Nat.sub_self, Nat.pow_zero, Nat.mul_one] at hbegun
        refine List.not_mem_cons_of_ne_of_not_mem (fun heq => ?_) (ih none (by simp))
        have hpoint := eq_toNat_of_ofNat ha.1 heq.symm
        have hsmall := ha.2
        omega
      · refine ih _ fun next hnext => ?_
        cases hnext
        have hgrow : begun.point * 64 + (begun.low - 0x80) ≤ begun.point * 64 + (b.toNat - 0x80) := by
          omega
        calc 128 ≤ (begun.point * 64 + (begun.low - 0x80)) * 64 ^ (begun.need - 1) := hbegun
          _ ≤ (begun.point * 64 + (b.toNat - 0x80)) * 64 ^ (begun.need - 1) :=
              Nat.mul_le_mul_right _ hgrow
          _ ≤ (begun.point * 64 + (b.toNat - 0x80)) * (64 * 64 ^ (begun.need - 1 - 1)) := by
              refine Nat.mul_le_mul_left _ ?_
              rw [← Nat.pow_succ']
              exact Nat.pow_le_pow_right (by decide) (by omega)
          _ = _ := by simp [Nat.mul_assoc]
      · exact List.not_mem_cons_of_ne_of_not_mem ha.ne_mark hfirst

theorem ascii_notMem_readUtf8 {a : Char} (ha : IsAscii a) (h : ∀ b ∈ bs, b.toNat ≠ a.toNat) :
    a.toNat ∉ readUtf8 bs := by
  have hchars := ascii_notMem_decodeFrom ha h none (by simp)
  have hsmall := ha.2
  unfold readUtf8 utf16
  rw [List.mem_flatMap]
  rintro ⟨c, hc, hunit⟩
  refine hchars ?_
  split_ifs at hunit with hplane
  · obtain rfl : c = a := Char.toNat_inj.mp (List.mem_singleton.mp hunit).symm
    exact hc
  · simp at hunit
    omega

/-- Bytes without a line end are read without one. -/
theorem newline_notMem_readUtf8 (h : 10 ∉ bs) : 10 ∉ readUtf8 bs := by
  refine ascii_notMem_readUtf8 (a := '\n') ⟨by decide, by decide⟩ fun b hb heq => h ?_
  have hten : b = 10 := UInt8.toNat_inj.mp heq
  rwa [hten] at hb

/-! ## Texts cut at an ASCII byte -/

theorem firstByte_low {b : Nat} (h : (firstByte b).1 = some begun) : 0x80 ≤ begun.low := by
  unfold firstByte at h
  split_ifs at h <;> cases h
  all_goals
    dsimp only
    omega

theorem firstByte_ascii {b : Nat} (h : b < 0x80) : firstByte b = (none, [Char.ofNat b]) := if_pos h

/-- An ASCII byte ends what has begun before it. -/
theorem decodeFrom_append_ascii {b : UInt8} (hb : b.toNat < 0x80) (rest : Bytes) :
    ∀ st : Option Begun, (∀ begun, st = some begun → 0x80 ≤ begun.low) →
      decodeFrom st (bs ++ b :: rest) = decodeFrom st bs ++ Char.ofNat b.toNat :: decodeUtf8 rest := by
  induction bs with
  | nil =>
    intro st hlow
    cases st with
    | none =>
      rw [List.nil_append]
      conv_lhs => rw [decodeFrom, firstByte_ascii hb]
      rfl
    | some begun =>
      have := hlow begun rfl
      rw [List.nil_append]
      conv_lhs => rw [decodeFrom, if_neg (by omega), firstByte_ascii hb]
      rfl
  | cons x bs ih =>
    have hfirst : (firstByte x.toNat).2 ++ decodeFrom (firstByte x.toNat).1 (bs ++ b :: rest) =
        (firstByte x.toNat).2 ++ decodeFrom (firstByte x.toNat).1 bs ++
          Char.ofNat b.toNat :: decodeUtf8 rest := by
      rw [ih _ fun begun => firstByte_low, List.append_assoc]
    intro st hlow
    rw [List.cons_append]
    cases st with
    | none =>
      rw [decodeFrom, decodeFrom]
      exact hfirst
    | some begun =>
      rw [decodeFrom, decodeFrom]
      split_ifs with hrange hneed
      · have hnext := ih none (by simp)
        rw [hnext, List.cons_append]
      · rw [ih _ fun next hnext => by cases hnext; exact le_rfl]
      · exact congrArg (Char.ofNat 0xFFFD :: ·) hfirst

theorem readUtf8_append_ascii {b : UInt8} (hb : b.toNat < 0x80) (bs rest : Bytes) :
    readUtf8 (bs ++ b :: rest) = readUtf8 bs ++ b.toNat :: readUtf8 rest := by
  have hunit : utf16 [Char.ofNat b.toNat] = [b.toNat] := by
    have hvalid : b.toNat.isValidChar := .inl (by omega)
    have hval : (Char.ofNat b.toNat).toNat = b.toNat := by
      rw [Char.toNat_ofNat, if_pos hvalid]
    rw [utf16_cons_of_lt (by omega), hval]
    rfl
  unfold readUtf8
  rw [decodeUtf8, decodeFrom_append_ascii hb rest none (by simp), utf16_append, utf16_cons,
    hunit]
  rfl

theorem readUtf8_ascii {word : Bytes} (h : ∀ b ∈ word, b.toNat < 0x80) (rest : Bytes) :
    readUtf8 (word ++ rest) = word.map UInt8.toNat ++ readUtf8 rest := by
  induction word with
  | nil => rfl
  | cons b word ih =>
    obtain ⟨hb, hword⟩ := List.forall_mem_cons.mp h
    have hcons := readUtf8_append_ascii hb [] (word ++ rest)
    rw [List.nil_append, ih hword] at hcons
    exact hcons

end Ascii

end SupabaseLab.Library
