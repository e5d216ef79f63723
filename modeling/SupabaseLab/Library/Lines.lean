/-
  Library/Lines.lean --- texts as lines, and a file of lines that is read in pieces.

  A text is its complete lines and the piece after the last line end, and it has
  no other reading.  A file whose complete lines are UTF-8 texts is read as those
  lines from any pieces, up to the characters that were cut.
-/
import SupabaseLab.Library.Utf8

set_option autoImplicit false

namespace SupabaseLab.Library

section Lines

variable {α : Type} {a : α} {l b : List α} {ls : List (List α)}

/-- Lines, each with its end. -/
def joinLines (a : α) (ls : List (List α)) : List α := ls.flatMap fun l => l ++ [a]

/-- A text, taken apart. -/
structure IsLines (a : α) (l : List α) (ls : List (List α)) (b : List α) : Prop where
  join : l = joinLines a ls ++ b
  lines : ∀ l ∈ ls, a ∉ l
  last : a ∉ b

theorem isLines_nil (h : a ∉ b) : IsLines a b [] b := ⟨rfl, by simp, h⟩

theorem IsLines.cons {x : List α} (hx : a ∉ x) (h : IsLines a l ls b) :
    IsLines a (x ++ a :: l) (x :: ls) b := by
  refine ⟨?_, List.forall_mem_cons.mpr ⟨hx, h.lines⟩, h.last⟩
  rw [h.join]
  simp [joinLines]

variable [DecidableEq α]

/-- The lines that are ended. -/
def completeLines (a : α) (l : List α) : List (List α) := (l.splitOn a).dropLast

/-- What follows the last line end. -/
def lastPiece (a : α) (l : List α) : List α := (l.splitOn a).getLast?.getD []

theorem IsLines.splitOn_eq (h : IsLines a l ls b) : l.splitOn a = ls ++ [b] := by
  obtain ⟨rfl, hlines, hlast⟩ := h
  induction ls with
  | nil => exact List.splitOn_eq_singleton hlast
  | cons x ls ih =>
    obtain ⟨hx, hls⟩ := List.forall_mem_cons.mp hlines
    rw [joinLines, List.flatMap_cons, List.append_assoc, List.append_assoc, List.singleton_append,
      List.splitOn_append_cons_self_of_not_mem hx]
    exact congrArg (x :: ·) (ih hls)

theorem IsLines.completeLines_eq (h : IsLines a l ls b) : completeLines a l = ls := by
  rw [completeLines, h.splitOn_eq, List.dropLast_concat]

theorem IsLines.lastPiece_eq (h : IsLines a l ls b) : lastPiece a l = b := by
  rw [lastPiece, h.splitOn_eq, List.getLast?_concat, Option.getD_some]

/-- Every text is taken apart. -/
theorem isLines_split (a : α) (l : List α) : IsLines a l (completeLines a l) (lastPiece a l) := by
  obtain ⟨ls, b, h⟩ : ∃ ls b, IsLines a l ls b := by
    induction l with
    | nil => exact ⟨[], [], isLines_nil (by simp)⟩
    | cons x l ih =>
      obtain ⟨ls, b, h⟩ := ih
      by_cases hx : x = a
      · subst hx
        exact ⟨[] :: ls, b, h.cons (x := []) (by simp)⟩
      · cases ls with
        | nil =>
          refine ⟨[], x :: b, ⟨by simp [h.join, joinLines], by simp, ?_⟩⟩
          exact List.not_mem_cons_of_ne_of_not_mem (Ne.symm hx) h.last
        | cons y ls =>
          obtain ⟨hy, hls⟩ := List.forall_mem_cons.mp h.lines
          refine ⟨(x :: y) :: ls, b, ⟨?_, List.forall_mem_cons.mpr ⟨?_, hls⟩, h.last⟩⟩
          · rw [h.join]
            simp [joinLines]
          · exact List.not_mem_cons_of_ne_of_not_mem (Ne.symm hx) hy
  rw [h.completeLines_eq, h.lastPiece_eq]
  exact h

/-- More text after what is already taken apart. -/
theorem IsLines.append (h : IsLines a l ls b) (more : List α) :
    IsLines a (l ++ more) (ls ++ completeLines a (b ++ more)) (lastPiece a (b ++ more)) := by
  have hsplit := isLines_split a (b ++ more)
  refine ⟨?_, ?_, hsplit.last⟩
  · calc l ++ more = joinLines a ls ++ (b ++ more) := by rw [h.join, List.append_assoc]
      _ = joinLines a ls ++ (joinLines a (completeLines a (b ++ more)) ++ lastPiece a (b ++ more)) :=
          congrArg (joinLines a ls ++ ·) hsplit.join
      _ = _ := by simp [joinLines]
  · intro x hx
    rcases List.mem_append.mp hx with hx | hx
    · exact h.lines x hx
    · exact hsplit.lines x hx

/-- The lines of a text go on in a longer one. -/
theorem completeLines_of_le {m : List α} (h : l <+: m) : completeLines a l <+: completeLines a m := by
  obtain ⟨more, rfl⟩ := h
  rw [((isLines_split a l).append more).completeLines_eq]
  exact List.prefix_append _ _

end Lines

/-! ## A file that is read in pieces -/

section Pieces

variable {bs : Bytes} {pieces : List Bytes} {lines : List Bytes} {tail : Bytes}

/-- A line as it is read: the text of its bytes, but for characters that were cut. -/
def ReadAs (line : Bytes) (l : List Nat) : Prop :=
  ∃ text : List Char, line = text.flatMap String.utf8EncodeChar ∧ Blur (utf16 text) l

theorem newline_notMem_utf16 {text : List Char} (h : 10 ∉ text.flatMap String.utf8EncodeChar) :
    10 ∉ utf16 text := by
  intro hmem
  obtain ⟨c, hc, hunit⟩ := List.mem_flatMap.mp hmem
  refine h (List.mem_flatMap.mpr ⟨c, hc, ?_⟩)
  split_ifs at hunit with hplane
  · obtain rfl : c = '\n' := Char.toNat_inj.mp (List.mem_singleton.mp hunit).symm
    decide
  · simp at hunit
    omega

theorem readPieces_newline (h : pieces.flatten = 10 :: bs) : ∃ pieces' : List Bytes,
    pieces.flatMap readUtf8 = 10 :: pieces'.flatMap readUtf8 ∧ pieces'.flatten = bs := by
  obtain ⟨d, ds, heq, hbs⟩ := exists_first_piece h
  refine ⟨d :: ds, ?_, by simpa using hbs⟩
  have hdecode : decodeUtf8 (10 :: d) = '\n' :: decodeUtf8 d := decodeUtf8_char '\n' d
  rw [heq, readUtf8, hdecode, utf16_cons_of_lt (by decide)]
  rfl

/-- A file of lines is read as its lines. -/
theorem readPieces_lines (hfile : IsLines 10 bs lines tail) (hpieces : pieces.flatten = bs)
    (htexts : ∀ line ∈ lines, ∃ text : List Char, line = text.flatMap String.utf8EncodeChar) :
    ∃ ls b, IsLines 10 (pieces.flatMap readUtf8) ls b ∧ List.Forall₂ ReadAs lines ls := by
  obtain ⟨rfl, hlines, hlast⟩ := hfile
  induction lines generalizing pieces with
  | nil =>
    refine ⟨[], pieces.flatMap readUtf8, isLines_nil fun hmem => ?_, .nil⟩
    obtain ⟨piece, hpiece, hunit⟩ := List.mem_flatMap.mp hmem
    have hflat : pieces.flatten = tail := hpieces
    refine newline_notMem_readUtf8 (fun h => hlast ?_) hunit
    rw [← hflat]
    exact List.mem_flatten.mpr ⟨piece, hpiece, h⟩
  | cons line lines ih =>
    obtain ⟨hline, hlines⟩ := List.forall_mem_cons.mp hlines
    obtain ⟨⟨text, htext⟩, htexts⟩ := List.forall_mem_cons.mp htexts
    have hsplit : pieces.flatten =
        text.flatMap String.utf8EncodeChar ++ 10 :: (joinLines 10 lines ++ tail) := by
      rw [hpieces, ← htext]
      simp [joinLines]
    obtain ⟨l, pieces', hread, hpieces', hblur⟩ := readPieces_text text hsplit
    obtain ⟨pieces'', hread', hpieces''⟩ := readPieces_newline hpieces'
    obtain ⟨ls, b, hls, hforall⟩ := ih htexts hlines hpieces''
    have hl : 10 ∉ l := fun hmem =>
      newline_notMem_utf16 (htext ▸ hline) ((hblur.mem_iff (by decide)).mpr hmem)
    refine ⟨l :: ls, b, ?_, .cons ⟨text, htext, hblur⟩ hforall⟩
    rw [hread, hread']
    exact hls.cons hl

end Pieces

end SupabaseLab.Library
