/-
  Library/GfmTable.lean --- lines of a Markdown table, and the cells they fall into.

  Pipes part the cells of a line, but for the pipes that a backslash escapes.  There
  are two readings of a run of backslashes before a pipe: they pair up, as escapes do
  everywhere else in Markdown, or the last one counts alone.  A pipe that is escaped
  by putting a backslash before it comes open again under the first reading, if it
  was escaped already.  A text is its list of characters: the signs that part cells are
  one code unit each, so it makes no difference that the language goes by code units.
-/
import Mathlib

set_option autoImplicit false

namespace SupabaseLab.Library

/-- Which backslashes escape the pipe after them. -/
inductive Escaping where
  /-- A backslash escapes a backslash, too. -/
  | pairs
  /-- The one directly before the pipe does. -/
  | adjacent
  deriving DecidableEq, Repr

/-- Whether a pipe that follows `c` is escaped, by whether one in its place was. -/
def Escaping.holds (e : Escaping) (held : Bool) (c : Char) : Bool :=
  decide (c = '\\') && (decide (e = .adjacent) || !held)

variable {e : Escaping} {held : Bool} {c : Char} {t : List Char}

/-- A text, cut at the open pipes. -/
def splitPipes (e : Escaping) : Bool → List Char → List (List Char)
  | _, [] => [[]]
  | held, c :: t =>
      let pieces := splitPipes e (e.holds held c) t
      if c = '|' ∧ held = false then [] :: pieces
      else (c :: pieces.headD []) :: pieces.tail

/-- The cells of a line.  A pipe at the end of it parts nothing. -/
def cells (e : Escaping) (line : List Char) : List (List Char) :=
  let blank (piece : List Char) : Bool := piece.all fun c => c = ' ' || c = '\t'
  let pieces := splitPipes e false line
  let inner := if pieces.head?.any blank then pieces.tail else pieces
  if inner.getLast?.any blank then inner.dropLast else inner

/-- Nothing in the text ends a line. -/
def OneLine (t : List Char) : Prop := '\n' ∉ t ∧ '\r' ∉ t

instance : Decidable (OneLine t) := inferInstanceAs (Decidable (_ ∧ _))

/-- A row is a line, and has as many cells as the header. -/
structure KeepsShape (e : Escaping) (header row : List Char) : Prop where
  headerLine : OneLine header
  rowLine : OneLine row
  length : (cells e row).length = (cells e header).length

/-- A line of these cells. -/
def tableLine (cs : List (List Char)) : List Char :=
  "| ".toList ++ [' ', '|', ' '].intercalate cs ++ " |".toList

/-! ## Open pipes -/

/-- The pipes that part cells. -/
def openPipes (e : Escaping) : Bool → List Char → ℕ
  | _, [] => 0
  | held, c :: t => (if c = '|' ∧ held = false then 1 else 0) + openPipes e (e.holds held c) t

theorem length_splitPipes (e : Escaping) (held : Bool) (t : List Char) :
    (splitPipes e held t).length = openPipes e held t + 1 := by
  induction t generalizing held with
  | nil => rfl
  | cons c t ih =>
    rw [splitPipes, openPipes]
    split
    · rw [List.length_cons, ih]
      omega
    · rw [List.length_cons, List.length_tail, ih]
      omega

theorem openPipes_append (t t' : List Char) : openPipes e held (t ++ t') =
    openPipes e held t + openPipes e (t.foldl e.holds held) t' := by
  induction t generalizing held with
  | nil => exact (Nat.zero_add _).symm
  | cons c t ih =>
    rw [List.cons_append, openPipes, ih, openPipes, List.foldl_cons, Nat.add_assoc]

@[simp] theorem holds_space : e.holds held ' ' = false := rfl

@[simp] theorem holds_pipe : e.holds held '|' = false := rfl

/-- Behind white space the count begins anew. -/
theorem openPipes_append_space (t t' : List Char) :
    openPipes e held (t ++ ' ' :: t') = openPipes e held t + openPipes e false t' := by
  have hspace : ' ' ≠ '|' := by decide
  rw [openPipes_append, openPipes, holds_space, if_neg fun h => hspace h.1, Nat.zero_add]

/-- A pipe at the end leaves an empty piece behind it. -/
theorem splitPipes_concat (h : t.foldl e.holds held = false) :
    splitPipes e held (t ++ ['|']) = splitPipes e held t ++ [[]] := by
  induction t generalizing held with
  | nil =>
    rw [List.foldl_nil] at h
    subst h
    rfl
  | cons c t ih =>
    rw [List.foldl_cons] at h
    have hne : splitPipes e (e.holds held c) t ≠ [] := by
      rw [← List.length_pos_iff, length_splitPipes]
      exact Nat.succ_pos _
    rw [List.cons_append, splitPipes, splitPipes, ih h]
    obtain ⟨p, ps, heq⟩ := List.exists_cons_of_ne_nil hne
    rw [heq]
    split
    · rfl
    · rfl

theorem length_cells_of_outer {body : List Char} (h : (' ' :: body).foldl e.holds false = false) :
    (cells e ('|' :: ' ' :: body ++ ['|'])).length = openPipes e false body + 1 := by
  have hpieces : splitPipes e false ('|' :: ' ' :: body ++ ['|']) =
      [] :: (splitPipes e false (' ' :: body) ++ [[]]) := by
    rw [List.cons_append, splitPipes, holds_pipe, splitPipes_concat h, if_pos ⟨rfl, rfl⟩]
  rw [cells, hpieces]
  simp [length_splitPipes, openPipes]

theorem openPipes_intercalate {cs : List (List Char)} (h : cs ≠ []) :
    openPipes e false ([' ', '|', ' '].intercalate cs ++ [' ']) =
      (cs.map (openPipes e false)).sum + (cs.length - 1) := by
  induction cs with
  | nil => exact absurd rfl h
  | cons c cs ih =>
    cases cs with
    | nil =>
      rw [List.intercalate_singleton, openPipes_append_space]
      simp [openPipes]
    | cons d cs =>
      have hrest := ih (List.cons_ne_nil d cs)
      have hpipe : openPipes e false ('|' :: ' ' :: ([' ', '|', ' '].intercalate (d :: cs) ++ [' '])) =
          1 + openPipes e false ([' ', '|', ' '].intercalate (d :: cs) ++ [' ']) := by
        rw [openPipes, if_pos ⟨rfl, rfl⟩, holds_pipe]
        exact congrArg (1 + ·) ((openPipes_append_space [] _).trans (Nat.zero_add _))
      have hjoin : [' ', '|', ' '].intercalate (c :: d :: cs) ++ [' '] =
          c ++ ' ' :: '|' :: ' ' :: ([' ', '|', ' '].intercalate (d :: cs) ++ [' ']) := by
        simp [List.intercalate_cons_cons]
      rw [hjoin, openPipes_append_space, hpipe, hrest]
      simp only [List.map_cons, List.sum_cons, List.length_cons]
      omega

/-- **The cells of a line are those it was made of, and one more for each open pipe in them.** -/
theorem length_cells_tableLine {cs : List (List Char)} (h : cs ≠ []) :
    (cells e (tableLine cs)).length = cs.length + (cs.map (openPipes e false)).sum := by
  have hline : tableLine cs =
      '|' :: ' ' :: ([' ', '|', ' '].intercalate cs ++ [' ']) ++ ['|'] := by
    simp [tableLine]
  have hpos := List.length_pos_iff.mpr h
  rw [hline, length_cells_of_outer, openPipes_intercalate h]
  · omega
  · rw [← List.cons_append, List.foldl_append, List.foldl_cons, holds_space, List.foldl_nil]

/-! ## Lines -/

theorem oneLine_append {t' : List Char} : OneLine (t ++ t') ↔ OneLine t ∧ OneLine t' := by
  simp only [OneLine, List.mem_append, not_or]
  exact and_and_and_comm

theorem oneLine_tableLine {cs : List (List Char)} : OneLine (tableLine cs) ↔ ∀ c ∈ cs, OneLine c := by
  have hjoin : OneLine ([' ', '|', ' '].intercalate cs) ↔ ∀ c ∈ cs, OneLine c := by
    induction cs with
    | nil => simp [OneLine]
    | cons c cs ih =>
      rw [List.forall_mem_cons, ← ih]
      cases cs with
      | nil => simp [OneLine]
      | cons d cs =>
        rw [List.intercalate_cons_cons, oneLine_append, oneLine_append]
        have : OneLine [' ', '|', ' '] := by decide
        tauto
  rw [tableLine, oneLine_append, oneLine_append, hjoin]
  have hfirst : OneLine "| ".toList := by decide
  have hlast : OneLine " |".toList := by decide
  tauto

/-- **A row keeps the shape of its table** exactly when nothing in the cells ends the line and
the open pipes in them are as many as those in the header's. -/
theorem keepsShape_tableLine {hs cs : List (List Char)} (hhs : hs ≠ [])
    (hlength : cs.length = hs.length) :
    KeepsShape e (tableLine hs) (tableLine cs) ↔
      (∀ h ∈ hs, OneLine h) ∧ (∀ c ∈ cs, OneLine c) ∧
        (cs.map (openPipes e false)).sum = (hs.map (openPipes e false)).sum := by
  have hcs : cs ≠ [] := by
    rw [← List.length_pos_iff, hlength]
    exact List.length_pos_iff.mpr hhs
  constructor
  · rintro ⟨hheader, hrow, hcells⟩
    rw [length_cells_tableLine hcs, length_cells_tableLine hhs] at hcells
    exact ⟨oneLine_tableLine.mp hheader, oneLine_tableLine.mp hrow, by omega⟩
  · rintro ⟨hheader, hrow, hopen⟩
    refine ⟨oneLine_tableLine.mpr hheader, oneLine_tableLine.mpr hrow, ?_⟩
    rw [length_cells_tableLine hcs, length_cells_tableLine hhs, hlength, hopen]

/-- Under a plain header every cell is on its own. -/
theorem keepsShape_plain {hs cs : List (List Char)} (hhs : hs ≠ []) (hlength : cs.length = hs.length)
    (hplain : ∀ h ∈ hs, OneLine h ∧ openPipes e false h = 0) :
    KeepsShape e (tableLine hs) (tableLine cs) ↔ ∀ c ∈ cs, OneLine c ∧ openPipes e false c = 0 := by
  have hzero : (hs.map (openPipes e false)).sum = 0 := by
    rw [List.sum_eq_zero_iff_forall_eq_nat]
    intro n hn
    obtain ⟨h, hh, rfl⟩ := List.mem_map.mp hn
    exact (hplain h hh).2
  rw [keepsShape_tableLine hhs hlength, hzero, List.sum_eq_zero_iff_forall_eq_nat,
    List.forall_mem_map]
  constructor
  · rintro ⟨_, hline, hopen⟩ c hc
    exact ⟨hline c hc, hopen c hc⟩
  · intro h
    exact ⟨fun h hh => (hplain h hh).1, fun c hc => (h c hc).1, fun c hc => (h c hc).2⟩

/-! ## Escaping -/

/-- `text.replace(/\|/g, "\\|")`. -/
def escapeBars (t : List Char) : List Char := t.flatMap fun c => if c = '|' then ['\\', '|'] else [c]

theorem escapeBars_append (t t' : List Char) :
    escapeBars (t ++ t') = escapeBars t ++ escapeBars t' := List.flatMap_append

theorem escapeBars_cons_of_ne (hc : c ≠ '|') : escapeBars (c :: t) = c :: escapeBars t := by
  rw [escapeBars, List.flatMap_cons, if_neg hc]
  rfl

theorem escapeBars_ne_nil (h : t ≠ []) : escapeBars t ≠ [] := by
  obtain ⟨c, t, rfl⟩ := List.exists_cons_of_ne_nil h
  by_cases hc : c = '|'
  · subst hc
    exact List.cons_ne_nil _ _
  · rw [escapeBars_cons_of_ne hc]
    exact List.cons_ne_nil _ _

theorem escapeBars_of_not_mem (h : '|' ∉ t) : escapeBars t = t := by
  induction t with
  | nil => rfl
  | cons c t ih =>
    obtain ⟨hc, ht⟩ := not_or.mp (List.mem_cons.not.mp h)
    rw [escapeBars_cons_of_ne (Ne.symm hc), ih ht]

/-- The pipes that were escaped already, where that undoes a further backslash. -/
def reopened (e : Escaping) : Bool → List Char → ℕ
  | _, [] => 0
  | held, c :: t =>
      (if c = '|' ∧ held = true ∧ e = .pairs then 1 else 0) + reopened e (e.holds held c) t

/-- **Escaping opens the pipes that were escaped, and shuts the others.** -/
theorem openPipes_escapeBars (e : Escaping) (held : Bool) (t : List Char) :
    openPipes e held (escapeBars t) = reopened e held t := by
  induction t generalizing held with
  | nil => rfl
  | cons c t ih =>
    rw [reopened]
    by_cases hc : c = '|'
    · subst hc
      have hescape : escapeBars ('|' :: t) = '\\' :: '|' :: escapeBars t := rfl
      rw [hescape, openPipes, openPipes, holds_pipe, ih, holds_pipe]
      cases e with
      | pairs => cases held <;> simp [Escaping.holds]
      | adjacent => simp [Escaping.holds]
    · rw [escapeBars_cons_of_ne hc, openPipes, ih, if_neg fun h => hc h.1, if_neg fun h => hc h.1]

/-- Where the last backslash counts alone, escaping shuts every pipe. -/
theorem reopened_adjacent (held : Bool) (t : List Char) : reopened .adjacent held t = 0 := by
  induction t generalizing held with
  | nil => rfl
  | cons c t ih =>
    rw [reopened, ih, if_neg]
    rintro ⟨_, _, h⟩
    cases h

theorem mem_escapeBars {d : Char} (hbar : d ≠ '|') (hslash : d ≠ '\\') :
    d ∈ escapeBars t ↔ d ∈ t := by
  rw [escapeBars, List.mem_flatMap]
  constructor
  · rintro ⟨c, hc, hd⟩
    split at hd
    · simp [hbar, hslash] at hd
    · rw [List.mem_singleton.mp hd]
      exact hc
  · intro hd
    refine ⟨d, hd, ?_⟩
    rw [if_neg hbar]
    exact List.mem_singleton_self d

@[simp] theorem oneLine_escapeBars : OneLine (escapeBars t) ↔ OneLine t := by
  rw [OneLine, OneLine, mem_escapeBars (by decide) (by decide), mem_escapeBars (by decide) (by decide)]

/-- A text without backslashes has no escaped pipe. -/
theorem reopened_of_not_mem (h : '\\' ∉ t) : reopened e false t = 0 := by
  induction t with
  | nil => rfl
  | cons c t ih =>
    obtain ⟨hc, ht⟩ := not_or.mp (List.mem_cons.not.mp h)
    have hholds : e.holds false c = false := by
      rw [Escaping.holds, decide_eq_false (Ne.symm hc), Bool.false_and]
    rw [reopened, hholds, ih ht, if_neg]
    rintro ⟨_, h, _⟩
    cases h

end SupabaseLab.Library
