/-
  Harness/Facts.lean --- the fact sheet of an artifact.

  Source: harness/src/facts.ts.  Each result has a table of its measurements.  What
  becomes of a text in a cell is one function, `cell`: it escapes pipes and puts a
  blank for a line feed, but a carriage return alone stays.
-/
import SupabaseLab.Harness.Plan
import SupabaseLab.Harness.Diff
import SupabaseLab.Library.GfmTable
import SupabaseLab.Library.JsNumberText

set_option autoImplicit false

namespace SupabaseLab.Harness

open Library

def Status.text : Status → String
  | .pass => "pass"
  | .fail => "fail"
  | .skip => "skip"
  | .info => "info"

/-- `String(v)`. -/
def Measurement.string : Measurement → String
  | .number n => String.ofList (Double.round n).text
  | .text s => s
  | .null => "null"

/-- A string that counts as true. -/
def said (s : Option String) : Option String := s.filter fun s => s ≠ ""

structure MarkdownTable where
  header : String
  delimiter : String
  rows : List String

def MarkdownTable.lines (t : MarkdownTable) : List String := t.header :: t.delimiter :: t.rows

structure FactsOptions where
  only : Option (List String) := none
  detail : Option Bool := none

def wanted (js : Strings) (id : String) (only : Option (List String)) : Bool :=
  match only with
  | none => true
  | some only =>
      let lower := js.toLowerCase id
      only.isEmpty || only.any fun o =>
        lower == js.toLowerCase o || (js.toLowerCase o).toList.isPrefixOf lower.toList

/-- `.replace(/\r?\n/g, " ")`. -/
def joinLineEnds : List Char → List Char
  | '\r' :: '\n' :: t => ' ' :: joinLineEnds t
  | '\n' :: t => ' ' :: joinLineEnds t
  | c :: t => c :: joinLineEnds t
  | [] => []

def cell (v : String) : String := jsTrim (String.ofList (joinLineEnds (escapeBars v.toList)))

def regionLabel (run : RunArtifact) : String :=
  match said run.projectRegion with
  | some region => "region " ++ region ++ " (read from the project)"
  | none => "harness region " ++ run.region ++ " (not read from the project)"

def factsTable (r : TestResult) : MarkdownTable where
  header := "| key | value |"
  delimiter := "|---|---|"
  rows := (measurements r).entries.map fun (k, v) => "| " ++ cell k ++ " | " ++ cell v.string ++ " |"

def detailLine (detail : String) : String := "detail: " ++ cell detail

/-- The detail, where the options show it. -/
def shownDetail (opts : FactsOptions) (r : TestResult) : Option String :=
  if opts.detail = some false then none else said r.detail

/-- One result. -/
def factsSection (opts : FactsOptions) (r : TestResult) : List String :=
  ["## " ++ r.id ++ " - " ++ r.title ++ " (" ++ r.status.text ++ ")", ""] ++
    (if (measurements r).keys ≠ [] then (factsTable r).lines else ["_no measurements_"]) ++
    (match shownDetail opts r with
      | some detail => ["", detailLine detail]
      | none => []) ++
    [""]

/-- `startedAt.slice(0, 19).replace("T", " ")`. -/
def stamp (startedAt : String) : String :=
  let time := startedAt.toList.take 19
  String.ofList (time.takeWhile (· ≠ 'T') ++
    match time.dropWhile (· ≠ 'T') with
    | _ :: rest => ' ' :: rest
    | [] => [])

def factsHead (run : RunArtifact) : List String :=
  ["# Facts from " ++ run.experiment.getD "run" ++ " - " ++ stamp run.startedAt ++ " UTC", "",
    "Source artifact: run started " ++ run.startedAt ++ ", finished " ++ run.finishedAt ++
      ", vantage " ++ run.vantage.text ++ ", " ++ regionLabel run ++
      (match said run.labCommit with
        | some commit => ", lab commit " ++ commit
        | none => "") ++
      ". Project ref omitted on purpose.", ""]

def shownResults (js : Strings) (run : RunArtifact) (only : Option (List String)) : List TestResult :=
  run.results.filter fun r => wanted js r.id only

def jsTrimEnd (s : String) : String :=
  String.ofList (s.toList.reverse.dropWhile isJsSpace).reverse

def renderFacts (js : Strings) (run : RunArtifact) (opts : FactsOptions) : String :=
  match shownResults js run opts.only with
  | [] => "\n".intercalate (factsHead run ++ ["_no results matched_"])
  | results =>
      jsTrimEnd ("\n".intercalate (factsHead run ++ results.flatMap (factsSection opts))) ++ "\n"

/-! ## Cells -/

section Cells

variable {e : Escaping} {t t' : List Char}

/-- A carriage return that no line feed follows. -/
def LoneReturn (t : List Char) : Prop := ∃ u w, t = u ++ '\r' :: w ∧ w.head? ≠ some '\n'

/-- A text that `cell` makes a cell of. -/
structure CellFits (e : Escaping) (v : String) : Prop where
  oneLine : ¬ LoneReturn (jsTrim v).toList
  shut : reopened e false (jsTrim v).toList = 0

theorem loneReturn_cons {c : Char} :
    LoneReturn (c :: t) ↔ c = '\r' ∧ t.head? ≠ some '\n' ∨ LoneReturn t := by
  constructor
  · rintro ⟨u, w, heq, hw⟩
    cases u with
    | nil =>
      obtain ⟨rfl, rfl⟩ := List.cons.inj heq
      exact .inl ⟨rfl, hw⟩
    | cons d u => exact .inr ⟨u, w, (List.cons.inj heq).2, hw⟩
  · rintro (⟨rfl, ht⟩ | ⟨u, w, rfl, hw⟩)
    · exact ⟨[], t, rfl, ht⟩
    · exact ⟨c :: u, w, rfl, hw⟩

theorem newline_not_mem_joinLineEnds (t : List Char) : '\n' ∉ joinLineEnds t := by
  fun_induction joinLineEnds t with
  | case1 t ih => simpa using ih
  | case2 t ih => simpa using ih
  | case3 c t _ hne ih =>
    simp only [List.mem_cons, not_or]
    exact ⟨fun h => hne h.symm, ih⟩
  | case4 => exact List.not_mem_nil

theorem return_mem_joinLineEnds : '\r' ∈ joinLineEnds t ↔ LoneReturn t := by
  fun_induction joinLineEnds t with
  | case1 t ih =>
    rw [List.mem_cons, ih, loneReturn_cons, loneReturn_cons]
    simp
  | case2 t ih =>
    rw [List.mem_cons, ih, loneReturn_cons]
    simp
  | case3 c t hcr hne ih =>
    rw [List.mem_cons, ih, loneReturn_cons]
    refine or_congr_left ⟨fun h => ⟨h.symm, fun hhead => ?_⟩, fun h => h.1.symm⟩
    obtain ⟨w, rfl⟩ := List.head?_eq_some_iff.mp hhead
    exact hcr w h.symm rfl
  | case4 => simp [LoneReturn]

theorem joinLineEnds_cons {c : Char} (hcr : c = '\r' → t.head? ≠ some '\n') (hlf : c ≠ '\n') :
    joinLineEnds (c :: t) = c :: joinLineEnds t := by
  rw [joinLineEnds]
  · rintro w hc rfl
    exact hcr hc rfl
  · exact hlf

/-- A text is taken in parts, unless a line end is cut. -/
theorem joinLineEnds_append (h : t.getLast? = some '\r' → t'.head? ≠ some '\n') :
    joinLineEnds (t ++ t') = joinLineEnds t ++ joinLineEnds t' := by
  fun_induction joinLineEnds t with
  | case1 t ih =>
    rw [List.cons_append, List.cons_append, joinLineEnds, ih, List.cons_append]
    intro hlast
    exact h (by simp [List.getLast?_cons, hlast])
  | case2 t ih =>
    rw [List.cons_append, joinLineEnds, ih, List.cons_append]
    intro hlast
    exact h (by simp [List.getLast?_cons, hlast])
  | case3 c t hcr hne ih =>
    rw [List.cons_append, joinLineEnds_cons (fun hc hhead => ?_) hne, ih, List.cons_append]
    · intro hlast
      exact h (by simp [List.getLast?_cons, hlast])
    · cases t with
      | nil => exact h (congrArg some hc) hhead
      | cons d t => exact hcr t hc (congrArg (· :: t) (Option.some.inj hhead))
  | case4 => rfl

theorem eq_space_or_mem_of_mem_joinLineEnds {c : Char} (h : c ∈ joinLineEnds t) : c = ' ' ∨ c ∈ t := by
  fun_induction joinLineEnds t with
  | case1 t ih =>
    rcases List.mem_cons.mp h with h | h
    · exact .inl h
    · exact (ih h).imp_right fun h => List.mem_cons_of_mem _ (List.mem_cons_of_mem _ h)
  | case2 t ih =>
    rcases List.mem_cons.mp h with h | h
    · exact .inl h
    · exact (ih h).imp_right (List.mem_cons_of_mem _)
  | case3 d t _ _ ih =>
    rcases List.mem_cons.mp h with h | h
    · exact .inr (h ▸ List.mem_cons_self)
    · exact (ih h).imp_right (List.mem_cons_of_mem _)
  | case4 => cases h

theorem openPipes_joinLineEnds {held : Bool} :
    openPipes e held (joinLineEnds t) = openPipes e held t := by
  fun_induction joinLineEnds t generalizing held with
  | case1 t ih => simp [openPipes, ih, Escaping.holds]
  | case2 t ih => simp [openPipes, ih, Escaping.holds]
  | case3 c t _ _ ih => rw [openPipes, openPipes, ih]
  | case4 => rfl

theorem isJsSpace_ne {c : Char} (h : isJsSpace c = false) : c ≠ '\r' ∧ c ≠ '\n' := by
  constructor
  · rintro rfl
    cases h
  · rintro rfl
    cases h

/-- The first and the last character of a text, in its cell. -/
theorem cell_edges {core : List Char} (hhead : ∀ c ∈ core.head?, isJsSpace c = false)
    (hlast : ∀ c ∈ core.getLast?, isJsSpace c = false) :
    (∀ c ∈ (escapeBars core).head?, isJsSpace c = false) ∧
      (∀ c ∈ (escapeBars core).getLast?, isJsSpace c = false) := by
  constructor
  · cases core with
    | nil => exact hhead
    | cons c core =>
      by_cases hc : c = '|'
      · subst hc
        rintro d ⟨⟩
        rfl
      · rw [escapeBars_cons_of_ne hc]
        exact hhead
  · rcases List.eq_nil_or_concat' core with rfl | ⟨core, c, rfl⟩
    · exact hlast
    · have hend : ∃ x, escapeBars (core ++ [c]) = x ++ [c] := by
        by_cases hc : c = '|'
        · subst hc
          exact ⟨escapeBars core ++ ['\\'], by rw [escapeBars_append, List.append_assoc]; rfl⟩
        · exact ⟨escapeBars core, by rw [escapeBars_append, escapeBars_cons_of_ne hc]; rfl⟩
      obtain ⟨x, hx⟩ := hend
      rw [hx, List.getLast?_concat]
      rwa [List.getLast?_concat] at hlast

theorem joinLineEnds_edges (hhead : ∀ c ∈ t.head?, isJsSpace c = false)
    (hlast : ∀ c ∈ t.getLast?, isJsSpace c = false) :
    (∀ c ∈ (joinLineEnds t).head?, isJsSpace c = false) ∧
      (∀ c ∈ (joinLineEnds t).getLast?, isJsSpace c = false) := by
  constructor
  · cases t with
    | nil => exact hhead
    | cons c t =>
      obtain ⟨hcr, hlf⟩ := isJsSpace_ne (hhead c rfl)
      rw [joinLineEnds_cons (fun h => absurd h hcr) hlf]
      exact hhead
  · rcases List.eq_nil_or_concat' t with rfl | ⟨t, c, rfl⟩
    · exact hlast
    · rw [List.getLast?_concat] at hlast
      obtain ⟨hcr, hlf⟩ := isJsSpace_ne (hlast c rfl)
      rw [joinLineEnds_append, joinLineEnds_cons (fun h => absurd h hcr) hlf, joinLineEnds,
        List.getLast?_concat]
      · exact hlast
      · exact fun _ h => hlf (Option.some.inj h)

/-- White space around a text is white space around its cell. -/
theorem trimsTo_cell {core : List Char} (h : TrimsTo t core) :
    TrimsTo (joinLineEnds (escapeBars t)) (joinLineEnds (escapeBars core)) := by
  obtain ⟨⟨l, r, rfl, hl, hr⟩, hhead, hlast⟩ := h
  have hkept : ∀ l : List Char, (∀ c ∈ l, isJsSpace c = true) → escapeBars l = l :=
    fun l hl => escapeBars_of_not_mem fun hbar => by cases hl _ hbar
  have hblank : ∀ l : List Char, (∀ c ∈ l, isJsSpace c = true) →
      ∀ c ∈ joinLineEnds l, isJsSpace c = true := by
    intro l hl c hc
    rcases eq_space_or_mem_of_mem_joinLineEnds hc with rfl | hc
    · rfl
    · exact hl c hc
  rcases List.eq_nil_or_concat' core with rfl | ⟨core, c, rfl⟩
  · -- nothing but white space
    have hall := List.forall_mem_append.mpr ⟨hl, hr⟩
    refine ⟨⟨joinLineEnds (l ++ r), [], ?_, hblank _ hall, List.forall_mem_nil _⟩, hhead, hlast⟩
    rw [List.append_nil, hkept _ hall]
    exact ((List.append_nil _).trans (List.append_nil _)).symm
  · obtain ⟨hhead, hlast⟩ := cell_edges hhead hlast
    obtain ⟨hhead', hlast'⟩ := joinLineEnds_edges hhead hlast
    refine ⟨⟨joinLineEnds l, joinLineEnds r, ?_, hblank l hl, hblank r hr⟩, hhead', hlast'⟩
    rw [escapeBars_append, escapeBars_append, hkept l hl, hkept r hr, joinLineEnds_append,
      joinLineEnds_append]
    · exact fun _ h => (isJsSpace_ne (hhead _ h)).2 rfl
    · intro h
      rw [List.getLast?_append] at h
      cases hend : (escapeBars (core ++ [c])).getLast? with
      | none =>
        have hne : core ++ [c] ≠ [] := by simp
        exact absurd (List.getLast?_eq_none_iff.mp hend) (escapeBars_ne_nil hne)
      | some d =>
        rw [hend] at h
        exact absurd (Option.some.inj h) (isJsSpace_ne (hlast d hend)).1

theorem toList_cell (v : String) :
    (cell v).toList = joinLineEnds (escapeBars (jsTrim v).toList) := by
  rw [cell, (trimsTo_cell (trimsTo_jsTrim v)).jsTrim_eq, String.toList_ofList]

theorem loneReturn_escapeBars : LoneReturn (escapeBars t) ↔ LoneReturn t := by
  induction t with
  | nil => rfl
  | cons c t ih =>
    by_cases hc : c = '|'
    · subst hc
      show LoneReturn ('\\' :: '|' :: escapeBars t) ↔ _
      rw [loneReturn_cons, loneReturn_cons, loneReturn_cons, ih]
      simp
    · rw [escapeBars_cons_of_ne hc, loneReturn_cons, loneReturn_cons, ih]
      have hhead : (escapeBars t).head? = some '\n' ↔ t.head? = some '\n' := by
        cases t with
        | nil => rfl
        | cons d t =>
          by_cases hd : d = '|'
          · subst hd
            constructor
            · rintro ⟨⟩
            · rintro ⟨⟩
          · rw [escapeBars_cons_of_ne hd]
            rfl
      rw [ne_eq, ne_eq, hhead]

/-- To a scanner that takes any backslash before a pipe, only a carriage return tears a cell. -/
theorem cellFits_adjacent {v : String} : CellFits .adjacent v ↔ ¬ LoneReturn (jsTrim v).toList :=
  ⟨CellFits.oneLine, fun h => ⟨h, reopened_adjacent _ _⟩⟩

/-- A number fits into a cell. -/
theorem cellFits_number (n : ℚ) : CellFits e (Measurement.number n).string := by
  have hchar : ∀ c ∈ (jsTrim (Measurement.number n).string).toList, Double.isNumberChar c = true := by
    intro c hc
    obtain ⟨l, r, heq, -⟩ := (trimsTo_jsTrim (Measurement.number n).string).around
    refine Double.isNumberChar_of_mem_text (d := Double.round n) ?_
    rw [← String.toList_ofList (l := (Double.round n).text)]
    show c ∈ (Measurement.number n).string.toList
    rw [heq]
    exact List.mem_append_left r (List.mem_append_right l hc)
  constructor
  · rintro ⟨u, w, heq, -⟩
    have hreturn := hchar '\r' (heq ▸ List.mem_append_right u List.mem_cons_self)
    cases hreturn
  · refine reopened_of_not_mem fun hslash => ?_
    cases hchar '\\' hslash

theorem oneLine_cell {v : String} : OneLine (cell v).toList ↔ ¬ LoneReturn (jsTrim v).toList := by
  rw [OneLine, toList_cell, return_mem_joinLineEnds, loneReturn_escapeBars]
  exact and_iff_right (newline_not_mem_joinLineEnds _)

theorem openPipes_cell (v : String) :
    openPipes e false (cell v).toList = reopened e false (jsTrim v).toList := by
  rw [toList_cell, openPipes_joinLineEnds, openPipes_escapeBars]

end Cells

/-! ## The tables -/

section Tables

variable {e : Escaping} {r : TestResult}

theorem keepsShape_factsRow {k v : String} :
    KeepsShape e "| key | value |".toList ("| " ++ cell k ++ " | " ++ cell v ++ " |").toList ↔
      CellFits e k ∧ CellFits e v := by
  have hheader : "| key | value |".toList = tableLine ["key".toList, "value".toList] := by decide
  have hrow : ("| " ++ cell k ++ " | " ++ cell v ++ " |").toList =
      tableLine [(cell k).toList, (cell v).toList] := by
    simp [tableLine, List.intercalate_cons_cons]
  have hnames : ∀ h ∈ ["key".toList, "value".toList], OneLine h ∧ openPipes e false h = 0 := by
    cases e <;> decide
  rw [hheader, hrow]
  refine (keepsShape_plain ?_ ?_ hnames).trans ?_
  · exact List.cons_ne_nil _ _
  · simp only [List.length_cons, List.length_nil]
  · simp only [List.forall_mem_cons, oneLine_cell, openPipes_cell]
    constructor
    · rintro ⟨⟨hk, hkopen⟩, ⟨hv, hvopen⟩, _⟩
      exact ⟨⟨hk, hkopen⟩, ⟨hv, hvopen⟩⟩
    · rintro ⟨⟨hk, hkopen⟩, hv, hvopen⟩
      exact ⟨⟨hk, hkopen⟩, ⟨hv, hvopen⟩, List.forall_mem_nil _⟩

end Tables

end SupabaseLab.Harness
