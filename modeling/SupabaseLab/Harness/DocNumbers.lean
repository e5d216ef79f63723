/-
  Harness/DocNumbers.lean --- the figures of a line, and the numbers of an artifact.

  Source: harness/src/doc-numbers.ts, `figuresOnLine`, and harness/src/facts.ts,
  `numbersIn`.

  Both read digits with separators and decimals, but only `numbersIn` reads a minus
  sign, and only `figuresOnLine` takes out run names, commit ids and versions first.
  A figure with no sign before it and no such piece beside it is read by both.  A text
  is its list of characters.
-/
import SupabaseLab.Harness.Facts
import SupabaseLab.Library.Matches

set_option autoImplicit false

namespace SupabaseLab.Harness

open Library Regex

/-! ## The checker -/

def anyDigit : Regex := .char Char.isDigit

def letter (c : Char) : Regex := .char (· = c)

def anyHex : Regex := .char fun c => c.isDigit || ('a' ≤ c && c ≤ 'f')

/-- `\d[\d,]*(?:\.\d+)?` -/
def figurePattern : Regex :=
  seqs [anyDigit, .star (.char fun c => c.isDigit || c = ','), opt (seqs [letter '.', plus anyDigit])]

/-- `-?\d[\d,]*(?:\.\d+)?` -/
def numberPattern : Regex := signed '-' figurePattern

/-- Run names, commit ids and dotted versions. -/
def notFigures : List Regex :=
  [seqs [text "run-", times 4 anyDigit, letter '-', times 2 anyDigit, letter '-', times 2 anyDigit,
      letter 'T', plus (.char fun c => c.isDigit || c = '-'), letter 'Z'],
    seqs [.boundary, .ahead true (seqs [.star anyHex, .char fun c => 'a' ≤ c && c ≤ 'f']),
      .ahead true (seqs [.star anyHex, anyDigit]), between 7 40 anyHex, .boundary],
    seqs [.boundary, plus anyDigit, letter '.', plus anyDigit, letter '.', plus anyDigit, .boundary]]

/-- Years, counts of one or two digits, and HTTP status codes. -/
def notAFigure (n : String) : Bool :=
  match n.toList with
  | [a, b, c, d] => ((a = '1' && b = '9') || (a = '2' && b = '0')) && c.isDigit && d.isDigit
  | [a, b, c] => ('1' ≤ a && a ≤ '5') && b.isDigit && c.isDigit
  | [a, b] => a.isDigit && b.isDigit
  | [a] => a.isDigit
  | _ => false

/-- `m[0].replace(/,/g, "")`. -/
def reading (w : List Char) : String := String.ofList (w.filter (· ≠ ','))

def withoutNotFigures (line : String) : List Char :=
  notFigures.foldl (fun t re => replaceAll re (fun _ => [' ']) t) line.toList

def figuresOnLine (line : String) : List String :=
  (distinct ((matchAll figurePattern (withoutNotFigures line)).map reading)).filter fun n =>
    !notAFigure n

/-- The texts of a result that its numbers are taken from. -/
def factTexts (r : TestResult) : List String :=
  r.detail.getD "" :: (measurements r).entries.map (fun (_, v) => v.string) ++ [r.evidence.getD ""]

def numbersIn (js : Strings) (run : RunArtifact) (only : Option (List String)) : List String :=
  ((shownResults js run only).flatMap factTexts).flatMap fun s =>
    (matchAll numberPattern s.toList).map reading

/-! ## The patterns -/

/-- What a figure is written with. -/
def isNumeral (c : Char) : Bool := c.isDigit || c = ',' || c = '.'

theorem figurePattern_plain : figurePattern.Plain := by
  simp [figurePattern, seqs, opt, plus, anyDigit, letter, Plain]

theorem figurePattern_takes : figurePattern.Takes (isNumeral · = true) := by
  simp only [figurePattern, seqs, opt, plus, anyDigit, letter, Takes, isNumeral]
  refine ⟨fun c hc => ?_, fun c hc => ?_, ⟨fun c hc => ?_, fun c hc => ?_, fun c hc => ?_⟩, trivial⟩
  all_goals simp_all

theorem figurePattern_shorter (p q : Place) (h : q ∈ figurePattern.ends p) :
    q.after.length < p.after.length := by
  obtain ⟨m, hm, hq⟩ := mem_seq.mp h
  obtain ⟨c, -, hover⟩ := mem_char.mp hm
  obtain ⟨w, hover', -⟩ := exists_over (takes_any _) hq
  rw [hover.1, hover'.1, List.length_append, List.length_append, List.length_singleton]
  omega

/-! ## Figures at risk -/

/-- A line with what `figuresOnLine` takes out of it. -/
def gaps (line : String) : Gapped :=
  notFigures.foldl (fun m re => cutAll re m) (line.toList.map some)

/-- The matches in a run that a minus sign belongs to, and all those beside a piece that was
taken out. -/
def exposed (run : LetterRun) : List (List Char) :=
  if run.Whole then
    if run.Signed '-' figurePattern then (matchAll figurePattern run.letters).take 1 else []
  else matchAll figurePattern run.letters

def exposedFigures (line : String) : List String :=
  (((letterRuns isNumeral (gaps line)).flatMap exposed).map reading).filter fun n => !notAFigure n

/-- The numbers of a text that no minus sign belongs to. -/
def written (t : String) : List String :=
  ((letterRuns isNumeral (t.toList.map some)).flatMap (unsignedMatches '-' figurePattern)).map reading

section Figures

variable {line t : String} {n : String} {w : List Char}

theorem text_gaps (line : String) : Gapped.text (gaps line) = withoutNotFigures line := by
  have hfold : ∀ (l : List Regex) (m : Gapped), Gapped.text (l.foldl (fun m re => cutAll re m) m) =
      l.foldl (fun t re => replaceAll re (fun _ => [' ']) t) (Gapped.text m) := by
    intro l
    induction l with
    | nil => exact fun _ => rfl
    | cons re l ih =>
      intro m
      rw [List.foldl_cons, List.foldl_cons, ih, text_cutAll]
  rw [gaps, hfold, withoutNotFigures]
  refine congrArg (notFigures.foldl _) ?_
  rw [Gapped.text, List.map_map]
  exact List.map_id _

theorem leftOf_gaps (line : String) : LeftOf line.toList (gaps line) := by
  have hfold : ∀ (l : List Regex) (m : Gapped), LeftOf line.toList m →
      LeftOf line.toList (l.foldl (fun m re => cutAll re m) m) := by
    intro l
    induction l with
    | nil => exact fun _ h => h
    | cons re l ih => exact fun m h => ih _ h.cutAll
  exact hfold _ _ (leftOf_self _)

theorem mem_figuresOnLine : n ∈ figuresOnLine line ↔
    (∃ run ∈ letterRuns isNumeral (gaps line),
      ∃ w ∈ matchAll figurePattern run.letters, reading w = n) ∧
      notAFigure n = false := by
  have hruns := matchAll_letterRunsFrom figurePattern_plain figurePattern_takes rfl none [] (gaps line)
  rw [List.nil_append, text_gaps] at hruns
  rw [figuresOnLine, List.mem_filter, mem_distinct, hruns, Bool.not_eq_true']
  refine and_congr_left fun _ => ?_
  simp only [List.mem_map, List.mem_flatMap, letterRuns]
  constructor
  · rintro ⟨w, ⟨run, hrun, hw⟩, rfl⟩
    exact ⟨run, hrun, w, hw, rfl⟩
  · rintro ⟨run, hrun, w, hw, rfl⟩
    exact ⟨w, ⟨run, hrun, hw⟩, rfl⟩

theorem mem_figuresOnLine_of_exposed (h : n ∈ exposedFigures line) : n ∈ figuresOnLine line := by
  obtain ⟨hmem, hfigure⟩ := List.mem_filter.mp h
  obtain ⟨w, hw, rfl⟩ := List.mem_map.mp hmem
  obtain ⟨run, hrun, hw⟩ := List.mem_flatMap.mp hw
  refine mem_figuresOnLine.mpr ⟨⟨run, hrun, w, ?_, rfl⟩, by simpa using hfigure⟩
  unfold exposed at hw
  split at hw
  · split at hw
    · exact List.mem_of_mem_take hw
    · cases hw
  · exact hw

/-- A match is the first of its run, or one that no sign belongs to. -/
theorem mem_take_or_unsigned {run : LetterRun} (hw : w ∈ matchAll figurePattern run.letters) :
    (run.Signed '-' figurePattern ∧ w ∈ (matchAll figurePattern run.letters).take 1) ∨
      w ∈ unsignedMatches '-' figurePattern run := by
  unfold unsignedMatches
  split
  · rename_i hsigned
    rw [← List.take_append_drop 1 (matchAll figurePattern run.letters)] at hw
    rcases List.mem_append.mp hw with hw | hw
    · exact .inl ⟨hsigned, hw⟩
    · exact .inr (List.drop_one ▸ hw)
  · exact .inr hw

/-- **A figure is exposed, or it is written in the line as it is.** -/
theorem exposed_or_written (h : n ∈ figuresOnLine line) :
    n ∈ exposedFigures line ∨ n ∈ written line := by
  obtain ⟨⟨run, hrun, w, hw, rfl⟩, hfigure⟩ := mem_figuresOnLine.mp h
  have hexposed : w ∈ exposed run → reading w ∈ exposedFigures line := fun hw =>
    List.mem_filter.mpr
      ⟨List.mem_map_of_mem (List.mem_flatMap.mpr ⟨run, hrun, hw⟩), by simpa using hfigure⟩
  by_cases hwhole : run.Whole
  · rcases mem_take_or_unsigned hw with ⟨hsigned, hw⟩ | hw
    · refine .inl (hexposed ?_)
      rw [exposed, if_pos hwhole, if_pos hsigned]
      exact hw
    · have hrun := (leftOf_gaps line).mem_letterRuns hwhole hrun
      exact .inr (List.mem_map_of_mem (List.mem_flatMap.mpr ⟨run, hrun, hw⟩))
  · refine .inl (hexposed ?_)
    rw [exposed, if_neg hwhole]
    exact hw

/-- What is written without a sign is among the numbers, and nothing else without a sign is. -/
theorem mem_written_iff (hn : '-' ∉ n.toList) :
    n ∈ written t ↔ n ∈ (matchAll numberPattern t.toList).map reading := by
  rw [written, List.mem_map, List.mem_map]
  refine exists_congr fun w => and_congr_left fun hreading => ?_
  have hhead : w.head? ≠ some '-' := by
    intro hhead
    refine hn ?_
    rw [← hreading, reading, String.toList_ofList]
    exact List.mem_filter.mpr ⟨List.mem_of_mem_head? hhead, rfl⟩
  rw [List.mem_flatMap]
  exact (mem_matchAll_signed_iff figurePattern_plain figurePattern_takes rfl figurePattern_shorter
    hhead).symm

theorem minus_not_mem_of_figure (h : n ∈ figuresOnLine line) : '-' ∉ n.toList := by
  obtain ⟨⟨run, -, w, hw, rfl⟩, -⟩ := mem_figuresOnLine.mp h
  intro hminus
  rw [reading, String.toList_ofList] at hminus
  have hread := letters_of_mem_matchAll figurePattern_plain figurePattern_takes hw '-'
    (List.mem_of_mem_filter hminus)
  cases hread

/-! ## The lines of the fact sheet -/

/-- What can be read in a number with a sign. -/
def isSignedNumeral (c : Char) : Bool := isNumeral c || c = '-'

theorem numberPattern_plain : numberPattern.Plain := plain_signed figurePattern_plain

theorem numberPattern_takes : numberPattern.Takes (isSignedNumeral · = true) :=
  takes_signed figurePattern_takes

theorem toNat_of_isSignedNumeral {c : Char} (h : isSignedNumeral c = true) :
    44 ≤ c.toNat ∧ c.toNat ≤ 57 := by
  simp only [isSignedNumeral, isNumeral, Bool.or_eq_true, decide_eq_true_eq] at h
  rcases h with ((h | rfl) | rfl) | rfl
  · simp only [Char.isDigit, Bool.and_eq_true, decide_eq_true_eq] at h
    have hlow : 48 ≤ c.toNat := h.1
    have hhigh : c.toNat ≤ 57 := h.2
    omega
  · decide
  · decide
  · decide

theorem isSignedNumeral_of_isJsSpace {c : Char} (h : isJsSpace c = true) :
    isSignedNumeral c = false := by
  rw [Bool.eq_false_iff]
  intro hc
  have hrange := toNat_of_isSignedNumeral hc
  simp only [isJsSpace, Bool.or_eq_true, Bool.and_eq_true, decide_eq_true_eq, List.mem_cons,
    List.not_mem_nil, or_false] at h
  omega

theorem reworded_escapeBars (before t : List Char) :
    Reworded isSignedNumeral before t (escapeBars t) := by
  induction t generalizing before with
  | nil => exact .nil
  | cons c t ih =>
    by_cases hc : c = '|'
    · subst hc
      have hbar : Reworded isSignedNumeral before (['|'] ++ t) (['\\', '|'] ++ escapeBars t) :=
        .put (by simp [isSignedNumeral, isNumeral]) (ih _)
      exact hbar
    · rw [escapeBars_cons_of_ne hc]
      exact .keep trivial (ih _)

theorem reworded_joinLineEnds (before t : List Char) :
    Reworded isSignedNumeral before t (joinLineEnds t) := by
  fun_induction joinLineEnds t generalizing before with
  | case1 t ih =>
    have hends : Reworded isSignedNumeral before (['\r', '\n'] ++ t) ([' '] ++ joinLineEnds t) :=
      .put (by simp [isSignedNumeral, isNumeral]) (ih _)
    exact hends
  | case2 t ih =>
    have hend : Reworded isSignedNumeral before (['\n'] ++ t) ([' '] ++ joinLineEnds t) :=
      .put (by simp [isSignedNumeral, isNumeral]) (ih _)
    exact hend
  | case3 c t _ _ ih => exact .keep trivial (ih _)
  | case4 => exact .nil

/-- White space around a text holds no number. -/
theorem matchAll_trimsTo {t core : List Char} (h : TrimsTo t core) :
    matchAll numberPattern t = matchAll numberPattern core := by
  obtain ⟨⟨l, r, rfl, hl, hr⟩, -, -⟩ := h
  have hunread : ∀ x : List Char, (∀ c ∈ x, isJsSpace c = true) → ∀ c ∈ x, isSignedNumeral c = false :=
    fun x hx c hc => isSignedNumeral_of_isJsSpace (hx c hc)
  rw [List.append_assoc, matchAll_unread_append numberPattern_plain numberPattern_takes (hunread l hl)]
  cases r with
  | nil => rw [List.append_nil]
  | cons c r =>
    have hparts := matchAll_append_unread numberPattern_plain numberPattern_takes
      (List.cons_ne_nil c r) (hunread _ hr) core []
    rw [List.append_nil] at hparts
    rw [hparts]
    exact List.append_nil _

theorem matchAll_reworded_numbers {before t t' : List Char}
    (h : Reworded isSignedNumeral before t t') :
    matchAll numberPattern t = matchAll numberPattern t' :=
  matchAll_reworded numberPattern_plain numberPattern_takes h

/-- **A cell holds the numbers of its text.** -/
theorem matchAll_cell (v : String) :
    matchAll numberPattern (cell v).toList = matchAll numberPattern v.toList := by
  rw [toList_cell, matchAll_trimsTo (trimsTo_jsTrim v),
    ← matchAll_reworded_numbers (reworded_joinLineEnds [] _),
    ← matchAll_reworded_numbers (reworded_escapeBars [] _)]

theorem matchAll_detailLine (detail : String) :
    matchAll numberPattern (detailLine detail).toList = matchAll numberPattern detail.toList := by
  rw [detailLine, String.toList_append, matchAll_unread_append numberPattern_plain numberPattern_takes,
    matchAll_cell]
  simp [isSignedNumeral, isNumeral]

/-! ## The checker on the fact sheet -/

/-- What the fact sheet shows of a result: the value cells, and the detail line. -/
def quotable (opts : FactsOptions) (r : TestResult) : List String :=
  (measurements r).entries.map (fun (_, v) => cell v.string) ++
    (shownDetail opts r).toList.map detailLine

/-- The checker finds every figure of the fact sheet in the artifact. -/
def FiguresAccepted (js : Strings) (run : RunArtifact) (opts : FactsOptions) : Prop :=
  ∀ r ∈ shownResults js run opts.only, ∀ line ∈ quotable opts r, ∀ n ∈ figuresOnLine line,
    n ∈ numbersIn js run none

variable {js : Strings} {run : RunArtifact} {opts : FactsOptions} {r : TestResult}

theorem mem_numbersIn : n ∈ numbersIn js run none ↔
    ∃ r ∈ run.results, ∃ s ∈ factTexts r, n ∈ (matchAll numberPattern s.toList).map reading := by
  have hall : shownResults js run none = run.results := List.filter_eq_self.mpr fun _ _ => rfl
  rw [numbersIn, hall, List.mem_flatMap]
  constructor
  · rintro ⟨s, hs, hn⟩
    obtain ⟨r, hr, hs⟩ := List.mem_flatMap.mp hs
    exact ⟨r, hr, s, hs, hn⟩
  · rintro ⟨r, hr, s, hs, hn⟩
    exact ⟨s, List.mem_flatMap.mpr ⟨r, hr, hs⟩, hn⟩

/-- A shown line holds the numbers of a text of the artifact. -/
theorem exists_text_of_quotable (h : line ∈ quotable opts r) : ∃ s ∈ factTexts r,
    matchAll numberPattern line.toList = matchAll numberPattern s.toList := by
  rcases List.mem_append.mp h with h | h
  · obtain ⟨⟨key, v⟩, hentry, rfl⟩ := List.mem_map.mp h
    refine ⟨v.string, List.mem_append_left _ (List.mem_cons_of_mem _ ?_), matchAll_cell v.string⟩
    exact List.mem_map.mpr ⟨(key, v), hentry, rfl⟩
  · obtain ⟨detail, hdetail, rfl⟩ := List.mem_map.mp h
    refine ⟨r.detail.getD "", List.mem_append_left _ List.mem_cons_self, ?_⟩
    have hsaid : r.detail = some detail := by
      unfold shownDetail said at hdetail
      split at hdetail
      · cases hdetail
      · exact (Option.filter_eq_some_iff.mp (Option.mem_toList.mp hdetail)).1
    rw [hsaid]
    exact matchAll_detailLine detail

/-- **The checker accepts the fact sheet exactly when** each figure that stands behind a minus
sign, or beside a piece that the checker takes out, is also written without a sign in a detail, a
value or an evidence of the artifact. -/
theorem figuresAccepted_iff (js : Strings) (run : RunArtifact) (opts : FactsOptions) :
    FiguresAccepted js run opts ↔
      ∀ r ∈ shownResults js run opts.only, ∀ line ∈ quotable opts r, ∀ n ∈ exposedFigures line,
        ∃ r' ∈ run.results, ∃ s ∈ factTexts r', n ∈ written s := by
  refine forall₂_congr fun r hr => forall₂_congr fun line hline => ?_
  constructor
  · intro h n hn
    have hfigure := mem_figuresOnLine_of_exposed hn
    obtain ⟨r', hr', s, hs, hmem⟩ := mem_numbersIn.mp (h n hfigure)
    exact ⟨r', hr', s, hs, (mem_written_iff (minus_not_mem_of_figure hfigure)).mpr hmem⟩
  · intro h n hn
    have hminus := minus_not_mem_of_figure hn
    rcases exposed_or_written hn with hexposed | hwritten
    · obtain ⟨r', hr', s, hs, hmem⟩ := h n hexposed
      exact mem_numbersIn.mpr ⟨r', hr', s, hs, (mem_written_iff hminus).mp hmem⟩
    · obtain ⟨s, hs, hsame⟩ := exists_text_of_quotable hline
      have hmem := (mem_written_iff hminus).mp hwritten
      rw [hsame] at hmem
      exact mem_numbersIn.mpr ⟨r, List.mem_of_mem_filter hr, s, hs, hmem⟩

end Figures

/-- A clock that runs behind. -/
def driftResult : TestResult where
  id := "T02"
  title := "clock drift"
  status := .info
  measurements := some (.set .empty "drift_ms" (.number (-1234)))

def driftRun : RunArtifact where
  startedAt := "2026-10-26T00:24:19.000Z"
  finishedAt := "2026-10-26T00:25:19.000Z"
  vantage := .runner
  region := "eu-central-1"
  ref := "abcdefghijklmnopqrst"
  toolVersions := .empty
  results := [driftResult]

/-- **A negative measurement is not found**: the line says 1234, and the artifact holds -1234. -/
theorem drift_not_accepted : ¬ ∃ js, FiguresAccepted js driftRun {} := by
  rintro ⟨js, h⟩
  have hline : cell "-1234" ∈ quotable {} driftResult := by decide +kernel
  have hfigure : "1234" ∈ figuresOnLine (cell "-1234") := by decide
  obtain ⟨r, hr, s, hs, hmem⟩ :=
    mem_numbersIn.mp (h driftResult List.mem_cons_self _ hline _ hfigure)
  have hnone : ∀ s ∈ factTexts driftResult,
      "1234" ∉ (matchAll numberPattern s.toList).map reading := by
    decide +kernel
  rw [List.mem_singleton.mp hr] at hs
  exact hnone s hs hmem

end SupabaseLab.Harness
