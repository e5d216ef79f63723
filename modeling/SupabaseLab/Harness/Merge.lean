/-
  Harness/Merge.lean --- runs of several vantages in one artifact.

  Source: `mergeMode` of harness/src/run.ts, over artifacts that the plan and the
  run loop made.  Results are put one after another; the only rows that go are
  skips whose detail names a vantage, when some run has a result of the same id
  that is no skip.  So an id is measured as often as it was run, and a module
  that reports under other ids does not clear its own skip row.
-/
import SupabaseLab.Harness.Plan

set_option autoImplicit false

namespace SupabaseLab.Harness

open Library

/-! ## Merging -/

/-- `/runs on "/.test(r.detail ?? "")`, of a skip. -/
def TestResult.vantageSkip (r : TestResult) : Bool :=
  r.status == .skip && decide ("runs on \"".toList <:+: (r.detail.getD "").toList)

/-- Some result of that id is no skip. -/
def ranIn (all : List TestResult) (id : String) : Bool :=
  all.any fun o => o.id == id && o.status != .skip

def mergeResults (parts : List RunArtifact) : List TestResult :=
  let all := parts.flatMap (·.results)
  all.filter fun r => !(r.vantageSkip && ranIn all r.id)

/-- The first value that is not empty. -/
def firstText (l : List (Option String)) : Option String :=
  (l.find? fun s => s.getD "" ≠ "").join

/-- `mergeMode`, of `first :: rest`. -/
def mergeMode (first : RunArtifact) (rest : List RunArtifact) : RunArtifact where
  startedAt := (sortStrings ((first :: rest).map (·.startedAt))).head?.getD ""
  finishedAt := (sortStrings ((first :: rest).map (·.finishedAt))).getLast?.getD ""
  vantage := first.vantage
  region := first.region
  projectRegion := firstText ((first :: rest).map (·.projectRegion))
  ref := (firstText ((first :: rest).map fun p => some p.ref)).getD ""
  experiment := first.experiment
  labCommit := first.labCommit
  toolVersions := (first :: rest).foldl
    (fun m p => p.toolVersions.entries.foldl (fun m e => m.set e.1 e.2) m) .empty
  results := mergeResults (first :: rest)

/-! ## Runs -/

/-- One run: its plan, and what the run loop recorded for each module it ran. -/
structure VantageRun where
  modules : List TestModule
  opts : PlanOptions
  recorded : TestModule → List TestResult
  /-- Everything of the artifact but its results. -/
  provenance : RunArtifact

def VantageRun.plan (js : Strings) (run : VantageRun) : Plan := planRun js run.modules run.opts

def VantageRun.artifact (js : Strings) (run : VantageRun) : RunArtifact :=
  { run.provenance with
    vantage := run.opts.vantage
    results := (run.plan js).skipped ++ (run.plan js).run.flatMap run.recorded }

/-- Runs merged one into the next. -/
def mergeRuns (js : Strings) (first : VantageRun) (rest : List VantageRun) : RunArtifact :=
  rest.foldl (fun merged run => mergeMode merged [run.artifact js])
    (mergeMode (first.artifact js) [])

/-! ## What merging keeps -/

section Keeps

variable {all more : List TestResult} {r : TestResult} {id : String}

theorem ranIn_iff : ranIn all id = true ↔ ∃ o ∈ all, o.id = id ∧ o.status ≠ .skip := by
  rw [ranIn, List.any_eq_true]
  simp only [Bool.and_eq_true, beq_iff_eq, bne_iff_ne]

/-- The results merging keeps of a list of results. -/
def kept (all : List TestResult) : List TestResult :=
  all.filter fun r => !(r.vantageSkip && ranIn all r.id)

theorem status_of_vantageSkip (h : r.vantageSkip = true) : r.status = .skip := by
  rw [TestResult.vantageSkip, Bool.and_eq_true, beq_iff_eq] at h
  exact h.1

/-- No result that counts as a run is dropped. -/
theorem ranIn_kept (id : String) : ranIn (kept all) id = ranIn all id := by
  rw [Bool.eq_iff_iff, ranIn_iff, ranIn_iff]
  constructor
  · rintro ⟨o, ho, hid, hskip⟩
    exact ⟨o, (List.mem_filter.mp ho).1, hid, hskip⟩
  · rintro ⟨o, ho, hid, hskip⟩
    refine ⟨o, List.mem_filter.mpr ⟨ho, ?_⟩, hid, hskip⟩
    have hnot : o.vantageSkip = false := by
      rw [Bool.eq_false_iff]
      exact fun h => hskip (status_of_vantageSkip h)
    rw [hnot]
    rfl

theorem ranIn_append : ranIn (all ++ more) id = (ranIn all id || ranIn more id) := by
  rw [ranIn, List.any_append]
  rfl

/-- Merging in steps is merging at once. -/
theorem kept_append_kept : kept (kept all ++ more) = kept (all ++ more) := by
  have hran : ∀ id, ranIn (kept all ++ more) id = ranIn (all ++ more) id := by
    intro id
    rw [ranIn_append, ranIn_append, ranIn_kept]
  unfold kept
  rw [List.filter_append, List.filter_append, List.filter_filter]
  congr 1
  · refine List.filter_congr fun r _ => ?_
    rw [← kept, hran, ranIn_append]
    cases r.vantageSkip
    · rfl
    · cases ranIn all r.id
      · simp
      · rfl
  · refine List.filter_congr fun r _ => ?_
    rw [← kept, hran]

end Keeps

section Runs

variable {js : Strings} {first : VantageRun} {rest : List VantageRun}

/-- All results of the runs, oldest run first. -/
def allResults (js : Strings) (runs : List VantageRun) : List TestResult :=
  runs.flatMap fun run => (run.artifact js).results

theorem mergeRuns_results (js : Strings) (first : VantageRun) (rest : List VantageRun) :
    (mergeRuns js first rest).results = kept (allResults js (first :: rest)) := by
  have hfold : ∀ (rest : List VantageRun) (merged : RunArtifact) (all : List TestResult),
      merged.results = kept all →
      (rest.foldl (fun merged run => mergeMode merged [run.artifact js]) merged).results =
        kept (all ++ allResults js rest) := by
    intro rest
    induction rest with
    | nil =>
      intro merged all hmerged
      rw [allResults, List.flatMap_nil, List.append_nil]
      exact hmerged
    | cons run rest ih =>
      intro merged all hmerged
      rw [List.foldl_cons]
      have hstep : (mergeMode merged [run.artifact js]).results =
          kept (all ++ (run.artifact js).results) := by
        show kept ([merged, run.artifact js].flatMap (·.results)) = _
        rw [List.flatMap_cons, List.flatMap_singleton, hmerged]
        exact kept_append_kept
      rw [ih _ _ hstep, allResults, allResults, List.flatMap_cons, List.append_assoc]
  have hfirst : (mergeMode (first.artifact js) []).results = kept (first.artifact js).results := by
    show kept ([first.artifact js].flatMap (·.results)) = _
    rw [List.flatMap_singleton]
  rw [mergeRuns, hfold rest _ _ hfirst, allResults, allResults, List.flatMap_cons]

/-- A vantage skip that the plan wrote is a row merging takes for one. -/
theorem vantageSkip_of_planned {m : TestModule} {opts : PlanOptions} (h : m.vantage ≠ opts.vantage) :
    skipDetail? m opts = some (vantageDetail m opts) ∧
      (skipRow m (vantageDetail m opts)).vantageSkip = true := by
  refine ⟨if_pos h, ?_⟩
  rw [TestResult.vantageSkip, Bool.and_eq_true]
  refine ⟨rfl, decide_eq_true ?_⟩
  refine ⟨[], (m.vantage.text ++ "\", this process is \"" ++ opts.vantage.text ++ "\"").toList, ?_⟩
  simp only [skipRow, vantageDetail, Option.getD_some, String.toList_append, List.append_assoc,
    List.nil_append]

end Runs

/-! ## Merging runs -/

/-- Merging should lose nothing: a result stays unless it is a vantage skip or a
later run measured its id again, an id occurs once, and the vantage skip of a
module stays only if no run ran it. -/
structure LosesNothing (js : Strings) (first : VantageRun) (rest : List VantageRun) : Prop where
  stays : ∀ before run after, first :: rest = before ++ run :: after →
    ∀ r ∈ (run.artifact js).results,
      (∀ m ∈ run.modules, m.vantage ≠ run.opts.vantage → r ≠ skipRow m (vantageDetail m run.opts)) →
      (∀ later ∈ after, ∀ o ∈ (later.artifact js).results, o.id ≠ r.id) →
      r ∈ (mergeRuns js first rest).results
  once : ((mergeRuns js first rest).results.map (·.id)).Nodup
  skips : ∀ run ∈ first :: rest, ∀ m ∈ run.modules, m.vantage ≠ run.opts.vantage →
    skipRow m (vantageDetail m run.opts) ∈ (mergeRuns js first rest).results →
    ∀ other ∈ first :: rest, ∀ m' ∈ (other.plan js).run, m'.id ≠ m.id

/-- A code-unit order is enough to tell ids apart. -/
def plainStrings : Strings where
  localeCompare s t := compare (codeUnits s) (codeUnits t)
  toLowerCase s := s

/-- Two modules of different vantages; `T26` reports two paths under ids of its own. -/
def pathModules : List TestModule :=
  [{ id := "T1", title := "host", vantage := .runner },
    { id := "T26", title := "restart", vantage := .«local» }]

def pathRun (vantage : Where) : VantageRun where
  modules := pathModules
  opts := { vantage := vantage, capabilities := [] }
  recorded m :=
    if m.id = "T26" then
      [{ id := "T26a", title := "direct", status := .pass },
        { id := "T26b", title := "pooler", status := .pass }]
    else [{ id := m.id, title := m.title, status := .pass }]
  provenance :=
    { startedAt := "2026-10-26T00:00:00.000Z", finishedAt := "2026-10-26T00:10:00.000Z",
      vantage := vantage, region := "ap-southeast-1", ref := "", toolVersions := .empty,
      results := [] }

/-- The skip row of `T26` stays although the second run ran it, and a module that
runs twice is there twice. -/
theorem mergeRuns_loses :
    ¬ LosesNothing plainStrings (pathRun .runner) [pathRun .«local»] ∧
      ¬ LosesNothing plainStrings (pathRun .runner) [pathRun .runner] := by
  refine ⟨fun h => ?_, fun h => ?_⟩
  · have hrow : skipRow { id := "T26", title := "restart", vantage := .«local» }
        (vantageDetail { id := "T26", title := "restart", vantage := .«local» }
          { vantage := .runner, capabilities := [] }) ∈
        (mergeRuns plainStrings (pathRun .runner) [pathRun .«local»]).results := by
      rw [mergeRuns_results]
      refine List.mem_filter.mpr ⟨?_, ?_⟩
      · refine List.mem_append_left _ (List.mem_append_left _ (mem_skipped.mpr ?_))
        exact ⟨_, List.mem_cons_of_mem _ List.mem_cons_self, rfl, _, rfl, rfl⟩
      · with_unfolding_all decide
    have hran : ({ id := "T26", title := "restart", vantage := .«local» } : TestModule) ∈
        ((pathRun .«local»).plan plainStrings).run :=
      mem_run.mpr ⟨List.mem_cons_of_mem _ List.mem_cons_self, rfl, rfl⟩
    exact h.skips _ List.mem_cons_self _ (List.mem_cons_of_mem _ List.mem_cons_self)
      (by decide) hrow _ (List.mem_cons_of_mem _ List.mem_cons_self) _ hran rfl
  · have hids : (mergeRuns plainStrings (pathRun .runner) [pathRun .runner]).results.map (·.id) =
        ["T26", "T1", "T26", "T1"] := by with_unfolding_all decide
    have honce := h.once
    rw [hids] at honce
    exact absurd honce (by decide)

/-- Over every sequence of runs merged one into the next: the results that are no
skip naming a vantage are all still there, as often as they were recorded and in
that order; nothing is added; and the vantage skip of a module stays only if no
run has a result of the module's id that is no skip. -/
theorem mergeRuns_keeps (js : Strings) (first : VantageRun) (rest : List VantageRun) :
    (mergeRuns js first rest).results.filter (fun r => !r.vantageSkip) =
        (allResults js (first :: rest)).filter (fun r => !r.vantageSkip) ∧
      (mergeRuns js first rest).results.Sublist (allResults js (first :: rest)) ∧
      ∀ run ∈ first :: rest, ∀ m ∈ run.modules, m.vantage ≠ run.opts.vantage →
        skipRow m (vantageDetail m run.opts) ∈ (mergeRuns js first rest).results →
        ∀ other ∈ first :: rest, ∀ r ∈ (other.artifact js).results, r.id = m.id →
          r.status = .skip := by
  rw [mergeRuns_results]
  refine ⟨?_, List.filter_sublist, fun run hrun m _ hvantage hrow other hother r hr hid => ?_⟩
  · rw [kept, List.filter_filter]
    refine List.filter_congr fun r _ => ?_
    cases r.vantageSkip
    · rfl
    · rfl
  · by_contra hskip
    have hran : ranIn (allResults js (first :: rest)) m.id = true :=
      ranIn_iff.mpr ⟨r, List.mem_flatMap.mpr ⟨other, hother, hr⟩, hid, hskip⟩
    have hkept := (List.mem_filter.mp hrow).2
    rw [(vantageSkip_of_planned hvantage).2, show (skipRow m _).id = m.id from rfl, hran] at hkept
    cases hkept

end SupabaseLab.Harness
