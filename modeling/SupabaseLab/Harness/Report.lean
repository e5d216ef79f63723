/-
  Harness/Report.lean --- the report of an artifact.

  Source: harness/src/report.ts.  Two tables: every result with its detail, and the
  measurements with one column for each key that any result has.  Titles, details and
  values are escaped; ids and keys are written as they are.  A column that a result
  has no value for is read all the same, and what the object inherits is found there:
  the text of such a property is the runtime's.
-/
import SupabaseLab.Harness.Facts

set_option autoImplicit false

namespace SupabaseLab.Harness

open Library

def statusOrder : List Status := [.fail, .pass, .info, .skip]

/-- The keys of all results, each where it comes first. -/
def measurementKeys (results : List TestResult) : List String :=
  distinct (results.flatMap fun r => (measurements r).keys)

def escapePipes (v : String) : String := String.ofList (escapeBars v.toList)

def resultRow (r : TestResult) : String :=
  "| " ++ r.id ++ " " ++ escapePipes r.title ++ " | " ++ r.status.text ++ " | " ++
    escapePipes (r.detail.getD "") ++ " |"

def resultsTable (a : RunArtifact) : MarkdownTable where
  header := "| Test | Status | Detail |"
  delimiter := "|---|---|---|"
  rows := statusOrder.flatMap fun s => (a.results.filter fun r => r.status = s).map resultRow

def measured (a : RunArtifact) : List TestResult :=
  a.results.filter fun r => (measurements r).keys ≠ []

/-- `String(r.measurements?.[k] ?? "")`. -/
def columnText (inherited : String → String) (r : TestResult) (k : String) : String :=
  match lookIn (measurements r) k with
  | .value .null => ""
  | .value v => v.string
  | .inherited name => inherited name

def measurementsHeader (keys : List String) : String :=
  "| Test | " ++ " | ".intercalate keys ++ " |"

def measurementsRow (inherited : String → String) (keys : List String) (r : TestResult) : String :=
  "| " ++ r.id ++ " | " ++
    " | ".intercalate (keys.map fun k => escapePipes (columnText inherited r k)) ++ " |"

def measurementsTable (inherited : String → String) (a : RunArtifact) : MarkdownTable :=
  let keys := measurementKeys (measured a)
  { header := measurementsHeader keys
    delimiter := "|---|" ++ "|".intercalate (keys.map fun _ => "---") ++ "|"
    rows := (measured a).map (measurementsRow inherited keys) }

/-- How many results have each status, those that none has left out. -/
def statusCounts (a : RunArtifact) : String :=
  let counts := (statusOrder.map fun s => (s, a.results.countP fun r => r.status = s)).filter
    fun (_, n) => 0 < n
  " | ".intercalate (counts.map fun (s, n) => "**" ++ toString n ++ " " ++ s.text ++ "**")

def evidenceSection (r : TestResult) (evidence : String) : List String :=
  ["### " ++ r.id ++ " " ++ r.title, "", "```", jsTrim evidence, "```", ""]

def reportHead (a : RunArtifact) : List String :=
  ["# " ++ (match said a.experiment with
      | some experiment => experiment ++ " run"
      | none => "supabase-lab run") ++ " - " ++ a.startedAt,
    "",
    "Project `" ++ a.ref ++ "` | " ++ regionLabel a ++ " | vantage " ++ a.vantage.text ++
      (match said a.labCommit with
        | some commit => " | lab `" ++ commit ++ "`"
        | none => ""),
    "", statusCounts a, "", "## Results", ""]

def reportMeasurements (inherited : String → String) (a : RunArtifact) : List String :=
  if measured a ≠ [] then ["## Measurements", ""] ++ (measurementsTable inherited a).lines ++ [""]
  else []

def reportEvidence (a : RunArtifact) : List String :=
  let withEvidence := a.results.filterMap fun r => (said r.evidence).map fun evidence => (r, evidence)
  if withEvidence ≠ [] then
    ["## Evidence", ""] ++ withEvidence.flatMap fun (r, evidence) => evidenceSection r evidence
  else []

def reportProvenance (a : RunArtifact) : List String :=
  ["## Provenance", "", "- started: " ++ a.startedAt ++ ", finished: " ++ a.finishedAt] ++
    a.toolVersions.entries.map (fun (k, v) => "- " ++ k ++ ": " ++ v) ++ [""]

def renderMarkdown (inherited : String → String) (a : RunArtifact) : String :=
  "\n".intercalate (reportHead a ++ (resultsTable a).lines ++ [""] ++ reportMeasurements inherited a ++
    reportEvidence a ++ reportProvenance a)

/-! ## The shape of the tables -/

section Shape

variable {e : Escaping} {a : RunArtifact} {r : TestResult} {inherited : String → String}
  {keys : List String}

/-- A text that `escapePipes` makes a cell of. -/
structure TextFits (e : Escaping) (v : String) : Prop where
  oneLine : OneLine v.toList
  shut : reopened e false v.toList = 0

structure ResultFits (e : Escaping) (r : TestResult) : Prop where
  id : OneLine r.id.toList ∧ openPipes e false r.id.toList = 0
  title : TextFits e r.title
  detail : TextFits e (r.detail.getD "")

/-- The pipes that open in the row are as many as those in the header. -/
structure MeasuredFits (e : Escaping) (inherited : String → String) (keys : List String)
    (r : TestResult) : Prop where
  header : ∀ k ∈ keys, OneLine k.toList
  id : OneLine r.id.toList
  values : ∀ k ∈ keys, OneLine (columnText inherited r k).toList
  pipes : openPipes e false r.id.toList +
      (keys.map fun k => reopened e false (columnText inherited r k).toList).sum =
    (keys.map fun k => openPipes e false k.toList).sum

theorem toList_escapePipes (v : String) : (escapePipes v).toList = escapeBars v.toList :=
  String.toList_ofList

theorem keepsShape_resultRow :
    KeepsShape e "| Test | Status | Detail |".toList (resultRow r).toList ↔ ResultFits e r := by
  have hheader : "| Test | Status | Detail |".toList =
      tableLine ["Test".toList, "Status".toList, "Detail".toList] := by decide
  have hrow : (resultRow r).toList =
      tableLine [r.id.toList ++ ' ' :: escapeBars r.title.toList, r.status.text.toList,
        escapeBars (r.detail.getD "").toList] := by
    simp [resultRow, tableLine, List.intercalate_cons_cons, toList_escapePipes]
  have hnames : ∀ h ∈ ["Test".toList, "Status".toList, "Detail".toList],
      OneLine h ∧ openPipes e false h = 0 := by
    cases e <;> decide
  have hstatus : OneLine r.status.text.toList ∧ openPipes e false r.status.text.toList = 0 := by
    cases r.status <;> cases e <;> decide
  have hspace : ∀ t : List Char, OneLine (' ' :: t) ↔ OneLine t := by
    intro t
    simp [OneLine]
  rw [hheader, hrow]
  refine (keepsShape_plain ?_ ?_ hnames).trans ?_
  · exact List.cons_ne_nil _ _
  · simp only [List.length_cons, List.length_nil]
  · simp only [List.forall_mem_cons, oneLine_append, hspace, oneLine_escapeBars,
      openPipes_append_space, openPipes_escapeBars]
    constructor
    · rintro ⟨⟨⟨hid, htitle⟩, hopen⟩, -, ⟨hdetail, hdetailOpen⟩, -⟩
      exact ⟨⟨hid, by omega⟩, ⟨htitle, by omega⟩, ⟨hdetail, hdetailOpen⟩⟩
    · rintro ⟨⟨hid, hidOpen⟩, ⟨htitle, htitleOpen⟩, ⟨hdetail, hdetailOpen⟩⟩
      exact ⟨⟨⟨hid, htitle⟩, by omega⟩, hstatus, ⟨hdetail, hdetailOpen⟩, List.forall_mem_nil _⟩

theorem keepsShape_measurementsRow (hkeys : keys ≠ []) :
    KeepsShape e (measurementsHeader keys).toList (measurementsRow inherited keys r).toList ↔
      MeasuredFits e inherited keys r := by
  obtain ⟨k, ks, rfl⟩ := List.exists_cons_of_ne_nil hkeys
  have hheader : (measurementsHeader (k :: ks)).toList =
      tableLine ("Test".toList :: (k :: ks).map String.toList) := by
    simp [measurementsHeader, tableLine, List.intercalate_cons_cons, String.toList_intercalate]
  have hrow : (measurementsRow inherited (k :: ks) r).toList =
      tableLine (r.id.toList ::
        (k :: ks).map fun k => escapeBars (columnText inherited r k).toList) := by
    simp [measurementsRow, tableLine, List.intercalate_cons_cons, String.toList_intercalate,
      toList_escapePipes, Function.comp_def]
  have hname : OneLine "Test".toList ∧ openPipes e false "Test".toList = 0 := by
    cases e <;> decide
  rw [hheader, hrow, keepsShape_tableLine (List.cons_ne_nil _ _) (by simp)]
  generalize k :: ks = keys
  rw [List.forall_mem_cons, List.forall_mem_cons, List.forall_mem_map, List.forall_mem_map,
    List.map_cons, List.map_cons, List.sum_cons, List.sum_cons, hname.2, Nat.zero_add,
    List.map_map, List.map_map]
  simp only [oneLine_escapeBars, Function.comp_def, openPipes_escapeBars]
  constructor
  · rintro ⟨⟨_, hheader⟩, ⟨hid, hvalues⟩, hpipes⟩
    exact ⟨hheader, hid, hvalues, hpipes⟩
  · rintro ⟨hheader, hid, hvalues, hpipes⟩
    exact ⟨⟨hname.1, hheader⟩, ⟨hid, hvalues⟩, hpipes⟩

theorem mem_resultsTable {row : String} :
    row ∈ (resultsTable a).rows ↔ ∃ r ∈ a.results, resultRow r = row := by
  unfold resultsTable
  rw [List.mem_flatMap]
  constructor
  · rintro ⟨s, -, h⟩
    obtain ⟨r, hr, rfl⟩ := List.mem_map.mp h
    exact ⟨r, List.mem_of_mem_filter hr, rfl⟩
  · rintro ⟨r, hr, rfl⟩
    refine ⟨r.status, by cases r.status <;> decide, ?_⟩
    exact List.mem_map_of_mem (List.mem_filter.mpr ⟨hr, decide_eq_true rfl⟩)

theorem measurementKeys_ne_nil (hr : r ∈ measured a) : measurementKeys (measured a) ≠ [] := by
  have hkeys := of_decide_eq_true (List.mem_filter.mp hr).2
  obtain ⟨k, hk⟩ := List.exists_mem_of_ne_nil _ hkeys
  have hmem : k ∈ measurementKeys (measured a) :=
    mem_distinct.mpr (List.mem_flatMap.mpr ⟨r, hr, hk⟩)
  exact List.ne_nil_of_mem hmem

/-- Every row of the report and of the fact sheet has the cells of its header. -/
structure TablesKeepShape (js : Strings) (inherited : String → String) (e : Escaping)
    (a : RunArtifact) (opts : FactsOptions) : Prop where
  results : ∀ row ∈ (resultsTable a).rows, KeepsShape e (resultsTable a).header.toList row.toList
  measurements : ∀ row ∈ (measurementsTable inherited a).rows,
    KeepsShape e (measurementsTable inherited a).header.toList row.toList
  facts : ∀ r ∈ shownResults js a opts.only, ∀ row ∈ (factsTable r).rows,
    KeepsShape e (factsTable r).header.toList row.toList

/-- **The tables keep their shape exactly when** the results and the measurements of the artifact
fit into cells. -/
theorem tablesKeepShape_iff (js : Strings) (inherited : String → String) (e : Escaping)
    (a : RunArtifact) (opts : FactsOptions) :
    TablesKeepShape js inherited e a opts ↔
      (∀ r ∈ a.results, ResultFits e r) ∧
        (∀ r ∈ measured a, MeasuredFits e inherited (measurementKeys (measured a)) r) ∧
        ∀ r ∈ shownResults js a opts.only, ∀ k v, (measurements r).get? k = some v →
          CellFits e k ∧ CellFits e v.string := by
  have hparts : TablesKeepShape js inherited e a opts ↔ _ ∧ _ ∧ _ :=
    ⟨fun h => ⟨h.results, h.measurements, h.facts⟩, fun h => ⟨h.1, h.2.1, h.2.2⟩⟩
  rw [hparts]
  refine and_congr ?_ (and_congr ?_ (forall₂_congr fun r _ => ?_))
  · constructor
    · intro h r hr
      exact keepsShape_resultRow.mp (h _ (mem_resultsTable.mpr ⟨r, hr, rfl⟩))
    · intro h row hrow
      obtain ⟨r, hr, rfl⟩ := mem_resultsTable.mp hrow
      exact keepsShape_resultRow.mpr (h r hr)
  · show (∀ row ∈ (measured a).map _, _) ↔ _
    rw [List.forall_mem_map]
    exact forall₂_congr fun r hr => keepsShape_measurementsRow (measurementKeys_ne_nil hr)
  · show (∀ row ∈ (measurements r).entries.map _, _) ↔ _
    rw [List.forall_mem_map]
    constructor
    · intro h k v hv
      exact keepsShape_factsRow.mp (h (k, v) (KeyMap.mem_entries.mpr hv))
    · rintro h ⟨k, v⟩ hentry
      exact keepsShape_factsRow.mpr (h k v (KeyMap.mem_entries.mp hentry))

end Shape

/-- A detail of two lines, as a server writes an error. -/
def tornRun : RunArtifact where
  startedAt := "2026-10-26T00:24:19.000Z"
  finishedAt := "2026-10-26T00:25:19.000Z"
  vantage := .runner
  region := "eu-central-1"
  ref := "abcdefghijklmnopqrst"
  toolVersions := .empty
  results := [{ id := "T01", title := "connects", status := .fail,
                detail := some "ERROR: no route\nHINT: retry" }]

/-- **A row is torn** by a line end in the detail; a cell of the fact sheet by a carriage return
alone, or by a pipe with a backslash before it. -/
theorem rows_torn :
    (∀ js inherited e opts, ¬ TablesKeepShape js inherited e tornRun opts) ∧
      (∀ e, ¬ KeepsShape e "| key | value |".toList
        ("| " ++ cell "progress" ++ " | " ++ cell "50%\r100%" ++ " |").toList) ∧
      ¬ KeepsShape .pairs "| key | value |".toList
        ("| " ++ cell "pattern" ++ " | " ++ cell "a\\|b" ++ " |").toList := by
  refine ⟨fun js inherited e opts h => ?_, fun e h => ?_, fun h => ?_⟩
  · exact absurd (h.results _ List.mem_cons_self).rowLine (by decide)
  · exact absurd h.rowLine (by decide)
  · exact absurd h.length (by decide)

end SupabaseLab.Harness
