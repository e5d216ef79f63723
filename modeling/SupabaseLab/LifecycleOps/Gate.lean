/-
  LifecycleOps/Gate.lean --- the change gate.

  Source: experiments/lifecycle-ops/lib/gate.ts (`rank` to `replayInterval`), and
  `advisesRestart` and `gateView` of runbook.ts.

  A status is any string the page sends, and `SEVERITY[status]` is a lookup in an
  object: for the names that every object inherits it answers what
  `Object.prototype` has there, which is no number.
-/
import SupabaseLab.Library.JsString
import SupabaseLab.Library.Json
import SupabaseLab.Library.Regex
import SupabaseLab.LifecycleOps.Runbook

set_option autoImplicit false

namespace SupabaseLab.LifecycleOps.Gate

open Library

/-! ## Documents -/

inductive Op where
  | create
  | restart
  | resize
  | upgrade
  deriving DecidableEq, Repr

structure StatusComponent where
  id : String
  name : String
  status : String
  deriving DecidableEq, Repr

structure IncidentUpdate where
  body : String
  status : String
  createdAt : String
  deriving DecidableEq, Repr

structure StatusIncident where
  id : String
  name : String
  status : String
  impact : String
  createdAt : String
  resolvedAt : Option String
  incidentUpdates : List IncidentUpdate := []
  deriving DecidableEq, Repr

def REGIONS : List String :=
  ["ap-east-1", "ap-northeast-1", "ap-northeast-2", "ap-south-1", "ap-southeast-1",
    "ap-southeast-2", "ca-central-1", "eu-central-1", "eu-central-2", "eu-north-1",
    "eu-west-1", "eu-west-2", "eu-west-3", "sa-east-1", "us-east-1", "us-east-2",
    "us-west-1", "us-west-2"]

/-- `ALIASES`: prose spellings that stand in incident texts for a region's code. -/
def ALIASES : List (String × List Regex) :=
  let initial (letter place : String) :=
    Regex.whole (.seqs [.textI letter, .opt (.text "."), .opt (.text " "), .textI place])
  [("eu-west-1", [.whole (.textI "ireland")]),
    ("us-east-1", [initial "n" "virginia", .whole (.textI "eastern us")]),
    ("us-west-1", [initial "n" "california"]),
    ("ap-southeast-1", [.whole (.textI "singapore")]),
    ("eu-central-1", [.whole (.textI "frankfurt")])]

/-! ## Components -/

def SEVERITY : List (String × Nat) :=
  [("operational", 0), ("under_maintenance", 1), ("degraded_performance", 2),
    ("partial_outage", 3), ("major_outage", 4)]

/-- What `rank` returns: a number, or what the object inherits under the name. -/
inductive Rank where
  | number (n : Nat)
  | inherited
  deriving DecidableEq, Repr

/-- `SEVERITY[status] ?? 5`. -/
def rank (status : String) : Rank :=
  match SEVERITY.lookup status with
  | some n => .number n
  | none => if status ∈ objectPrototype then .inherited else .number 5

/-- `a > b`; what is inherited compares as `NaN`. -/
def Rank.gt : Rank → Rank → Bool
  | .number a, .number b => b < a
  | _, _ => false

structure RegionStatus where
  status : String
  matched : Nat
  statuses : List String
  deriving DecidableEq, Repr

/-- The loop of `regionStatus`. -/
def worstOf (same : List StatusComponent) : String :=
  same.foldl (fun worst c => if (rank c.status).gt (rank worst) then c.status else worst)
    "operational"

def regionStatus (components : List StatusComponent) (region : String) : RegionStatus :=
  let same := components.filter fun c => c.name = region
  if same.length = 0 then { status := "missing", matched := 0, statuses := [] }
  else
    { status := worstOf same
      matched := same.length
      statuses := distinct (same.map (·.status)) }

/-! ## Incidents -/

/-- `Scope`. -/
inductive Scope where
  | regions
  | bodyRegions
  | allRegions
  | unscoped
  deriving DecidableEq, Repr

/-- `\b(all|multiple|several|many) regions\b|\bglobal(ly)?\b`. -/
def ALL_REGIONS_RE : Regex :=
  .alt
    (.whole (.seqs [.alts [.textI "all", .textI "multiple", .textI "several", .textI "many"],
      .textI " regions"]))
    (.whole (.seqs [.textI "global", .opt (.textI "ly")]))

def incidentText (inc : StatusIncident) : String :=
  "\n".intercalate (inc.name :: inc.incidentUpdates.map (·.body))

/-- `spaced`: the region's code, a space allowed for each hyphen. -/
def spaced (r : String) : Regex :=
  .whole (.seqs (r.toList.map fun c =>
    if c = '-' then .oneOf "- " else .textI (String.ofList [c])))

def regionsIn (text : String) : List String :=
  REGIONS.filter fun r =>
    (spaced r).test text || ((ALIASES.lookup r).getD []).any fun re => re.test text

/-- Regions named in the title or any update, and the class of the scope. -/
def incidentRegions (inc : StatusIncident) : Scope × List String :=
  let inTitle := regionsIn inc.name
  if ALL_REGIONS_RE.test inc.name then (.allRegions, inTitle)
  else if inTitle.length > 0 then (.regions, inTitle)
  else
    let inBody := regionsIn (incidentText inc)
    if inBody.length > 0 then (.bodyRegions, inBody) else (.unscoped, [])

/-- What kind of change an incident's text says is affected. -/
def LIFECYCLE_RE : Op → Regex
  | .create => .alts [.textI "creat", .textI "provision", .textI "lifecycle",
      .textI "management api", .textI "project operation", .textI "capacity"]
  | .restart => .alts [.textI "restart", .textI "lifecycle", .textI "management api",
      .textI "project operation", .textI "unresponsive", .textI "capacity"]
  | .resize => .alts [.textI "resiz", .textI "disk", .textI "compute", .textI "lifecycle",
      .textI "management api", .textI "project operation", .textI "capacity"]
  | .upgrade => .alts [.textI "upgrad", .textI "lifecycle", .textI "management api",
      .textI "project operation", .textI "capacity"]

def isOpen (inc : StatusIncident) : Bool :=
  inc.status ∉ ["resolved", "completed", "postmortem"]

/-! ## The decision -/

/-- `Decision`. -/
structure Decision where
  proceed : Bool
  region : String
  op : Op
  regionStatus : String
  regionComponentsMatched : Nat
  blockers : List String
  warnings : List String
  deriving DecidableEq, Repr

/-- `Policy`. -/
structure Policy where
  /-- Block on an open incident that names no region but is about lifecycle operations. -/
  blockUnscopedLifecycle : Bool
  /-- Block when the region has no component. -/
  blockOnMissingRegion : Bool
  deriving DecidableEq, Repr

def DEFAULT_POLICY : Policy where
  blockUnscopedLifecycle := true
  blockOnMissingRegion := true

/-- The lists that `decide` fills. -/
structure Notes where
  blockers : List String := []
  warnings : List String := []

/-- `(blocks ? blockers : warnings).push(note)`. -/
def Notes.push (n : Notes) (blocks : Bool) (note : String) : Notes :=
  if blocks then { n with blockers := n.blockers ++ [note] }
  else { n with warnings := n.warnings ++ [note] }

/-- What the region's components have to say. -/
def noteComponents (rs : RegionStatus) (region : String) (policy : Policy) (n : Notes) : Notes :=
  if rs.status = "missing" then
    n.push policy.blockOnMissingRegion s!"no component named {region}"
  else if rs.status ≠ "operational" then
    n.push true s!"component status {rs.status} ({rs.matched} components named {region})"
  else n

/-- What an open incident has to say. -/
def noteIncident (region : String) (op : Op) (policy : Policy) (n : Notes) (inc : StatusIncident) :
    Notes :=
  let (scope, regions) := incidentRegions inc
  let lifecycle := (LIFECYCLE_RE op).test (incidentText inc)
  let tag := s!"{inc.id} \"{inc.name}\" ({inc.status}, impact {inc.impact})"
  if scope = .allRegions then n.push true s!"open, all regions: {tag}"
  else if scope = .regions ∧ region ∈ regions then n.push true s!"open, names {region}: {tag}"
  else if scope = .bodyRegions ∧ region ∈ regions then
    let wording := if lifecycle then " with lifecycle wording" else " only"
    n.push lifecycle s!"open, {region} in update text{wording}: {tag}"
  else if scope = .regions ∨ scope = .bodyRegions then
    let named := ",".intercalate regions
    n.push false s!"open, other region(s) {named}: {tag}"
  else if lifecycle then
    n.push policy.blockUnscopedLifecycle s!"open, no region, lifecycle wording: {tag}"
  else n.push false s!"open, no region, not lifecycle: {tag}"

/-- `decide`, of gate.ts. -/
def gateDecide (region : String) (op : Op) (components : List StatusComponent)
    (incidents : List StatusIncident) (policy : Policy) : Decision :=
  let rs := Gate.regionStatus components region
  let notes := (incidents.filter isOpen).foldl (noteIncident region op policy)
    (noteComponents rs region policy {})
  { proceed := notes.blockers.length = 0
    region := region
    op := op
    regionStatus := rs.status
    regionComponentsMatched := rs.matched
    blockers := notes.blockers
    warnings := notes.warnings }

/-! ## Replay -/

inductive Interval where
  | closed (startMs endMs : Int)
  | badInterval
  deriving DecidableEq, Repr

/-- `Date.parse(…) || Date.now()`: the clock takes the place of `NaN` and of zero. -/
def parsedOrNow (now : Int) : Option Int → Int
  | some ms => if ms = 0 then now else ms
  | none => now

/-- `replayInterval`; `none` is `null`.  `parse` is `Date.parse`, with `none` for `NaN`. -/
def replayInterval (parse : String → Option Int) (now : Int) (inc : StatusIncident)
    (region : String) (op : Op) (policy : Policy) : Option Interval :=
  let (scope, regions) := incidentRegions inc
  let lifecycle := (LIFECYCLE_RE op).test (incidentText inc)
  let blocks := scope = .allRegions ∨ (scope = .regions ∧ region ∈ regions) ∨
    (scope = .bodyRegions ∧ region ∈ regions ∧ lifecycle = true) ∨
    (scope = .unscoped ∧ lifecycle = true ∧ policy.blockUnscopedLifecycle = true)
  if ¬ blocks then none
  else
    let endMs := parsedOrNow now (parse (inc.resolvedAt.getD ""))
    match parse inc.createdAt with
    | some startMs => if endMs ≥ startMs then some (.closed startMs endMs) else some .badInterval
    | none => some .badInterval

/-! ## The gate of the runbook -/

def ADVISES_RESTART_RE : Regex :=
  .alts
    [.textI "encouraged to restart",
      .seqs [.textI "recommend", .opt (.alts [.textI "ed", .textI "s"]), .textI " ",
        .opt (.alts [.textI "a ", .textI "that you "]), .textI "restart"],
      .seqs [.textI "restart", .opt (.textI "ing"), .textI " ",
        .alts [.textI "your", .textI "their", .textI "the"], .textI " project",
        .opt (.textI "s"), .boundary]]

def ADVISES_AGAINST_RE : Regex :=
  .seqs
    [.boundary,
      .alts [.textI "do not", .textI "don't", .textI "avoid", .textI "refrain from", .textI "not"],
      .plus (.char isJsSpace), .alts [.textI "restart", .textI "restarting"], .boundary]

def advisesRestart (inc : StatusIncident) : Bool :=
  ADVISES_RESTART_RE.test (incidentText inc) && !ADVISES_AGAINST_RE.test (incidentText inc)

/-- `gateView`; an incident is among the advising ones exactly when it advises. -/
def gateView (region : String) (components : List StatusComponent)
    (incidents : List StatusIncident) (op : Op) : GateView :=
  let advising := incidents.filter fun i => isOpen i && advisesRestart i
  let rest := incidents.filter fun i => !(isOpen i && advisesRestart i)
  let d := gateDecide region op components rest DEFAULT_POLICY
  { proceed := d.proceed
    blockers := d.blockers
    warnings := d.warnings ++
      advising.map fun i => s!"open incident advises restart: {i.id} \"{i.name}\"" }

/-! ## What blocks -/

section Blocks

variable {region : String} {op : Op} {policy : Policy} {n : Notes} {inc : StatusIncident}
  {incidents : List StatusIncident} {components same : List StatusComponent} {status : String}

/-- An incident that, while it is open, blocks the operation in the region. -/
def Blocks (region : String) (op : Op) (policy : Policy) (inc : StatusIncident) : Prop :=
  match incidentRegions inc with
  | (.allRegions, _) => True
  | (.regions, regions) => region ∈ regions
  | (.bodyRegions, regions) =>
      region ∈ regions ∧ (LIFECYCLE_RE op).test (incidentText inc) = true
  | (.unscoped, _) =>
      (LIFECYCLE_RE op).test (incidentText inc) = true ∧ policy.blockUnscopedLifecycle = true

@[simp] theorem push_blockers_eq_nil {blocks : Bool} {note : String} :
    (n.push blocks note).blockers = [] ↔ n.blockers = [] ∧ blocks = false := by
  cases blocks <;> simp [Notes.push]

theorem noteIncident_blockers : (noteIncident region op policy n inc).blockers = [] ↔
    n.blockers = [] ∧ ¬ Blocks region op policy inc := by
  unfold noteIncident Blocks
  obtain ⟨scope, regions⟩ := incidentRegions inc
  cases scope with
  | allRegions => simp
  | regions =>
    by_cases hregion : region ∈ regions
    · simp [hregion]
    · simp [hregion]
  | bodyRegions =>
    by_cases hregion : region ∈ regions
    · simp [hregion]
    · simp [hregion]
  | unscoped =>
    cases (LIFECYCLE_RE op).test (incidentText inc) with
    | true => simp
    | false => simp

theorem noteIncidents_blockers :
    (incidents.foldl (noteIncident region op policy) n).blockers = [] ↔
      n.blockers = [] ∧ ∀ inc ∈ incidents, ¬ Blocks region op policy inc := by
  induction incidents generalizing n with
  | nil => simp
  | cons inc incidents ih =>
    rw [List.foldl_cons, ih, noteIncident_blockers, List.forall_mem_cons, and_assoc]

/-! ## The worst status -/

theorem eq_operational_of_lookup (h : SEVERITY.lookup status = some 0) :
    status = "operational" := by
  obtain ⟨l₁, l₂, hsplit, -⟩ := List.lookup_eq_some_iff.mp h
  have hmem : (status, 0) ∈ SEVERITY := hsplit ▸ List.mem_append_right _ List.mem_cons_self
  simpa [SEVERITY] using hmem

/-- A status does not rank above `operational` when it is that, or a name that every
object inherits. -/
theorem not_gt_operational : (rank status).gt (rank "operational") = false ↔
    status = "operational" ∨ status ∈ objectPrototype := by
  have hoperational : rank "operational" = .number 0 := by decide
  rw [hoperational]
  unfold rank
  cases hlookup : SEVERITY.lookup status with
  | some n =>
    have hnot : status ∉ objectPrototype := by
      intro hin
      have hnone : ∀ name ∈ objectPrototype, SEVERITY.lookup name = none := by decide
      rw [hnone status hin] at hlookup
      cases hlookup
    simp only [Rank.gt, decide_eq_false_iff_not, Nat.not_lt, Nat.le_zero, hnot, or_false]
    constructor
    · rintro rfl
      exact eq_operational_of_lookup hlookup
    · rintro rfl
      exact (Option.some.inj hlookup).symm
  | none =>
    have hne : status ≠ "operational" := by
      rintro rfl
      cases hlookup
    by_cases hin : status ∈ objectPrototype
    · simp [hin, Rank.gt]
    · simp [hin, Rank.gt, hne]

/-- A status that ranks above `operational`. -/
theorem ranked_of_gt {worst : String} (h : (rank status).gt (rank worst) = true) :
    ∃ n, rank status = .number (n + 1) := by
  cases hstatus : rank status with
  | inherited =>
    rw [hstatus] at h
    cases h
  | number n =>
    cases hworst : rank worst with
    | inherited =>
      rw [hstatus, hworst] at h
      cases h
    | number m =>
      rw [hstatus, hworst] at h
      have hlt : m < n := of_decide_eq_true h
      exact ⟨n - 1, congrArg Rank.number (by omega)⟩

theorem worstOf_eq_operational : worstOf same = "operational" ↔
    ∀ c ∈ same, c.status = "operational" ∨ c.status ∈ objectPrototype := by
  -- once a status ranks above `operational`, so does every later one
  have hstays : ∀ (l : List StatusComponent) worst, (∃ n, rank worst = .number (n + 1)) →
      l.foldl (fun worst c => if (rank c.status).gt (rank worst) then c.status else worst) worst ≠
        "operational" := by
    intro l
    induction l with
    | nil =>
      rintro worst ⟨n, hn⟩ rfl
      cases hn
    | cons c l ih =>
      intro worst hworst
      rw [List.foldl_cons]
      split
      · rename_i hgt
        exact ih _ (ranked_of_gt hgt)
      · exact ih _ hworst
  unfold worstOf
  induction same with
  | nil => simp
  | cons c same ih =>
    rw [List.foldl_cons, List.forall_mem_cons, ← not_gt_operational]
    cases hgt : (rank c.status).gt (rank "operational") with
    | true =>
      rw [if_pos rfl]
      exact ⟨fun h => absurd h (hstays same _ (ranked_of_gt hgt)), fun h => absurd h.1 (by simp)⟩
    | false =>
      rw [if_neg Bool.false_ne_true]
      exact ih.trans (and_iff_right rfl).symm

theorem noteComponents_blockers {rs : RegionStatus} :
    (noteComponents rs region DEFAULT_POLICY n).blockers = [] ↔
      n.blockers = [] ∧ rs.status = "operational" := by
  unfold noteComponents
  by_cases hmissing : rs.status = "missing"
  · simp [hmissing, DEFAULT_POLICY]
  · by_cases hoperational : rs.status = "operational"
    · simp [hoperational]
    · simp [hmissing, hoperational]

theorem regionStatus_eq_operational : (Gate.regionStatus components region).status = "operational" ↔
    (∃ c ∈ components, c.name = region) ∧ ∀ c ∈ components, c.name = region →
      c.status = "operational" ∨ c.status ∈ objectPrototype := by
  unfold Gate.regionStatus
  cases hsame : components.filter fun c => c.name = region with
  | nil =>
    have hnone : ∀ c ∈ components, c.name ≠ region := by simpa using hsame
    simp only [List.length_nil, if_pos]
    exact ⟨fun h => absurd h (by simp), fun ⟨⟨c, hc, hname⟩, _⟩ => absurd hname (hnone c hc)⟩
  | cons d same =>
    have hd : d ∈ components ∧ d.name = region := by
      have hin : d ∈ components.filter fun c => c.name = region := hsame ▸ List.mem_cons_self
      simpa using hin
    have hall : (∀ c ∈ d :: same, c.status = "operational" ∨ c.status ∈ objectPrototype) ↔
        ∀ c ∈ components, c.name = region →
          c.status = "operational" ∨ c.status ∈ objectPrototype := by
      rw [← hsame]
      simp only [List.mem_filter, decide_eq_true_eq, and_imp]
    simp only [List.length_cons, Nat.succ_ne_zero, if_false]
    rw [worstOf_eq_operational, hall]
    exact (and_iff_right ⟨d, hd⟩).symm

/-- When the gate says proceed. -/
theorem proceed_iff : (gateDecide region op components incidents DEFAULT_POLICY).proceed = true ↔
    (∃ c ∈ components, c.name = region) ∧
      (∀ c ∈ components, c.name = region →
        c.status = "operational" ∨ c.status ∈ objectPrototype) ∧
      ∀ inc ∈ incidents, isOpen inc = true → ¬ Blocks region op DEFAULT_POLICY inc := by
  unfold gateDecide
  simp only [decide_eq_true_eq, List.length_eq_zero_iff]
  rw [noteIncidents_blockers, noteComponents_blockers, regionStatus_eq_operational, and_assoc]
  simp only [List.mem_filter, and_imp, true_and, and_assoc]

end Blocks

/-! ## The gate fails closed, but for the names every object inherits -/

/-- What is promised of the gate under the default policy. -/
structure FailsClosed (region : String) (op : Op) (components : List StatusComponent)
    (incidents : List StatusIncident) : Prop where
  matched : (gateDecide region op components incidents DEFAULT_POLICY).proceed = true →
    ∃ c ∈ components, c.name = region
  operational : (gateDecide region op components incidents DEFAULT_POLICY).proceed = true →
    ∀ c ∈ components, c.name = region → c.status = "operational"
  unblocked : (gateDecide region op components incidents DEFAULT_POLICY).proceed = true →
    ∀ inc ∈ incidents, isOpen inc = true → ¬ Blocks region op DEFAULT_POLICY inc
  /-- The order of components and incidents does not matter. -/
  order : ∀ components' incidents', components'.Perm components → incidents'.Perm incidents →
    (gateDecide region op components' incidents' DEFAULT_POLICY).proceed =
        (gateDecide region op components incidents DEFAULT_POLICY).proceed ∧
      (gateView region components' incidents' op).proceed =
        (gateView region components incidents op).proceed
  /-- One more open incident turns no refusal into a proceed, wherever it is listed. -/
  refuses : ∀ inc incidents', isOpen inc = true → incidents'.Perm (inc :: incidents) →
    (gateDecide region op components incidents DEFAULT_POLICY).proceed = false →
    (gateDecide region op components incidents' DEFAULT_POLICY).proceed = false
  /-- Nor does one that does not advise a restart, where the runbook asks. -/
  viewRefuses : ∀ inc incidents', isOpen inc = true → advisesRestart inc = false →
    incidents'.Perm (inc :: incidents) → (gateView region components incidents op).proceed = false →
    (gateView region components incidents' op).proceed = false

/-- Some component of the region has a status that `rank` can read as worse than
operational, or none has a name for a status that every object inherits, or an
open incident blocks. -/
def ReadsStatuses (region : String) (op : Op) (components : List StatusComponent)
    (incidents : List StatusIncident) : Prop :=
  (∀ c ∈ components, c.name = region → c.status ∉ objectPrototype) ∨
    (∃ c ∈ components, c.name = region ∧ c.status ≠ "operational" ∧ c.status ∉ objectPrototype) ∨
    ∃ inc ∈ incidents, isOpen inc = true ∧ Blocks region op DEFAULT_POLICY inc

section FailsClosed

variable {region : String} {op : Op} {components components' : List StatusComponent}
  {incidents incidents' : List StatusIncident}

theorem proceed_perm (hcomponents : components'.Perm components)
    (hincidents : incidents'.Perm incidents) :
    (gateDecide region op components' incidents' DEFAULT_POLICY).proceed =
      (gateDecide region op components incidents DEFAULT_POLICY).proceed := by
  rw [Bool.eq_iff_iff, proceed_iff, proceed_iff]
  simp only [hcomponents.mem_iff, hincidents.mem_iff]

theorem proceed_of_more (hmore : ∀ inc ∈ incidents, inc ∈ incidents')
    (h : (gateDecide region op components incidents' DEFAULT_POLICY).proceed = true) :
    (gateDecide region op components incidents DEFAULT_POLICY).proceed = true := by
  obtain ⟨hmatched, hstatuses, hopen⟩ := proceed_iff.mp h
  exact proceed_iff.mpr ⟨hmatched, hstatuses, fun inc hinc => hopen inc (hmore inc hinc)⟩

/-- For every region, operation, list of components and list of incidents. -/
theorem gate_fails_closed_iff (region : String) (op : Op) (components : List StatusComponent)
    (incidents : List StatusIncident) :
    FailsClosed region op components incidents ↔ ReadsStatuses region op components incidents := by
  constructor
  · intro h
    by_contra hnot
    obtain ⟨hsome, hothers⟩ := not_or.mp hnot
    obtain ⟨hread, hopen⟩ := not_or.mp hothers
    push Not at hsome hread hopen
    obtain ⟨c, hc, hname, hstatus⟩ := hsome
    have hproceed := proceed_iff.mpr ⟨⟨c, hc, hname⟩,
      fun d hd hdname => or_iff_not_imp_left.mpr (hread d hd hdname), hopen⟩
    rw [h.operational hproceed c hc hname] at hstatus
    exact absurd hstatus (by decide)
  · intro h
    refine ⟨fun hp => (proceed_iff.mp hp).1, fun hp c hc hname => ?_,
      fun hp => (proceed_iff.mp hp).2.2, fun components' incidents' hcomponents hincidents => ?_,
      fun inc incidents' _ hperm hrefused => ?_, fun inc incidents' _ hadvises hperm hrefused => ?_⟩
    · obtain ⟨-, hstatuses, hopen⟩ := proceed_iff.mp hp
      rcases h with hnone | ⟨d, hd, hdname, hne, hnot⟩ | ⟨inc, hinc, hisOpen, hblocks⟩
      · exact (hstatuses c hc hname).resolve_right (hnone c hc hname)
      · exact ((hstatuses d hd hdname).elim hne hnot).elim
      · exact absurd hblocks (hopen inc hinc hisOpen)
    · exact ⟨proceed_perm hcomponents hincidents,
        proceed_perm hcomponents (hincidents.filter _)⟩
    · rw [← Bool.not_eq_true] at hrefused ⊢
      exact fun hp => hrefused
        (proceed_of_more (fun i hi => hperm.mem_iff.mpr (List.mem_cons_of_mem _ hi)) hp)
    · rw [← Bool.not_eq_true] at hrefused ⊢
      refine fun hp => hrefused (proceed_of_more (fun i hi => ?_) hp)
      obtain ⟨hi, hkept⟩ := List.mem_filter.mp hi
      exact List.mem_filter.mpr ⟨hperm.mem_iff.mpr (List.mem_cons_of_mem _ hi), hkept⟩

/-- A status that every object has a property for is taken for operational. -/
theorem inherited_status_proceeds :
    ¬ FailsClosed "eu-west-1" .restart [⟨"c1", "eu-west-1", "constructor"⟩] [] := by
  intro h
  have hstatus := h.operational (by decide) _ List.mem_cons_self rfl
  exact absurd hstatus (by decide)

end FailsClosed

/-! ## Replay agrees with the gate -/

section Replay

variable {parse : String → Option Int} {now : Int} {inc : StatusIncident} {region : String}
  {op : Op} {policy : Policy}

/-- The four cases of the replay are those of the gate. -/
theorem blocks_iff : Blocks region op policy inc ↔
    (incidentRegions inc).1 = .allRegions ∨
      ((incidentRegions inc).1 = .regions ∧ region ∈ (incidentRegions inc).2) ∨
      ((incidentRegions inc).1 = .bodyRegions ∧ region ∈ (incidentRegions inc).2 ∧
        (LIFECYCLE_RE op).test (incidentText inc) = true) ∨
      ((incidentRegions inc).1 = .unscoped ∧ (LIFECYCLE_RE op).test (incidentText inc) = true ∧
        policy.blockUnscopedLifecycle = true) := by
  unfold Blocks
  obtain ⟨scope, regions⟩ := incidentRegions inc
  cases scope <;> simp

theorem replayInterval_isSome : (replayInterval parse now inc region op policy).isSome = true ↔
    Blocks region op policy inc := by
  rw [blocks_iff]
  unfold replayInterval
  dsimp only
  split
  · rename_i hnot
    exact ⟨fun h => absurd h Bool.false_ne_true, fun h => absurd h hnot⟩
  · rename_i hblocks
    refine ⟨fun _ => not_not.mp hblocks, fun _ => ?_⟩
    cases parse inc.createdAt with
    | none => rfl
    | some startMs =>
      dsimp only
      split <;> rfl

/-- The text of an incident does not depend on its status. -/
theorem blocks_withStatus {status : String} :
    Blocks region op policy { inc with status := status } ↔ Blocks region op policy inc :=
  Iff.rfl

/-- A past incident has an interval, or a bad one, exactly when the gate would have
refused while it was open. -/
theorem replay_agrees_with_gate (parse : String → Option Int) (now : Int) (inc : StatusIncident)
    (region : String) (op : Op) (policy : Policy) (id status : String)
    (hopen : isOpen { inc with status := status } = true) :
    (replayInterval parse now inc region op policy).isSome = true ↔
      (gateDecide region op [⟨id, region, "operational"⟩] [{ inc with status := status }]
        policy).proceed = false := by
  have hstatus : (Gate.regionStatus [⟨id, region, "operational"⟩] region).status = "operational" := by
    rw [regionStatus_eq_operational]
    simp
  have hnotes : (noteComponents (Gate.regionStatus [⟨id, region, "operational"⟩] region) region policy
      {}).blockers = [] := by
    unfold noteComponents
    simp [hstatus]
  have hblocks : Blocks region op policy inc ↔
      Blocks region op policy { inc with status := status } := blocks_withStatus.symm
  rw [replayInterval_isSome, ← Bool.not_eq_true, hblocks]
  unfold gateDecide
  simp only [decide_eq_true_eq, List.length_eq_zero_iff]
  rw [noteIncidents_blockers, List.filter_cons_of_pos hopen]
  simp [hnotes]

/-- An incident that is read back from the feed as resolved. -/
theorem replay_agrees_with_gate_resolved :
    (replayInterval (fun _ => some 1) 2 ⟨"i1", "Capacity", "resolved", "none", "", some "", []⟩
      "eu-west-1" .create DEFAULT_POLICY).isSome = true ↔
      (gateDecide "eu-west-1" .create [⟨"c1", "eu-west-1", "operational"⟩]
        [⟨"i1", "Capacity", "investigating", "none", "", some "", []⟩] DEFAULT_POLICY).proceed = false :=
  replay_agrees_with_gate (fun _ => some 1) 2 ⟨"i1", "Capacity", "resolved", "none", "", some "", []⟩
    "eu-west-1" .create DEFAULT_POLICY "c1" "investigating" (by decide)

end Replay

end SupabaseLab.LifecycleOps.Gate
