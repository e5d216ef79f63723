/-
  Harness/Plan.lean --- which modules run, and in what order.

  Source: harness/src/plan.ts.  Whatever keeps a module from running is written
  down as a skip row under the module's id.  What the runtime
  does with the letters of an id, to compare and to lower them, is a parameter.

  A plan parts the selected modules in two: `Eligible` says of a module what has to
  hold for it to run, and `Violates` what a skip row says of one that does not.
-/
import SupabaseLab.Harness.Settle
import SupabaseLab.Library.StableSort

set_option autoImplicit false

namespace SupabaseLab.Harness

open Library

/-- The string functions of the runtime. -/
structure Strings where
  localeCompare : String → String → Ordering
  toLowerCase : String → String

structure PlanOptions where
  vantage : Where
  capabilities : List String
  only : Option (List String) := none
  experiment : Option String := none
  allowDestructive : Bool := false

structure Plan where
  run : List TestModule
  skipped : List TestResult

def missingCapabilities (m : TestModule) (present : List String) : List String :=
  (m.requires.getD []).filter fun c => c ∉ present

/-- The two `continue`s that leave no row. -/
def selected (js : Strings) (m : TestModule) (opts : PlanOptions) : Bool :=
  (match opts.only with
    | some only => only.isEmpty || (only.map js.toLowerCase).contains (js.toLowerCase m.id)
    | none => true) &&
  match opts.experiment with
    | some experiment => experiment == "" || m.experiment == some experiment
    | none => true

def vantageDetail (m : TestModule) (opts : PlanOptions) : String :=
  "runs on \"" ++ m.vantage.text ++ "\", this process is \"" ++ opts.vantage.text ++ "\""

/-- Why a selected module does not run, if it does not. -/
def skipDetail? (m : TestModule) (opts : PlanOptions) : Option String :=
  if m.vantage ≠ opts.vantage then some (vantageDetail m opts)
  else if missingCapabilities m opts.capabilities ≠ [] then
    some ("missing capability: " ++ ", ".intercalate (missingCapabilities m opts.capabilities))
  else if m.destructive.getD false && !opts.allowDestructive then
    some "destructive; re-run with --destructive to include"
  else none

def skipRow (m : TestModule) (detail : String) : TestResult where
  id := m.id
  title := m.title
  status := .skip
  detail := some detail

/-- Read-only modules before destructive ones, then by id. -/
def runsBefore (js : Strings) (a b : TestModule) : Bool :=
  match a.destructive.getD false, b.destructive.getD false with
  | false, true => true
  | true, false => false
  | _, _ => (js.localeCompare a.id b.id).isLE

def planRun (js : Strings) (modules : List TestModule)
    (opts : PlanOptions) : Plan :=
  let chosen := modules.filter fun m => selected js m opts
  { run := (chosen.filter fun m => (skipDetail? m opts).isNone).mergeSort (runsBefore js)
    skipped := (chosen.filterMap fun m => (skipDetail? m opts).map (skipRow m)).mergeSort
      fun a b => (js.localeCompare a.id b.id).isLE }

section Plan

variable {js : Strings} {modules : List TestModule}
  {opts : PlanOptions} {m : TestModule}

theorem mem_run : m ∈ (planRun js modules opts).run ↔
    m ∈ modules ∧ selected js m opts = true ∧ skipDetail? m opts = none := by
  unfold planRun
  dsimp only
  rw [(List.mergeSort_perm _ _).mem_iff, List.mem_filter, List.mem_filter, Option.isNone_iff_eq_none,
    and_assoc]

theorem mem_skipped {r : TestResult} : r ∈ (planRun js modules opts).skipped ↔
    ∃ m ∈ modules, selected js m opts = true ∧ ∃ detail, skipDetail? m opts = some detail ∧
      skipRow m detail = r := by
  unfold planRun
  dsimp only
  rw [(List.mergeSort_perm _ _).mem_iff, List.mem_filterMap]
  constructor
  · rintro ⟨m, hm, hrow⟩
    obtain ⟨hmem, hselected⟩ := List.mem_filter.mp hm
    exact ⟨m, hmem, hselected, Option.map_eq_some_iff.mp hrow⟩
  · rintro ⟨m, hmem, hselected, hrow⟩
    exact ⟨m, List.mem_filter.mpr ⟨hmem, hselected⟩, Option.map_eq_some_iff.mpr hrow⟩

end Plan

/-! ## The two parts of a plan -/

/-- Nothing keeps the module from running. -/
structure Eligible (m : TestModule) (opts : PlanOptions) : Prop where
  vantage : m.vantage = opts.vantage
  requires : ∀ c ∈ m.requires.getD [], c ∈ opts.capabilities
  consented : m.destructive.getD false = true → opts.allowDestructive = true

/-- The condition that the detail of a skip row names, which the module does not meet. -/
inductive Violates (m : TestModule) (opts : PlanOptions) : String → Prop where
  | vantage (h : m.vantage ≠ opts.vantage) : Violates m opts (vantageDetail m opts)
  | requires (h : ∃ c ∈ m.requires.getD [], c ∉ opts.capabilities) :
      Violates m opts
        ("missing capability: " ++ ", ".intercalate (missingCapabilities m opts.capabilities))
  | consented (h : m.destructive.getD false = true ∧ opts.allowDestructive = false) :
      Violates m opts "destructive; re-run with --destructive to include"

/-- The row stands for the module, with the condition it violates. -/
def SkippedFor (opts : PlanOptions) (m : TestModule) (r : TestResult) : Prop :=
  ∃ detail, r = skipRow m detail ∧ Violates m opts detail

/-- Read-only modules come first. -/
def ReadOnlyFirst (l : List TestModule) : Prop :=
  l.Pairwise fun a b => a.destructive.getD false = true → b.destructive.getD false = true

/-- The modules that get a skip row, by id. -/
def leftOut (js : Strings) (modules : List TestModule) (opts : PlanOptions) : List TestModule :=
  ((modules.filter fun m => selected js m opts).filter fun m => (skipDetail? m opts).isSome).mergeSort
    fun a b => (js.localeCompare a.id b.id).isLE

section Parts

variable {js : Strings} {modules modules' : List TestModule} {opts : PlanOptions} {m : TestModule}

theorem missingCapabilities_eq_nil_iff :
    missingCapabilities m opts.capabilities = [] ↔
      ∀ c ∈ m.requires.getD [], c ∈ opts.capabilities := by
  rw [missingCapabilities, List.filter_eq_nil_iff]
  simp only [decide_eq_true_eq, not_not]

theorem skipDetail?_eq_none_iff : skipDetail? m opts = none ↔ Eligible m opts := by
  unfold skipDetail?
  constructor
  · intro h
    split at h
    · cases h
    · rename_i hvantage
      split at h
      · cases h
      · rename_i hmissing
        split at h
        · cases h
        · rename_i hdestructive
          refine ⟨not_not.mp hvantage, missingCapabilities_eq_nil_iff.mp (not_not.mp hmissing),
            fun hd => ?_⟩
          rw [hd, Bool.true_and, Bool.not_eq_true', Bool.not_eq_false] at hdestructive
          exact hdestructive
  · rintro ⟨hvantage, hrequires, hconsented⟩
    rw [if_neg (not_not.mpr hvantage),
      if_neg (not_not.mpr (missingCapabilities_eq_nil_iff.mpr hrequires)), if_neg]
    rw [Bool.and_eq_true, Bool.not_eq_true']
    rintro ⟨hd, hno⟩
    rw [hconsented hd] at hno
    cases hno

/-- The reason that is given is one. -/
theorem violates_of_skipDetail? {detail : String} (h : skipDetail? m opts = some detail) :
    Violates m opts detail := by
  unfold skipDetail? at h
  split at h
  · rename_i hvantage
    cases h
    exact .vantage hvantage
  · split at h
    · rename_i hmissing
      cases h
      refine .requires ?_
      rw [ne_eq, missingCapabilities_eq_nil_iff, not_forall] at hmissing
      obtain ⟨c, hc⟩ := hmissing
      exact ⟨c, Classical.not_imp.mp hc⟩
    · split at h
      · rename_i hdestructive
        cases h
        rw [Bool.and_eq_true, Bool.not_eq_true'] at hdestructive
        exact .consented hdestructive
      · cases h

theorem skipped_eq_map : (planRun js modules opts).skipped =
    (leftOut js modules opts).map fun m => skipRow m ((skipDetail? m opts).getD "") := by
  have hrows : (modules.filter fun m => selected js m opts).filterMap
        (fun m => (skipDetail? m opts).map (skipRow m)) =
      ((modules.filter fun m => selected js m opts).filter fun m => (skipDetail? m opts).isSome).map
        fun m => skipRow m ((skipDetail? m opts).getD "") := by
    induction modules.filter fun m => selected js m opts with
    | nil => rfl
    | cons m chosen ih =>
      cases h : skipDetail? m opts with
      | none => simp [h, ih]
      | some detail => simp [h, ih]
  unfold planRun leftOut
  dsimp only
  rw [hrows, List.map_mergeSort]
  exact fun _ _ _ _ => rfl

/-- Every row is that of a module with a reason. -/
theorem skipped_forall₂ :
    List.Forall₂ (SkippedFor opts) (leftOut js modules opts) (planRun js modules opts).skipped := by
  rw [skipped_eq_map, List.forall₂_map_right_iff, List.forall₂_same]
  intro m hm
  have hsome := (List.mem_filter.mp ((List.mergeSort_perm _ _).mem_iff.mp hm)).2
  obtain ⟨detail, hdetail⟩ := Option.isSome_iff_exists.mp hsome
  refine ⟨detail, ?_, violates_of_skipDetail? hdetail⟩
  rw [hdetail, Option.getD_some]

theorem run_append_leftOut_perm :
    ((planRun js modules opts).run ++ leftOut js modules opts).Perm
      (modules.filter fun m => selected js m opts) := by
  refine ((List.mergeSort_perm _ _).append (List.mergeSort_perm _ _)).trans ?_
  have hsome : ∀ m : TestModule, (skipDetail? m opts).isSome = !(skipDetail? m opts).isNone := by
    intro m
    cases skipDetail? m opts with
    | none => rfl
    | some detail => rfl
  simp only [hsome]
  exact List.filter_append_perm _ _

/-! ### The order -/

section Order

variable [Std.TransCmp js.localeCompare]

theorem localeCompare_trans (a b c : String) (hab : (js.localeCompare a b).isLE = true)
    (hbc : (js.localeCompare b c).isLE = true) : (js.localeCompare a c).isLE = true :=
  Std.TransCmp.isLE_trans hab hbc

theorem localeCompare_total (a b : String) :
    ((js.localeCompare a b).isLE || (js.localeCompare b a).isLE) = true := by
  have hswap : js.localeCompare b a = (js.localeCompare a b).swap := Std.OrientedCmp.eq_swap
  rw [hswap]
  cases js.localeCompare a b with
  | lt => rfl
  | eq => rfl
  | gt => rfl

theorem runsBefore_trans (a b c : TestModule) (hab : runsBefore js a b = true)
    (hbc : runsBefore js b c = true) : runsBefore js a c = true := by
  unfold runsBefore at hab hbc ⊢
  cases ha : a.destructive.getD false with
  | false =>
    cases hc : c.destructive.getD false with
    | true => rfl
    | false =>
      cases hb : b.destructive.getD false with
      | true =>
        rw [hb, hc] at hbc
        cases hbc
      | false =>
        rw [ha, hb] at hab
        rw [hb, hc] at hbc
        exact localeCompare_trans _ _ _ hab hbc
  | true =>
    cases hb : b.destructive.getD false with
    | false =>
      rw [ha, hb] at hab
      cases hab
    | true =>
      rw [ha, hb] at hab
      rw [hb] at hbc
      cases hc : c.destructive.getD false with
      | false =>
        rw [hc] at hbc
        cases hbc
      | true =>
        rw [hc] at hbc
        exact localeCompare_trans _ _ _ hab hbc

theorem runsBefore_total (a b : TestModule) : (runsBefore js a b || runsBefore js b a) = true := by
  unfold runsBefore
  cases a.destructive.getD false <;> cases b.destructive.getD false
  · exact localeCompare_total _ _
  · rfl
  · rfl
  · exact localeCompare_total _ _

theorem readOnlyFirst_run : ReadOnlyFirst (planRun js modules opts).run := by
  refine (List.pairwise_mergeSort runsBefore_trans runsBefore_total _).imp fun {a b} hab hd => ?_
  unfold runsBefore at hab
  rw [hd] at hab
  cases hb : b.destructive.getD false with
  | true => rfl
  | false =>
    rw [hb] at hab
    cases hab

variable [Std.LawfulEqCmp js.localeCompare]

theorem id_eq_of_isLE {a b : TestModule} (hab : (js.localeCompare a.id b.id).isLE = true)
    (hba : (js.localeCompare b.id a.id).isLE = true) : a.id = b.id := by
  have hswap : js.localeCompare b.id a.id = (js.localeCompare a.id b.id).swap :=
    Std.OrientedCmp.eq_swap
  rw [hswap] at hba
  cases h : js.localeCompare a.id b.id with
  | eq => exact Std.LawfulEqCmp.eq_of_compare h
  | lt =>
    rw [h] at hba
    cases hba
  | gt =>
    rw [h] at hab
    cases hab

theorem id_eq_of_runsBefore {a b : TestModule} (hab : runsBefore js a b = true)
    (hba : runsBefore js b a = true) : a.id = b.id := by
  unfold runsBefore at hab hba
  cases ha : a.destructive.getD false with
  | false =>
    cases hb : b.destructive.getD false with
    | false =>
      rw [ha, hb] at hab hba
      exact id_eq_of_isLE hab hba
    | true =>
      rw [ha, hb] at hba
      cases hba
  | true =>
    cases hb : b.destructive.getD false with
    | false =>
      rw [ha, hb] at hab
      cases hab
    | true =>
      rw [ha, hb] at hab hba
      exact id_eq_of_isLE hab hba

/-- Modules with ids of their own are planned the same in every order. -/
theorem planRun_congr (hids : (modules.map (·.id)).Nodup) (hperm : modules.Perm modules') :
    planRun js modules opts = planRun js modules' opts := by
  have hsame : ∀ a ∈ modules, ∀ b ∈ modules, a.id = b.id → a = b := fun a ha b hb hab =>
    List.inj_on_of_nodup_map hids ha hb hab
  have hchosen := hperm.filter fun m => selected js m opts
  have hmem : ∀ {p : TestModule → Bool} {m : TestModule},
      m ∈ (modules.filter fun m => selected js m opts).filter p → m ∈ modules := fun hm =>
    (List.mem_filter.mp (List.mem_filter.mp hm).1).1
  have hrun : (planRun js modules opts).run = (planRun js modules' opts).run :=
    mergeSort_congr runsBefore_trans runsBefore_total
      (fun a ha b hb hab hba => hsame a (hmem ha) b (hmem hb) (id_eq_of_runsBefore hab hba))
      (hchosen.filter _)
  have hleft : leftOut js modules opts = leftOut js modules' opts :=
    mergeSort_congr (fun _ _ _ => localeCompare_trans _ _ _) (fun _ _ => localeCompare_total _ _)
      (fun a ha b hb hab hba => hsame a (hmem ha) b (hmem hb) (id_eq_of_isLE hab hba))
      (hchosen.filter _)
  have hskipped : (planRun js modules opts).skipped = (planRun js modules' opts).skipped := by
    rw [skipped_eq_map, skipped_eq_map, hleft]
  calc planRun js modules opts
      = ⟨(planRun js modules opts).run, (planRun js modules opts).skipped⟩ := rfl
    _ = planRun js modules' opts := by rw [hrun, hskipped]

end Order

end Parts

/-- For every list of modules and all options: the modules that run and the modules behind
the skip rows are the selected ones, each as often as it was given; what runs is eligible,
and what is skipped violates the condition that its row names; read-only modules come
first; and where ids are distinct the order of the list does not matter. -/
theorem planRun_partitions (js : Strings) [Std.TransCmp js.localeCompare]
    [Std.LawfulEqCmp js.localeCompare] (modules : List TestModule) (opts : PlanOptions) :
    (∃ left, ((planRun js modules opts).run ++ left).Perm
          (modules.filter fun m => selected js m opts) ∧
        List.Forall₂ (SkippedFor opts) left (planRun js modules opts).skipped) ∧
      (∀ m ∈ (planRun js modules opts).run, Eligible m opts) ∧
      ReadOnlyFirst (planRun js modules opts).run ∧
      ((modules.map (·.id)).Nodup → ∀ modules', modules.Perm modules' →
        planRun js modules' opts = planRun js modules opts) := by
  refine ⟨⟨leftOut js modules opts, run_append_leftOut_perm, skipped_forall₂⟩, fun m hm => ?_,
    readOnlyFirst_run, fun hids modules' hperm => (planRun_congr hids hperm).symm⟩
  exact skipDetail?_eq_none_iff.mp (mem_run.mp hm).2.2

/-- Ids compared by their code points. -/
def codePointStrings : Strings where
  localeCompare := compare
  toLowerCase := String.toLower

instance : Std.TransCmp codePointStrings.localeCompare := inferInstanceAs (Std.TransOrd String)

instance : Std.LawfulEqCmp codePointStrings.localeCompare :=
  inferInstanceAs (Std.LawfulEqOrd String)

def restartModule : TestModule where
  id := "T09"
  title := "restart"
  vantage := .runner
  destructive := some true

def connectModule : TestModule where
  id := "T10"
  title := "connect"
  vantage := .runner

/-- A destructive module goes last, wherever it was given. -/
theorem planRun_partitions_restart :
    planRun codePointStrings [connectModule, restartModule]
        { vantage := .runner, capabilities := [], allowDestructive := true } =
      planRun codePointStrings [restartModule, connectModule]
        { vantage := .runner, capabilities := [], allowDestructive := true } ∧
      ReadOnlyFirst (planRun codePointStrings [restartModule, connectModule]
        { vantage := .runner, capabilities := [], allowDestructive := true }).run :=
  ⟨(planRun_partitions codePointStrings [restartModule, connectModule] _).2.2.2 (by decide) _
      (List.Perm.swap _ _ _),
    (planRun_partitions codePointStrings [restartModule, connectModule] _).2.2.1⟩

end SupabaseLab.Harness
