/-
  Harness/Diff.lean --- the comparison of two artifacts.

  Source: harness/src/diff.ts.  The unit is a pair of a result id and a
  measurement key.  `diffArtifacts` looks results up by id, where the last of
  several results wins, and keys with `in`, which also finds what an object
  inherits.  Both lookups decide which pairs the comparison accounts for.
-/
import SupabaseLab.Harness.Artifact
import SupabaseLab.Library.Json

set_option autoImplicit false

namespace SupabaseLab.Harness

open Library

/-! ## The comparison -/

/-- What a lookup gives: a value, or a property of the prototype. -/
inductive Looked where
  | value (v : Measurement)
  | inherited (name : String)
  deriving DecidableEq, Repr

/-- `key in m ? m[key]! : null`. -/
def lookIn (m : KeyMap String Measurement) (key : String) : Looked :=
  match m.get? key with
  | some v => .value v
  | none => if key ∈ objectPrototype then .inherited key else .value .null

structure MeasurementChange where
  id : String
  key : String
  fromValue : Looked
  toValue : Looked
  deriving DecidableEq, Repr

structure StatusChange where
  id : String
  fromStatus : Status
  toStatus : Status
  deriving DecidableEq, Repr

structure ArtifactDiff where
  added : List String
  removed : List String
  changed : List MeasurementChange
  statusChanged : List StatusChange
  unchanged : Nat
  deriving DecidableEq, Repr

def byId (a : RunArtifact) : KeyMap String TestResult :=
  a.results.foldl (fun m r => m.set r.id r) .empty

def measurements (r : TestResult) : KeyMap String Measurement := r.measurements.getD .empty

/-- The variables of the loop over the shared results. -/
structure DiffAcc where
  changed : List MeasurementChange := []
  statusChanged : List StatusChange := []
  unchanged : Nat := 0

/-- One key of one shared result. -/
def diffKey (id : String) (mb ma : KeyMap String Measurement) (acc : DiffAcc) (key : String) :
    DiffAcc :=
  if lookIn mb key = lookIn ma key then { acc with unchanged := acc.unchanged + 1 }
  else { acc with changed := acc.changed ++ [⟨id, key, lookIn mb key, lookIn ma key⟩] }

/-- `[...new Set([...Object.keys(mb), ...Object.keys(ma)])].sort()`. -/
def unionKeys (mb ma : KeyMap String Measurement) : List String :=
  sortStrings (distinct (mb.keys ++ ma.keys))

/-- One shared result. -/
def diffResult (a b : KeyMap String TestResult) (acc : DiffAcc) (id : String) : DiffAcc :=
  match a.get? id, b.get? id with
  | some before, some after =>
      let acc := if before.status ≠ after.status then
          { acc with statusChanged := acc.statusChanged ++ [⟨id, before.status, after.status⟩] }
        else acc
      (unionKeys (measurements before) (measurements after)).foldl
        (diffKey id (measurements before) (measurements after)) acc
  | _, _ => acc

def sharedIds (a b : KeyMap String TestResult) : List String :=
  sortStrings (a.keys.filter fun id => b.has id)

def diffArtifacts (prev cur : RunArtifact) : ArtifactDiff :=
  let a := byId prev
  let b := byId cur
  let acc := (sharedIds a b).foldl (diffResult a b) {}
  { added := sortStrings (b.keys.filter fun id => !a.has id)
    removed := sortStrings (a.keys.filter fun id => !b.has id)
    changed := acc.changed
    statusChanged := acc.statusChanged
    unchanged := acc.unchanged }

/-! ## What an artifact holds -/

/-- The artifact holds `v` under that id and key, in one result or another. -/
def RunArtifact.Holds (a : RunArtifact) (id key : String) (v : Measurement) : Prop :=
  ∃ r ∈ a.results, r.id = id ∧ (measurements r).get? key = some v

def RunArtifact.Has (a : RunArtifact) (id key : String) : Prop := ∃ v, a.Holds id key v

/-- The results kept by `byId` are results of the artifact. -/
theorem byId_get? {a : RunArtifact} {id : String} {r : TestResult}
    (h : (byId a).get? id = some r) : r ∈ a.results ∧ r.id = id := by
  have hfold : ∀ (l : List TestResult) (m : KeyMap String TestResult),
      (l.foldl (fun m r => m.set r.id r) m).get? id = some r →
      (r ∈ l ∧ r.id = id) ∨ m.get? id = some r := by
    intro l
    induction l with
    | nil => exact fun m hm => .inr hm
    | cons x l ih =>
      intro m hm
      rcases ih _ hm with ⟨hmem, hid⟩ | hset
      · exact .inl ⟨List.mem_cons_of_mem _ hmem, hid⟩
      · rw [KeyMap.get?_set] at hset
        split at hset
        · rename_i heq
          rw [← Option.some.inj hset]
          exact .inl ⟨List.mem_cons_self, heq.symm⟩
        · exact .inr hset
  rcases hfold a.results .empty h with hmem | hempty
  · exact hmem
  · rw [KeyMap.get?_empty] at hempty
    cases hempty

/-- An id is known to `byId` exactly when a result has it. -/
theorem byId_has {a : RunArtifact} {id : String} :
    (byId a).has id = true ↔ ∃ r ∈ a.results, r.id = id := by
  have hfold : ∀ (l : List TestResult) (m : KeyMap String TestResult),
      (l.foldl (fun m r => m.set r.id r) m).has id = true ↔
      (∃ r ∈ l, r.id = id) ∨ m.has id = true := by
    intro l
    induction l with
    | nil => intro m; simp
    | cons x l ih =>
      intro m
      rw [List.foldl_cons, ih, KeyMap.has_eq, KeyMap.get?_set, List.exists_mem_cons_iff]
      by_cases hid : id = x.id
      · simp [hid]
      · rw [if_neg hid, KeyMap.has_eq]
        have : ¬ x.id = id := fun h => hid h.symm
        simp [this]
  rw [byId, hfold]
  simp [KeyMap.has_eq]

theorem RunArtifact.Has.byId_has {a : RunArtifact} {id key : String} (h : a.Has id key) :
    (byId a).has id = true := by
  obtain ⟨v, r, hr, hid, -⟩ := h
  exact Harness.byId_has.mpr ⟨r, hr, hid⟩

theorem holds_of_byId {a : RunArtifact} {id key : String} {r : TestResult} {v : Measurement}
    (hr : (byId a).get? id = some r) (hv : (measurements r).get? key = some v) :
    a.Holds id key v := by
  obtain ⟨hmem, hid⟩ := byId_get? hr
  exact ⟨r, hmem, hid, hv⟩

/-! ## The loops, as lists -/

section Loops

variable {a b : KeyMap String TestResult} {mb ma : KeyMap String Measurement} {id key : String}

theorem mem_unionKeys : key ∈ unionKeys mb ma ↔ mb.has key = true ∨ ma.has key = true := by
  rw [unionKeys, mem_sortStrings, mem_distinct, List.mem_append, KeyMap.mem_keys, KeyMap.mem_keys,
    KeyMap.has_eq, KeyMap.has_eq]

theorem nodup_unionKeys : (unionKeys mb ma).Nodup :=
  nodup_sortStrings.mpr (nodup_distinct _)

/-- The keys of one shared result that are counted as unchanged. -/
def sameKeys (mb ma : KeyMap String Measurement) : List String :=
  (unionKeys mb ma).filter fun key => lookIn mb key = lookIn ma key

def changedKeys (mb ma : KeyMap String Measurement) : List String :=
  (unionKeys mb ma).filter fun key => lookIn mb key ≠ lookIn ma key

theorem foldl_diffKey (l : List String) (acc : DiffAcc) :
    l.foldl (diffKey id mb ma) acc =
      { changed := acc.changed ++ (l.filter fun key => lookIn mb key ≠ lookIn ma key).map fun key =>
          ⟨id, key, lookIn mb key, lookIn ma key⟩
        statusChanged := acc.statusChanged
        unchanged := acc.unchanged + (l.filter fun key => lookIn mb key = lookIn ma key).length } := by
  induction l generalizing acc with
  | nil => simp
  | cons key l ih =>
    rw [List.foldl_cons, ih, diffKey]
    by_cases h : lookIn mb key = lookIn ma key
    · simp [h]
      omega
    · simp [h]

/-- What one shared result adds. -/
def resultSame (a b : KeyMap String TestResult) (id : String) : List (String × String) :=
  match a.get? id, b.get? id with
  | some before, some after =>
      (sameKeys (measurements before) (measurements after)).map fun key => (id, key)
  | _, _ => []

def resultChanged (a b : KeyMap String TestResult) (id : String) : List MeasurementChange :=
  match a.get? id, b.get? id with
  | some before, some after =>
      (changedKeys (measurements before) (measurements after)).map fun key =>
        ⟨id, key, lookIn (measurements before) key, lookIn (measurements after) key⟩
  | _, _ => []

def resultStatus (a b : KeyMap String TestResult) (id : String) : List StatusChange :=
  match a.get? id, b.get? id with
  | some before, some after =>
      if before.status ≠ after.status then [⟨id, before.status, after.status⟩] else []
  | _, _ => []

theorem diffResult_eq (acc : DiffAcc) :
    diffResult a b acc id =
      { changed := acc.changed ++ resultChanged a b id
        statusChanged := acc.statusChanged ++ resultStatus a b id
        unchanged := acc.unchanged + (resultSame a b id).length } := by
  unfold diffResult resultChanged resultStatus resultSame
  cases a.get? id with
  | none => simp
  | some before =>
    cases b.get? id with
    | none => simp
    | some after =>
      dsimp only
      rw [foldl_diffKey, List.length_map]
      by_cases h : before.status = after.status
      · simp [h, changedKeys, sameKeys]
      · simp [h, changedKeys, sameKeys]

theorem foldl_diffResult (l : List String) (acc : DiffAcc) :
    l.foldl (diffResult a b) acc =
      { changed := acc.changed ++ l.flatMap (resultChanged a b)
        statusChanged := acc.statusChanged ++ l.flatMap (resultStatus a b)
        unchanged := acc.unchanged + (l.flatMap (resultSame a b)).length } := by
  induction l generalizing acc with
  | nil => simp
  | cons id l ih =>
    rw [List.foldl_cons, ih, diffResult_eq]
    simp only [List.flatMap_cons, List.append_assoc, List.length_append, Nat.add_assoc]

end Loops

/-! ## The pairs the comparison accounts for -/

section Pairs

variable {a b : KeyMap String TestResult} {mb ma : KeyMap String Measurement}

/-- Some keys of a result that both artifacts have. -/
def keysAt (f : KeyMap String Measurement → KeyMap String Measurement → List String)
    (a b : KeyMap String TestResult) (id : String) : List String :=
  match a.get? id, b.get? id with
  | some before, some after => f (measurements before) (measurements after)
  | _, _ => []

def pairsOf (f : KeyMap String Measurement → KeyMap String Measurement → List String)
    (a b : KeyMap String TestResult) : List (String × String) :=
  (sharedIds a b).flatMap fun id => (keysAt f a b id).map fun key => (id, key)

theorem mem_sharedIds {id : String} : id ∈ sharedIds a b ↔ a.has id = true ∧ b.has id = true := by
  rw [sharedIds, mem_sortStrings, List.mem_filter, KeyMap.mem_keys, KeyMap.has_eq a]

theorem nodup_sharedIds : (sharedIds a b).Nodup :=
  nodup_sortStrings.mpr (a.nodup.filter _)

theorem mem_pairsOf {f : KeyMap String Measurement → KeyMap String Measurement → List String}
    {id key : String} : (id, key) ∈ pairsOf f a b ↔
      ∃ r s, a.get? id = some r ∧ b.get? id = some s ∧ key ∈ f (measurements r) (measurements s) := by
  unfold pairsOf
  rw [List.mem_flatMap]
  constructor
  · rintro ⟨id', -, hmem⟩
    obtain ⟨key', hkey, heq⟩ := List.mem_map.mp hmem
    obtain ⟨rfl, rfl⟩ := Prod.mk.inj heq
    unfold keysAt at hkey
    split at hkey
    · rename_i r s hr hs
      exact ⟨r, s, hr, hs, hkey⟩
    · exact absurd hkey List.not_mem_nil
  · rintro ⟨r, s, hr, hs, hkey⟩
    refine ⟨id, mem_sharedIds.mpr ⟨?_, ?_⟩, List.mem_map.mpr ⟨key, ?_, rfl⟩⟩
    · rw [KeyMap.has_eq, hr]
      rfl
    · rw [KeyMap.has_eq, hs]
      rfl
    · unfold keysAt
      rw [hr, hs]
      exact hkey

theorem nodup_pairsOf {f : KeyMap String Measurement → KeyMap String Measurement → List String}
    (hf : ∀ mb ma, (f mb ma).Nodup) : (pairsOf f a b).Nodup := by
  unfold pairsOf
  refine List.nodup_flatMap.mpr ⟨fun id _ => ?_, nodup_sharedIds.imp fun hne => ?_⟩
  · refine List.Nodup.map (fun key key' heq => (Prod.mk.inj heq).2) ?_
    unfold keysAt
    split
    · exact hf _ _
    · exact List.nodup_nil
  · intro x hx hy
    obtain ⟨key, -, rfl⟩ := List.mem_map.mp hx
    obtain ⟨key', -, heq⟩ := List.mem_map.mp hy
    exact hne (Prod.mk.inj heq).1.symm

theorem nodup_sameKeys (mb ma : KeyMap String Measurement) : (sameKeys mb ma).Nodup :=
  nodup_unionKeys.filter _

theorem nodup_changedKeys (mb ma : KeyMap String Measurement) : (changedKeys mb ma).Nodup :=
  nodup_unionKeys.filter _

theorem mem_sameKeys {key : String} : key ∈ sameKeys mb ma ↔
    (mb.has key = true ∨ ma.has key = true) ∧ lookIn mb key = lookIn ma key := by
  rw [sameKeys, List.mem_filter, mem_unionKeys, decide_eq_true_eq]

theorem mem_changedKeys {key : String} : key ∈ changedKeys mb ma ↔
    (mb.has key = true ∨ ma.has key = true) ∧ lookIn mb key ≠ lookIn ma key := by
  rw [changedKeys, List.mem_filter, mem_unionKeys, decide_eq_true_eq]

theorem flatMap_resultSame :
    (sharedIds a b).flatMap (resultSame a b) = pairsOf sameKeys a b := by
  refine List.flatMap_congr fun id _ => ?_
  unfold resultSame keysAt
  split
  · rfl
  · rfl

theorem flatMap_resultChanged :
    ((sharedIds a b).flatMap (resultChanged a b)).map (fun c => (c.id, c.key)) =
      pairsOf changedKeys a b := by
  rw [List.map_flatMap]
  refine List.flatMap_congr fun id _ => ?_
  unfold resultChanged keysAt
  split
  · rw [List.map_map]
    rfl
  · rfl

end Pairs

/-! ## `diffArtifacts`, in one piece -/

section Whole

variable (prev cur : RunArtifact)

theorem diffArtifacts_eq : diffArtifacts prev cur =
    { added := sortStrings ((byId cur).keys.filter fun id => !(byId prev).has id)
      removed := sortStrings ((byId prev).keys.filter fun id => !(byId cur).has id)
      changed := (sharedIds (byId prev) (byId cur)).flatMap (resultChanged (byId prev) (byId cur))
      statusChanged :=
        (sharedIds (byId prev) (byId cur)).flatMap (resultStatus (byId prev) (byId cur))
      unchanged := (pairsOf sameKeys (byId prev) (byId cur)).length } := by
  unfold diffArtifacts
  dsimp only
  rw [foldl_diffResult, ← flatMap_resultSame]
  simp only [List.nil_append, Nat.zero_add]

variable {prev cur}

theorem mem_added {id : String} : id ∈ (diffArtifacts prev cur).added ↔
    (byId cur).has id = true ∧ (byId prev).has id = false := by
  rw [diffArtifacts_eq, mem_sortStrings, List.mem_filter, KeyMap.mem_keys, Bool.not_eq_true',
    KeyMap.has_eq (byId cur)]

theorem mem_removed {id : String} : id ∈ (diffArtifacts prev cur).removed ↔
    (byId prev).has id = true ∧ (byId cur).has id = false := by
  rw [diffArtifacts_eq, mem_sortStrings, List.mem_filter, KeyMap.mem_keys, Bool.not_eq_true',
    KeyMap.has_eq (byId prev)]

theorem nodup_added : (diffArtifacts prev cur).added.Nodup := by
  rw [diffArtifacts_eq]
  exact nodup_sortStrings.mpr ((byId cur).nodup.filter _)

theorem nodup_removed : (diffArtifacts prev cur).removed.Nodup := by
  rw [diffArtifacts_eq]
  exact nodup_sortStrings.mpr ((byId prev).nodup.filter _)

theorem changed_pairs : (diffArtifacts prev cur).changed.map (fun c => (c.id, c.key)) =
    pairsOf changedKeys (byId prev) (byId cur) := by
  rw [diffArtifacts_eq]
  exact flatMap_resultChanged

end Whole

/-! ## The mirror image -/

/-- The comparison the other way round. -/
def ArtifactDiff.mirror (d : ArtifactDiff) : ArtifactDiff where
  added := d.removed
  removed := d.added
  changed := d.changed.map fun c => ⟨c.id, c.key, c.toValue, c.fromValue⟩
  statusChanged := d.statusChanged.map fun s => ⟨s.id, s.toStatus, s.fromStatus⟩
  unchanged := d.unchanged

/-- The comparison reports no difference. -/
def ArtifactDiff.Quiet (d : ArtifactDiff) : Prop :=
  d.added = [] ∧ d.removed = [] ∧ d.changed = [] ∧ d.statusChanged = []

section Mirror

variable {a b : KeyMap String TestResult} {mb ma : KeyMap String Measurement} {id : String}

theorem sharedIds_comm : sharedIds b a = sharedIds a b := by
  refine sortStrings_congr ?_
  refine (List.perm_ext_iff_of_nodup (b.nodup.filter _) (a.nodup.filter _)).mpr fun id => ?_
  rw [← KeyMap.keys, ← KeyMap.keys, List.mem_filter, List.mem_filter, KeyMap.mem_keys,
    KeyMap.mem_keys, KeyMap.has_eq, KeyMap.has_eq]
  exact and_comm

theorem unionKeys_comm : unionKeys ma mb = unionKeys mb ma := by
  refine sortStrings_congr (distinct_perm fun key => ?_)
  rw [List.mem_append, List.mem_append]
  exact or_comm

theorem changedKeys_comm : changedKeys ma mb = changedKeys mb ma := by
  unfold changedKeys
  rw [unionKeys_comm]
  refine List.filter_congr fun key _ => ?_
  rw [decide_eq_decide]
  exact ne_comm

theorem sameKeys_comm : sameKeys ma mb = sameKeys mb ma := by
  unfold sameKeys
  rw [unionKeys_comm]
  refine List.filter_congr fun key _ => ?_
  rw [decide_eq_decide]
  exact eq_comm

theorem resultChanged_comm : resultChanged b a id =
    (resultChanged a b id).map fun c => ⟨c.id, c.key, c.toValue, c.fromValue⟩ := by
  unfold resultChanged
  cases a.get? id with
  | none => cases b.get? id <;> rfl
  | some r =>
    cases b.get? id with
    | none => rfl
    | some s =>
      dsimp only
      rw [changedKeys_comm, List.map_map]
      rfl

theorem resultStatus_comm : resultStatus b a id =
    (resultStatus a b id).map fun s => ⟨s.id, s.toStatus, s.fromStatus⟩ := by
  unfold resultStatus
  cases a.get? id with
  | none => cases b.get? id <;> rfl
  | some r =>
    cases b.get? id with
    | none => rfl
    | some s =>
      by_cases h : r.status = s.status
      · simp [h]
      · have h' : ¬ s.status = r.status := fun hs => h hs.symm
        simp [h, h']

theorem keysAt_sameKeys_comm : keysAt sameKeys b a id = keysAt sameKeys a b id := by
  unfold keysAt
  cases a.get? id with
  | none => cases b.get? id <;> rfl
  | some r =>
    cases b.get? id with
    | none => rfl
    | some s => exact sameKeys_comm

theorem pairsOf_sameKeys_comm : pairsOf sameKeys b a = pairsOf sameKeys a b := by
  unfold pairsOf
  rw [sharedIds_comm]
  refine List.flatMap_congr fun id _ => ?_
  rw [keysAt_sameKeys_comm]

/-- Comparing the other way round gives the mirror image. -/
theorem diffArtifacts_mirror (prev cur : RunArtifact) :
    diffArtifacts cur prev = (diffArtifacts prev cur).mirror := by
  rw [diffArtifacts_eq, diffArtifacts_eq prev cur, ArtifactDiff.mirror, ArtifactDiff.mk.injEq]
  refine ⟨rfl, rfl, ?_, ?_, ?_⟩
  · rw [sharedIds_comm, List.map_flatMap]
    exact List.flatMap_congr fun id _ => resultChanged_comm
  · rw [sharedIds_comm, List.map_flatMap]
    exact List.flatMap_congr fun id _ => resultStatus_comm
  · rw [pairsOf_sameKeys_comm]

theorem changedKeys_self (m : KeyMap String Measurement) : changedKeys m m = [] := by
  unfold changedKeys
  simp

theorem resultChanged_self : resultChanged a a id = [] := by
  unfold resultChanged
  cases a.get? id with
  | none => rfl
  | some r =>
    dsimp only
    rw [changedKeys_self, List.map_nil]

theorem resultStatus_self : resultStatus a a id = [] := by
  unfold resultStatus
  cases a.get? id with
  | none => rfl
  | some r => exact if_neg fun h => h rfl

theorem filter_not_has_self : (a.keys.filter fun id => !a.has id) = [] := by
  refine List.filter_eq_nil_iff.mpr fun id hid => ?_
  rw [KeyMap.has_eq, KeyMap.mem_keys.mp hid]
  decide

/-- An artifact does not differ from itself. -/
theorem diffArtifacts_self (a : RunArtifact) : (diffArtifacts a a).Quiet := by
  rw [diffArtifacts_eq]
  refine ⟨?_, ?_, ?_, ?_⟩
  · rw [filter_not_has_self]
    exact List.mergeSort_nil
  · rw [filter_not_has_self]
    exact List.mergeSort_nil
  · exact List.flatMap_eq_nil_iff.mpr fun id _ => resultChanged_self
  · exact List.flatMap_eq_nil_iff.mpr fun id _ => resultStatus_self

end Mirror

end SupabaseLab.Harness
