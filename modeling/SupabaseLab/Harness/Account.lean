/-
  Harness/Account.lean --- which measurements a comparison accounts for.

  Every pair of a result id and a measurement key that one of the artifacts holds
  should be in exactly one place: unchanged, changed, or under a result that was
  added or removed.  Two lookups of `diffArtifacts` break that: a repeated id
  hides all results but the last, and `null` stands both for an absent key and
  for a `null` value.  `Compared` says that neither happens.
-/
import SupabaseLab.Harness.Diff

set_option autoImplicit false

namespace SupabaseLab.Harness

open Library

/-- `d` accounts for every measurement of the artifacts, `same` being the pairs it
counts as unchanged. -/
structure Accounts (prev cur : RunArtifact) (d : ArtifactDiff) (same : List (String × String)) :
    Prop where
  counted : same.length = d.unchanged
  equal : ∀ id key, (id, key) ∈ same → prev.Has id key ∧ cur.Has id key ∧
    ∀ v w, prev.Holds id key v → cur.Holds id key w → v = w
  once : ∀ id key, prev.Has id key ∨ cur.Has id key →
    same.count (id, key) + (d.changed.map fun c => (c.id, c.key)).count (id, key) +
      d.added.count id + d.removed.count id = 1

/-- What a comparison of two artifacts should be. -/
structure Faithful (prev cur : RunArtifact) : Prop where
  accounts : ∃ same, Accounts prev cur (diffArtifacts prev cur) same
  mirror : diffArtifacts cur prev = (diffArtifacts prev cur).mirror
  self : (diffArtifacts prev prev).Quiet

/-- One key is missing where the other result has it with the value `null`, and
the lookup does not find an inherited property instead. -/
def NullForAbsent (mb ma : KeyMap String Measurement) (key : String) : Prop :=
  mb.get? key = some .null ∧ ma.get? key = none ∧ key ∉ objectPrototype

/-- Both artifacts hold the key under that id, and nothing but `null`. -/
def OnlyNull (prev cur : RunArtifact) (id key : String) : Prop :=
  prev.Has id key ∧ cur.Has id key ∧ ∀ w, prev.Holds id key w ∨ cur.Holds id key w → w = .null

/-- What the lookups of `diffArtifacts` must not hide, about a key of a result
that both artifacts have, `r` and `s` being the last results with that id. -/
structure ComparedAt (prev cur : RunArtifact) (id key : String) (r s : TestResult) : Prop where
  shown : prev.Has id key ∨ cur.Has id key →
    (measurements r).has key = true ∨ (measurements s).has key = true
  notNull : NullForAbsent (measurements r) (measurements s) key ∨
    NullForAbsent (measurements s) (measurements r) key → OnlyNull prev cur id key
  agree : ∀ v, (measurements r).get? key = some v → (measurements s).get? key = some v →
    ∀ w, prev.Holds id key w ∨ cur.Holds id key w → w = v

def Compared (prev cur : RunArtifact) : Prop :=
  ∀ id r s, (byId prev).get? id = some r → (byId cur).get? id = some s →
    ∀ key, ComparedAt prev cur id key r s

/-! ## One key -/

section Key

variable {mb ma : KeyMap String Measurement} {key : String}

/-- Two lookups agree in three cases: equal values, a `null` value and an absent
key, or two absent keys. -/
theorem lookIn_eq_iff : lookIn mb key = lookIn ma key ↔
    mb.get? key = ma.get? key ∨ NullForAbsent mb ma key ∨ NullForAbsent ma mb key := by
  unfold lookIn NullForAbsent
  cases hb : mb.get? key with
  | some v =>
    cases ha : ma.get? key with
    | some w => simp
    | none =>
      by_cases hkey : key ∈ objectPrototype
      · simp [hkey]
      · simp [hkey]
  | none =>
    cases ha : ma.get? key with
    | some w =>
      by_cases hkey : key ∈ objectPrototype
      · simp [hkey]
      · simp [hkey, eq_comm]
    | none => simp

theorem has_of_get? {m : KeyMap String Measurement} {v : Measurement} (h : m.get? key = some v) :
    m.has key = true := by
  rw [KeyMap.has_eq, h]
  rfl

end Key

/-! ## One pair -/

section Pair

variable {prev cur : RunArtifact} {id key : String} {r s : TestResult}

/-- Of a result that both artifacts have, a pair is counted as unchanged or as
changed. -/
theorem count_shared (hr : (byId prev).get? id = some r) (hs : (byId cur).get? id = some s)
    (hshown : (measurements r).has key = true ∨ (measurements s).has key = true) :
    (pairsOf sameKeys (byId prev) (byId cur)).count (id, key) +
      (pairsOf changedKeys (byId prev) (byId cur)).count (id, key) = 1 := by
  rw [(nodup_pairsOf nodup_sameKeys).count, (nodup_pairsOf nodup_changedKeys).count]
  have hof : ∀ f : KeyMap String Measurement → KeyMap String Measurement → List String,
      (id, key) ∈ pairsOf f (byId prev) (byId cur) ↔ key ∈ f (measurements r) (measurements s) := by
    intro f
    rw [mem_pairsOf]
    constructor
    · rintro ⟨r', s', hr', hs', hkey⟩
      rw [hr] at hr'
      rw [hs] at hs'
      cases hr'
      cases hs'
      exact hkey
    · exact fun hkey => ⟨r, s, hr, hs, hkey⟩
  by_cases heq : lookIn (measurements r) key = lookIn (measurements s) key
  · rw [if_pos ((hof _).mpr (mem_sameKeys.mpr ⟨hshown, heq⟩)),
      if_neg fun h => (mem_changedKeys.mp ((hof _).mp h)).2 heq]
  · rw [if_neg fun h => heq (mem_sameKeys.mp ((hof _).mp h)).2,
      if_pos ((hof _).mpr (mem_changedKeys.mpr ⟨hshown, heq⟩))]

/-- Pairs are only counted under results that both artifacts have. -/
theorem count_pairsOf_of_not_shared
    {f : KeyMap String Measurement → KeyMap String Measurement → List String}
    (h : ¬((byId prev).has id = true ∧ (byId cur).has id = true)) :
    (pairsOf f (byId prev) (byId cur)).count (id, key) = 0 := by
  refine List.count_eq_zero.mpr fun hmem => h ?_
  obtain ⟨r, s, hr, hs, -⟩ := mem_pairsOf.mp hmem
  rw [KeyMap.has_eq, KeyMap.has_eq, hr, hs]
  exact ⟨rfl, rfl⟩

theorem count_added : (diffArtifacts prev cur).added.count id =
    if (byId cur).has id = true ∧ (byId prev).has id = false then 1 else 0 := by
  rw [nodup_added.count]
  exact if_congr mem_added rfl rfl

theorem count_removed : (diffArtifacts prev cur).removed.count id =
    if (byId prev).has id = true ∧ (byId cur).has id = false then 1 else 0 := by
  rw [nodup_removed.count]
  exact if_congr mem_removed rfl rfl

/-- A pair under a result that only one artifact has goes with the result. -/
theorem once_of_not_shared (hhas : prev.Has id key ∨ cur.Has id key)
    (h : ¬((byId prev).has id = true ∧ (byId cur).has id = true)) :
    (diffArtifacts prev cur).added.count id + (diffArtifacts prev cur).removed.count id = 1 := by
  rw [count_added, count_removed]
  rcases hhas with hhas | hhas
  · have hprev := hhas.byId_has
    have hcur : (byId cur).has id = false := by
      rw [Bool.eq_false_iff]
      exact fun hc => h ⟨hprev, hc⟩
    simp [hprev, hcur]
  · have hcur := hhas.byId_has
    have hprev : (byId prev).has id = false := by
      rw [Bool.eq_false_iff]
      exact fun hp => h ⟨hp, hcur⟩
    simp [hprev, hcur]

end Pair

/-! ## The condition is enough -/

section Enough

variable {prev cur : RunArtifact}

theorem accounts_of_compared (h : Compared prev cur) :
    Accounts prev cur (diffArtifacts prev cur) (pairsOf sameKeys (byId prev) (byId cur)) where
  counted := by rw [diffArtifacts_eq]
  equal := by
    intro id key hmem
    obtain ⟨r, s, hr, hs, hkey⟩ := mem_pairsOf.mp hmem
    obtain ⟨hshown, hlook⟩ := mem_sameKeys.mp hkey
    obtain ⟨-, hnull, hagree⟩ := h id r s hr hs key
    rcases lookIn_eq_iff.mp hlook with hget | hbad
    swap
    · obtain ⟨hprev, hcur, hall⟩ := hnull hbad
      refine ⟨hprev, hcur, fun x y hx hy => ?_⟩
      rw [hall x (.inl hx), hall y (.inr hy)]
    obtain ⟨v, hv⟩ : ∃ v, (measurements r).get? key = some v := by
      rcases hshown with hhas | hhas
      · exact Option.isSome_iff_exists.mp hhas
      · rw [hget]
        exact Option.isSome_iff_exists.mp hhas
    refine ⟨⟨v, holds_of_byId hr hv⟩, ⟨v, holds_of_byId hs (hget ▸ hv)⟩, fun x y hx hy => ?_⟩
    rw [hagree v hv (hget ▸ hv) x (.inl hx), hagree v hv (hget ▸ hv) y (.inr hy)]
  once := by
    intro id key hhas
    rw [changed_pairs]
    by_cases hshared : (byId prev).has id = true ∧ (byId cur).has id = true
    · obtain ⟨r, hr⟩ := Option.isSome_iff_exists.mp hshared.1
      obtain ⟨s, hs⟩ := Option.isSome_iff_exists.mp hshared.2
      rw [count_shared hr hs ((h id r s hr hs key).shown hhas), count_added, count_removed,
        hshared.1, hshared.2]
      simp
    · rw [count_pairsOf_of_not_shared hshared, count_pairsOf_of_not_shared hshared, Nat.zero_add]
      exact once_of_not_shared hhas hshared

end Enough

/-! ## The condition is needed -/

section Needed

variable {prev cur : RunArtifact} {same : List (String × String)} {id key : String}
  {r s : TestResult}

/-- Everything the code counts as unchanged is in `same`. -/
theorem mem_same_of_counted (h : Accounts prev cur (diffArtifacts prev cur) same)
    (hmem : (id, key) ∈ pairsOf sameKeys (byId prev) (byId cur)) : (id, key) ∈ same := by
  obtain ⟨r, s, hr, hs, hkey⟩ := mem_pairsOf.mp hmem
  have hshown := (mem_sameKeys.mp hkey).1
  have hhas : prev.Has id key ∨ cur.Has id key := by
    rcases hshown with hhas | hhas
    · obtain ⟨v, hv⟩ := Option.isSome_iff_exists.mp hhas
      exact .inl ⟨v, holds_of_byId hr hv⟩
    · obtain ⟨v, hv⟩ := Option.isSome_iff_exists.mp hhas
      exact .inr ⟨v, holds_of_byId hs hv⟩
  have honce := h.once id key hhas
  have hcount := count_shared hr hs hshown
  rw [(nodup_pairsOf nodup_sameKeys).count, if_pos hmem] at hcount
  have hids : (byId prev).has id = true ∧ (byId cur).has id = true := by
    rw [KeyMap.has_eq, KeyMap.has_eq, hr, hs]
    exact ⟨rfl, rfl⟩
  rw [changed_pairs, count_added, count_removed, hids.1, hids.2] at honce
  refine List.count_pos_iff.mp ?_
  simp only [Bool.true_eq_false, and_false, if_false] at honce
  omega

/-- A pair that no last result shows is counted nowhere: `same` would have to be
longer than the count. -/
theorem shown_of_accounts (h : Accounts prev cur (diffArtifacts prev cur) same)
    (hr : (byId prev).get? id = some r) (hs : (byId cur).get? id = some s)
    (hhas : prev.Has id key ∨ cur.Has id key) :
    (measurements r).has key = true ∨ (measurements s).has key = true := by
  by_contra hhidden
  have hnot : ∀ f : KeyMap String Measurement → KeyMap String Measurement → List String,
      (∀ mb ma, key ∈ f mb ma → mb.has key = true ∨ ma.has key = true) →
      (id, key) ∉ pairsOf f (byId prev) (byId cur) := by
    intro f hf hmem
    obtain ⟨r', s', hr', hs', hkey⟩ := mem_pairsOf.mp hmem
    rw [hr] at hr'
    rw [hs] at hs'
    cases hr'
    cases hs'
    exact hhidden (hf _ _ hkey)
  have hsame := hnot sameKeys fun mb ma hkey => (mem_sameKeys.mp hkey).1
  have hchanged := hnot changedKeys fun mb ma hkey => (mem_changedKeys.mp hkey).1
  have hids : (byId prev).has id = true ∧ (byId cur).has id = true := by
    rw [KeyMap.has_eq, KeyMap.has_eq, hr, hs]
    exact ⟨rfl, rfl⟩
  have honce := h.once id key hhas
  rw [changed_pairs, List.count_eq_zero.mpr hchanged, count_added, count_removed, hids.1,
    hids.2] at honce
  have hmem : (id, key) ∈ same := by
    refine List.count_pos_iff.mp ?_
    simp only [Bool.true_eq_false, and_false, if_false] at honce
    omega
  have hsub : (id, key) :: pairsOf sameKeys (byId prev) (byId cur) ⊆ same := by
    intro e he
    rcases List.mem_cons.mp he with rfl | he
    · exact hmem
    · exact mem_same_of_counted h he
  have hlength := (List.subperm_of_subset
    (List.nodup_cons.mpr ⟨hsame, nodup_pairsOf nodup_sameKeys⟩) hsub).length_le
  rw [h.counted, diffArtifacts_eq, List.length_cons] at hlength
  dsimp only at hlength
  omega

/-- Lookups that agree were of equal values. -/
theorem equal_of_accounts (h : Accounts prev cur (diffArtifacts prev cur) same)
    (hr : (byId prev).get? id = some r) (hs : (byId cur).get? id = some s)
    (hshown : (measurements r).has key = true ∨ (measurements s).has key = true)
    (hlook : lookIn (measurements r) key = lookIn (measurements s) key) :
    prev.Has id key ∧ cur.Has id key ∧
      ∀ v w, prev.Holds id key v → cur.Holds id key w → v = w :=
  h.equal id key (mem_same_of_counted h
    (mem_pairsOf.mpr ⟨r, s, hr, hs, mem_sameKeys.mpr ⟨hshown, hlook⟩⟩))

theorem compared_of_accounts (h : Accounts prev cur (diffArtifacts prev cur) same) :
    Compared prev cur := by
  intro id r s hr hs key
  refine ⟨shown_of_accounts h hr hs, fun hbad => ?_, fun v hv hv' w hw => ?_⟩
  · -- one of the two results has the key with `null`, so every value must be `null`
    have hlook := lookIn_eq_iff.mpr (.inr hbad)
    rcases hbad with ⟨hnull, -, -⟩ | ⟨hnull, -, -⟩
    · obtain ⟨hprev, hcur, hall⟩ := equal_of_accounts h hr hs (.inl (has_of_get? hnull)) hlook
      obtain ⟨x, hx⟩ := hcur
      have hxnull := hall _ _ (holds_of_byId hr hnull) hx
      refine ⟨hprev, ⟨x, hx⟩, fun w hw => ?_⟩
      rcases hw with hw | hw
      · rw [hall w x hw hx, hxnull]
      · exact (hall _ w (holds_of_byId hr hnull) hw).symm
    · obtain ⟨⟨x, hx⟩, hcur, hall⟩ := equal_of_accounts h hr hs (.inr (has_of_get? hnull)) hlook
      have hxnull := hall _ _ hx (holds_of_byId hs hnull)
      refine ⟨⟨x, hx⟩, hcur, fun w hw => ?_⟩
      rcases hw with hw | hw
      · exact hall w _ hw (holds_of_byId hs hnull)
      · rw [← hall x w hx hw, hxnull]
  · have hlook := lookIn_eq_iff.mpr (.inl (hv.trans hv'.symm))
    obtain ⟨-, -, hall⟩ := equal_of_accounts h hr hs (.inl (has_of_get? hv)) hlook
    rcases hw with hw | hw
    · exact hall w v hw (holds_of_byId hs hv')
    · exact (hall v w (holds_of_byId hr hv) hw).symm

end Needed

/-! ## The comparison -/

/-- A comparison accounts for every measurement exactly when no lookup hides one. -/
theorem diffArtifacts_faithful_iff (prev cur : RunArtifact) :
    Faithful prev cur ↔ Compared prev cur := by
  constructor
  · rintro ⟨⟨same, haccounts⟩, -, -⟩
    exact compared_of_accounts haccounts
  · intro h
    exact ⟨⟨_, accounts_of_compared h⟩, diffArtifacts_mirror prev cur, diffArtifacts_self prev⟩

/-- An artifact of a few results. -/
def artifactOf (results : List TestResult) : RunArtifact where
  startedAt := "2026-08-01T00:00:00.000Z"
  finishedAt := "2026-08-01T00:01:00.000Z"
  vantage := .«local»
  region := "ap-southeast-1"
  ref := "abcdefghijklmnopqrst"
  toolVersions := .empty
  results := results

/-- A result with one measurement. -/
def resultOf (id key : String) (v : Measurement) : TestResult where
  id := id
  title := id
  status := .info
  measurements := some (KeyMap.empty.set key v)

/-- A key that appears with the value `null` is counted as unchanged, and the
first of two results with one id is in no part of the comparison. -/
theorem diffArtifacts_not_faithful :
    ¬ Faithful (artifactOf [{ id := "F01", title := "F01", status := .info }])
        (artifactOf [resultOf "F01" "rows" .null]) ∧
      ¬ Faithful (artifactOf [resultOf "F01" "plan" (.text "pro"), resultOf "F01" "days" (.number 7)])
        (artifactOf [resultOf "F01" "days" (.number 7)]) := by
  refine ⟨fun h => ?_, fun h => ?_⟩
  · obtain ⟨same, haccounts⟩ := h.accounts
    have hcompared := compared_of_accounts haccounts "F01" _ _ rfl rfl "rows"
    obtain ⟨⟨v, r, hr, -, hv⟩, -⟩ := hcompared.notNull (.inr ⟨rfl, rfl, by decide⟩)
    rw [List.mem_singleton.mp hr] at hv
    cases hv
  · obtain ⟨same, haccounts⟩ := h.accounts
    have hcompared := compared_of_accounts haccounts "F01" _ _ rfl rfl "plan"
    have hhas : (artifactOf [resultOf "F01" "plan" (.text "pro"),
        resultOf "F01" "days" (.number 7)]).Has "F01" "plan" :=
      ⟨.text "pro", _, List.mem_cons_self, rfl, rfl⟩
    rcases hcompared.shown (.inl hhas) with hshown | hshown
    · cases hshown
    · cases hshown

end SupabaseLab.Harness
