/-
  CrossProject/Paging.lean --- reading all rows of all projects, page by page.

  The loop over pages is the one of `walk` in
  experiments/cross-project-auth/lib/merge.test.ts, with `exactCursor`.  The database
  and the merge order rows by the same key, so every page is the next part of one
  ranked list.
-/
import SupabaseLab.CrossProject.Merge

set_option autoImplicit false

namespace SupabaseLab.CrossProject

open Library Library.Postgrest

/-! ## The loop -/

/-- One page of the merged read under the policy that all legs have to answer. -/
noncomputable def readPage (legs : List (List Row)) (limit : Nat) (cursor : Option Cursor) :
    Option (List Row) :=
  let qs := pageQuery limit { cursor := cursor }
  let res := fanout .all (legs.map fun rows => readLeg (some (respond rows qs))) limit
  if res.ok then some res.rows else none

/-- Pages until one is shorter than `limit`, each after the cursor of the last row. -/
noncomputable def readAll (legs : List (List Row)) (limit fuel : Nat) : Option (List Row) :=
  readPages (readPage legs limit) exactCursor limit fuel none

/-- The first row is the newer one: of a later instant, or of the same instant and with
the greater id. -/
def Newer (a b : Row) : Prop := ∃ m n, Denotes a.createdAt m ∧ Denotes b.createdAt n ∧
  (n < m ∨ n = m ∧ codeUnits b.id.text < codeUnits a.id.text)

/-! ## One key -/

section Key

variable {r a b x : Row} {s : String} {rows : List Row} {legs : List (List Row)} {limit : Nat}

/-- What rows are ordered by. -/
def Row.key (r : Row) : Int ×ₗ List Nat := toLex (r.micros, codeUnits r.id.text)

theorem key_lt_iff : a.key < b.key ↔
    a.micros < b.micros ∨ a.micros = b.micros ∧ codeUnits a.id.text < codeUnits b.id.text :=
  Prod.Lex.toLex_lt_toLex

theorem instantOf_eq (s : String) : instantOf s = tsMicros s := by
  unfold instantOf
  split
  · next h => exact (tsMicros_eq_some_iff.mpr h.choose_spec).symm
  · next h =>
    cases hvalue : tsMicros s with
    | none => rfl
    | some n => exact absurd ⟨n, tsMicros_eq_some_iff.mp hvalue⟩ h

theorem tsMicros_createdAt (r : Row) : tsMicros r.createdAt = some r.micros :=
  (Option.some_get _).symm

@[simp] theorem instant_eq (r : Row) : r.instant = r.micros := by
  unfold Row.instant
  rw [instantOf_eq, tsMicros_createdAt]
  rfl

/-- The comparator of the merge goes by the key. -/
theorem cmpExact_le_iff : cmpExact a b ≤ 0 ↔ b.key ≤ a.key := by
  have hkey : b.key ≤ a.key ↔ ¬ a.key < b.key := not_lt.symm
  rw [hkey, key_lt_iff]
  unfold cmpExact idDesc
  rcases lt_trichotomy a.micros b.micros with hlt | heq | hgt
  · simp [hlt, hlt.ne, hlt.not_gt]
  · rcases lt_trichotomy (codeUnits a.id.text) (codeUnits b.id.text) with hid | hid | hid
    · simp [heq, hid, hid.not_gt]
    · simp [heq, hid]
    · simp [heq, hid, hid.not_gt]
  · simp [hgt, hgt.ne', hgt.not_gt]

/-- So does the database's order. -/
theorem precedes_iff : precedes columns [⟨"created_at", true⟩, ⟨"id", true⟩] a b = true ↔
    b.key ≤ a.key := by
  rw [← not_lt, key_lt_iff]
  simp only [precedes, columns, instant_eq, if_true, orderOf]
  rcases lt_trichotomy b.micros a.micros with hlt | heq | hgt
  · simp [hlt, hlt.not_gt, hlt.ne']
  · rcases lt_trichotomy (codeUnits b.id.text) (codeUnits a.id.text) with hid | hid | hid
    · simp [heq, hid, hid.not_gt]
    · simp [heq, hid]
    · simp [heq, hid, hid.not_gt]
  · simp [hgt, hgt.not_gt]

/-- The filter of a page keeps the rows with a smaller key. -/
theorem holds_keysetFilter : holdsAll columns r [keysetFilter (exactCursor x)] =
    some (decide (r.key < x.key)) := by
  have hinstant : instantOf x.createdAt = some x.micros := by rw [instantOf_eq, tsMicros_createdAt]
  simp only [holdsAll, keysetFilter, Filter.holds, holdsAny, columns, compareOp, exactCursor, hinstant,
    Option.bind_some, Option.map_some, instant_eq]
  refine congrArg some ?_
  rw [Bool.eq_iff_iff, decide_eq_true_eq, key_lt_iff]
  simp

/-- Rows with distinct ids have distinct keys. -/
theorem nodup_key (h : (rows.map Row.id).Nodup) : (rows.map Row.key).Nodup := by
  refine List.pairwise_map.mpr (List.Pairwise.imp ?_ (List.pairwise_map.mp h))
  intro a b hid hkey
  exact hid (Uuid.text_injective (codeUnits_injective (Prod.mk.inj (toLex_inj.mp hkey)).2))

/-- Nothing in a timestamp has to be escaped between quotes. -/
theorem quotable_createdAt (r : Row) : QuotableText r.createdAt.toList := by
  obtain ⟨t, htext, -⟩ := tsMicros_eq_some_iff.mp (tsMicros_createdAt r)
  have hchars := List.all_eq_true.mp t.text_isStampChar
  rw [htext] at hchars
  exact ⟨fun h => absurd (hchars _ h) (by decide), fun h => absurd (hchars _ h) (by decide)⟩

/-! ## Pages -/

/-- What the rows that a filter keeps are answered with. -/
theorem answer_pageRead {filters : List Filter} {p : Row → Bool}
    (h : ∀ r ∈ rows, holdsAll columns r filters = some (p r)) :
    answer columns rows (pageRead limit filters) = some (page Row.key limit (rows.filter p)) := by
  have horder : precedes columns [⟨"created_at", true⟩, ⟨"id", true⟩] =
      fun a b => decide (b.key ≤ a.key) := by
    funext a b
    rw [Bool.eq_iff_iff, precedes_iff, decide_eq_true_eq]
  unfold answer pageRead
  dsimp only
  rw [keepRows_eq h, Option.map_some, horder, List.drop_zero]
  rfl

theorem respond_first (limit : Nat) (rows : List Row) :
    respond rows (pageQuery limit {}) = ⟨200, some (page Row.key limit rows)⟩ := by
  have hanswer : answer columns rows (pageRead limit []) = some (page Row.key limit rows) := by
    rw [answer_pageRead (p := fun _ => true) fun _ _ => rfl, List.filter_true]
  unfold respond
  rw [parseQuery_first, Option.bind_some, hanswer]

/-- The page after a row is made of the rows with a smaller key. -/
theorem respond_next (limit : Nat) (rows : List Row) (x : Row) :
    respond rows (pageQuery limit { cursor := some (exactCursor x) }) =
      ⟨200, some (page Row.key limit (rows.filter fun r => r.key < x.key))⟩ := by
  have hanswer : answer columns rows (pageRead limit [keysetFilter (exactCursor x)]) =
      some (page Row.key limit (rows.filter fun r => r.key < x.key)) :=
    answer_pageRead fun _ _ => holds_keysetFilter
  unfold respond
  rw [parseQuery_next limit (quotable_createdAt x) (bareText_uuid x.id), Option.bind_some, hanswer]

theorem mergeRows_eq (parts : List (List Row)) (limit : Nat) :
    mergeRows parts limit = page Row.key limit parts.flatten := by
  have horder : (fun a b : Row => decide (cmpExact a b ≤ 0)) = fun a b => decide (b.key ≤ a.key) := by
    funext a b
    exact decide_eq_decide.mpr cmpExact_le_iff
  unfold mergeRows
  rw [horder]
  rfl

/-- When every leg answers, the merged page is made of all the answers. -/
theorem readPage_eq {cursor : Option Cursor} {part : List Row → List Row}
    (h : ∀ rows, respond rows (pageQuery limit { cursor := cursor }) = ⟨200, some (part rows)⟩) :
    readPage legs limit cursor = some (page Row.key limit (legs.flatMap part)) := by
  have hlegs : (legs.map fun rows =>
      readLeg (some (respond rows (pageQuery limit { cursor := cursor })))) =
        legs.map fun rows => .ok (part rows) := by
    refine List.map_congr_left fun rows _ => ?_
    rw [h]
    rfl
  have hok : (legs.map fun rows => (.ok (part rows) : Except Leg (List Row))).all
      (fun leg => leg.isOk) = true := by
    simp [Except.isOk, Except.toBool]
  have hparts : okParts (legs.map fun rows => .ok (part rows)) = legs.map part := by
    unfold okParts
    rw [List.filterMap_map]
    simp [Function.comp_def, Except.toOption]
  unfold readPage fanout
  dsimp only
  rw [hlegs, if_pos hok, hparts, mergeRows_eq, List.flatMap_def]
  rfl

theorem readPage_first (hids : (legs.flatten.map Row.id).Nodup) :
    readPage legs limit none = some (page Row.key limit legs.flatten) := by
  rw [readPage_eq (respond_first limit), page_merge legs (nodup_key hids)]

theorem readPage_next (hids : (legs.flatten.map Row.id).Nodup) (x : Row) :
    readPage legs limit (some (exactCursor x)) =
      some (page Row.key limit (legs.flatten.filter fun r => r.key < x.key)) := by
  have hflatten : (legs.map fun rows => rows.filter fun r => r.key < x.key).flatten =
      legs.flatten.filter fun r => r.key < x.key := List.filter_flatten.symm
  have hdistinct : ((legs.map fun rows => rows.filter fun r => r.key < x.key).flatten.map Row.key).Nodup := by
    rw [hflatten]
    exact ((List.filter_sublist).map Row.key).nodup (nodup_key hids)
  rw [readPage_eq fun rows => respond_next limit rows x]
  have hmerge := page_merge (n := limit) _ hdistinct
  rw [List.flatMap_map, hflatten] at hmerge
  rw [hmerge]

/-- The rows after a row of the ranked list. -/
theorem page_after {before after : List Row} (hids : (legs.flatten.map Row.id).Nodup)
    (hsplit : rank Row.key legs.flatten = before ++ x :: after) :
    page Row.key limit (legs.flatten.filter fun r => r.key < x.key) = after.take limit := by
  have hranked := ranked_rank (nodup_key hids)
  have hfilter : rank Row.key (legs.flatten.filter fun r => r.key < x.key) =
      (rank Row.key legs.flatten).filter fun r => r.key < x.key := by
    refine (ranked_rank ?_).eq_of_perm hranked.filter ?_
    · exact ((List.filter_sublist).map Row.key).nodup (nodup_key hids)
    · exact (rank_perm _ _).trans ((rank_perm Row.key legs.flatten).symm.filter _)
  unfold page
  rw [hfilter, hsplit, Ranked.filter_lt (hsplit ▸ hranked)]

end Key

/-! ## All rows -/

/-- `tsMicros` gives the instant that a timestamp denotes, and reading page by page gives
all rows of all projects, each once and the newest first. -/
theorem paging_reads_all (legs : List (List Row)) (limit fuel : Nat) (hlimit : 1 ≤ limit)
    (hids : (legs.flatten.map Row.id).Nodup) (hfuel : legs.flatten.length / limit < fuel) :
    (∀ s n, tsMicros s = some n ↔ Denotes s n) ∧
      ∃ rows, readAll legs limit fuel = some rows ∧ rows.Perm legs.flatten ∧ rows.Pairwise Newer := by
  have hranked := ranked_rank (nodup_key hids)
  refine ⟨fun s n => tsMicros_eq_some_iff, rank Row.key legs.flatten, ?_, rank_perm _ _, ?_⟩
  · refine readPages_eq hlimit ?_ (List.nil_append _).symm (readPage_first hids) ?_
    · intro before x after hsplit
      rw [readPage_next hids, page_after hids hsplit]
    · rwa [length_rank]
  · refine List.Pairwise.imp ?_ hranked
    intro a b hlt
    refine ⟨a.micros, b.micros, tsMicros_eq_some_iff.mp (tsMicros_createdAt a),
      tsMicros_eq_some_iff.mp (tsMicros_createdAt b), key_lt_iff.mp hlt⟩

/-- Two projects; three of their rows share a microsecond, in three spellings. -/
def twoLegs : List (List Row) :=
  [[⟨⟨"a0000000-0000-4000-8000-000000000003", by decide⟩, "2026-10-01T00:00:03+00:00", by decide⟩,
    ⟨⟨"a0000000-0000-4000-8000-000000000001", by decide⟩, "2026-10-01T00:00:01.5+00:00", by decide⟩],
   [⟨⟨"b0000000-0000-4000-8000-000000000002", by decide⟩, "2026-10-01T08:00:01.500000+08", by decide⟩,
    ⟨⟨"b0000000-0000-4000-8000-000000000001", by decide⟩, "2026-10-01 00:00:01.50Z", by decide⟩]]

theorem twoLegs_read : ∃ rows, readAll twoLegs 2 3 = some rows ∧ rows.Perm twoLegs.flatten ∧
    rows.Pairwise Newer :=
  (paging_reads_all twoLegs 2 3 (by decide) (by decide) (by decide)).2

end SupabaseLab.CrossProject
