/-
  CrossProject/DateCursor.lean --- paging by a cursor that went through a `Date`.

  Source: `cmpMs`, `msCursor` and the comparator of `fanout` in
  experiments/cross-project-auth/lib/merge.ts, and the walk over its pages in
  experiments/cross-project-auth/tests/x06-fanout-pagination.ts.

  The cursor is the start of the millisecond of a page's last row, so it is never past
  that row, and what it leaves behind lies between the two.
-/
import SupabaseLab.CrossProject.IsoString
import SupabaseLab.CrossProject.Paging
import SupabaseLab.Library.PageWalk

set_option autoImplicit false

namespace SupabaseLab.CrossProject

open Library Library.Postgrest

/-! ## Milliseconds -/

/-- `Date.parse` of the row's timestamp. -/
def Row.millis (r : Row) : Int := (dateMillis r.createdAt).getD 0

/-- Newest first by the millisecond, ties broken by id descending. -/
def cmpMs (a b : Row) : Int := if a.millis ≠ b.millis then b.millis - a.millis else idDesc a b

def msCursor (r : Row) : Cursor := ⟨toISOString r.millis, r.id.text⟩

/-- The comparator that `fanout` sorts by. -/
def comparator (exact : Bool) : Row → Row → Int := if exact then cmpExact else cmpMs

/-- `fanout` under the policy that all legs have to answer. -/
def fanoutBy (exact : Bool) (legs : List (Except Leg (List Row))) (limit : Nat) : FanResult :=
  if legs.all fun leg => leg.isOk then
    ⟨true, false, ((okParts legs).flatten.mergeSort fun a b =>
      decide (comparator exact a b ≤ 0)).take limit⟩
  else ⟨false, false, []⟩

theorem fanoutBy_exact (legs : List (Except Leg (List Row))) (limit : Nat) :
    fanoutBy true legs limit = fanout .all legs limit := rfl

/-! ## The walk -/

/-- One page, as the walk's client fetches it. -/
noncomputable def fetchPage (exact : Bool) (legs : List (List Row)) (limit : Nat)
    (cursor : Option Cursor) : Option (List Row) :=
  let qs := pageQuery limit { cursor := cursor }
  let r := fanoutBy exact (legs.map fun rows => readLeg (some (respond rows qs))) limit
  if r.ok then some r.rows else none

/-- The pages that are walked with the lossy cursor. -/
noncomputable def walk (exact : Bool) (legs : List (List Row)) (limit fuel : Nat) :
    Option (List (List Row)) :=
  walkPages (fetchPage exact legs limit) msCursor limit fuel none

/-- The row's timestamp is in the form that `Date.parse` reads, and its day is one that
`toISOString` writes with a year of four digits. -/
structure Row.Dated (r : Row) : Prop where
  form : isPostgrestForm r.createdAt = true
  years : InYears (r.millis / 86400000)

/-- The rows that a cursor asks for. -/
def After (c : Cursor) (r : Row) : Prop := ∃ m n, Denotes r.createdAt m ∧ Denotes c.createdAt n ∧
  (m < n ∨ m = n ∧ codeUnits r.id.text < codeUnits c.id)

/-- At a full page that ends with `x` the row was due: the cursor before the page asks for it.
The page does not have it, and neither does what `x`'s cursor asks for, which starts in
the millisecond of both. -/
structure LostAt (limit : Nat) (before : List (List Row)) (page : List Row) (x r : Row) : Prop where
  full : page.length = limit
  last : page.getLast? = some x
  due : ∀ y, before.flatten.getLast? = some y → After (msCursor y) r
  unread : r ∉ page
  passed : ¬ After (msCursor x) r
  sameMillis : r.millis = x.millis

section Walk

variable {exact : Bool} {legs : List (List Row)} {rows : List Row} {limit : Nat} {a b r x : Row}

/-! ## The cursor's key -/

theorem Row.Dated.millis_eq (h : r.Dated) : r.millis = r.micros / 1000 := by
  unfold Row.millis
  rw [dateMillis_eq (tsMicros_createdAt r) h.form]
  rfl

/-- What the cursor's query compares with: the start of the row's millisecond. -/
def Row.cursorKey (r : Row) : Int ×ₗ List Nat := toLex (r.micros / 1000 * 1000, codeUnits r.id.text)

theorem key_lt_cursorKey_iff : a.key < b.cursorKey ↔
    a.micros < b.micros / 1000 * 1000 ∨
      a.micros = b.micros / 1000 * 1000 ∧ codeUnits a.id.text < codeUnits b.id.text :=
  Prod.Lex.toLex_lt_toLex

/-- The cursor is never past the row it is made from. -/
theorem cursorKey_le (r : Row) : r.cursorKey ≤ r.key := by
  refine Prod.Lex.toLex_le_toLex.mpr ?_
  obtain hlt | heq := lt_or_eq_of_le (Int.ediv_mul_le r.micros (show (1000 : Int) ≠ 0 by decide))
  · exact .inl hlt
  · exact .inr ⟨heq, le_refl _⟩

theorem denotes_msCursor (h : r.Dated) :
    Denotes (msCursor r).createdAt (r.micros / 1000 * 1000) :=
  h.millis_eq ▸ denotes_toISOString h.years

theorem after_msCursor_iff (h : x.Dated) :
    After (msCursor x) r ↔ r.key < x.cursorKey := by
  rw [key_lt_cursorKey_iff]
  have hr := tsMicros_eq_some_iff.mp (tsMicros_createdAt r)
  constructor
  · rintro ⟨m, n, hm, hn, hlt⟩
    have hm' := (tsMicros_createdAt r).symm.trans (tsMicros_eq_some_iff.mpr hm)
    have hn' := (tsMicros_eq_some_iff.mpr (denotes_msCursor h)).symm.trans (tsMicros_eq_some_iff.mpr hn)
    cases hm'
    cases hn'
    exact hlt
  · exact fun hlt => ⟨r.micros, x.micros / 1000 * 1000, hr, denotes_msCursor h, hlt⟩

theorem quotable_of_denotes {s : String} {n : Int} (h : Denotes s n) : QuotableText s.toList := by
  obtain ⟨t, htext, -⟩ := h
  have hchars := List.all_eq_true.mp t.text_isStampChar
  rw [htext] at hchars
  exact ⟨fun h => absurd (hchars _ h) (by decide), fun h => absurd (hchars _ h) (by decide)⟩

theorem holds_msCursor (h : x.Dated) :
    holdsAll columns r [keysetFilter (msCursor x)] = some (decide (r.key < x.cursorKey)) := by
  have hinstant : instantOf (toISOString x.millis) = some (x.micros / 1000 * 1000) := by
    rw [instantOf_eq, tsMicros_eq_some_iff]
    exact denotes_msCursor h
  simp only [holdsAll, keysetFilter, Filter.holds, holdsAny, columns, compareOp, msCursor, hinstant,
    Option.bind_some, Option.map_some, instant_eq]
  refine congrArg some ?_
  rw [Bool.eq_iff_iff, decide_eq_true_eq, key_lt_cursorKey_iff]
  simp

theorem respond_msCursor (limit : Nat) (rows : List Row) (h : x.Dated) :
    respond rows (pageQuery limit { cursor := some (msCursor x) }) =
      ⟨200, some (page Row.key limit (rows.filter fun r => r.key < x.cursorKey))⟩ := by
  have hanswer : answer columns rows (pageRead limit [keysetFilter (msCursor x)]) =
      some (page Row.key limit (rows.filter fun r => r.key < x.cursorKey)) :=
    answer_pageRead fun _ _ => holds_msCursor h
  unfold respond
  rw [parseQuery_next limit (quotable_of_denotes (denotes_msCursor h)) (bareText_uuid x.id), Option.bind_some,
    hanswer]

/-! ## The comparators -/

/-- What a comparator goes by. -/
def Row.sortKey (exact : Bool) (r : Row) : Int ×ₗ List Nat :=
  if exact then r.key else toLex (r.micros / 1000, codeUnits r.id.text)

theorem idDesc_cases (a b : Row) : codeUnits b.id.text < codeUnits a.id.text ∧ idDesc a b < 0 ∨
    codeUnits a.id.text = codeUnits b.id.text ∧ idDesc a b = 0 ∨
      codeUnits a.id.text < codeUnits b.id.text ∧ 0 < idDesc a b := by
  unfold idDesc
  rcases lt_trichotomy (codeUnits a.id.text) (codeUnits b.id.text) with hid | hid | hid
  · exact .inr (.inr ⟨hid, by simp [hid, hid.not_gt]⟩)
  · exact .inr (.inl ⟨hid, by simp [hid]⟩)
  · exact .inl ⟨hid, by simp [hid]⟩

/-- The sign of the comparator is the order of the keys. -/
theorem comparator_cases (exact : Bool) (ha : a.Dated) (hb : b.Dated) :
    b.sortKey exact < a.sortKey exact ∧ comparator exact a b < 0 ∨
      a.sortKey exact = b.sortKey exact ∧ comparator exact a b = 0 ∨
        a.sortKey exact < b.sortKey exact ∧ 0 < comparator exact a b := by
  have hid := idDesc_cases a b
  cases exact with
  | true =>
    simp only [Row.sortKey, Row.key, comparator, cmpExact, if_true, Prod.Lex.toLex_lt_toLex,
      toLex_inj, Prod.mk.injEq]
    rcases lt_trichotomy a.micros b.micros with hlt | heq | hgt
    · exact .inr (.inr ⟨.inl hlt, by simp [hlt.ne, hlt.not_gt]⟩)
    · simpa [heq] using hid
    · exact .inl ⟨.inl hgt, by simp [hgt.ne', hgt]⟩
  | false =>
    simp only [Row.sortKey, comparator, cmpMs, Bool.false_eq_true, if_false,
      Prod.Lex.toLex_lt_toLex, toLex_inj, Prod.mk.injEq, ha.millis_eq, hb.millis_eq]
    rcases lt_trichotomy (a.micros / 1000) (b.micros / 1000) with hlt | heq | hgt
    · exact .inr (.inr ⟨.inl hlt, by simp [hlt.ne, hlt]⟩)
    · simpa [heq] using hid
    · exact .inl ⟨.inl hgt, by simp [hgt.ne', hgt]⟩

theorem comparator_le_iff (ha : a.Dated) (hb : b.Dated) :
    comparator exact a b ≤ 0 ↔ b.sortKey exact ≤ a.sortKey exact := by
  rcases comparator_cases exact ha hb with ⟨hkey, hlt⟩ | ⟨hkey, heq⟩ | ⟨hkey, hgt⟩
  · exact ⟨fun _ => hkey.le, fun _ => hlt.le⟩
  · exact ⟨fun _ => hkey.ge, fun _ => heq.le⟩
  · exact ⟨fun hle => absurd hgt hle.not_gt, fun hle => absurd hkey hle.not_gt⟩

theorem comparator_lt_iff (ha : a.Dated) (hb : b.Dated) :
    comparator exact a b < 0 ↔ b.sortKey exact < a.sortKey exact := by
  rcases comparator_cases exact ha hb with ⟨hkey, hlt⟩ | ⟨hkey, heq⟩ | ⟨hkey, hgt⟩
  · exact ⟨fun _ => hkey, fun _ => hlt⟩
  · exact ⟨fun hlt => absurd heq hlt.ne, fun hlt => absurd hkey hlt.ne'⟩
  · exact ⟨fun hlt => absurd hgt hlt.not_gt, fun hlt => absurd hkey hlt.not_gt⟩

theorem nodup_sortKey (h : (rows.map Row.id).Nodup) : (rows.map (Row.sortKey exact)).Nodup := by
  refine List.pairwise_map.mpr (List.Pairwise.imp ?_ (List.pairwise_map.mp h))
  intro a b hid hkey
  refine hid (Uuid.text_injective (codeUnits_injective ?_))
  cases exact with
  | true => exact (Prod.mk.inj (toLex_inj.mp hkey)).2
  | false => exact (Prod.mk.inj (toLex_inj.mp hkey)).2

/-- A row of a later millisecond ranks before, whatever the comparator. -/
theorem sortKey_lt_of_millis (h : a.micros / 1000 < b.micros / 1000) :
    a.sortKey exact < b.sortKey exact := by
  cases exact with
  | true => exact Prod.Lex.toLex_lt_toLex.mpr (.inl (by dsimp only; omega))
  | false => exact Prod.Lex.toLex_lt_toLex.mpr (.inl h)

/-- What a row's cursor asks for ranks after the row. -/
theorem sortKey_lt_of_cursorKey (h : a.key < b.cursorKey) : a.sortKey exact < b.sortKey exact := by
  cases exact with
  | true => exact lt_of_lt_of_le h (cursorKey_le b)
  | false =>
    refine Prod.Lex.toLex_lt_toLex.mpr ?_
    dsimp only
    obtain hlt | ⟨heq, hid⟩ := key_lt_cursorKey_iff.mp h
    · exact .inl (by omega)
    · exact .inr ⟨by omega, hid⟩

/-! ## A page -/

/-- The rows that the cursor of the row before asks for; `none` is the first page. -/
def Due (c : Option Row) (r : Row) : Prop := ∀ x ∈ c, r.key < x.cursorKey

instance (c : Option Row) : DecidablePred (Due c) := fun r =>
  inferInstanceAs (Decidable (∀ x ∈ c, r.key < x.cursorKey))

/-- The leg's rows that are due. -/
def dueRows (c : Option Row) (rows : List Row) : List Row := rows.filter fun r => Due c r

theorem respond_due (limit : Nat) (rows : List Row) {c : Option Row}
    (h : ∀ x ∈ c, x.Dated) :
    respond rows (pageQuery limit { cursor := c.map msCursor }) =
      ⟨200, some (page Row.key limit (dueRows c rows))⟩ := by
  unfold dueRows
  cases c with
  | none =>
    rw [Option.map_none, respond_first, List.filter_eq_self.mpr]
    exact fun r _ => decide_eq_true fun x hx => nomatch hx
  | some x =>
    rw [Option.map_some, respond_msCursor limit rows (h x rfl)]
    simp [Due]

/-- What the legs answer, all together. -/
def merged (limit : Nat) (legs : List (List Row)) (c : Option Row) : List Row :=
  (legs.map (dueRows c)).flatMap (page Row.key limit)

theorem merged_subperm (limit : Nat) (legs : List (List Row)) (c : Option Row) :
    (merged limit legs c).Subperm (legs.flatten.filter fun r => Due c r) := by
  have hsub := flatMap_page_subperm Row.key limit (legs.map (dueRows c))
  rwa [show (legs.map (dueRows c)).flatten = legs.flatten.filter fun r => Due c r from
    List.filter_flatten.symm] at hsub

theorem nodup_merged (hids : (legs.flatten.map Row.id).Nodup) (limit : Nat) (c : Option Row) :
    ((merged limit legs c).map (Row.sortKey exact)).Nodup := by
  have hsub := (merged_subperm limit legs c).trans List.filter_sublist.subperm
  exact nodup_sortKey (nodup_map_of_subperm hsub hids)

theorem mem_of_mem_merged {c : Option Row} (h : r ∈ merged limit legs c) : r ∈ legs.flatten :=
  List.mem_of_mem_filter ((merged_subperm limit legs c).subset h)

theorem fetchPage_eq (hdated : ∀ r ∈ legs.flatten, r.Dated) {c : Option Row}
    (h : ∀ x ∈ c, x.Dated) :
    fetchPage exact legs limit (c.map msCursor) =
      some (page (Row.sortKey exact) limit (merged limit legs c)) := by
  have hlegs : (legs.map fun rows => readLeg (some (respond rows
      (pageQuery limit { cursor := c.map msCursor })))) =
        legs.map fun rows => .ok (page Row.key limit (dueRows c rows)) := by
    refine List.map_congr_left fun rows _ => ?_
    rw [respond_due limit rows h]
    rfl
  have horder : (merged limit legs c).mergeSort (fun a b => decide (comparator exact a b ≤ 0)) =
      rank (Row.sortKey exact) (merged limit legs c) := by
    have hle : ∀ a ∈ merged limit legs c, ∀ b ∈ merged limit legs c,
        decide (comparator exact a b ≤ 0) = decide (b.sortKey exact ≤ a.sortKey exact) :=
      fun a ha b hb => decide_eq_decide.mpr (comparator_le_iff (hdated a (mem_of_mem_merged ha))
        (hdated b (mem_of_mem_merged hb)))
    have hsame := List.map_mergeSort (f := id) (r := fun a b => decide (comparator exact a b ≤ 0))
      (s := fun a b => decide (b.sortKey exact ≤ a.sortKey exact)) hle
    rwa [List.map_id, List.map_id] at hsame
  have hflatten : (legs.map fun rows => page Row.key limit (dueRows c rows)).flatten =
      merged limit legs c := by
    rw [merged, List.flatMap_def, List.map_map]
    rfl
  unfold fetchPage fanoutBy
  dsimp only
  rw [hlegs, if_pos (all_isOk_ok _ _), okParts_ok, hflatten, horder]
  rfl

/-- What a page has, and what its last row's cursor asks for. -/
theorem fetchPage_isPage (hids : (legs.flatten.map Row.id).Nodup)
    (hdated : ∀ r ∈ legs.flatten, r.Dated) {c : Option Row}
    (hc : ∀ y, c = some y → y ∈ legs.flatten) :
    ∃ rows, fetchPage exact legs limit (c.map msCursor) = some rows ∧
      IsPage legs.flatten (Due c) limit rows ∧ ∀ last, rows.getLast? = some last →
        ∀ r, Due (some last) r → Due c r ∧ r ∉ rows := by
  have hpage : IsPage legs.flatten (Due c) limit
      (page (Row.sortKey exact) limit (merged limit legs c)) :=
    isPage_merge legs (List.Nodup.of_map Row.id hids)
  refine ⟨_, fetchPage_eq hdated fun x hx => hdated x (hc x hx), hpage, fun last hlast r hr => ?_⟩
  have hdue := hr last rfl
  have hlastMem := hpage.mem last (List.mem_of_getLast? hlast)
  refine ⟨fun x hx => ?_, fun hmem => ?_⟩
  · exact (hdue.trans_le (cursorKey_le last)).trans (hlastMem.2 x hx)
  · have hle := le_of_getLast? (nodup_merged hids limit c) hlast hmem
    have hlt : r.sortKey exact < last.sortKey exact := sortKey_lt_of_cursorKey hdue
    exact absurd hlt hle.not_gt

/-- A row that was due, is not on the page and is not asked for next lies in the
millisecond of the page's last row. -/
theorem millis_eq_of_unread (hids : (legs.flatten.map Row.id).Nodup)
    (hdated : ∀ r ∈ legs.flatten, r.Dated) {c : Option Row}
    (hx : x ∈ page (Row.sortKey exact) limit (merged limit legs c)) (hr : r ∈ legs.flatten)
    (hdue : Due c r) (hunread : r ∉ page (Row.sortKey exact) limit (merged limit legs c))
    (hpassed : ¬ r.key < x.cursorKey) : r.millis = x.millis := by
  have hnodup : ((merged limit legs c).map (Row.sortKey exact)).Nodup := nodup_merged hids limit c
  have hxdated := hdated x (mem_of_mem_merged (mem_rank.mp (List.mem_of_mem_take hx)))
  rw [(hdated r hr).millis_eq, hxdated.millis_eq]
  refine le_antisymm (not_lt.mp fun hlt => ?_) ?_
  · -- every row of the leg's page would rank before the last row of the merged one
    obtain ⟨leg, hleg, hrleg⟩ := List.mem_flatten.mp hr
    have hrdue : r ∈ dueRows c leg := List.mem_filter.mpr ⟨hrleg, decide_eq_true hdue⟩
    have hmerged : ∀ y ∈ page Row.key limit (dueRows c leg), y ∈ merged limit legs c := fun y hy =>
      List.mem_flatMap.mpr ⟨_, List.mem_map_of_mem hleg, hy⟩
    have hkeys : ((dueRows c leg).map Row.key).Nodup := by
      refine nodup_key ((List.Sublist.map Row.id ?_).nodup hids)
      exact List.filter_sublist.trans (List.sublist_flatten_of_mem hleg)
    have hcut : r ∉ page Row.key limit (dueRows c leg) := fun hmem =>
      hunread (mem_page_of_lt hnodup hx (hmerged r hmem) (sortKey_lt_of_millis hlt))
    have hbefore : ∀ y ∈ page Row.key limit (dueRows c leg), r.key < y.key := by
      intro y hy
      refine lt_of_not_ge fun hle => ?_
      obtain hlt | heq := lt_or_eq_of_le hle
      · exact hcut (mem_page_of_lt hkeys hy hrdue hlt)
      · exact hcut (List.inj_on_of_nodup_map hkeys (mem_rank.mp (List.mem_of_mem_take hy)) hrdue heq ▸ hy)
    refine hcut (mem_page_of_length_lt ?_ hrdue)
    refine length_lt_of_mem_page hnodup hx (List.Nodup.of_map Row.key ?_) fun y hy =>
      ⟨hmerged y hy, sortKey_lt_of_millis ?_⟩
    · exact ((List.take_sublist _ _).map Row.key).nodup
        (((rank_perm Row.key _).map Row.key).nodup_iff.mpr hkeys)
    · have hkey := key_lt_iff.mp (hbefore y hy)
      omega
  · have hge := not_or.mp (mt key_lt_cursorKey_iff.mpr hpassed)
    omega

/-- The page after a row, or the first. -/
noncomputable def pageAfter (exact : Bool) (legs : List (List Row)) (limit : Nat) (c : Option Row) :
    Option (List Row) := fetchPage exact legs limit (c.map msCursor)

theorem exists_walk (exact : Bool) (hlimit : 1 ≤ limit) (hids : (legs.flatten.map Row.id).Nodup)
    (hdated : ∀ r ∈ legs.flatten, r.Dated) {fuel : Nat}
    (hfuel : legs.flatten.length / limit < fuel) :
    ∃ pages, walk exact legs limit fuel = some pages ∧
      PageRun (pageAfter exact legs limit) legs.flatten Due limit none pages := by
  have hall : (legs.flatten.filter fun r => Due none r) = legs.flatten :=
    List.filter_eq_self.mpr fun r _ => decide_eq_true fun x hx => absurd hx (by simp)
  exact exists_pageRun (c := none) hlimit (fun c hc => fetchPage_isPage hids hdated hc)
    (fun y hy => absurd hy (by simp)) (by rwa [hall])

/-- The rows before a page are rows of the legs. -/
theorem mem_of_before {pages before after : List (List Row)} {rows : List Row}
    (hrun : PageRun (pageAfter exact legs limit) legs.flatten Due limit none pages)
    (hpages : pages = before ++ rows :: after) :
    ∀ y ∈ before.flatten ++ rows, y ∈ legs.flatten := by
  intro y hy
  refine (hrun.mem ?_).1
  rw [hpages, List.flatten_append, List.flatten_cons, ← List.append_assoc]
  exact List.mem_append_left _ hy

/-- What stands on the pages of the walk. -/
theorem page_of_run (hdated : ∀ r ∈ legs.flatten, r.Dated)
    {pages before after : List (List Row)}
    (hrun : PageRun (pageAfter exact legs limit) legs.flatten Due limit none pages)
    (hpages : pages = before ++ rows :: after) :
    rows = page (Row.sortKey exact) limit (merged limit legs before.flatten.getLast?) := by
  have hread := hrun.read_eq hpages
  rw [Option.or_none, pageAfter, fetchPage_eq] at hread
  · exact (Option.some.inj hread).symm
  · exact hdated
  · exact fun y hy => hdated y (mem_of_before hrun hpages y
      (List.mem_append_left _ (List.mem_of_getLast? hy)))

theorem lost_iff (hids : (legs.flatten.map Row.id).Nodup)
    (hdated : ∀ r ∈ legs.flatten, r.Dated) {pages : List (List Row)}
    (hrun : PageRun (pageAfter exact legs limit) legs.flatten Due limit none pages)
    (hr : r ∈ legs.flatten) : r ∉ pages.flatten ↔ ∃ before page after x,
      pages = before ++ page :: after ∧ LostAt limit before page x r := by
  have hdated' : ∀ {before rows after}, pages = before ++ rows :: after →
      ∀ y ∈ before.flatten ++ rows, y.Dated := fun hpages y hy =>
    hdated y (mem_of_before hrun hpages y hy)
  rw [hrun.notMem_iff hr fun x hx => absurd hx (by simp), passedOver_iff]
  simp only [Option.or_none]
  constructor
  · rintro ⟨before, rows, after, x, hpages, -, hlen, hlast, hdue, hunread, hpassed⟩
    have hbefore : ∀ y, before.flatten.getLast? = some y → y.Dated :=
      fun y hy => hdated' hpages y (List.mem_append_left _ (List.mem_of_getLast? hy))
    have hx := hdated' hpages x (List.mem_append_right _ (List.mem_of_getLast? hlast))
    have hnot : ¬ r.key < x.cursorKey := fun hlt => hpassed fun y hy => Option.some.inj hy ▸ hlt
    refine ⟨before, rows, after, x, hpages, hlen, hlast, ?_, hunread, ?_, ?_⟩
    · exact fun y hy => (after_msCursor_iff (hbefore y hy)).mpr (hdue y hy)
    · rwa [after_msCursor_iff hx]
    · cases page_of_run hdated hrun hpages
      exact millis_eq_of_unread hids hdated (List.mem_of_getLast? hlast) hr hdue hunread hnot
  · rintro ⟨before, rows, after, x, hpages, hlost⟩
    have hbefore : ∀ y, before.flatten.getLast? = some y → y.Dated :=
      fun y hy => hdated' hpages y (List.mem_append_left _ (List.mem_of_getLast? hy))
    have hx := hdated' hpages x (List.mem_append_right _ (List.mem_of_getLast? hlost.last))
    refine ⟨before, rows, after, x, hpages, hrun.ne_nil hpages, hlost.full, hlost.last, ?_,
      hlost.unread, fun hdue => hlost.passed ?_⟩
    · exact fun y hy => (after_msCursor_iff (hbefore y hy)).mp (hlost.due y hy)
    · exact (after_msCursor_iff hx).mpr (hdue x rfl)

theorem newer_iff : Newer a b ↔ b.key < a.key := by
  rw [key_lt_iff]
  constructor
  · rintro ⟨m, n, hm, hn, hlt⟩
    cases (tsMicros_createdAt a).symm.trans (tsMicros_eq_some_iff.mpr hm)
    cases (tsMicros_createdAt b).symm.trans (tsMicros_eq_some_iff.mpr hn)
    exact hlt
  · exact fun hlt => ⟨a.micros, b.micros, tsMicros_eq_some_iff.mp (tsMicros_createdAt a),
      tsMicros_eq_some_iff.mp (tsMicros_createdAt b), hlt⟩

/-- By microseconds a page is the first rows of all that are due. -/
theorem page_merged (hids : (legs.flatten.map Row.id).Nodup) (limit : Nat) (c : Option Row) :
    page (Row.sortKey true) limit (merged limit legs c) =
      page Row.key limit (legs.flatten.filter fun r => Due c r) := by
  have hflatten : (legs.map (dueRows c)).flatten = legs.flatten.filter fun r => Due c r :=
    List.filter_flatten.symm
  have hmerge : page Row.key limit ((legs.map (dueRows c)).flatMap (page Row.key limit)) =
      page Row.key limit (legs.map (dueRows c)).flatten :=
    page_merge _ (hflatten ▸ nodup_key ((List.filter_sublist.map Row.id).nodup hids))
  rw [hflatten] at hmerge
  exact hmerge

/-- By microseconds, what is lost at a page comes after its last row. -/
theorem lostAt_iff (hids : (legs.flatten.map Row.id).Nodup)
    (hdated : ∀ r ∈ legs.flatten, r.Dated)
    {pages before after : List (List Row)}
    (hrun : PageRun (pageAfter true legs limit) legs.flatten Due limit none pages)
    (hpages : pages = before ++ rows :: after) (hr : r ∈ legs.flatten) :
    LostAt limit before rows x r ↔ rows.length = limit ∧ rows.getLast? = some x ∧ Newer x r ∧
      ¬ After (msCursor x) r := by
  have hrows := page_of_run hdated hrun hpages
  have hkeys : ((legs.flatten.filter fun r => Due before.flatten.getLast? r).map Row.key).Nodup :=
    nodup_key ((List.filter_sublist.map Row.id).nodup hids)
  have hbefore : ∀ y, before.flatten.getLast? = some y → y.Dated := fun y hy =>
    hdated y (mem_of_before hrun hpages y (List.mem_append_left _ (List.mem_of_getLast? hy)))
  rw [page_merged hids] at hrows
  rw [newer_iff]
  constructor
  · rintro ⟨hlen, hlast, hdue, hunread, hpassed, -⟩
    have hx := hrows ▸ List.mem_of_getLast? hlast
    have hmem : r ∈ legs.flatten.filter fun r => Due before.flatten.getLast? r :=
      List.mem_filter.mpr ⟨hr, decide_eq_true fun y hy =>
        (after_msCursor_iff (hbefore y hy)).mp (hdue y hy)⟩
    refine ⟨hlen, hlast, lt_of_not_ge fun hle => hunread ?_, hpassed⟩
    rw [hrows]
    obtain hlt | heq := lt_or_eq_of_le hle
    · exact mem_page_of_lt hkeys hx hmem hlt
    · exact List.inj_on_of_nodup_map hkeys (mem_rank.mp (List.mem_of_mem_take hx)) hmem heq ▸ hx
  · rintro ⟨hlen, hlast, hlt, hpassed⟩
    have hx := mem_rank.mp (List.mem_of_mem_take (hrows ▸ List.mem_of_getLast? hlast))
    have hxdue := of_decide_eq_true (List.mem_filter.mp hx).2
    have hdue : Due before.flatten.getLast? r := fun y hy => hlt.trans (hxdue y hy)
    have hunread : r ∉ rows := fun hmem =>
      absurd hlt (le_of_getLast? hkeys (hrows ▸ hlast) (hrows ▸ hmem)).not_gt
    have hnot : ¬ r.key < x.cursorKey := fun hlt => hpassed
      ((after_msCursor_iff (hdated x (List.mem_filter.mp hx).1)).mpr hlt)
    refine ⟨hlen, hlast, fun y hy => (after_msCursor_iff (hbefore y hy)).mpr (hdue y hy), hunread,
      hpassed, ?_⟩
    rw [← page_merged hids] at hrows
    exact millis_eq_of_unread hids hdated (hrows ▸ List.mem_of_getLast? hlast) hr hdue (hrows ▸ hunread) hnot

end Walk

/-! ## What the walk reads -/

/-- Walked with a cursor of milliseconds, the pages never repeat a row and keep the order of
their comparator.  A row is missing exactly when it is lost at the end of a full page;
compared by microseconds, when it is older than the page's last row and the cursor does not
ask for it. -/
theorem date_cursor_walk (exact : Bool) (legs : List (List Row)) (limit fuel : Nat)
    (hlimit : 1 ≤ limit) (hids : (legs.flatten.map Row.id).Nodup)
    (hdated : ∀ r ∈ legs.flatten, r.Dated)
    (hfuel : legs.flatten.length / limit < fuel) :
    ∃ pages, walk exact legs limit fuel = some pages ∧
      pages.flatten.Pairwise (fun a b => comparator exact a b < 0) ∧
      pages.flatten.Nodup ∧ (∀ r ∈ pages.flatten, r ∈ legs.flatten) ∧
      (∀ r ∈ legs.flatten, r ∉ pages.flatten ↔ ∃ before page after x,
        pages = before ++ page :: after ∧ LostAt limit before page x r) ∧
      (exact = true → ∀ r ∈ legs.flatten, r ∉ pages.flatten ↔ ∃ page ∈ pages, ∃ x,
        page.length = limit ∧ page.getLast? = some x ∧ Newer x r ∧ ¬ After (msCursor x) r) := by
  obtain ⟨pages, hwalk, hrun⟩ := exists_walk exact hlimit hids hdated hfuel
  have hkeys : pages.flatten.Pairwise fun a b => b.sortKey exact < a.sortKey exact := by
    refine hrun.pairwise (fun rows hrows => ?_) fun rows hrows last hlast x hx y hy => ?_
    · obtain ⟨before, after, hpages⟩ := List.append_of_mem hrows
      rw [page_of_run hdated hrun hpages]
      exact ranked_page (nodup_merged hids limit _)
    · obtain ⟨before, after, hpages⟩ := List.append_of_mem hrows
      have hrows := page_of_run hdated hrun hpages
      have hle := le_of_getLast? (nodup_merged hids limit _) (hrows ▸ hlast) (hrows ▸ hy)
      exact (sortKey_lt_of_cursorKey (hx last rfl)).trans_le hle
  have horder : pages.flatten.Pairwise fun a b => comparator exact a b < 0 :=
    hkeys.imp_of_mem fun ha hb hlt =>
      (comparator_lt_iff (hdated _ (hrun.mem ha).1) (hdated _ (hrun.mem hb).1)).mpr hlt
  refine ⟨pages, hwalk, horder, hrun.nodup, fun r hr => (hrun.mem hr).1, fun r hr =>
    lost_iff hids hdated hrun hr, ?_⟩
  rintro rfl r hr
  rw [lost_iff hids hdated hrun hr]
  constructor
  · rintro ⟨before, rows, after, x, hpages, hlost⟩
    exact ⟨rows, hpages ▸ List.mem_append_right _ List.mem_cons_self, x,
      (lostAt_iff hids hdated hrun hpages hr).mp hlost⟩
  · rintro ⟨rows, hrows, x, hlost⟩
    obtain ⟨before, after, hpages⟩ := List.append_of_mem hrows
    exact ⟨before, rows, after, x, hpages, (lostAt_iff hids hdated hrun hpages hr).mpr hlost⟩

/-- Two projects; the row `c2` lies 300 microseconds after the start of its millisecond, where
the row `d2` is. -/
def datedLegs : List (List Row) :=
  [[⟨⟨"c0000000-0000-4000-8000-000000000003", by decide⟩, "2026-11-01T00:00:03+00:00", by decide⟩,
    ⟨⟨"c0000000-0000-4000-8000-000000000002", by decide⟩, "2026-11-01T00:00:01.5003+00:00", by decide⟩],
   [⟨⟨"d0000000-0000-4000-8000-000000000002", by decide⟩, "2026-11-01T00:00:01.5001+00:00", by decide⟩,
    ⟨⟨"d0000000-0000-4000-8000-000000000001", by decide⟩, "2026-11-01T00:00:01+00:00", by decide⟩]]

theorem date_cursor_walk_datedLegs : ∃ pages, walk true datedLegs 2 3 = some pages ∧
    ∀ r ∈ datedLegs.flatten, r ∉ pages.flatten ↔ ∃ page ∈ pages, ∃ x,
      page.length = 2 ∧ page.getLast? = some x ∧ Newer x r ∧ ¬ After (msCursor x) r := by
  have hall : (datedLegs.flatten.all fun r => isPostgrestForm r.createdAt &&
      decide (dayFromYear 0 ≤ r.millis / 86400000) &&
      decide (r.millis / 86400000 < dayFromYear 10000)) = true := by decide
  have hdated : ∀ r ∈ datedLegs.flatten, r.Dated := by
    intro r hr
    obtain ⟨hleft, hlt⟩ := Bool.and_eq_true_iff.mp (List.all_eq_true.mp hall r hr)
    obtain ⟨hform, hle⟩ := Bool.and_eq_true_iff.mp hleft
    exact ⟨hform, of_decide_eq_true hle, of_decide_eq_true hlt⟩
  obtain ⟨pages, hwalk, -, -, -, -, hlost⟩ :=
    date_cursor_walk true datedLegs 2 3 (by decide) (by decide) hdated (by decide)
  exact ⟨pages, hwalk, hlost rfl⟩

end SupabaseLab.CrossProject
