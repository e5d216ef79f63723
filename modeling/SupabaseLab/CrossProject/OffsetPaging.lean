/-
  CrossProject/OffsetPaging.lean --- paging several projects by OFFSET.

  Source: the offset of `pageQuery` in experiments/cross-project-auth/lib/merge.ts, and
  the strategy `offset` of experiments/cross-project-auth/tests/x06-fanout-pagination.ts.

  The offset counts rows of each project by itself, so the page with the number `p` is made
  of the `p`-th blocks of the projects.  What of them does not fit on the page is not
  asked for again.
-/
import SupabaseLab.CrossProject.Paging
import SupabaseLab.Library.PageWalk

set_option autoImplicit false

namespace SupabaseLab.CrossProject

open Library Library.Postgrest

/-! ## The walk -/

/-- One page, as the walk's client fetches it when there is no cursor. -/
noncomputable def fetchOffset (legs : List (List Row)) (limit p : Nat) : Option (List Row) :=
  let qs := pageQuery limit { offset := p * limit }
  let r := fanout .all (legs.map fun rows => readLeg (some (respond rows qs))) limit
  if r.ok then some r.rows else none

/-- The pages from the number `p` on, until one is shorter than `limit`. -/
noncomputable def walkOffset (legs : List (List Row)) (limit : Nat) :
    Nat → Nat → Option (List (List Row))
  | 0, _ => none
  | fuel + 1, p => (fetchOffset legs limit p).bind fun rows =>
      if rows.length < limit then some [rows]
      else (walkOffset legs limit fuel (p + 1)).map (rows :: ·)

/-- The `p`-th `limit` rows of every project, each counted by itself. -/
def blocks (legs : List (List Row)) (limit p : Nat) : List Row :=
  legs.flatMap fun rows => ((rank Row.key rows).drop (p * limit)).take limit

section Query

variable {limit k : Nat}

/-! ## What the query text says -/

/-- The pairs that a query with an offset is made of. -/
def offsetPairs (limit k : Nat) : List (String × String) :=
  [("select", "id,created_at,body,src"), ("order", "created_at.desc,id.desc"),
    ("limit", toString limit)] ++ if k = 0 then [] else [("offset", toString k)]

theorem pageQuery_offset (limit k : Nat) : (pageQuery limit { offset := k }).toList =
    ['&'].intercalate ((offsetPairs limit k).map fun nv => pairText nv.1 nv.2) := by
  have hopen : "select=".toList = "select".toList ++ ['='] := rfl
  have horder : "&order=created_at.desc,id.desc&limit=".toList =
      '&' :: ("order".toList ++ '=' :: ("created_at.desc,id.desc".toList ++ '&' :: ("limit".toList ++ ['=']))) :=
    rfl
  have hoffset : "&offset=".toList = '&' :: ("offset".toList ++ ['=']) := rfl
  by_cases hk : k = 0
  · unfold pageQuery offsetPairs
    simp only [hk, if_true, String.toList_append, hopen, horder, List.append_nil, List.map_cons,
      List.map_nil, pairText]
    simp [List.intercalate, List.intersperse]
  · unfold pageQuery offsetPairs
    simp only [hk, if_false, String.toList_append, hopen, horder, hoffset,
      List.map_append, List.map_cons, List.map_nil, pairText]
    simp [List.intercalate, List.intersperse]

theorem mem_offsetPairs {nv : String × String} (h : nv ∈ offsetPairs limit k) :
    nv ∈ pagePairs limit none ∨ nv = ("offset", toString k) := by
  unfold offsetPairs at h
  obtain h | h := List.mem_append.mp h
  · exact .inl h
  · split at h
    · cases h
    · exact .inr (List.mem_singleton.mp h)

theorem ampersand_notMem_offsetPairs (limit k : Nat) :
    ∀ part ∈ (offsetPairs limit k).map fun nv => pairText nv.1 nv.2, '&' ∉ part := by
  intro part hpart
  obtain ⟨nv, hnv, rfl⟩ := List.mem_map.mp hpart
  obtain hnv | rfl := mem_offsetPairs hnv
  · exact ampersand_notMem_pagePairs limit none _ (List.mem_map_of_mem hnv)
  · have hdigits : '&' ∉ (toString k).toList := fun h => absurd (toString_isDigit k _ h) (by decide)
    refine List.not_mem_append (show '&' ∉ "offset".toList by decide) ?_
    exact List.not_mem_cons_of_ne_of_not_mem (by decide) hdigits

theorem queryPairs_offset (limit k : Nat) : queryPairs (pageQuery limit { offset := k }) =
    (offsetPairs limit k).map fun nv => (nv.1.toList, nv.2.toList) := by
  have hne : ((offsetPairs limit k).map fun nv => pairText nv.1 nv.2) ≠ [] := by
    unfold offsetPairs
    simp
  unfold queryPairs
  rw [pageQuery_offset, List.splitOn_intercalate '&' (ampersand_notMem_offsetPairs limit k) hne,
    List.map_map]
  refine List.map_congr_left fun nv hnv => splitPair_pairText nv.2 ?_
  obtain hnv | rfl := mem_offsetPairs hnv
  · simp only [pagePairs, List.append_nil, List.mem_cons, List.not_mem_nil, or_false] at hnv
    obtain rfl | rfl | rfl := hnv
    · decide
    · decide
    · show '=' ∉ "limit".toList
      decide
  · show '=' ∉ "offset".toList
    decide

theorem parseParam_offset (q : Query) (k : Nat) :
    parseParam q "offset" (toString k) = some { q with offset := k } := by
  have hread : parseParam q "offset" (toString k) =
      (parseNat (toString k)).map fun n => { q with offset := n } := rfl
  rw [hread, parseNat_toString]
  rfl

/-- A page from an offset on. -/
theorem parseQuery_offset (limit k : Nat) : parseQuery (pageQuery limit { offset := k }) =
    some { pageRead limit [] with offset := k } := by
  unfold parseQuery
  rw [queryPairs_offset]
  refine (parsePairs_page limit _).trans ?_
  by_cases hk : k = 0
  · subst hk
    rfl
  · rw [if_neg hk]
    exact parsePairs_cons (decodeText_word "offset" (by decide)) (decodeText_toString k)
      (parseParam_offset _ k)

theorem respond_offset (limit k : Nat) (rows : List Row) :
    respond rows (pageQuery limit { offset := k }) =
      ⟨200, some (((rank Row.key rows).drop k).take limit)⟩ := by
  have horder : precedes columns [⟨"created_at", true⟩, ⟨"id", true⟩] =
      fun a b : Row => decide (b.key ≤ a.key) := by
    funext a b
    rw [Bool.eq_iff_iff, precedes_iff, decide_eq_true_eq]
  have hkeep : keepRows (fun r => holdsAll columns r []) rows = some rows := by
    have hall : keepRows (fun r => holdsAll columns r []) rows =
        some (rows.filter fun _ => true) := keepRows_eq fun _ _ => rfl
    rwa [List.filter_true] at hall
  unfold respond
  rw [parseQuery_offset, Option.bind_some]
  unfold answer pageRead
  dsimp only
  rw [hkeep, Option.map_some, horder]
  rfl

end Query

section Blocks

variable {legs : List (List Row)} {rows : List Row} {limit p q : Nat} {r : Row}

theorem fetchOffset_eq (legs : List (List Row)) (limit p : Nat) :
    fetchOffset legs limit p = some (page Row.key limit (blocks legs limit p)) := by
  have hlegs : (legs.map fun rows => readLeg (some (respond rows
      (pageQuery limit { offset := p * limit })))) =
        legs.map fun rows => .ok (((rank Row.key rows).drop (p * limit)).take limit) := by
    refine List.map_congr_left fun rows _ => ?_
    rw [respond_offset]
    rfl
  unfold fetchOffset fanout
  dsimp only
  rw [hlegs, if_pos (all_isOk_ok _ _), okParts_ok, mergeRows_eq]
  rfl

/-- Blocks of a list put together are its beginning. -/
theorem flatMap_segments {α : Type} (l : List α) (limit m : Nat) :
    ((List.range m).flatMap fun p => (l.drop (p * limit)).take limit) = l.take (m * limit) := by
  induction m with
  | zero => rw [Nat.zero_mul, List.take_zero]; rfl
  | succ m ih =>
    rw [List.range_succ, List.flatMap_append, ih, List.flatMap_singleton, Nat.succ_mul,
      List.take_add]

/-- The blocks of the rounds so far are the beginnings of the legs. -/
theorem flatMap_blocks (legs : List (List Row)) (limit m : Nat) :
    ((List.range m).flatMap (blocks legs limit)).Perm
      (legs.flatMap fun rows => (rank Row.key rows).take (m * limit)) := by
  induction legs with
  | nil =>
    exact .of_eq (List.flatMap_eq_nil_iff.mpr fun _ _ => rfl)
  | cons rows legs ih =>
    rw [List.flatMap_cons, ← flatMap_segments]
    refine .trans ?_ (ih.append_left _)
    exact (List.flatMap_append_perm _ _ _).symm

theorem blocks_subperm (legs : List (List Row)) (limit m : Nat) :
    ((List.range m).flatMap (blocks legs limit)).Subperm legs.flatten := by
  refine (flatMap_blocks legs limit m).subperm.trans ?_
  exact flatMap_page_subperm Row.key (m * limit) legs

theorem mem_of_mem_blocks (hr : r ∈ blocks legs limit p) : r ∈ legs.flatten :=
  (blocks_subperm legs limit (p + 1)).subset
    (List.mem_flatMap.mpr ⟨p, List.mem_range.mpr (Nat.lt_succ_self p), hr⟩)

/-- Every row stands in a block. -/
theorem exists_block (hlimit : 1 ≤ limit) (hr : r ∈ legs.flatten) : ∃ p, r ∈ blocks legs limit p := by
  obtain ⟨rows, hrows, hmem⟩ := List.mem_flatten.mp hr
  have hrank : r ∈ rank Row.key rows := mem_rank.mpr hmem
  obtain ⟨i, hi, rfl⟩ := List.mem_iff_getElem.mp hrank
  have hmod := Nat.mod_lt i hlimit
  have hdiv := Nat.div_add_mod' i limit
  refine ⟨i / limit, List.mem_flatMap.mpr ⟨rows, hrows, List.mem_iff_getElem.mpr ⟨i % limit, ?_, ?_⟩⟩⟩
  · rw [List.length_take, List.length_drop]
    omega
  · rw [List.getElem_take, List.getElem_drop]
    congr 1

theorem nodup_blocks (hids : (legs.flatten.map Row.id).Nodup) (limit m : Nat) :
    (((List.range m).flatMap (blocks legs limit)).map Row.id).Nodup :=
  nodup_map_of_subperm (blocks_subperm legs limit m) hids

theorem notMem_block_of_lt (hids : (legs.flatten.map Row.id).Nodup) (hlt : p < q)
    (hp : r ∈ blocks legs limit p) : r ∉ blocks legs limit q := by
  have hnodup := List.Nodup.of_map _ (nodup_blocks hids limit (q + 1))
  have hpairs := List.pairwise_iff_getElem.mp (List.nodup_flatMap.mp hnodup).2
  have hdisjoint := hpairs p q (by rw [List.length_range]; omega) (by rw [List.length_range]; omega) hlt
  rw [List.getElem_range, List.getElem_range] at hdisjoint
  exact hdisjoint hp

/-- No row stands in two. -/
theorem block_unique (hids : (legs.flatten.map Row.id).Nodup) (hp : r ∈ blocks legs limit p)
    (hq : r ∈ blocks legs limit q) : p = q := by
  rcases Nat.lt_trichotomy p q with hlt | heq | hgt
  · exact absurd hq (notMem_block_of_lt hids hlt hp)
  · exact heq
  · exact absurd hp (notMem_block_of_lt hids hgt hq)

theorem nodup_block (hids : (legs.flatten.map Row.id).Nodup) (p : Nat) :
    ((blocks legs limit p).map Row.key).Nodup := by
  refine nodup_key ?_
  have hall := nodup_blocks hids limit (p + 1)
  rw [List.range_succ, List.flatMap_append, List.flatMap_singleton, List.map_append] at hall
  exact (List.nodup_append.mp hall).2.1

/-- After a round with fewer than `limit` rows there is nothing left. -/
theorem blocks_eq_nil (hshort : (blocks legs limit p).length < limit) (hlt : p < q) :
    blocks legs limit q = [] := by
  refine List.flatMap_eq_nil_iff.mpr fun rows hrows => ?_
  have hle := (List.sublist_flatten_of_mem (List.mem_map_of_mem (f := fun rows =>
    ((rank Row.key rows).drop (p * limit)).take limit) hrows)).length_le
  rw [← List.flatMap_def] at hle
  have hleg := Nat.lt_of_le_of_lt hle hshort
  rw [List.length_take, List.length_drop] at hleg
  have hmul : (p + 1) * limit ≤ q * limit := Nat.mul_le_mul_right _ hlt
  rw [Nat.succ_mul] at hmul
  rw [List.drop_eq_nil_of_le (by omega), List.take_nil]

/-! ## What the walk reads -/

/-- Full rounds use up `limit` rows each. -/
theorem rounds_le (hfull : ∀ q < p, limit ≤ (blocks legs limit q).length) :
    p * limit ≤ legs.flatten.length := by
  calc p * limit = ((List.range p).map fun _ => limit).sum := by simp
    _ ≤ ((List.range p).map fun q => (blocks legs limit q).length).sum :=
      List.sum_le_sum fun q hq => hfull q (List.mem_range.mp hq)
    _ = ((List.range p).flatMap (blocks legs limit)).length := (List.length_flatMap).symm
    _ ≤ legs.flatten.length := (blocks_subperm legs limit p).length_le

/-- The walk reads a page for every full round, and one more. -/
theorem exists_walkOffset (hlimit : 1 ≤ limit) {fuel : Nat}
    (hfull : ∀ q < p, limit ≤ (blocks legs limit q).length)
    (hfuel : legs.flatten.length / limit < p + fuel) :
    ∃ m, p ≤ m ∧ (blocks legs limit m).length < limit ∧
      walkOffset legs limit fuel p = some ((List.range' p (m + 1 - p)).map fun q =>
        page Row.key limit (blocks legs limit q)) := by
  induction fuel generalizing p with
  | zero =>
    have hdiv := (Nat.le_div_iff_mul_le hlimit).mpr (rounds_le hfull)
    omega
  | succ fuel ih =>
    have hlength : (page Row.key limit (blocks legs limit p)).length =
        min limit (blocks legs limit p).length := by
      rw [page, List.length_take, length_rank]
    rw [walkOffset, fetchOffset_eq, Option.bind_some, hlength]
    by_cases hshort : (blocks legs limit p).length < limit
    · refine ⟨p, Nat.le_refl p, hshort, ?_⟩
      rw [if_pos (by omega), Nat.add_sub_cancel_left]
      rfl
    · have hfull' : ∀ q < p + 1, limit ≤ (blocks legs limit q).length := by
        intro q hq
        obtain hlt | rfl := Nat.lt_succ_iff_lt_or_eq.mp hq
        · exact hfull q hlt
        · exact Nat.not_lt.mp hshort
      obtain ⟨m, hm, hmshort, hwalk⟩ := ih hfull' (by omega)
      refine ⟨m, by omega, hmshort, ?_⟩
      have hsucc : m + 1 - p = m + 1 - (p + 1) + 1 := by omega
      rw [if_neg (by omega), hwalk, hsucc, List.range'_succ]
      rfl

end Blocks

/-- Paged by OFFSET no row is read twice.  A row is missing exactly when `limit` rows of its
round are newer, so the walk reads everything exactly when no round has more rows than a
page. -/
theorem offset_walk (legs : List (List Row)) (limit fuel : Nat) (hlimit : 1 ≤ limit)
    (hids : (legs.flatten.map Row.id).Nodup) (hfuel : legs.flatten.length / limit < fuel) :
    ∃ pages, walkOffset legs limit fuel 0 = some pages ∧ pages.flatten.Nodup ∧
      (∀ r ∈ pages.flatten, r ∈ legs.flatten) ∧
      (∀ r ∈ legs.flatten, r ∉ pages.flatten ↔ ∃ p, r ∈ blocks legs limit p ∧
        limit ≤ (blocks legs limit p).countP fun y => decide (r.key < y.key)) ∧
      ((∀ r ∈ legs.flatten, r ∈ pages.flatten) ↔ ∀ p, (blocks legs limit p).length ≤ limit) := by
  obtain ⟨m, -, hshort, hwalk⟩ := exists_walkOffset hlimit (p := 0) (fun q hq => absurd hq (by simp))
    (show legs.flatten.length / limit < 0 + fuel by omega)
  have hpages : ((List.range' 0 (m + 1 - 0)).map fun q => page Row.key limit (blocks legs limit q)) =
      (List.range (m + 1)).map fun q => page Row.key limit (blocks legs limit q) := by
    rw [List.range_eq_range', Nat.sub_zero]
  rw [hpages] at hwalk
  have hmem : ∀ r, r ∈ ((List.range (m + 1)).map fun q =>
      page Row.key limit (blocks legs limit q)).flatten ↔
        ∃ q ≤ m, r ∈ page Row.key limit (blocks legs limit q) := by
    intro r
    rw [← List.flatMap_def, List.mem_flatMap]
    simp only [List.mem_range, Nat.lt_succ_iff]
  have hmissing : ∀ r ∈ legs.flatten, r ∉ ((List.range (m + 1)).map fun q =>
      page Row.key limit (blocks legs limit q)).flatten ↔ ∃ p, r ∈ blocks legs limit p ∧
        limit ≤ (blocks legs limit p).countP fun y => decide (r.key < y.key) := by
    intro r hr
    obtain ⟨p, hp⟩ := exists_block hlimit hr
    have hle : p ≤ m := by
      refine Nat.not_lt.mp fun hlt => ?_
      rw [blocks_eq_nil hshort hlt] at hp
      cases hp
    rw [hmem]
    constructor
    · intro hnot
      refine ⟨p, hp, Nat.not_lt.mp fun hcount => hnot ⟨p, hle, ?_⟩⟩
      exact (mem_page_iff (nodup_block hids p)).mpr ⟨hp, hcount⟩
    · rintro ⟨q, hq, hcount⟩ ⟨q', -, hpage⟩
      have hblock := (mem_page_iff (nodup_block hids q')).mp hpage
      rw [block_unique hids hblock.1 hq] at hblock
      exact absurd hblock.2 (Nat.not_lt.mpr hcount)
  refine ⟨_, hwalk, ?_, ?_, hmissing, ?_⟩
  · have hsub := flatMap_page_subperm Row.key limit ((List.range (m + 1)).map (blocks legs limit))
    rw [List.flatMap_map, ← List.flatMap_def] at hsub
    rw [← List.flatMap_def]
    exact List.Nodup.of_map _ (nodup_map_of_subperm hsub (nodup_blocks hids limit (m + 1)))
  · intro r hr
    obtain ⟨q, -, hpage⟩ := (hmem r).mp hr
    exact mem_of_mem_blocks (mem_rank.mp (List.mem_of_mem_take hpage))
  · constructor
    · intro hall p
      have hsub : (blocks legs limit p).Subperm (page Row.key limit (blocks legs limit p)) := by
        refine List.Nodup.subperm (List.Nodup.of_map _ (nodup_block hids p)) fun r hr => ?_
        refine (mem_page_iff (nodup_block hids p)).mpr ⟨hr, Nat.not_le.mp fun hcount => ?_⟩
        have hr' := mem_of_mem_blocks hr
        exact (hmissing r hr').mpr ⟨p, hr, hcount⟩ (hall r hr')
      exact Nat.le_trans hsub.length_le (List.length_take_le _ _)
    · intro hrounds r hr
      by_contra hnot
      obtain ⟨p, hp, hcount⟩ := (hmissing r hr).mp hnot
      have hfewer : (blocks legs limit p).countP (fun y => decide (r.key < y.key)) <
          (blocks legs limit p).length := by
        rw [List.countP_eq_length_filter]
        exact List.length_filter_lt_length_iff_exists.mpr ⟨r, hp, by simp⟩
      exact absurd (hrounds p) (by omega)

theorem offset_walk_twoLegs : ∃ pages, walkOffset twoLegs 2 3 0 = some pages ∧
    pages.flatten.Nodup ∧ ((∀ r ∈ twoLegs.flatten, r ∈ pages.flatten) ↔
      ∀ p, (blocks twoLegs 2 p).length ≤ 2) := by
  obtain ⟨pages, hwalk, hnodup, -, -, hall⟩ :=
    offset_walk twoLegs 2 3 (by decide) (by decide) (by decide)
  exact ⟨pages, hwalk, hnodup, hall⟩

end SupabaseLab.CrossProject
