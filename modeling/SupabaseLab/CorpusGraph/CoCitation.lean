/-
  CorpusGraph/CoCitation.lean --- the edges between entities cited near one another.

  Source: `build_edges` of experiments/pdf-corpus-graph/demo/db/02-extract.sql, over the
  tables of 01-schema.sql.

  An edge is upserted for each pair that is cited within the window, with its number of
  mention pairs as the weight, and no edge is ever deleted.  So what a call leaves is
  what it says of the mentions it saw, and the edges of earlier calls whose pairs are
  not cited within the window any more.  The columns `id` and `kind`, which no statement
  here reads, are left out.
-/
import SupabaseLab.Library.Aggregate
import SupabaseLab.Library.Except
import SupabaseLab.Library.KeyMap
import SupabaseLab.Library.Machine

set_option autoImplicit false

namespace SupabaseLab.CorpusGraph

open Library

/-! ## The function -/

structure Mention where
  entityId : Int
  docSlug : String
  charOffset : Nat
  deriving DecidableEq

/-- The columns of the unique key `(source, target, doc_slug)`. -/
abbrev EdgeKey := Int × Int × String

structure EdgeRow where
  weight : Nat
  cost : ℚ
  reverseCost : ℚ
  deriving DecidableEq

abbrev EdgeTable := KeyMap EdgeKey EdgeRow

/-- A call, with the mentions it finds; a null window compares with nothing. -/
structure BuildCall where
  mentions : List Mention
  window : Option Int

inductive BuildError where
  | integerOutOfRange
  deriving DecidableEq

/-- The largest `integer`. -/
def maxInteger : Nat := 2 ^ 31 - 1

/-- `abs(a.char_offset - b.char_offset) <= p_window`. -/
def near (window : Option Int) (a b : Mention) : Bool :=
  match window with
  | some w => decide (|(a.charOffset : Int) - b.charOffset| ≤ w)
  | none => false

/-- The join of the mentions with themselves. -/
def BuildCall.joined (c : BuildCall) : List (Mention × Mention) :=
  (c.mentions.product c.mentions).filter fun p =>
    decide (p.1.docSlug = p.2.docSlug) && (decide (p.1.entityId < p.2.entityId) &&
      near c.window p.1 p.2)

def edgeKey (p : Mention × Mention) : EdgeKey :=
  (min p.1.entityId p.2.entityId, max p.1.entityId p.2.entityId, p.1.docSlug)

/-- The rows to insert: `count(*)` for each key. -/
def BuildCall.counts (c : BuildCall) : List (EdgeKey × Nat) :=
  groupBy edgeKey List.length c.joined

/-- `on conflict (source, target, doc_slug) do update set weight = excluded.weight`. -/
def upserted (old : Option EdgeRow) (weight : Nat) : EdgeRow :=
  match old with
  | some row => { row with weight := weight }
  | none => ⟨weight, 1, 1⟩

/-- The INSERT; it names no key twice, so each row meets the table as it was. -/
def insertEdges (counts : List (EdgeKey × Nat)) (edges : EdgeTable) : EdgeTable :=
  (counts.map fun p => (p.1, upserted (edges.get? p.1) p.2)).foldl (fun m e => m.set e.1 e.2) edges

/-- The UPDATE of all edges: `1.0 / greatest(weight, 1)`. -/
def recosted (row : EdgeRow) : EdgeRow :=
  { row with cost := 1 / max row.weight 1, reverseCost := 1 / max row.weight 1 }

/-- The number of edges it returns, and the table it leaves. -/
def buildEdges (c : BuildCall) (edges : EdgeTable) : Except BuildError (Nat × EdgeTable) := do
  refuseIf (∃ p ∈ c.counts, maxInteger < p.2) .integerOutOfRange
  let updated := (insertEdges c.counts edges).mapValues recosted
  refuseIf (maxInteger < updated.keys.length) .integerOutOfRange
  return (updated.keys.length, updated)

/-! ## What the edges are meant to be -/

/-- How many pairs of a mention of `x` and one of `y` stand within the window in a document. -/
def BuildCall.closePairs (c : BuildCall) (x y : Int) (doc : String) : Nat :=
  (c.mentions.product c.mentions).countP fun p =>
    decide (p.1.entityId = x ∧ p.2.entityId = y ∧ p.1.docSlug = doc ∧ p.2.docSlug = doc) &&
      near c.window p.1 p.2

/-- Two distinct entities are cited within the window, named with the lower one first. -/
def BuildCall.Cites (c : BuildCall) (k : EdgeKey) : Prop :=
  k.1 < k.2.1 ∧ 0 < c.closePairs k.1 k.2.1 k.2.2

instance (c : BuildCall) (k : EdgeKey) : Decidable (c.Cites k) :=
  inferInstanceAs (Decidable (_ ∧ _))

/-- The edge that a pair is to have. -/
def BuildCall.edge (c : BuildCall) (k : EdgeKey) : Option EdgeRow :=
  if c.Cites k then
    let n := c.closePairs k.1 k.2.1 k.2.2
    some ⟨n, 1 / n, 1 / n⟩
  else none

/-- The table is that of its mentions and window, building it again changes nothing, and
it is the one an empty table would have become. -/
structure Rebuilt (c : BuildCall) (edges : EdgeTable) : Prop where
  exact : ∀ k, edges.get? k = c.edge k
  again : ∃ n, buildEdges c edges = .ok (n, edges)
  unaffected : ∀ n fresh, buildEdges c .empty = .ok (n, fresh) → ∀ k, edges.get? k = fresh.get? k

/-- A call that goes through, after others. -/
def buildStep (edges : EdgeTable) (c : BuildCall) : Option EdgeTable :=
  match buildEdges c edges with
  | .ok (_, edges') => some edges'
  | .error _ => none

section Lemmas

variable {c : BuildCall} {edges edges' : EdgeTable} {k : EdgeKey} {n : Nat} {calls : List BuildCall}

/-- The rows of a group are the mention pairs of its key. -/
theorem length_group (h : k.1 < k.2.1) :
    (groupOf edgeKey c.joined k).length = c.closePairs k.1 k.2.1 k.2.2 := by
  unfold groupOf BuildCall.joined BuildCall.closePairs
  rw [List.filter_filter, ← List.countP_eq_length_filter]
  refine List.countP_congr fun p _ => ?_
  obtain ⟨x, y, doc⟩ := k
  simp only [edgeKey, Bool.and_eq_true, decide_eq_true_iff, Prod.mk.injEq]
  constructor
  · rintro ⟨⟨hmin, hmax, hdoc⟩, hsame, hlt, hnear⟩
    rw [min_eq_left hlt.le] at hmin
    rw [max_eq_right hlt.le] at hmax
    exact ⟨⟨hmin, hmax, hdoc, hsame ▸ hdoc⟩, hnear⟩
  · rintro ⟨⟨rfl, rfl, hdoc, hdoc'⟩, hnear⟩
    exact ⟨⟨min_eq_left (le_of_lt h), max_eq_right (le_of_lt h), hdoc⟩, hdoc.trans hdoc'.symm, h, hnear⟩

theorem lt_of_mem_joined {p : Mention × Mention} (hp : p ∈ c.joined) :
    (edgeKey p).1 < (edgeKey p).2.1 := by
  have hfilter := (List.mem_filter.mp hp).2
  rw [Bool.and_eq_true, Bool.and_eq_true, decide_eq_true_iff, decide_eq_true_iff] at hfilter
  have hlt := hfilter.2.1
  show min _ _ < max _ _
  rwa [min_eq_left hlt.le, max_eq_right hlt.le]

/-- The rows to insert are the pairs that are cited, each with its mention pairs. -/
theorem mem_counts : (k, n) ∈ c.counts ↔ c.Cites k ∧ n = c.closePairs k.1 k.2.1 k.2.2 := by
  unfold BuildCall.counts
  rw [mem_groupBy]
  constructor
  · rintro ⟨hk, rfl⟩
    obtain ⟨p, hp, rfl⟩ := List.mem_map.mp hk
    have hlt := lt_of_mem_joined hp
    refine ⟨⟨hlt, ?_⟩, length_group hlt⟩
    rw [← length_group hlt]
    exact List.length_pos_of_mem (List.mem_filter.mpr ⟨hp, decide_eq_true rfl⟩)
  · rintro ⟨⟨hlt, hpos⟩, rfl⟩
    rw [← length_group hlt] at hpos
    obtain ⟨p, hp⟩ := List.exists_mem_of_length_pos hpos
    obtain ⟨hmem, hkey⟩ := List.mem_filter.mp hp
    exact ⟨List.mem_map.mpr ⟨p, hmem, of_decide_eq_true hkey⟩, (length_group hlt).symm⟩

theorem counts_nodup : (c.counts.map Prod.fst).Nodup := groupBy_nodup

theorem keys_upserted (counts : List (EdgeKey × Nat)) (edges : EdgeTable) :
    (counts.map fun p => (p.1, upserted (edges.get? p.1) p.2)).map Prod.fst = counts.map Prod.fst := by
  rw [List.map_map]
  rfl

theorem get?_insertEdges_of_cites (h : c.Cites k) : (insertEdges c.counts edges).get? k =
    some (upserted (edges.get? k) (c.closePairs k.1 k.2.1 k.2.2)) := by
  refine KeyMap.get?_foldl_set_of_mem ?_ (List.mem_map_of_mem (mem_counts.mpr ⟨h, rfl⟩))
  rw [keys_upserted]
  exact counts_nodup

theorem get?_insertEdges_of_not_cites (h : ¬ c.Cites k) :
    (insertEdges c.counts edges).get? k = edges.get? k := by
  refine KeyMap.get?_foldl_set_of_not_mem ?_
  rw [keys_upserted, List.mem_map]
  rintro ⟨⟨k', n⟩, hmem, rfl⟩
  exact h (mem_counts.mp hmem).1

/-! ## One call -/

theorem buildEdges_eq_ok : buildEdges c edges = .ok (n, edges') ↔
    (∀ p ∈ c.counts, p.2 ≤ maxInteger) ∧ edges' = (insertEdges c.counts edges).mapValues recosted ∧
      n = edges'.keys.length ∧ n ≤ maxInteger := by
  unfold buildEdges
  constructor
  · intro h
    obtain ⟨_, hcounts, h⟩ := bind_eq_ok.mp h
    obtain ⟨_, hkeys, h⟩ := bind_eq_ok.mp h
    cases h
    refine ⟨fun p hp => ?_, rfl, rfl, not_lt.mp (refuseIf_eq_ok.mp hkeys)⟩
    exact not_lt.mp fun hlt => refuseIf_eq_ok.mp hcounts ⟨p, hp, hlt⟩
  · rintro ⟨hcounts, rfl, rfl, hkeys⟩
    rw [refuseIf_of_not fun ⟨p, hp, hlt⟩ => absurd (hcounts p hp) (not_le.mpr hlt), ok_bind]
    dsimp only
    rw [refuseIf_of_not (not_lt.mpr hkeys)]
    rfl

/-- A pair that is cited gets its edge. -/
theorem get?_of_cites (hbuild : buildEdges c edges = .ok (n, edges')) (h : c.Cites k) :
    edges'.get? k = c.edge k := by
  obtain ⟨-, rfl, -⟩ := buildEdges_eq_ok.mp hbuild
  rw [KeyMap.get?_mapValues, get?_insertEdges_of_cites h, Option.map_some, BuildCall.edge, if_pos h]
  have hone : max (c.closePairs k.1 k.2.1 k.2.2) 1 = c.closePairs k.1 k.2.1 k.2.2 :=
    max_eq_left h.2
  unfold recosted upserted
  cases edges.get? k <;> simp only [hone]

/-- A pair that is not cited keeps its edge, or has none. -/
theorem get?_of_not_cites (hbuild : buildEdges c edges = .ok (n, edges')) (h : ¬ c.Cites k) :
    edges'.get? k = (edges.get? k).map recosted := by
  obtain ⟨-, rfl, -⟩ := buildEdges_eq_ok.mp hbuild
  rw [KeyMap.get?_mapValues, get?_insertEdges_of_not_cites h]

theorem edge_of_not_cites (h : ¬ c.Cites k) : c.edge k = none := if_neg h

/-- The costs of all edges are in order after a call. -/
theorem recosted_get? (hbuild : buildEdges c edges = .ok (n, edges')) {row : EdgeRow}
    (h : edges'.get? k = some row) : recosted row = row := by
  obtain ⟨-, rfl, -⟩ := buildEdges_eq_ok.mp hbuild
  rw [KeyMap.get?_mapValues] at h
  obtain ⟨row', -, rfl⟩ := Option.map_eq_some_iff.mp h
  rfl

/-- A second call finds each of its rows as it would write it. -/
theorem buildEdges_again (hbuild : buildEdges c edges = .ok (n, edges')) :
    buildEdges c edges' = .ok (n, edges') := by
  obtain ⟨hcounts, -, hn, hkeys⟩ := buildEdges_eq_ok.mp hbuild
  refine buildEdges_eq_ok.mpr ⟨hcounts, ?_, hn, hkeys⟩
  have hinsert : insertEdges c.counts edges' = edges' := by
    refine KeyMap.foldl_set_same fun e he => ?_
    obtain ⟨⟨k, m⟩, hmem, rfl⟩ := List.mem_map.mp he
    obtain ⟨hcites, rfl⟩ := mem_counts.mp hmem
    have hget := get?_of_cites hbuild hcites
    rw [BuildCall.edge, if_pos hcites] at hget
    dsimp only
    rw [hget]
    rfl
  rw [hinsert]
  exact (KeyMap.mapValues_same fun k row hrow => recosted_get? hbuild hrow).symm

theorem get?_eq_none_of_not_cites (hbuild : buildEdges c .empty = .ok (n, edges'))
    (h : ¬ c.Cites k) : edges'.get? k = none := by
  rw [get?_of_not_cites hbuild h]
  rfl

/-- A call is right exactly when it finds no edge that it does not write. -/
theorem rebuilt_iff_of_call (hbuild : buildEdges c edges = .ok (n, edges')) :
    Rebuilt c edges' ↔ ∀ k, (edges.get? k).isSome = true → c.Cites k := by
  constructor
  · intro h k hsome
    by_contra hnot
    have hexact := h.exact k
    rw [get?_of_not_cites hbuild hnot, edge_of_not_cites hnot, Option.map_eq_none_iff] at hexact
    rw [hexact] at hsome
    cases hsome
  · intro h
    have hexact : ∀ k, edges'.get? k = c.edge k := by
      intro k
      by_cases hcites : c.Cites k
      · exact get?_of_cites hbuild hcites
      · rw [get?_of_not_cites hbuild hcites, edge_of_not_cites hcites, Option.map_eq_none_iff]
        exact Option.not_isSome_iff_eq_none.mp fun hsome => hcites (h k hsome)
    refine ⟨hexact, ⟨n, buildEdges_again hbuild⟩, fun m fresh hfresh k => ?_⟩
    rw [hexact k]
    by_cases hcites : c.Cites k
    · exact (get?_of_cites hfresh hcites).symm
    · rw [edge_of_not_cites hcites, get?_eq_none_of_not_cites hfresh hcites]

/-! ## Calls one after the other -/

theorem buildStep_eq_some : buildStep edges c = some edges' ↔
    ∃ n, buildEdges c edges = .ok (n, edges') := by
  unfold buildStep
  split
  · rename_i n edges'' hbuild
    rw [hbuild, Option.some_inj]
    constructor
    · rintro rfl
      exact ⟨n, rfl⟩
    · rintro ⟨n', heq⟩
      cases heq
      rfl
  · rename_i e hbuild
    rw [hbuild]
    exact ⟨fun h => (nomatch h), fun ⟨_, h⟩ => (nomatch h)⟩

/-- The pairs that have an edge are those that some call cited. -/
theorem isSome_iff_cited (hrun : runEvents buildStep .empty calls = some edges) :
    (edges.get? k).isSome = true ↔ ∃ c ∈ calls, c.Cites k := by
  refine runEvents_invariant (I := fun calls (edges : EdgeTable) =>
    (edges.get? k).isSome = true ↔ ∃ c ∈ calls, c.Cites k) ?_ ?_ calls edges hrun
  · exact ⟨fun h => (nomatch h), fun ⟨_, hmem, _⟩ => absurd hmem List.not_mem_nil⟩
  · intro calls edges c edges' _ ih hstep
    obtain ⟨n, hbuild⟩ := buildStep_eq_some.mp hstep
    by_cases hcites : c.Cites k
    · rw [get?_of_cites hbuild hcites, BuildCall.edge, if_pos hcites]
      exact ⟨fun _ => ⟨c, List.mem_append_right _ List.mem_cons_self, hcites⟩, fun _ => rfl⟩
    · rw [get?_of_not_cites hbuild hcites, Option.isSome_map, ih]
      constructor
      · rintro ⟨c', hmem, h⟩
        exact ⟨c', List.mem_append_left _ hmem, h⟩
      · rintro ⟨c', hmem, h⟩
        rcases List.mem_append.mp hmem with hmem | hmem
        · exact ⟨c', hmem, h⟩
        · exact absurd (List.mem_singleton.mp hmem ▸ h) hcites

/-- After any calls from an empty table, a call leaves what it is to leave exactly when
every pair an earlier call cited is still cited. -/
theorem rebuilt_iff (hrun : runEvents buildStep .empty calls = some edges)
    (hbuild : buildEdges c edges = .ok (n, edges')) :
    Rebuilt c edges' ↔ ∀ earlier ∈ calls, ∀ k, earlier.Cites k → c.Cites k := by
  rw [rebuilt_iff_of_call hbuild]
  constructor
  · exact fun h earlier hmem k hcites => h k ((isSome_iff_cited hrun).mpr ⟨earlier, hmem, hcites⟩)
  · intro h k hsome
    obtain ⟨earlier, hmem, hcites⟩ := (isSome_iff_cited hrun).mp hsome
    exact h earlier hmem k hcites

end Lemmas

/-! ## A smaller window -/

/-- Two entities cited 100 characters apart. -/
def hundredApart (window : Int) : BuildCall := ⟨[⟨1, "doc", 1⟩, ⟨2, "doc", 101⟩], some window⟩

/-- The edge between them. -/
def oneEdge : EdgeTable := ⟨[((1, 2, "doc"), ⟨1, 1, 1⟩)], List.nodup_singleton _⟩

theorem rebuilt_iff_hundredApart :
    Rebuilt (hundredApart 400) oneEdge ↔
      ∀ earlier ∈ [hundredApart 10, hundredApart 400], ∀ k, earlier.Cites k →
        (hundredApart 400).Cites k :=
  have hbuild : buildEdges (hundredApart 400) oneEdge = .ok (1, oneEdge) := by with_unfolding_all decide
  rebuilt_iff (by with_unfolding_all decide) hbuild

/-- The edge of the wider window is still there after the narrower one. -/
theorem narrower_window_keeps_edge :
    runEvents buildStep .empty [hundredApart 400] = some oneEdge ∧
      buildEdges (hundredApart 10) oneEdge = .ok (1, oneEdge) ∧
      (hundredApart 10).closePairs 1 2 "doc" = 0 ∧ ¬ Rebuilt (hundredApart 10) oneEdge := by
  have hbuild : buildEdges (hundredApart 10) oneEdge = .ok (1, oneEdge) := by with_unfolding_all decide
  refine ⟨by with_unfolding_all decide, hbuild, by decide, fun h => ?_⟩
  have hcites := (rebuilt_iff_of_call hbuild).mp h (1, 2, "doc") (by decide)
  exact absurd hcites (by decide)

end SupabaseLab.CorpusGraph
