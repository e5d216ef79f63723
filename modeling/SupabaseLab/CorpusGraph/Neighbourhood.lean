/-
  CorpusGraph/Neighbourhood.lean --- the neighbourhood of an entity.

  Source: `neighbourhood` of experiments/pdf-corpus-graph/demo/db/04-api.sql, over the
  tables of 01-schema.sql.

  The walk goes back and forth over every edge and keeps each pair of a node and a depth
  once.  Its least depths are the distances in the graph whose edges are the table's,
  taken without direction; the joins after it add the entity and what its edges say.
  As in `AsAt` the order of what ties is left open, and `neighbourhood` is the one result
  that keeps the order of the tables.
-/
import SupabaseLab.CorpusGraph.AsAt
import SupabaseLab.Library.Aggregate

set_option autoImplicit false

namespace SupabaseLab.CorpusGraph

open Library

/-! ## The query -/

/-- One step of the recursive part. -/
def Graph.neighbours (g : Graph) (id : Int) : List Int :=
  (g.edges.filter fun e => e.touches id).map fun e => e.far id

/-- The common table `walk`. -/
def Graph.walk (g : Graph) (root : Int) (maxDepth : Option Int) : List (Int × Nat) :=
  levelWalk g.neighbours (maxSteps maxDepth) (g.rootRows root)

/-- A row of the joins after the walk; the left join may find no edge. -/
structure Joined where
  id : Int
  kind : String
  label : String
  depth : Nat
  edge : Option Edge

/-- `left join demo.edges g on (g.source = b.id or g.target = b.id)`. -/
def Graph.edgesAt (g : Graph) (id : Int) : List (Option Edge) :=
  let incident := g.edges.filter fun e => e.touches id
  if incident = [] then [none] else incident.map some

/-- `from best b join demo.entities e on e.id = b.id left join demo.edges g on …`. -/
def Graph.joined (g : Graph) (best : List (Int × Nat)) : List Joined :=
  best.flatMap fun b => (g.entities.filter fun e => e.id = b.1).flatMap fun e =>
    (g.edgesAt b.1).map fun edge => ⟨b.1, e.kind, e.label, b.2, edge⟩

/-- `group by b.id, e.kind, e.label, b.depth`. -/
def Joined.key (j : Joined) : Int × String × String × Nat := (j.id, j.kind, j.label, j.depth)

/-- A group of the joins, with its edges; a row without an edge adds none. -/
abbrev Group := (Int × String × String × Nat) × List Edge

def Group.entity (k : Group) : Entity := ⟨k.1.1, k.1.2.1, k.1.2.2.1⟩

def Group.depth (k : Group) : Nat := k.1.2.2.2

def Group.rowKey (k : Group) : RowKey := ⟨k.depth, maxWeight k.2⟩

def Graph.groups (g : Graph) (root : Int) (maxDepth : Option Int) : List Group :=
  groupBy Joined.key (List.filterMap Joined.edge) (g.joined (minDepths (g.walk root maxDepth)))

/-- What `neighbourhood` may return. -/
def Graph.Returns (g : Graph) (root : Int) (maxDepth lim : Option Int)
    (out : Except SqlError (List NeighbourRow)) : Prop :=
  ReturnsRows Group.rowKey (fun k => IsRow k.entity k.depth k.2) lim (g.groups root maxDepth) out

def neighbourhood (g : Graph) (root : Int) (maxDepth lim : Option Int) :
    Except SqlError (List NeighbourRow) :=
  if least lim 500 < 0 then .error .negativeLimit
  else
    .ok ((((g.groups root maxDepth).insertionSort (OrderedBy Group.rowKey)).take
      (least lim 500).toNat).map fun k => rowOf k.entity k.depth k.2 (firstDoc k.2))

/-- The result that keeps the order of the tables is one of them. -/
theorem returns_neighbourhood (g : Graph) (root : Int) (maxDepth lim : Option Int) :
    g.Returns root maxDepth lim (neighbourhood g root maxDepth lim) := by
  unfold Graph.Returns neighbourhood
  split
  · rename_i hneg
    rw [ReturnsRows, if_pos hneg]
  · rename_i hlim
    exact returnsRows_map hlim (arranges_insertionSort _) fun _ _ => isRow_firstDoc _ _ _

/-! ## The graph -/

/-- The edges of the table without their direction. -/
def Graph.links (g : Graph) : SimpleGraph Int :=
  SimpleGraph.fromRel fun a b => ∃ e ∈ g.edges, e.source = a ∧ e.target = b

/-- The entities at most `n` edges from the root. -/
def Graph.within (g : Graph) (root : Int) (n : Nat) : Set Int :=
  {id | id ∈ g.entities.map Entity.id ∧ g.links.edist root id ≤ n}

/-- The rows are the entities no further than the bound from the root, each once and with
its distance. -/
structure IsNeighbourhood (g : Graph) (root : Int) (bound : Int) (rows : List NeighbourRow) : Prop where
  once : (rows.map NeighbourRow.id).Nodup
  exact : ∀ id d, (∃ r ∈ rows, r.id = id ∧ r.depth = d) ↔
    id ∈ g.entities.map Entity.id ∧ g.links.edist root id = (d : ℕ) ∧ (d : Int) ≤ bound
  described : ∀ r ∈ rows, ∃ e ∈ g.entities, r.id = e.id ∧ r.kind = e.kind ∧ r.label = e.label

section Lemmas

variable {g : Graph} {root id : Int} {maxDepth lim : Option Int} {d : Nat} {a b : Int}
  {best : List (Int × Nat)} {j : Joined}

theorem mem_neighbours : b ∈ g.neighbours a ↔
    ∃ e ∈ g.edges, (e.source = a ∧ e.target = b) ∨ (e.source = b ∧ e.target = a) := by
  unfold Graph.neighbours
  rw [List.mem_map]
  constructor
  · rintro ⟨e, he, rfl⟩
    obtain ⟨hmem, htouches⟩ := List.mem_filter.mp he
    refine ⟨e, hmem, ?_⟩
    rw [Edge.far]
    split
    · rename_i hsource
      exact .inl ⟨hsource, rfl⟩
    · rename_i hsource
      rw [Edge.touches, decide_eq_false hsource, Bool.false_or, decide_eq_true_iff] at htouches
      exact .inr ⟨rfl, htouches⟩
  · rintro ⟨e, hmem, ⟨hs, ht⟩ | ⟨hs, ht⟩⟩
    · refine ⟨e, List.mem_filter.mpr ⟨hmem, ?_⟩, ?_⟩
      · rw [Edge.touches, decide_eq_true hs, Bool.true_or]
      · rw [Edge.far, if_pos hs, ht]
    · refine ⟨e, List.mem_filter.mpr ⟨hmem, ?_⟩, ?_⟩
      · rw [Edge.touches, decide_eq_true ht, Bool.or_true]
      · rw [Edge.far]
        split
        · rename_i hsource
          rw [ht, ← hsource, hs]
        · exact hs

theorem links_adj : g.links.Adj a b ↔ a ≠ b ∧ b ∈ g.neighbours a := by
  rw [mem_neighbours, Graph.links, SimpleGraph.fromRel_adj]
  refine and_congr_right fun _ => ?_
  constructor
  · rintro (⟨e, he, hab⟩ | ⟨e, he, hba⟩)
    · exact ⟨e, he, .inl hab⟩
    · exact ⟨e, he, .inr hba⟩
  · rintro ⟨e, he, hab | hba⟩
    · exact .inl ⟨e, he, hab⟩
    · exact .inr ⟨e, he, hba⟩

theorem Graph.mem_of_neighbourSteps (h : Steps g.neighbours (g.rootRows root) d id) :
    id ∈ g.entities.map Entity.id := by
  cases h with
  | start hroot => exact (mem_rootRows.mp hroot).1 ▸ (mem_rootRows.mp hroot).2
  | step _ hb =>
    obtain ⟨e, he, rfl⟩ := List.mem_map.mp hb
    exact g.far_mem (List.mem_filter.mp he).1 _

theorem links_mem (h : g.links.Adj a b) : a ∈ g.entities.map Entity.id := by
  obtain ⟨e, he, ⟨rfl, -⟩ | ⟨-, rfl⟩⟩ := mem_neighbours.mp (links_adj.mp h).2
  · exact (g.ends e he).1
  · exact (g.ends e he).2

/-- Nothing is near a root that is no entity. -/
theorem root_mem_of_edist (hid : id ∈ g.entities.map Entity.id) (h : g.links.edist root id = d) :
    root ∈ g.entities.map Entity.id := by
  obtain ⟨w, -⟩ := SimpleGraph.exists_walk_of_edist_ne_top (h ▸ ENat.natCast_ne_top d)
  cases w with
  | nil => exact hid
  | cons hadj _ => exact links_mem hadj

/-- The walk's least depths are the distances from the root. -/
theorem mem_nearest : (id, d) ∈ minDepths (g.walk root maxDepth) ↔
    id ∈ g.entities.map Entity.id ∧ g.links.edist root id = d ∧ d ≤ maxSteps maxDepth := by
  have hdist : root ∈ g.entities.map Entity.id →
      (IsDistance g.neighbours (g.rootRows root) d id ↔ g.links.edist root id = d) := fun hroot =>
    isDistance_iff_edist (fun x y hy => or_iff_not_imp_left.mpr fun hne => links_adj.mpr ⟨hne, hy⟩)
      (fun x y hxy => (links_adj.mp hxy).2)
      fun y => mem_rootRows.trans ⟨fun h => h.1, fun h => ⟨h, hroot⟩⟩
  rw [Graph.walk, mem_minDepths_levelWalk]
  constructor
  · rintro ⟨hle, hd⟩
    obtain ⟨y, hy⟩ := hd.1.exists_start
    have hroot : root ∈ g.entities.map Entity.id := (mem_rootRows.mp hy).2
    exact ⟨g.mem_of_neighbourSteps hd.1, (hdist hroot).mp hd, hle⟩
  · rintro ⟨hid, hd, hle⟩
    exact ⟨hle, (hdist (root_mem_of_edist hid hd)).mpr hd⟩

/-! ## The joins after the walk -/

theorem edgesAt_ne_nil (g : Graph) (id : Int) : g.edgesAt id ≠ [] := by
  unfold Graph.edgesAt
  dsimp only
  split
  · exact List.cons_ne_nil _ _
  · rename_i h
    rwa [ne_eq, List.map_eq_nil_iff]

/-- The joins keep each node of the walk, as its entity. -/
theorem mem_joined_keys {k : Int × String × String × Nat} :
    k ∈ (g.joined best).map Joined.key ↔
      ∃ e ∈ g.entities, (e.id, k.2.2.2) ∈ best ∧ k = (e.id, e.kind, e.label, k.2.2.2) := by
  unfold Graph.joined
  rw [List.mem_map]
  constructor
  · rintro ⟨j, hj, rfl⟩
    obtain ⟨b, hb, hj⟩ := List.mem_flatMap.mp hj
    obtain ⟨e, he, hj⟩ := List.mem_flatMap.mp hj
    obtain ⟨edge, -, rfl⟩ := List.mem_map.mp hj
    obtain ⟨hmem, hid⟩ := List.mem_filter.mp he
    have hid : e.id = b.1 := of_decide_eq_true hid
    have hb : (e.id, b.2) ∈ best := hid ▸ hb
    refine ⟨e, hmem, hb, ?_⟩
    rw [hid]
    rfl
  · rintro ⟨e, hmem, hb, hk⟩
    obtain ⟨edge, hedge⟩ := List.exists_mem_of_ne_nil _ (edgesAt_ne_nil g e.id)
    refine ⟨⟨e.id, e.kind, e.label, k.2.2.2, edge⟩, ?_, hk.symm⟩
    refine List.mem_flatMap.mpr ⟨_, hb, List.mem_flatMap.mpr ⟨e, ?_, List.mem_map_of_mem hedge⟩⟩
    exact List.mem_filter.mpr ⟨hmem, decide_eq_true rfl⟩

/-- A group is an entity of the walk, at its distance. -/
theorem exists_group : (∃ k ∈ g.groups root maxDepth, k.1.1 = id ∧ k.1.2.2.2 = d) ↔
    id ∈ g.entities.map Entity.id ∧ g.links.edist root id = d ∧ d ≤ maxSteps maxDepth := by
  rw [← mem_nearest]
  unfold Graph.groups
  constructor
  · rintro ⟨⟨k, v⟩, hk, rfl, rfl⟩
    obtain ⟨e, -, hbest, heq⟩ := mem_joined_keys.mp (mem_groupBy.mp hk).1
    have hid : k.1 = e.id := congrArg Prod.fst heq
    show (k.1, k.2.2.2) ∈ _
    rwa [hid]
  · intro hbest
    obtain ⟨e, he, rfl⟩ := List.mem_map.mp (mem_nearest.mp hbest).1
    have hkey := mem_joined_keys.mpr ⟨e, he, hbest, (rfl : (e.id, e.kind, e.label, d) = _)⟩
    exact ⟨_, mem_groupBy.mpr ⟨hkey, rfl⟩, rfl, rfl⟩

theorem group_described {k : Group} (hk : k ∈ g.groups root maxDepth) : k.entity ∈ g.entities := by
  obtain ⟨e, he, -, heq⟩ := mem_joined_keys.mp (mem_groupBy.mp hk).1
  rw [Group.entity, heq]
  exact he

/-- No entity is in two groups: it has one kind, one label and one distance. -/
theorem groups_nodup : ((g.groups root maxDepth).map fun k => k.1.1).Nodup := by
  have hkeys : ((g.groups root maxDepth).map Prod.fst).Nodup := groupBy_nodup
  refine List.Nodup.map_on ?_ (List.Nodup.of_map _ hkeys)
  rintro ⟨k, v⟩ hk ⟨k', v'⟩ hk' hid
  have hid : k.1 = k'.1 := hid
  obtain ⟨hmem, rfl⟩ := mem_groupBy.mp hk
  obtain ⟨hmem', rfl⟩ := mem_groupBy.mp hk'
  obtain ⟨e, he, hbest, heq⟩ := mem_joined_keys.mp hmem
  obtain ⟨e', he', hbest', heq'⟩ := mem_joined_keys.mp hmem'
  have hsame : e = e' := by
    rw [heq, heq'] at hid
    exact List.inj_on_of_nodup_map g.ids he he' hid
  subst hsame
  have hdepth : k.2.2.2 = k'.2.2.2 := by
    have hd := (mem_nearest.mp hbest).2.1
    rw [(mem_nearest.mp hbest').2.1] at hd
    exact_mod_cast hd.symm
  rw [heq, heq', hdepth]

/-- There is a group for each entity within the depth. -/
theorem length_groups : (g.groups root maxDepth).length =
    (g.within root (maxSteps maxDepth)).ncard := by
  rw [ncard_eq_length groups_nodup fun id => ?_, List.length_map]
  rw [List.mem_map]
  constructor
  · rintro ⟨hid, hle⟩
    obtain ⟨d, hd⟩ := ENat.ne_top_iff_exists.mp
      (ne_top_of_le_ne_top (ENat.natCast_ne_top _) hle)
    rw [← hd] at hle
    obtain ⟨k, hk, hrow, -⟩ := exists_group.mpr ⟨hid, hd.symm, by exact_mod_cast hle⟩
    exact ⟨k, hk, hrow⟩
  · rintro ⟨k, hk, rfl⟩
    obtain ⟨hid, hd, hle⟩ := exists_group.mp ⟨k, hk, rfl, rfl⟩
    refine ⟨hid, ?_⟩
    rw [hd]
    exact_mod_cast hle

/-! ## The neighbourhood -/

/-- The columns that a row is grouped by. -/
def NeighbourRow.key (r : NeighbourRow) : Int × String × String × Nat := (r.id, r.kind, r.label, r.depth)

/-- Whatever is shown of them, the rows of all groups are the neighbourhood. -/
theorem isNeighbourhood_rows {arranged : List Group} {rows : List NeighbourRow}
    (hperm : arranged.Perm (g.groups root maxDepth))
    (hrows : List.Forall₂ (fun k => IsRow k.entity k.depth k.2) arranged rows) :
    IsNeighbourhood g root (max 0 (least maxDepth 4)) rows := by
  have hkeys : arranged.map Prod.fst = rows.map NeighbourRow.key := by
    have hkey : List.Forall₂ (fun (k : Group) r => k.1 = NeighbourRow.key r) arranged rows := by
      refine hrows.imp fun k r hr => ?_
      obtain ⟨doc, -, rfl⟩ := hr
      rfl
    have heq := List.forall₂_map_left_iff.mpr (List.forall₂_map_right_iff.mpr hkey)
    rwa [List.forall₂_eq_eq_eq] at heq
  have hshown : (rows.map NeighbourRow.key).Perm ((g.groups root maxDepth).map Prod.fst) :=
    hkeys ▸ hperm.map Prod.fst
  have hmem : ∀ k, (∃ r ∈ rows, r.key = k) ↔ ∃ p ∈ g.groups root maxDepth, p.1 = k := by
    intro k
    rw [← List.mem_map, hshown.mem_iff, List.mem_map]
  refine ⟨?_, fun id d => ?_, fun r hr => ?_⟩
  · have hids := hshown.map Prod.fst
    rw [List.map_map, List.map_map] at hids
    exact hids.nodup_iff.mpr groups_nodup
  · have hbound : (d : Int) ≤ max 0 (least maxDepth 4) ↔ d ≤ maxSteps maxDepth := by
      unfold maxSteps
      omega
    rw [hbound, ← exists_group]
    constructor
    · rintro ⟨r, hr, rfl, rfl⟩
      obtain ⟨p, hp, heq⟩ := (hmem r.key).mp ⟨r, hr, rfl⟩
      exact ⟨p, hp, congrArg Prod.fst heq, congrArg (fun k => k.2.2.2) heq⟩
    · rintro ⟨p, hp, rfl, rfl⟩
      obtain ⟨r, hr, heq⟩ := (hmem p.1).mpr ⟨p, hp, rfl⟩
      exact ⟨r, hr, congrArg Prod.fst heq, congrArg (fun k => k.2.2.2) heq⟩
  · obtain ⟨p, hp, heq⟩ := (hmem r.key).mp ⟨r, hr, rfl⟩
    refine ⟨p.entity, group_described hp, ?_, ?_, ?_⟩
    · exact (congrArg Prod.fst heq).symm
    · exact (congrArg (fun k => k.2.1) heq).symm
    · exact (congrArg (fun k => k.2.2.1) heq).symm

/-- Under a limit that leaves room for them. -/
theorem Graph.Returns.isNeighbourhood {out : Except SqlError (List NeighbourRow)}
    (hout : g.Returns root maxDepth lim out)
    (hroom : ((g.within root (maxSteps maxDepth)).ncard : Int) ≤ least lim 500) :
    ∃ rows, out = .ok rows ∧ IsNeighbourhood g root (max 0 (least maxDepth 4)) rows := by
  unfold Graph.Returns at hout
  rw [ReturnsRows, if_neg (by omega)] at hout
  obtain ⟨arranged, rows, harranges, hrows, rfl⟩ := hout
  have hlength := harranges.perm.length_eq.trans length_groups
  rw [List.take_of_length_le (by omega)] at hrows
  exact ⟨rows, rfl, isNeighbourhood_rows harranges.perm hrows⟩

theorem length_walk_le (g : Graph) (root : Int) (maxDepth : Option Int) :
    (g.walk root maxDepth).length ≤ g.entities.length * 5 := by
  have hstart : (g.rootRows root).Nodup := g.ids.sublist (List.filter_sublist.map _)
  have hwalk := length_levelWalk_le (n := maxSteps maxDepth) (g.entities.map Entity.id) hstart
    fun d x hx => g.mem_of_neighbourSteps hx
  rw [List.length_map] at hwalk
  refine hwalk.trans (Nat.mul_le_mul_left _ ?_)
  have hfour : least maxDepth 4 ≤ 4 := by
    unfold least
    split
    · exact min_le_right _ _
    · exact le_refl 4
  unfold maxSteps
  omega

/-- There is room under a limit of as many rows as there are entities. -/
theorem ncard_within_le (g : Graph) (root : Int) (n : Nat) :
    (g.within root n).ncard ≤ g.entities.length := by
  have hsub : g.within root n ⊆ ((g.entities.map Entity.id).toFinset : Set Int) := fun id hid =>
    Finset.mem_coe.mpr (List.mem_toFinset.mpr hid.1)
  refine (Set.ncard_le_ncard hsub (Finset.finite_toSet _)).trans ?_
  rw [Set.ncard_coe_finset]
  exact (List.toFinset_card_le _).trans_eq (List.length_map _)

/-- A limit that leaves room for the entities within the depth shows them all, at their
distances, whichever result it is; below a depth of zero that is the root. -/
theorem neighbourhood_exact (g : Graph) (root : Int) (maxDepth lim : Option Int)
    (hroom : ((g.within root (maxSteps maxDepth)).ncard : Int) ≤ least lim 500) :
    (∃ rows, neighbourhood g root maxDepth lim = .ok rows ∧
      IsNeighbourhood g root (max 0 (least maxDepth 4)) rows) ∧
    g.Returns root maxDepth lim (neighbourhood g root maxDepth lim) ∧
    (∀ out, g.Returns root maxDepth lim out →
      ∃ rows, out = .ok rows ∧ IsNeighbourhood g root (max 0 (least maxDepth 4)) rows) ∧
    (g.walk root maxDepth).length ≤ g.entities.length * 5 := by
  have hreturns := returns_neighbourhood g root maxDepth lim
  exact ⟨hreturns.isNeighbourhood hroom, hreturns, fun _ hout => hout.isNeighbourhood hroom,
    length_walk_le g root maxDepth⟩

end Lemmas

theorem neighbourhood_exact_firstPapers :
    (∃ rows, neighbourhood firstPapers 1 (some 2) (some 200) = .ok rows ∧
      IsNeighbourhood firstPapers 1 (max 0 (least (some 2) 4)) rows) ∧
    firstPapers.Returns 1 (some 2) (some 200) (neighbourhood firstPapers 1 (some 2) (some 200)) ∧
    (∀ out, firstPapers.Returns 1 (some 2) (some 200) out →
      ∃ rows, out = .ok rows ∧ IsNeighbourhood firstPapers 1 (max 0 (least (some 2) 4)) rows) ∧
    (firstPapers.walk 1 (some 2)).length ≤ firstPapers.entities.length * 5 :=
  neighbourhood_exact firstPapers 1 (some 2) (some 200)
    ((Int.ofNat_le.mpr (ncard_within_le firstPapers 1 _)).trans (by decide))

/-- With a depth below zero the root is still there, at distance zero. -/
theorem negative_depth_keeps_root :
    neighbourhood firstPapers 1 (some (-1)) (some 200) =
        .ok [⟨1, "usc", "5 U.S.C. 552", 0, none, some 0⟩] ∧
      ((firstPapers.within 1 (maxSteps (some (-1)))).ncard : Int) ≤ least (some 200) 500 ∧
      ¬ IsNeighbourhood firstPapers 1 (least (some (-1)) 4)
        [⟨1, "usc", "5 U.S.C. 552", 0, none, some 0⟩] := by
  refine ⟨by decide, (Int.ofNat_le.mpr (ncard_within_le firstPapers 1 _)).trans (by decide), fun h => ?_⟩
  have hrow := (h.exact 1 0).mp ⟨_, List.mem_singleton_self _, rfl, rfl⟩
  exact absurd hrow.2.2 (by decide)

end SupabaseLab.CorpusGraph
