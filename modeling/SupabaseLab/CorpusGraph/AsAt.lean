/-
  CorpusGraph/AsAt.lean --- the neighbourhood of an entity as at a date.

  Source: `neighbourhood_as_at` of experiments/pdf-corpus-graph/demo/db/08-editorial.sql,
  over the tables of 01-schema.sql.

  The walk takes only edges that are dated by the cutoff.  The join that finds the
  evidence of a node takes all its edges, so an edge that is not known by the cutoff
  shows in the columns `via_doc` and `weight`, in the order and in what the limit
  keeps.

  What the query may return is a relation: which of two rows that tie comes first, and
  which of two edges of one weight the array starts with, SQL leaves open.
  `neighbourhoodAsAt` is the one result in which rows that tie stand in the order of the
  tables.  Dates are days.  The columns `id`, `kind` and `cost` of an edge are not read
  by the query and are left out.
-/
import SupabaseLab.Library.LevelSets
import SupabaseLab.Library.StableSort

set_option autoImplicit false

namespace SupabaseLab.CorpusGraph

open Library

structure Entity where
  id : Int
  kind : String
  label : String
  deriving DecidableEq

structure Edge where
  source : Int
  target : Int
  docSlug : String
  weight : Int
  docDate : Option Int
  deriving DecidableEq

/-- The tables, with their keys. -/
structure Graph where
  entities : List Entity
  edges : List Edge
  ids : (entities.map Entity.id).Nodup
  ends : ∀ g ∈ edges, g.source ∈ entities.map Entity.id ∧ g.target ∈ entities.map Entity.id
  once : (edges.map fun g => (g.source, g.target, g.docSlug)).Nodup

structure NeighbourRow where
  id : Int
  kind : String
  label : String
  depth : Nat
  viaDoc : Option String
  weight : Option Int
  deriving DecidableEq

/-- `least(x, b)`, which passes over a null. -/
def least (x : Option Int) (b : Int) : Int :=
  match x with
  | some x => min x b
  | none => b

def Edge.touches (g : Edge) (id : Int) : Bool := g.source = id || g.target = id

/-- `case when g.source = id then g.target else g.source end`. -/
def Edge.far (g : Edge) (id : Int) : Int := if g.source = id then g.target else g.source

/-- `g.doc_date is not null and g.doc_date <= p_as_of`. -/
def Edge.knownBy (g : Edge) (asOf : Option Int) : Bool :=
  match g.docDate, asOf with
  | some d, some c => d ≤ c
  | _, _ => false

/-! ## The query -/

/-- One step of the recursive part. -/
def neighboursOf (edges : List Edge) (asOf : Option Int) (id : Int) : List Int :=
  (edges.filter fun g => g.touches id && g.knownBy asOf).map fun g => g.far id

def Graph.rootRows (g : Graph) (root : Int) : List Int :=
  (g.entities.filter fun e => e.id = root).map Entity.id

/-- `w.depth < least(p_max_depth, 4)`. -/
def maxSteps (maxDepth : Option Int) : Nat := (least maxDepth 4).toNat

/-- The common table `best`. -/
def Graph.best (g : Graph) (root : Int) (asOf maxDepth : Option Int) : List (Int × Nat) :=
  minDepths (levelWalk (neighboursOf g.edges asOf) (maxSteps maxDepth) (g.rootRows root))

/-- `(array_agg(g.doc_slug order by g.weight desc))[1]`. -/
def firstDoc (edges : List Edge) : Option String :=
  (edges.insertionSort fun a b => b.weight ≤ a.weight).head?.map Edge.docSlug

/-- `max(g.weight)`. -/
def maxWeight (edges : List Edge) : Option Int := (edges.map Edge.weight).max?

/-- What the rows are ordered by. -/
structure RowKey where
  depth : Nat
  weight : Option Int
  deriving DecidableEq

/-- `desc nulls last`. -/
def weightBefore : Option Int → Option Int → Prop
  | _, none => True
  | none, some _ => False
  | some x, some y => y ≤ x

instance : DecidableRel weightBefore
  | none, none => .isTrue trivial
  | some _, none => .isTrue trivial
  | none, some _ => .isFalse id
  | some x, some y => inferInstanceAs (Decidable (y ≤ x))

/-- `order by b.depth, max(g.weight) desc nulls last`. -/
def RowKey.before (a b : RowKey) : Prop :=
  a.depth < b.depth ∨ (a.depth = b.depth ∧ weightBefore a.weight b.weight)

instance : DecidableRel RowKey.before := fun _ _ =>
  inferInstanceAs (Decidable (_ ∨ (_ ∧ _)))

theorem weightBefore_total (x y : Option Int) : weightBefore x y ∨ weightBefore y x := by
  match x, y with
  | _, none => exact .inl trivial
  | none, some _ => exact .inr trivial
  | some x, some y => exact Int.le_total y x

theorem weightBefore_trans {x y z : Option Int} (hxy : weightBefore x y) (hyz : weightBefore y z) :
    weightBefore x z := by
  match x, y, z with
  | _, _, none => trivial
  | some x, some y, some z => exact Int.le_trans hyz hxy
  | none, some _, some _ => cases hxy

theorem weightBefore_antisymm {x y : Option Int} (hxy : weightBefore x y) (hyx : weightBefore y x) :
    x = y := by
  match x, y with
  | none, none => rfl
  | some x, some y => exact congrArg some (Int.le_antisymm hyx hxy)
  | none, some _ => cases hxy
  | some _, none => cases hyx

/-- Rows in the order of their keys. -/
def OrderedBy {α : Type} (key : α → RowKey) (a b : α) : Prop := (key a).before (key b)

instance {α : Type} (key : α → RowKey) : DecidableRel (OrderedBy key) := fun a b =>
  inferInstanceAs (Decidable ((key a).before (key b)))

instance {α : Type} (key : α → RowKey) : Std.Total (OrderedBy key) where
  total a b := by
    rcases Nat.lt_trichotomy (key a).depth (key b).depth with hlt | heq | hgt
    · exact .inl (.inl hlt)
    · rcases weightBefore_total (key a).weight (key b).weight with hw | hw
      · exact .inl (.inr ⟨heq, hw⟩)
      · exact .inr (.inr ⟨heq.symm, hw⟩)
    · exact .inr (.inl hgt)

instance {α : Type} (key : α → RowKey) : IsTrans α (OrderedBy key) where
  trans a b c hab hbc := by
    rcases hab with hab | ⟨hab, hw⟩ <;> rcases hbc with hbc | ⟨hbc, hw'⟩
    · exact .inl (hab.trans hbc)
    · exact .inl (hbc ▸ hab)
    · exact .inl (hab ▸ hbc)
    · exact .inr ⟨hab.trans hbc, weightBefore_trans hw hw'⟩

/-- The columns of an entity, from the edges that touch it and the document their array
starts with. -/
def rowOf (e : Entity) (depth : Nat) (incident : List Edge) (doc : Option String) : NeighbourRow where
  id := e.id
  kind := e.kind
  label := e.label
  depth := depth
  viaDoc := if depth = 0 then none else doc
  weight := if depth = 0 then some 0 else maxWeight incident

/-- The root shows no evidence. -/
theorem rowOf_zero {e : Entity} {edges edges' : List Edge} {doc doc' : Option String} :
    rowOf e 0 edges doc = rowOf e 0 edges' doc' := rfl

theorem rowOf_viaDoc {e : Entity} {depth : Nat} {edges : List Edge} {doc : Option String}
    (h : depth ≠ 0) : (rowOf e depth edges doc).viaDoc = doc := if_neg h

/-- The array may be in any order that its `order by` allows. -/
def MayBeFirstDoc (edges : List Edge) (doc : Option String) : Prop :=
  ∃ arranged, Arranges (fun a b => b.weight ≤ a.weight) edges arranged ∧
    doc = arranged.head?.map Edge.docSlug

def IsRow (e : Entity) (depth : Nat) (incident : List Edge) (row : NeighbourRow) : Prop :=
  ∃ doc, MayBeFirstDoc incident doc ∧ row = rowOf e depth incident doc

inductive SqlError where
  | negativeLimit
  deriving DecidableEq, Repr

/-- `order by … limit least(p_lim, 500)`, over what is found: whatever the `order by` allows. -/
def ReturnsRows {α : Type} (key : α → RowKey) (isRow : α → NeighbourRow → Prop) (lim : Option Int)
    (found : List α) (out : Except SqlError (List NeighbourRow)) : Prop :=
  if least lim 500 < 0 then out = .error .negativeLimit
  else
    ∃ arranged rows, Arranges (OrderedBy key) found arranged ∧
      List.Forall₂ isRow (arranged.take (least lim 500).toNat) rows ∧ out = .ok rows

/-- The edges that touch an entity. -/
def incident (edges : List Edge) (id : Int) : List Edge := edges.filter fun g => g.touches id

def Graph.rowKey (g : Graph) (b : Entity × Nat) : RowKey where
  depth := b.2
  weight := maxWeight (incident g.edges b.1.id)

/-- `best b join demo.entities e on e.id = b.id`. -/
def Graph.found (g : Graph) (root : Int) (asOf maxDepth : Option Int) : List (Entity × Nat) :=
  (g.best root asOf maxDepth).flatMap fun b =>
    (g.entities.filter fun e => e.id = b.1).map fun e => (e, b.2)

/-- What `neighbourhood_as_at` may return. -/
def Graph.ReturnsAsAt (g : Graph) (root : Int) (asOf maxDepth lim : Option Int)
    (out : Except SqlError (List NeighbourRow)) : Prop :=
  ReturnsRows g.rowKey (fun b => IsRow b.1 b.2 (incident g.edges b.1.id)) lim
    (g.found root asOf maxDepth) out

def neighbourhoodAsAt (g : Graph) (root : Int) (asOf maxDepth lim : Option Int) :
    Except SqlError (List NeighbourRow) :=
  if least lim 500 < 0 then .error .negativeLimit
  else
    .ok ((((g.found root asOf maxDepth).insertionSort (OrderedBy g.rowKey)).take
      (least lim 500).toNat).map fun b =>
        rowOf b.1 b.2 (incident g.edges b.1.id) (firstDoc (incident g.edges b.1.id)))

instance : Std.Total fun a b : Edge => b.weight ≤ a.weight where
  total a b := Int.le_total b.weight a.weight

instance : IsTrans Edge fun a b => b.weight ≤ a.weight where
  trans _ _ _ hab hbc := Int.le_trans hbc hab

theorem mayBeFirstDoc_firstDoc (edges : List Edge) : MayBeFirstDoc edges (firstDoc edges) :=
  ⟨_, arranges_insertionSort edges, rfl⟩

theorem isRow_firstDoc (e : Entity) (depth : Nat) (edges : List Edge) :
    IsRow e depth edges (rowOf e depth edges (firstDoc edges)) :=
  ⟨_, mayBeFirstDoc_firstDoc edges, rfl⟩

/-- Any arrangement and any choice of a row for each makes a result. -/
theorem returnsRows_map {α : Type} {key : α → RowKey} {isRow : α → NeighbourRow → Prop}
    {lim : Option Int} {found arranged : List α} {row : α → NeighbourRow} (hlim : ¬ least lim 500 < 0)
    (harranges : Arranges (OrderedBy key) found arranged) (hrow : ∀ a ∈ found, isRow a (row a)) :
    ReturnsRows key isRow lim found (.ok ((arranged.take (least lim 500).toNat).map row)) := by
  rw [ReturnsRows, if_neg hlim]
  refine ⟨arranged, _, harranges, List.forall₂_map_right_iff.mpr (List.forall₂_same.mpr ?_), rfl⟩
  exact fun a ha => hrow a (harranges.perm.mem_iff.mp (List.mem_of_mem_take ha))

/-- The result that keeps the order of the tables is one of them. -/
theorem returnsAsAt_neighbourhoodAsAt (g : Graph) (root : Int) (asOf maxDepth lim : Option Int) :
    g.ReturnsAsAt root asOf maxDepth lim (neighbourhoodAsAt g root asOf maxDepth lim) := by
  unfold Graph.ReturnsAsAt neighbourhoodAsAt
  split
  · rename_i hneg
    rw [ReturnsRows, if_pos hneg]
  · rename_i hlim
    exact returnsRows_map hlim (arranges_insertionSort _) fun _ _ => isRow_firstDoc _ _ _

/-! ## What is known by the cutoff -/

/-- The edges that are known by the cutoff. -/
def Graph.known (g : Graph) (asOf : Option Int) : List Edge := g.edges.filter fun e => e.knownBy asOf

/-- `g'` has the entities and the known edges of `g`, and its other edges join pairs
of `late`. -/
structure Graph.AgreesUpTo (g' g : Graph) (asOf : Option Int) (late : List (Int × Int)) : Prop where
  entities : ∀ e, e ∈ g'.entities ↔ e ∈ g.entities
  known : ∀ e, e ∈ g'.known asOf ↔ e ∈ g.known asOf
  others : ∀ e ∈ g'.edges, e.knownBy asOf = false → (e.source, e.target) ∈ late

/-- One step over an edge that is known by the cutoff. -/
def Graph.knownNeighbours (g : Graph) (asOf : Option Int) (id : Int) : List Int :=
  (incident (g.known asOf) id).map fun e => e.far id

/-- The nodes fewer than `d` known steps from the root. -/
def Graph.nearer (g : Graph) (root : Int) (asOf : Option Int) (d : Nat) : Set Int :=
  {b | ∃ n < d, Steps (g.knownNeighbours asOf) (g.rootRows root) n b}

/-- The node is in the neighbourhood and not its root, and the limit leaves room for
a node at its distance. -/
def Graph.Exposed (g : Graph) (root : Int) (asOf maxDepth lim : Option Int) (b : Int) : Prop :=
  ∃ d, 0 < d ∧ d ≤ maxSteps maxDepth ∧
    IsDistance (g.knownNeighbours asOf) (g.rootRows root) d b ∧
    ((g.nearer root asOf d).ncard : Int) < least lim 500

/-- No late edge may have an exposed end. -/
def Graph.Unexposed (g : Graph) (root : Int) (asOf maxDepth lim : Option Int)
    (late : List (Int × Int)) : Prop :=
  ∀ p ∈ late, p.1 ∈ g.entities.map Entity.id → p.2 ∈ g.entities.map Entity.id →
    ¬ g.Exposed root asOf maxDepth lim p.1 ∧ ¬ g.Exposed root asOf maxDepth lim p.2

/-- The weight of a node's heaviest known edge. -/
def Graph.knownWeight (g : Graph) (asOf : Option Int) (id : Int) : Option Int :=
  maxWeight (incident (g.known asOf) id)

/-- The nodes that stand before `b`, at distance `d`, in every order of the known rows. -/
def Graph.ahead (g : Graph) (root : Int) (asOf : Option Int) (d : Nat) (b : Int) : Set Int :=
  {c | c ∈ g.nearer root asOf d ∨ IsDistance (g.knownNeighbours asOf) (g.rootRows root) d c ∧
    ¬ weightBefore (g.knownWeight asOf b) (g.knownWeight asOf c)}

/-- The node is in the neighbourhood at distance `d`, not its root, and the limit leaves
room for it after those that stand before it. -/
def Graph.MayShow (g : Graph) (root : Int) (asOf maxDepth lim : Option Int) (d : Nat) (b : Int) : Prop :=
  0 < d ∧ d ≤ maxSteps maxDepth ∧ IsDistance (g.knownNeighbours asOf) (g.rootRows root) d b ∧
    ((g.ahead root asOf d b).ncard : Int) < least lim 500

/-- Nothing that is known by the cutoff ties and may be in the rows. -/
structure Graph.Untied (g : Graph) (root : Int) (asOf maxDepth lim : Option Int) : Prop where
  /-- The heaviest known edges of a node are of one document. -/
  documents : ∀ d b, g.MayShow root asOf maxDepth lim d b →
    ∀ x ∈ incident (g.known asOf) b, ∀ y ∈ incident (g.known asOf) b,
      some x.weight = g.knownWeight asOf b → some y.weight = g.knownWeight asOf b →
      x.docSlug = y.docSlug
  /-- No two nodes at one distance are equally heavy. -/
  nodes : ∀ d b c, g.MayShow root asOf maxDepth lim d b → g.MayShow root asOf maxDepth lim d c →
    g.knownWeight asOf b = g.knownWeight asOf c → b = c

section Known

variable {g g' : Graph} {root : Int} {asOf maxDepth lim : Option Int} {late : List (Int × Int)}
  {b : Int} {d : Nat} {e : Entity}

theorem maxWeight_eq_some_iff {edges : List Edge} {w : Int} :
    maxWeight edges = some w ↔ (∃ e ∈ edges, e.weight = w) ∧ ∀ e ∈ edges, e.weight ≤ w := by
  unfold maxWeight
  rw [List.max?_eq_some_iff]
  constructor
  · rintro ⟨hmem, hmax⟩
    exact ⟨List.mem_map.mp hmem, fun e he => hmax _ (List.mem_map_of_mem he)⟩
  · rintro ⟨hmem, hmax⟩
    refine ⟨List.mem_map.mpr hmem, fun w hw => ?_⟩
    obtain ⟨e, he, rfl⟩ := List.mem_map.mp hw
    exact hmax e he

theorem neighboursOf_eq : neighboursOf g.edges asOf = g.knownNeighbours asOf := by
  funext id
  unfold neighboursOf Graph.knownNeighbours incident Graph.known
  rw [List.filter_filter]

theorem mem_rootRows : b ∈ g.rootRows root ↔ b = root ∧ root ∈ g.entities.map Entity.id := by
  unfold Graph.rootRows
  rw [List.mem_map]
  constructor
  · rintro ⟨e, he, rfl⟩
    obtain ⟨he, hid⟩ := List.mem_filter.mp he
    exact ⟨of_decide_eq_true hid, of_decide_eq_true hid ▸ List.mem_map_of_mem he⟩
  · rintro ⟨rfl, hmem⟩
    obtain ⟨e, he, heq⟩ := List.mem_map.mp hmem
    exact ⟨e, List.mem_filter.mpr ⟨he, decide_eq_true heq⟩, heq⟩

theorem mem_best : (b, d) ∈ g.best root asOf maxDepth ↔
    d ≤ maxSteps maxDepth ∧ IsDistance (g.knownNeighbours asOf) (g.rootRows root) d b := by
  unfold Graph.best
  rw [neighboursOf_eq, mem_minDepths_levelWalk]

/-- Both ends of an edge are entities. -/
theorem Graph.far_mem {x : Edge} (hx : x ∈ g.edges) (b : Int) :
    x.far b ∈ g.entities.map Entity.id := by
  unfold Edge.far
  split
  · exact (g.ends x hx).2
  · exact (g.ends x hx).1

/-- Whatever is reached is an entity. -/
theorem Graph.mem_of_steps (h : Steps (g.knownNeighbours asOf) (g.rootRows root) d b) :
    b ∈ g.entities.map Entity.id := by
  cases h with
  | start hroot =>
    obtain ⟨rfl, hmem⟩ := mem_rootRows.mp hroot
    exact hmem
  | step _ hb =>
    obtain ⟨e, he, rfl⟩ := List.mem_map.mp hb
    exact g.far_mem (List.mem_filter.mp (List.mem_filter.mp he).1).1 _

theorem mem_found : (e, d) ∈ g.found root asOf maxDepth ↔
    e ∈ g.entities ∧ (e.id, d) ∈ g.best root asOf maxDepth := by
  unfold Graph.found
  rw [List.mem_flatMap]
  constructor
  · rintro ⟨⟨b, d'⟩, hb, hmem⟩
    obtain ⟨e', he', heq⟩ := List.mem_map.mp hmem
    cases heq
    obtain ⟨he, hid⟩ := List.mem_filter.mp he'
    exact ⟨he, of_decide_eq_true hid ▸ hb⟩
  · rintro ⟨he, hb⟩
    exact ⟨_, hb, List.mem_map.mpr ⟨e, List.mem_filter.mpr ⟨he, decide_eq_true rfl⟩, rfl⟩⟩

/-- Each node of the walk is found once. -/
theorem found_ids : (g.found root asOf maxDepth).map (fun b => b.1.id) =
    (g.best root asOf maxDepth).map Prod.fst := by
  have hone : ∀ b ∈ g.best root asOf maxDepth,
      ((g.entities.filter fun e => e.id = b.1).map fun e => (e, b.2)).map (fun b => b.1.id) =
        [b.1] := by
    intro b hb
    have hmem := Graph.mem_of_steps (mem_best.mp hb).2.1
    have hfilter : (g.entities.filter fun e => e.id = b.1).map Entity.id =
        (g.entities.map Entity.id).filter fun i => i = b.1 := by
      rw [List.filter_map]
      rfl
    rw [List.map_map]
    show (g.entities.filter fun e => e.id = b.1).map Entity.id = [b.1]
    rw [hfilter, List.filter_eq, List.count_eq_one_of_mem g.ids hmem, List.replicate_one]
  rw [Graph.found, List.map_flatMap, List.flatMap_congr hone]
  exact (List.map_eq_flatMap).symm

theorem found_nodup : ((g.found root asOf maxDepth).map fun b => b.1.id).Nodup := by
  rw [found_ids]
  exact nodup_minDepths _

/-- How many nodes are found before those at a distance. -/
theorem length_nearer (hd : d ≤ maxSteps maxDepth) :
    ((g.found root asOf maxDepth).filter fun b => b.2 < d).length =
      (g.nearer root asOf d).ncard := by
  have hnodup : (((g.found root asOf maxDepth).filter fun b => b.2 < d).map fun b => b.1.id).Nodup :=
    found_nodup.sublist (List.filter_sublist.map _)
  rw [ncard_eq_length hnodup fun b => ?_, List.length_map]
  rw [List.mem_map]
  constructor
  · rintro ⟨n, hn, hsteps⟩
    obtain ⟨k, hk, hdist⟩ := exists_isDistance hsteps
    obtain ⟨e, he, rfl⟩ := List.mem_map.mp (Graph.mem_of_steps hsteps)
    exact ⟨(e, k), List.mem_filter.mpr ⟨mem_found.mpr ⟨he, mem_best.mpr ⟨by omega, hdist⟩⟩,
      decide_eq_true (Nat.lt_of_le_of_lt hk hn)⟩, rfl⟩
  · rintro ⟨⟨e, k⟩, hmem, rfl⟩
    obtain ⟨hfound, hlt⟩ := List.mem_filter.mp hmem
    exact ⟨k, of_decide_eq_true hlt, (mem_best.mp (mem_found.mp hfound).2).2.1⟩

/-- Edges that touch one entity, whatever order the tables are in. -/
theorem incident_perm {edges edges' : List Edge} (h : edges.Perm edges') (id : Int) :
    (incident edges id).Perm (incident edges' id) := h.filter _

theorem maxWeight_perm {edges edges' : List Edge} (h : edges.Perm edges') :
    maxWeight edges = maxWeight edges' := by
  refine Option.ext fun w => ?_
  rw [maxWeight_eq_some_iff, maxWeight_eq_some_iff]
  simp only [h.mem_iff]

theorem IsRow.of_perm {edges edges' : List Edge} {row : NeighbourRow} (h : edges.Perm edges')
    (hrow : IsRow e d edges row) : IsRow e d edges' row := by
  obtain ⟨doc, ⟨arranged, harranges, hdoc⟩, rfl⟩ := hrow
  refine ⟨doc, ⟨arranged, ⟨harranges.perm.trans h, harranges.sorted⟩, hdoc⟩, ?_⟩
  unfold rowOf
  rw [maxWeight_perm h]

theorem Graph.AgreesUpTo.known_perm (h : g'.AgreesUpTo g asOf late) :
    (g'.known asOf).Perm (g.known asOf) :=
  (List.perm_ext_iff_of_nodup ((List.Nodup.of_map _ g'.once).filter _)
    ((List.Nodup.of_map _ g.once).filter _)).mpr h.known

/-- Two graphs that agree up to the cutoff find the same nodes. -/
theorem Graph.AgreesUpTo.found_perm (h : g'.AgreesUpTo g asOf late) :
    (g'.found root asOf maxDepth).Perm (g.found root asOf maxDepth) := by
  refine (List.perm_ext_iff_of_nodup (List.Nodup.of_map _ found_nodup)
    (List.Nodup.of_map _ found_nodup)).mpr fun ⟨e, d⟩ => ?_
  have hroot : ∀ b, b ∈ g'.rootRows root ↔ b ∈ g.rootRows root := by
    intro b
    rw [mem_rootRows, mem_rootRows, List.mem_map, List.mem_map]
    simp only [h.entities]
  have hnext : ∀ a b, b ∈ g'.knownNeighbours asOf a ↔ b ∈ g.knownNeighbours asOf a := fun a b =>
    ((incident_perm h.known_perm a).map _).mem_iff
  rw [mem_found, mem_found, mem_best, mem_best, isDistance_congr hnext hroot, h.entities]

/-- What no late edge touches has the evidence of the known graph. -/
theorem Graph.AgreesUpTo.incident_perm (h : g'.AgreesUpTo g asOf late)
    (huntouched : ∀ p ∈ late, p.1 ∈ g.entities.map Entity.id → p.2 ∈ g.entities.map Entity.id →
      p.1 ≠ b ∧ p.2 ≠ b) : (incident g'.edges b).Perm (incident (g.known asOf) b) := by
  have hentity : ∀ id, id ∈ g'.entities.map Entity.id → id ∈ g.entities.map Entity.id := by
    intro id hid
    obtain ⟨e, he, rfl⟩ := List.mem_map.mp hid
    exact List.mem_map_of_mem ((h.entities e).mp he)
  have hincident : incident g'.edges b = incident (g'.known asOf) b := by
    unfold incident Graph.known
    rw [List.filter_filter]
    refine List.filter_congr fun x hx => ?_
    cases hknown : x.knownBy asOf with
    | true => rw [Bool.and_true]
    | false =>
      obtain ⟨hsource, htarget⟩ := g'.ends x hx
      obtain ⟨hs, ht⟩ := huntouched _ (h.others x hx hknown) (hentity _ hsource) (hentity _ htarget)
      rw [Bool.and_false, Edge.touches, decide_eq_false hs, decide_eq_false ht]
      rfl
  rw [hincident]
  exact CorpusGraph.incident_perm h.known_perm b

end Known

/-! ## The first rows -/

section FirstRows

variable {α : Type} {key key' : α → RowKey} {isRow isRow' : α → NeighbourRow → Prop}
  {found found' : List α} {lim : Option Int} {out : Except SqlError (List NeighbourRow)}

/-- Two queries that differ only in rows without room may return the same. -/
theorem ReturnsRows.congr (room : α → Bool) (h : ReturnsRows key isRow lim found out) (hperm : found.Perm found')
    (hfirst : ∀ a ∈ found, ∀ b ∈ found, room a = false → room b = true → ¬ OrderedBy key a b)
    (hlast : ∀ a ∈ found, ∀ b ∈ found, room a = true → room b = false → OrderedBy key' a b)
    (hkey : ∀ a ∈ found, ∀ b ∈ found, room a = true → room b = true → OrderedBy key a b →
      OrderedBy key' a b)
    (hrow : ∀ a ∈ found, room a = true → ∀ row, isRow a row → isRow' a row)
    (hfull : (∃ x ∈ found, room x = false) →
      (least lim 500).toNat ≤ (found.filter room).length) :
    ReturnsRows key' isRow' lim found' out := by
  unfold ReturnsRows at h ⊢
  split at h
  · rename_i hneg
    rwa [if_pos hneg]
  · rename_i hlim
    rw [if_neg hlim]
    obtain ⟨arranged, rows, harranges, hrows, rfl⟩ := h
    have hmem : ∀ {a}, a ∈ arranged → a ∈ found := harranges.perm.mem_iff.mp
    have hback : ∀ {a}, a ∈ (found'.filter fun a => !room a).insertionSort (OrderedBy key') →
        a ∈ found ∧ room a = false := by
      intro a ha
      obtain ⟨hin, hno⟩ := List.mem_filter.mp ((List.mem_insertionSort _).mp ha)
      exact ⟨hperm.mem_iff.mpr hin, (Bool.not_eq_true' _).mp hno⟩
    -- the rows with room stand as they did, and the others after them
    have hlen : (arranged.filter room).length = (found.filter room).length :=
      (harranges.perm.filter room).length_eq
    have htake : arranged.take (least lim 500).toNat =
        (arranged.filter room).take (least lim 500).toNat := by
      refine take_eq_take_filter harranges.sorted
        (fun a ha b hb => hfirst a (hmem ha) b (hmem hb)) fun ⟨x, hx, hno⟩ => ?_
      rw [hlen]
      exact hfull ⟨x, hmem hx, hno⟩
    refine ⟨arranged.filter room ++ (found'.filter fun a => !room a).insertionSort (OrderedBy key'),
      rows, ⟨?_, ?_⟩, ?_, rfl⟩
    · have hroom := ((harranges.perm.trans hperm).filter room)
      exact (hroom.append (List.perm_insertionSort _ _)).trans (List.filter_append_perm room found')
    · refine List.pairwise_append.mpr ⟨?_, List.pairwise_insertionSort _ _, fun a ha b hb => ?_⟩
      · refine (harranges.sorted.filter room).imp_of_mem fun {a b} ha hb hab => ?_
        obtain ⟨ha, hra⟩ := List.mem_filter.mp ha
        obtain ⟨hb, hrb⟩ := List.mem_filter.mp hb
        exact hkey a (hmem ha) b (hmem hb) hra hrb hab
      · obtain ⟨ha, hra⟩ := List.mem_filter.mp ha
        exact hlast a (hmem ha) b (hback hb).1 hra (hback hb).2
    · have htake' : (arranged.filter room ++
          (found'.filter fun a => !room a).insertionSort (OrderedBy key')).take
            (least lim 500).toNat = arranged.take (least lim 500).toNat := by
        rw [htake]
        cases hrest : (found'.filter fun a => !room a).insertionSort (OrderedBy key') with
        | nil => rw [List.append_nil]
        | cons x rest =>
          obtain ⟨hx, hno⟩ := hback (hrest ▸ List.mem_cons_self)
          refine List.take_append_of_le_length ?_
          rw [hlen]
          exact hfull ⟨x, hx, hno⟩
      rw [htake']
      obtain ⟨hlength, hzip⟩ := List.forall₂_iff_zip.mp hrows
      refine List.forall₂_iff_zip.mpr ⟨hlength, fun {a row} hpair => ?_⟩
      have ha := (List.of_mem_zip hpair).1
      rw [htake] at ha
      obtain ⟨ha, hra⟩ := List.mem_filter.mp (List.mem_of_mem_take ha)
      exact hrow a (hmem ha) hra row (hzip hpair)

theorem exists_row {β γ : Type} {R : β → γ → Prop} {l : List β} {rows : List γ}
    (h : List.Forall₂ R l rows) {a : β} (ha : a ∈ l) : ∃ row ∈ rows, R a row := by
  obtain ⟨hlength, hget⟩ := List.forall₂_iff_get.mp h
  obtain ⟨i, hi, rfl⟩ := List.getElem_of_mem ha
  exact ⟨_, List.getElem_mem (hlength ▸ hi), hget i hi (hlength ▸ hi)⟩

/-- When there is room at the depth of `b`, the limit keeps a row of that depth that is no
lighter than `b`. -/
theorem exists_heavy {arranged : List α} {n : Nat} {b : α} (h : Arranges (OrderedBy key) found arranged)
    (hb : b ∈ found) (hroom : (found.filter fun a => (key a).depth < (key b).depth).length < n) :
    ∃ a ∈ arranged.take n, (key a).depth = (key b).depth ∧
      weightBefore (key a).weight (key b).weight := by
  have hsplit := eq_filter_append (p := fun a => (key a).depth < (key b).depth) h.sorted
    fun x _ y _ hx hy hxy => by
      have hx := Nat.not_lt.mp (of_decide_eq_false hx)
      have hy := of_decide_eq_true hy
      rcases hxy with hlt | ⟨heq, -⟩ <;> omega
  have hmem : b ∈ arranged.filter fun a => !decide ((key a).depth < (key b).depth) := by
    refine List.mem_filter.mpr ⟨h.perm.mem_iff.mpr hb, ?_⟩
    rw [decide_eq_false (Nat.lt_irrefl _)]
    rfl
  have hlen := (h.perm.filter fun a => (key a).depth < (key b).depth).length_eq
  have hsorted := h.sorted.filter fun a => !decide ((key a).depth < (key b).depth)
  cases hrest : arranged.filter (fun a => !decide ((key a).depth < (key b).depth)) with
  | nil => exact absurd (hrest ▸ hmem) List.not_mem_nil
  | cons a rest =>
    rw [hrest] at hsplit hmem hsorted
    have hfar : ¬ (key a).depth < (key b).depth := by
      have ha := (List.mem_filter.mp (hrest ▸ List.mem_cons_self)).2
      rwa [Bool.not_eq_true', decide_eq_false_iff_not] at ha
    have hfirst : OrderedBy key a b := by
      rcases List.mem_cons.mp hmem with rfl | hmem
      · exact refl_of (OrderedBy key) _
      · exact (List.pairwise_cons.mp hsorted).1 b hmem
    refine ⟨a, ?_, ?_⟩
    · rw [hsplit, List.take_append]
      refine List.mem_append_right _ ?_
      rw [hlen, List.take_cons (Nat.sub_pos_of_lt hroom)]
      exact List.mem_cons_self
    · rcases hfirst with hlt | hfirst
      · exact absurd hlt hfar
      · exact hfirst

end FirstRows

section Room

variable {g g₁ g₂ : Graph} {root : Int} {asOf maxDepth lim : Option Int} {late : List (Int × Int)}
  {pairs : List (Entity × Nat)} {n d : Nat} {out : Except SqlError (List NeighbourRow)}

/-- There is room for a row at depth `d` under the limit. -/
def roomAt (pairs : List (Entity × Nat)) (n d : Nat) : Bool :=
  (pairs.filter fun b => b.2 < d).length < n

theorem roomAt_anti {d d' : Nat} (h : d ≤ d') (hroom : roomAt pairs n d' = true) :
    roomAt pairs n d = true := by
  refine decide_eq_true (Nat.lt_of_le_of_lt ?_ (of_decide_eq_true hroom))
  rw [← List.countP_eq_length_filter, ← List.countP_eq_length_filter]
  exact List.countP_mono_left fun b _ hb =>
    decide_eq_true (Nat.lt_of_lt_of_le (of_decide_eq_true hb) h)

/-- When a row finds no room, the rows that do fill the limit. -/
theorem le_length_of_noRoom {x : Entity × Nat} (hroom : roomAt pairs n x.2 = false) :
    n ≤ (pairs.filter fun b => roomAt pairs n b.2).length := by
  classical
  have hex : ∃ d, roomAt pairs n d = false := ⟨x.2, hroom⟩
  have hleast : roomAt pairs n (Nat.find hex) = false := Nat.find_spec hex
  refine Nat.le_trans (Nat.not_lt.mp (of_decide_eq_false hleast)) ?_
  rw [← List.countP_eq_length_filter, ← List.countP_eq_length_filter]
  refine List.countP_mono_left fun b _ hb => ?_
  exact (Bool.not_eq_false _).mp (Nat.find_min hex (of_decide_eq_true hb))

/-- There is room under the limit exactly when the nearer nodes leave some. -/
theorem roomAt_found (hd : d ≤ maxSteps maxDepth) (hlim : 0 ≤ least lim 500) :
    roomAt (g.found root asOf maxDepth) (least lim 500).toNat d = true ↔
      ((g.nearer root asOf d).ncard : Int) < least lim 500 := by
  unfold roomAt
  rw [decide_eq_true_iff, length_nearer hd]
  omega

theorem found_root {c : Entity × Nat} (hb : c ∈ g.found root asOf maxDepth) (hzero : c.2 = 0) :
    c.1.id = root := by
  obtain ⟨-, hdist⟩ := mem_best.mp (mem_found.mp hb).2
  rw [hzero] at hdist
  exact (mem_rootRows.mp (Steps.zero.mp hdist.1)).1

/-- With no exposed end among the late edges, whatever one graph may give the other may. -/
theorem Graph.AgreesUpTo.returnsAsAt (h₁ : g₁.AgreesUpTo g asOf late)
    (h₂ : g₂.AgreesUpTo g asOf late) (hunexposed : g.Unexposed root asOf maxDepth lim late)
    (hout : g₁.ReturnsAsAt root asOf maxDepth lim out) :
    g₂.ReturnsAsAt root asOf maxDepth lim out := by
  by_cases hlim : least lim 500 < 0
  · rw [Graph.ReturnsAsAt, ReturnsRows, if_pos hlim] at hout ⊢
    exact hout
  have hlim := Int.not_lt.mp hlim
  have hfound₁ : (g₁.found root asOf maxDepth).Perm (g.found root asOf maxDepth) := h₁.found_perm
  have hfound₂ : (g₂.found root asOf maxDepth).Perm (g.found root asOf maxDepth) := h₂.found_perm
  -- what has room has the same evidence in both graphs
  have hedges : ∀ a ∈ g.found root asOf maxDepth, 0 < a.2 →
      roomAt (g.found root asOf maxDepth) (least lim 500).toNat a.2 = true →
        (incident g₁.edges a.1.id).Perm (incident g₂.edges a.1.id) := by
    intro a ha hpos hroom
    obtain ⟨hle, hdist⟩ := mem_best.mp (mem_found.mp ha).2
    have hexposed : g.Exposed root asOf maxDepth lim a.1.id :=
      ⟨a.2, hpos, hle, hdist, (roomAt_found hle hlim).mp hroom⟩
    have huntouched : ∀ p ∈ late, p.1 ∈ g.entities.map Entity.id →
        p.2 ∈ g.entities.map Entity.id → p.1 ≠ a.1.id ∧ p.2 ≠ a.1.id := by
      intro p hp hs ht
      obtain ⟨hsource, htarget⟩ := hunexposed p hp hs ht
      exact ⟨fun heq => hsource (heq ▸ hexposed), fun heq => htarget (heq ▸ hexposed)⟩
    exact (h₁.incident_perm huntouched).trans (h₂.incident_perm huntouched).symm
  have hin : ∀ {a}, a ∈ g₁.found root asOf maxDepth → a ∈ g.found root asOf maxDepth :=
    hfound₁.mem_iff.mp
  refine ReturnsRows.congr (fun a => roomAt (g.found root asOf maxDepth) (least lim 500).toNat a.2)
    hout (hfound₁.trans hfound₂.symm) ?_ ?_ ?_ ?_ ?_
  · intro a _ b _ hra hrb hab
    have hle : a.2 ≤ b.2 := by
      rcases hab with hlt | ⟨heq, -⟩
      · exact Nat.le_of_lt hlt
      · exact Nat.le_of_eq heq
    rw [roomAt_anti hle hrb] at hra
    cases hra
  · intro a _ b _ hra hrb
    refine .inl (Nat.lt_of_not_le fun hle : b.2 ≤ a.2 => ?_)
    rw [roomAt_anti hle hra] at hrb
    cases hrb
  · intro a ha b hb hra hrb hab
    rcases hab with hlt | ⟨heq, hw⟩
    · exact .inl hlt
    · have heq : a.2 = b.2 := heq
      rcases Nat.eq_zero_or_pos a.2 with hzero | hpos
      · -- the root is alone at its depth
        have hroots : a = b := List.inj_on_of_nodup_map found_nodup (hin ha) (hin hb)
          ((found_root (hin ha) hzero).trans (found_root (hin hb) (heq.symm.trans hzero)).symm)
        exact hroots ▸ refl_of (OrderedBy g₂.rowKey) a
      · refine .inr ⟨heq, ?_⟩
        have hwa := maxWeight_perm (hedges a (hin ha) hpos hra)
        have hwb := maxWeight_perm (hedges b (hin hb) (heq ▸ hpos) hrb)
        show weightBefore (maxWeight _) (maxWeight _)
        rw [← hwa, ← hwb]
        exact hw
  · intro a ha hra row hrow
    rcases Nat.eq_zero_or_pos a.2 with hzero | hpos
    · obtain ⟨doc, -, rfl⟩ := hrow
      refine ⟨_, mayBeFirstDoc_firstDoc _, ?_⟩
      rw [hzero]
      exact rowOf_zero
    · exact IsRow.of_perm (hedges a (hin ha) hpos hra) hrow
  · rintro ⟨x, hx, hno⟩
    refine (le_length_of_noRoom hno).trans (Nat.le_of_eq ?_)
    exact (hfound₁.filter _).length_eq.symm

end Room

/-! ## What a late edge can show -/

section Late

variable {g g₁ g₂ : Graph} {root : Int} {asOf maxDepth lim : Option Int} {late : List (Int × Int)}
  {b : Int} {d : Nat} {out : Except SqlError (List NeighbourRow)}

/-- Away from the root a row shows the weight of an edge. -/
theorem weight_of_isRow {e : Entity} {edges : List Edge} {row : NeighbourRow} {y : Int}
    (h : IsRow e d edges row) (hpos : row.depth ≠ 0) (hy : row.weight = some y) :
    ∃ x ∈ edges, x.weight = y := by
  obtain ⟨doc, -, rfl⟩ := h
  have hweight : maxWeight edges = some y := (if_neg hpos).symm.trans hy
  exact (maxWeight_eq_some_iff.mp hweight).1

/-- A node heavier than every edge of another graph sets the results apart. -/
theorem not_both_of_heavy {p : Entity × Nat} {w : Int} (hp : p ∈ g₂.found root asOf maxDepth)
    (hpos : 0 < p.2) (hroom : roomAt (g₂.found root asOf maxDepth) (least lim 500).toNat p.2 = true)
    (hheavy : maxWeight (incident g₂.edges p.1.id) = some w) (hlight : ∀ e ∈ g₁.edges, e.weight < w)
    (h₁ : g₁.ReturnsAsAt root asOf maxDepth lim out) :
    ¬ g₂.ReturnsAsAt root asOf maxDepth lim out := by
  intro h₂
  have hlim : ¬ least lim 500 < 0 := by
    have := of_decide_eq_true hroom
    omega
  rw [Graph.ReturnsAsAt, ReturnsRows, if_neg hlim] at h₁ h₂
  obtain ⟨arranged₁, rows₁, -, hrows₁, rfl⟩ := h₁
  obtain ⟨arranged₂, rows₂, harranges₂, hrows₂, heq⟩ := h₂
  cases heq
  obtain ⟨a, ha, hdepth, hw⟩ := exists_heavy harranges₂ hp (of_decide_eq_true hroom)
  have hdepth : a.2 = p.2 := hdepth
  obtain ⟨row, hrow, doc, -, rfl⟩ := exists_row hrows₂ ha
  have hshown : (rowOf a.1 a.2 (incident g₂.edges a.1.id) doc).weight =
      maxWeight (incident g₂.edges a.1.id) := if_neg (hdepth ▸ Nat.ne_of_gt hpos)
  change weightBefore (maxWeight (incident g₂.edges a.1.id)) (maxWeight _) at hw
  rw [hheavy] at hw
  cases hy : maxWeight (incident g₂.edges a.1.id) with
  | none =>
    rw [hy] at hw
    exact hw
  | some y =>
    rw [hy] at hw hshown
    -- and the other graph has no edge that heavy
    obtain ⟨c, -, hc⟩ := exists_row hrows₁.flip hrow
    obtain ⟨x, hx, hxy⟩ := weight_of_isRow hc (hdepth ▸ Nat.ne_of_gt hpos : a.2 ≠ 0) hshown
    have hlt := hlight x (List.mem_filter.mp hx).1
    have hle : w ≤ y := hw
    omega

/-- The graph of the known edges alone. -/
def Graph.upTo (g : Graph) (asOf : Option Int) : Graph where
  entities := g.entities
  edges := g.known asOf
  ids := g.ids
  ends e he := g.ends e (List.mem_filter.mp he).1
  once := g.once.sublist (List.filter_sublist.map _)

def Graph.addEdge (g : Graph) (e : Edge)
    (hends : e.source ∈ g.entities.map Entity.id ∧ e.target ∈ g.entities.map Entity.id)
    (hfresh : ∀ x ∈ g.edges, x.docSlug ≠ e.docSlug) : Graph where
  entities := g.entities
  edges := g.edges ++ [e]
  ids := g.ids
  ends x hx := by
    rcases List.mem_append.mp hx with hx | hx
    · exact g.ends x hx
    · exact List.mem_singleton.mp hx ▸ hends
  once := by
    rw [List.map_append, List.nodup_append']
    refine ⟨g.once, List.nodup_singleton _, ?_⟩
    rw [List.map_singleton, List.disjoint_singleton]
    intro hmem
    obtain ⟨x, hx, heq⟩ := List.mem_map.mp hmem
    exact hfresh x hx (Prod.mk.inj (Prod.mk.inj heq).2).2

theorem upTo_known : (g.upTo asOf).known asOf = g.known asOf :=
  List.filter_eq_self.mpr fun _ he => (List.mem_filter.mp he).2

theorem agreesUpTo_upTo : (g.upTo asOf).AgreesUpTo g asOf late where
  entities _ := Iff.rfl
  known e := by rw [upTo_known]
  others e he hunknown := by
    rw [(List.mem_filter.mp he).2] at hunknown
    cases hunknown

theorem agreesUpTo_addEdge {e : Edge}
    {hends : e.source ∈ g.entities.map Entity.id ∧ e.target ∈ g.entities.map Entity.id}
    {hfresh : ∀ x ∈ (g.upTo asOf).edges, x.docSlug ≠ e.docSlug}
    (hundated : e.docDate = none) (hlate : (e.source, e.target) ∈ late) :
    ((g.upTo asOf).addEdge e hends hfresh).AgreesUpTo g asOf late where
  entities _ := Iff.rfl
  known x := by
    have hunknown : e.knownBy asOf = false := by
      unfold Edge.knownBy
      rw [hundated]
    have hsame : ((g.upTo asOf).addEdge e hends hfresh).known asOf = (g.upTo asOf).known asOf := by
      show ((g.upTo asOf).edges ++ [e]).filter _ = _
      rw [List.filter_append, List.filter_singleton, hunknown, cond_false, List.append_nil]
      rfl
    rw [hsame, upTo_known]
  others x hx hunknown := by
    rcases List.mem_append.mp hx with hx | hx
    · rw [(List.mem_filter.mp hx).2] at hunknown
      cases hunknown
    · exact List.mem_singleton.mp hx ▸ hlate

/-- An undated edge, heavier than what is known, shows in the row of each exposed end. -/
theorem exposed_leaks {p : Int × Int} (hp : p ∈ late) (hs : p.1 ∈ g.entities.map Entity.id)
    (ht : p.2 ∈ g.entities.map Entity.id) (hb : b = p.1 ∨ b = p.2)
    (hexposed : g.Exposed root asOf maxDepth lim b) :
    ∃ g₁ g₂ : Graph, g₁.AgreesUpTo g asOf late ∧ g₂.AgreesUpTo g asOf late ∧
      ∀ out, g₁.ReturnsAsAt root asOf maxDepth lim out →
        ¬ g₂.ReturnsAsAt root asOf maxDepth lim out := by
  obtain ⟨slug, hslug⟩ := Infinite.exists_notMem_finset
    ((g.known asOf).map Edge.docSlug).toFinset
  have hfresh : ∀ x ∈ (g.upTo asOf).edges, x.docSlug ≠ slug := fun x hx heq =>
    hslug (List.mem_toFinset.mpr (heq ▸ List.mem_map_of_mem hx))
  obtain ⟨top, htop⟩ := ((g.known asOf).map Edge.weight).finite_toSet.bddAbove
  have hbelow : ∀ e ∈ g.known asOf, e.weight ≤ top := fun e he => htop (List.mem_map_of_mem he)
  let added := Edge.mk p.1 p.2 slug (top + 1) none
  let g₂ := (g.upTo asOf).addEdge added ⟨hs, ht⟩ hfresh
  have h₂ : g₂.AgreesUpTo g asOf late := agreesUpTo_addEdge rfl hp
  refine ⟨g.upTo asOf, g₂, agreesUpTo_upTo, h₂, fun out => ?_⟩
  obtain ⟨d, hpos, hle, hdist, hroom⟩ := hexposed
  have hlim : 0 ≤ least lim 500 := Int.le_of_lt (Int.lt_of_le_of_lt (Int.natCast_nonneg _) hroom)
  obtain ⟨e, he, hid⟩ := List.mem_map.mp (Graph.mem_of_steps hdist.1)
  have hperm : (g₂.found root asOf maxDepth).Perm (g.found root asOf maxDepth) := h₂.found_perm
  have hfound : (e, d) ∈ g₂.found root asOf maxDepth :=
    hperm.mem_iff.mpr (mem_found.mpr ⟨he, hid ▸ mem_best.mpr ⟨hle, hdist⟩⟩)
  have hroom₂ : roomAt (g₂.found root asOf maxDepth) (least lim 500).toNat d = true := by
    have hsame : roomAt (g₂.found root asOf maxDepth) (least lim 500).toNat d =
        roomAt (g.found root asOf maxDepth) (least lim 500).toNat d := by
      unfold roomAt
      rw [(hperm.filter _).length_eq]
    rw [hsame]
    exact (roomAt_found hle hlim).mpr hroom
  have htouches : added ∈ incident g₂.edges e.id := by
    refine List.mem_filter.mpr ⟨List.mem_append_right _ List.mem_cons_self, ?_⟩
    rw [Edge.touches, hid, Bool.or_eq_true, decide_eq_true_iff, decide_eq_true_iff]
    exact hb.imp Eq.symm Eq.symm
  have htop' : ∀ x ∈ incident g₂.edges e.id, x.weight ≤ top + 1 := by
    intro x hx
    rcases List.mem_append.mp (List.mem_filter.mp hx).1 with hx | hx
    · exact Int.le_add_one (hbelow x hx)
    · exact Int.le_of_eq (congrArg Edge.weight (List.mem_singleton.mp hx))
  exact not_both_of_heavy (p := (e, d)) hfound hpos hroom₂
    (maxWeight_eq_some_iff.mpr ⟨⟨added, htouches, rfl⟩, htop'⟩)
    fun x hx => Int.lt_add_one_of_le (hbelow x hx)

end Late

/-! ## What ties -/

section Ties

variable {g : Graph} {root : Int} {asOf maxDepth lim : Option Int} {b c : Int} {d : Nat}
  {a : Entity × Nat}

theorem upTo_found : (g.upTo asOf).found root asOf maxDepth = g.found root asOf maxDepth := by
  have hnext : (g.upTo asOf).knownNeighbours asOf = g.knownNeighbours asOf := by
    funext id
    unfold Graph.knownNeighbours
    rw [upTo_known]
  unfold Graph.found Graph.best Graph.rootRows
  rw [neighboursOf_eq, neighboursOf_eq, hnext]
  rfl

/-- The nodes that stand before a node in every order are those that are ahead of it. -/
theorem countAhead_upTo (ha : a ∈ g.found root asOf maxDepth) :
    countAhead (OrderedBy (g.upTo asOf).rowKey) (g.found root asOf maxDepth) a =
      (g.ahead root asOf a.2 a.1.id).ncard := by
  obtain ⟨hle, -⟩ := mem_best.mp (mem_found.mp ha).2
  have hnodup : (((g.found root asOf maxDepth).filter fun b =>
      !decide (OrderedBy (g.upTo asOf).rowKey a b)).map fun b => b.1.id).Nodup :=
    found_nodup.sublist (List.filter_sublist.map _)
  have hkey : ∀ b : Entity × Nat, ¬ OrderedBy (g.upTo asOf).rowKey a b ↔
      b.2 < a.2 ∨ b.2 = a.2 ∧
        ¬ weightBefore (g.knownWeight asOf a.1.id) (g.knownWeight asOf b.1.id) := by
    intro b
    show ¬ (a.2 < b.2 ∨ (a.2 = b.2 ∧
      weightBefore (g.knownWeight asOf a.1.id) (g.knownWeight asOf b.1.id))) ↔ _
    rw [not_or, not_and, Nat.not_lt]
    constructor
    · rintro ⟨hba, hw⟩
      exact hba.lt_or_eq.imp id fun heq => ⟨heq, hw heq.symm⟩
    · rintro (hlt | ⟨heq, hw⟩)
      · exact ⟨Nat.le_of_lt hlt, fun heq => absurd heq (Nat.ne_of_gt hlt)⟩
      · exact ⟨Nat.le_of_eq heq, fun _ => hw⟩
  rw [ncard_eq_length hnodup fun b => ?_, List.length_map, countAhead, List.countP_eq_length_filter]
  rw [List.mem_map]
  constructor
  · rintro (⟨n, hn, hsteps⟩ | ⟨hdist, hw⟩)
    · obtain ⟨k, hk, hdist⟩ := exists_isDistance hsteps
      obtain ⟨e, he, rfl⟩ := List.mem_map.mp (Graph.mem_of_steps hsteps)
      have hfound : (e, k) ∈ g.found root asOf maxDepth :=
        mem_found.mpr ⟨he, mem_best.mpr ⟨by omega, hdist⟩⟩
      refine ⟨(e, k), List.mem_filter.mpr ⟨hfound, ?_⟩, rfl⟩
      rw [Bool.not_eq_true', decide_eq_false_iff_not, hkey]
      exact .inl (Nat.lt_of_le_of_lt hk hn)
    · obtain ⟨e, he, rfl⟩ := List.mem_map.mp (Graph.mem_of_steps hdist.1)
      have hfound : (e, a.2) ∈ g.found root asOf maxDepth :=
        mem_found.mpr ⟨he, mem_best.mpr ⟨hle, hdist⟩⟩
      refine ⟨(e, a.2), List.mem_filter.mpr ⟨hfound, ?_⟩, rfl⟩
      rw [Bool.not_eq_true', decide_eq_false_iff_not, hkey]
      exact .inr ⟨rfl, hw⟩
  · rintro ⟨⟨e, k⟩, hmem, rfl⟩
    obtain ⟨hfound, hnot⟩ := List.mem_filter.mp hmem
    rw [Bool.not_eq_true', decide_eq_false_iff_not, hkey] at hnot
    have hdist := (mem_best.mp (mem_found.mp hfound).2).2
    rcases hnot with hlt | ⟨heq, hw⟩
    · exact .inl ⟨k, hlt, hdist.1⟩
    · have heq : k = a.2 := heq
      exact .inr ⟨heq ▸ hdist, hw⟩

/-- A node away from the root may show exactly when it may stand under the limit. -/
theorem mayShow_iff (hlim : 0 ≤ least lim 500) (ha : a ∈ g.found root asOf maxDepth)
    (hpos : 0 < a.2) : g.MayShow root asOf maxDepth lim a.2 a.1.id ↔
      countAhead (OrderedBy (g.upTo asOf).rowKey) (g.found root asOf maxDepth) a <
        (least lim 500).toNat := by
  obtain ⟨hle, hdist⟩ := mem_best.mp (mem_found.mp ha).2
  unfold Graph.MayShow
  rw [countAhead_upTo ha]
  constructor
  · rintro ⟨-, -, -, hroom⟩
    omega
  · intro hroom
    exact ⟨hpos, hle, hdist, by omega⟩

theorem Graph.MayShow.exists_found (h : g.MayShow root asOf maxDepth lim d b) :
    ∃ e, e.id = b ∧ (e, d) ∈ g.found root asOf maxDepth ∧
      countAhead (OrderedBy (g.upTo asOf).rowKey) (g.found root asOf maxDepth) (e, d) <
        (least lim 500).toNat := by
  obtain ⟨hpos, hle, hdist, hroom⟩ := id h
  have hlim : 0 ≤ least lim 500 := by omega
  obtain ⟨e, he, rfl⟩ := List.mem_map.mp (Graph.mem_of_steps hdist.1)
  have hfound : (e, d) ∈ g.found root asOf maxDepth := mem_found.mpr ⟨he, mem_best.mpr ⟨hle, hdist⟩⟩
  exact ⟨e, rfl, hfound, (mayShow_iff hlim hfound hpos).mp h⟩

/-- The edge that an array starts with is one of the heaviest. -/
theorem heaviest_of_mayBeFirstDoc {edges : List Edge} {doc : Option String}
    (h : MayBeFirstDoc edges doc) : (edges = [] ∧ doc = none) ∨
      ∃ x ∈ edges, some x.weight = maxWeight edges ∧ doc = some x.docSlug := by
  obtain ⟨arranged, harranges, rfl⟩ := h
  cases arranged with
  | nil => exact .inl ⟨List.nil_perm.mp harranges.perm, rfl⟩
  | cons x rest =>
    have hx : x ∈ edges := harranges.perm.mem_iff.mp List.mem_cons_self
    refine .inr ⟨x, hx, (maxWeight_eq_some_iff.mpr ⟨⟨x, hx, rfl⟩, fun y hy => ?_⟩).symm, rfl⟩
    rcases List.mem_cons.mp (harranges.perm.mem_iff.mpr hy) with rfl | hy
    · exact Int.le_refl _
    · exact (List.pairwise_cons.mp harranges.sorted).1 y hy

/-- And any of the heaviest may be it. -/
theorem mayBeFirstDoc_of_heaviest {edges : List Edge} {x : Edge} (hx : x ∈ edges)
    (hheaviest : some x.weight = maxWeight edges) : MayBeFirstDoc edges (some x.docSlug) := by
  obtain ⟨arranged, harranges, hfirst⟩ :=
    exists_arranges_getElem? (r := fun a b : Edge => b.weight ≤ a.weight) hx
  have hnone : countAhead (fun a b : Edge => b.weight ≤ a.weight) edges x = 0 := by
    refine List.countP_eq_zero.mpr fun y hy => ?_
    rw [decide_eq_true ((maxWeight_eq_some_iff.mp hheaviest.symm).2 y hy)]
    exact Bool.false_ne_true
  rw [hnone, ← List.head?_eq_getElem?] at hfirst
  exact ⟨arranged, harranges, by rw [hfirst]; rfl⟩

/-- Of what finds room no two rows tie. -/
theorem Graph.Untied.eq_of_tied (h : g.Untied root asOf maxDepth lim) (hlim : 0 ≤ least lim 500)
    {x y : Entity × Nat} (hx : x ∈ g.found root asOf maxDepth) (hy : y ∈ g.found root asOf maxDepth)
    (hroomx : countAhead (OrderedBy (g.upTo asOf).rowKey) (g.found root asOf maxDepth) x <
      (least lim 500).toNat)
    (hroomy : countAhead (OrderedBy (g.upTo asOf).rowKey) (g.found root asOf maxDepth) y <
      (least lim 500).toNat)
    (hxy : OrderedBy (g.upTo asOf).rowKey x y) (hyx : OrderedBy (g.upTo asOf).rowKey y x) :
    x = y := by
  have hdepth : x.2 = y.2 := by
    rcases hxy with hlt | ⟨heq, -⟩ <;> rcases hyx with hlt' | ⟨heq', -⟩
    · exact absurd hlt (Nat.lt_asymm hlt')
    · exact heq'.symm
    · exact heq
    · exact heq
  refine List.inj_on_of_nodup_map found_nodup hx hy ?_
  rcases Nat.eq_zero_or_pos x.2 with hzero | hpos
  · exact (found_root hx hzero).trans (found_root hy (hdepth ▸ hzero)).symm
  · have hshow := (mayShow_iff hlim hx hpos).mpr hroomx
    have hshow' := (mayShow_iff hlim hy (hdepth ▸ hpos)).mpr hroomy
    refine h.nodes x.2 x.1.id y.1.id hshow (hdepth ▸ hshow') ?_
    have hxw := hxy.resolve_left (by show ¬ x.2 < y.2; omega)
    have hyw := hyx.resolve_left (by show ¬ y.2 < x.2; omega)
    exact weightBefore_antisymm hxw.2 hyw.2

/-- A row that finds room has one document to show. -/
theorem Graph.Untied.row_eq (h : g.Untied root asOf maxDepth lim) (hlim : 0 ≤ least lim 500)
    (ha : a ∈ g.found root asOf maxDepth)
    (hroom : countAhead (OrderedBy (g.upTo asOf).rowKey) (g.found root asOf maxDepth) a <
      (least lim 500).toNat) {row row' : NeighbourRow}
    (hrow : IsRow a.1 a.2 (incident (g.upTo asOf).edges a.1.id) row)
    (hrow' : IsRow a.1 a.2 (incident (g.upTo asOf).edges a.1.id) row') : row = row' := by
  obtain ⟨doc, hdoc, rfl⟩ := hrow
  obtain ⟨doc', hdoc', rfl⟩ := hrow'
  rcases Nat.eq_zero_or_pos a.2 with hzero | hpos
  · rw [hzero]
    exact rowOf_zero
  · have hshow := (mayShow_iff hlim ha hpos).mpr hroom
    have hsame : doc = doc' := by
      rcases heaviest_of_mayBeFirstDoc hdoc with ⟨hnil, rfl⟩ | ⟨e, he, hew, rfl⟩ <;>
        rcases heaviest_of_mayBeFirstDoc hdoc' with ⟨hnil', rfl⟩ | ⟨e', he', hew', rfl⟩
      · rfl
      · rw [hnil] at he'
        cases he'
      · rw [hnil'] at he
        cases he
      · exact congrArg some (h.documents a.2 a.1.id hshow e he e' he' hew hew')
    rw [hsame]

/-- Where nothing ties the known edges give one result. -/
theorem Graph.Untied.unique (h : g.Untied root asOf maxDepth lim)
    {out out' : Except SqlError (List NeighbourRow)}
    (hout : (g.upTo asOf).ReturnsAsAt root asOf maxDepth lim out)
    (hout' : (g.upTo asOf).ReturnsAsAt root asOf maxDepth lim out') : out = out' := by
  unfold Graph.ReturnsAsAt ReturnsRows at hout hout'
  rw [upTo_found] at hout hout'
  split at hout
  · rename_i hneg
    rw [if_pos hneg] at hout'
    rw [hout, hout']
  · rename_i hlim
    rw [if_neg hlim] at hout'
    have hlim := Int.not_lt.mp hlim
    obtain ⟨arranged, rows, harranges, hrows, rfl⟩ := hout
    obtain ⟨arranged', rows', harranges', hrows', rfl⟩ := hout'
    have htake := harranges.take_eq harranges' (n := (least lim 500).toNat)
      fun x hx y hy => h.eq_of_tied hlim hx hy
    have hone : ∀ x ∈ arranged.take (least lim 500).toNat, ∀ row row',
        IsRow x.1 x.2 (incident (g.upTo asOf).edges x.1.id) row →
        IsRow x.1 x.2 (incident (g.upTo asOf).edges x.1.id) row' → row = row' := by
      intro x hx row row' hrow hrow'
      have hfound := harranges.perm.mem_iff.mp (List.mem_of_mem_take hx)
      exact h.row_eq hlim hfound (harranges.countAhead_lt hx) hrow hrow'
    rw [← htake] at hrows'
    refine congrArg Except.ok ?_
    have hboth := (List.forall₂_and_left _ _).mpr ⟨hone, hrows⟩
    have hboth' := (List.forall₂_and_left _ _).mpr ⟨hone, hrows'⟩
    exact List.right_unique_forall₂' (fun _ _ _ hl hr => hl.1 _ _ hl.2 hr.2) hboth hboth'

/-- Where the known edges give one result, two ways to arrange and show them agree at
each place under the limit. -/
theorem place_eq (hunique : ∀ out out', (g.upTo asOf).ReturnsAsAt root asOf maxDepth lim out →
      (g.upTo asOf).ReturnsAsAt root asOf maxDepth lim out' → out = out')
    {arranged arranged' : List (Entity × Nat)} {row row' : Entity × Nat → NeighbourRow} {k : Nat}
    {x y : Entity × Nat}
    (harranges : Arranges (OrderedBy (g.upTo asOf).rowKey) (g.found root asOf maxDepth) arranged)
    (harranges' : Arranges (OrderedBy (g.upTo asOf).rowKey) (g.found root asOf maxDepth) arranged')
    (hrow : ∀ a, IsRow a.1 a.2 (incident (g.upTo asOf).edges a.1.id) (row a))
    (hrow' : ∀ a, IsRow a.1 a.2 (incident (g.upTo asOf).edges a.1.id) (row' a))
    (hk : k < (least lim 500).toNat) (hx : arranged[k]? = some x) (hy : arranged'[k]? = some y) :
    row x = row' y := by
  have hlim : ¬ least lim 500 < 0 := by omega
  have hout := returnsRows_map hlim harranges fun a _ => hrow a
  have hout' := returnsRows_map hlim harranges' fun a _ => hrow' a
  rw [← upTo_found] at hout hout'
  have hrows := Except.ok.inj (hunique _ _ hout hout')
  have hplace := congrArg (fun l => l[k]?) hrows
  simp only [List.getElem?_map, List.getElem?_take_of_lt hk, hx, hy, Option.map_some,
    Option.some_inj] at hplace
  exact hplace

/-- Where the known edges give one result, nothing ties. -/
theorem untied_of_unique (hunique : ∀ out out', (g.upTo asOf).ReturnsAsAt root asOf maxDepth lim out →
    (g.upTo asOf).ReturnsAsAt root asOf maxDepth lim out' → out = out') :
    g.Untied root asOf maxDepth lim := by
  have hfirst := fun a : Entity × Nat =>
    isRow_firstDoc a.1 a.2 (incident (g.upTo asOf).edges a.1.id)
  constructor
  case documents =>
    intro d b hshow x hx y hy hxw hyw
    obtain ⟨e, rfl, hfound, hroom⟩ := hshow.exists_found
    obtain ⟨arranged, harranges, hplace⟩ :=
      exists_arranges_getElem? (r := OrderedBy (g.upTo asOf).rowKey) hfound
    -- the row of the node may show either document
    have hshown : ∀ z ∈ incident (g.known asOf) e.id, some z.weight = g.knownWeight asOf e.id →
        ∀ a : Entity × Nat, IsRow a.1 a.2 (incident (g.upTo asOf).edges a.1.id)
          (if a = (e, d) then rowOf e d (incident (g.known asOf) e.id) (some z.docSlug)
            else rowOf a.1 a.2 (incident (g.upTo asOf).edges a.1.id)
              (firstDoc (incident (g.upTo asOf).edges a.1.id))) := by
      intro z hz hzw a
      split
      · rename_i heq
        subst heq
        exact ⟨_, mayBeFirstDoc_of_heaviest hz hzw, rfl⟩
      · exact hfirst a
    have hrow := place_eq hunique harranges harranges (hshown x hx hxw) (hshown y hy hyw) hroom
      hplace hplace
    rw [if_pos rfl, if_pos rfl] at hrow
    have hdoc := congrArg NeighbourRow.viaDoc hrow
    rw [rowOf_viaDoc (Nat.ne_of_gt hshow.1), rowOf_viaDoc (Nat.ne_of_gt hshow.1)] at hdoc
    exact Option.some.inj hdoc
  case nodes =>
    intro d b c hshow hshow' hweight
    obtain ⟨e, rfl, hfound, hroom⟩ := hshow.exists_found
    obtain ⟨e', rfl, hfound', -⟩ := hshow'.exists_found
    obtain ⟨arranged, harranges, hplace⟩ :=
      exists_arranges_getElem? (r := OrderedBy (g.upTo asOf).rowKey) hfound
    obtain ⟨arranged', harranges', hplace'⟩ :=
      exists_arranges_getElem? (r := OrderedBy (g.upTo asOf).rowKey) hfound'
    have hkey : (g.upTo asOf).rowKey (e, d) = (g.upTo asOf).rowKey (e', d) :=
      congrArg (RowKey.mk d) hweight
    have hsame : countAhead (OrderedBy (g.upTo asOf).rowKey) (g.found root asOf maxDepth) (e', d) =
        countAhead (OrderedBy (g.upTo asOf).rowKey) (g.found root asOf maxDepth) (e, d) := by
      refine List.countP_congr fun z _ => ?_
      rw [Bool.not_eq_true', Bool.not_eq_true', decide_eq_false_iff_not, decide_eq_false_iff_not,
        OrderedBy, OrderedBy, hkey]
    rw [hsame] at hplace'
    exact congrArg NeighbourRow.id
      (place_eq hunique harranges harranges' hfirst hfirst hroom hplace hplace')

end Ties

/-- Two papers of the first days link three entities. -/
def firstPapers : Graph where
  entities := [⟨1, "usc", "5 U.S.C. 552"⟩, ⟨2, "cfr", "1 CFR 51"⟩, ⟨3, "publaw", "Pub. L. 89-487"⟩]
  edges := [⟨1, 2, "first", 1, some 1⟩, ⟨1, 3, "second", 2, some 2⟩]
  ids := by decide
  ends := by decide
  once := by decide

/-- Graphs that agree on what is known by the cutoff may give the same results, whatever their
late edges are, exactly when no late edge may have an exposed end.  They give the one same
result exactly when, besides, nothing that may show ties. -/
theorem neighbourhood_noninterference_iff (g : Graph) (root : Int) (asOf maxDepth lim : Option Int)
    (late : List (Int × Int)) :
    ((∀ g₁ g₂ : Graph, g₁.AgreesUpTo g asOf late → g₂.AgreesUpTo g asOf late →
        ∀ out, g₁.ReturnsAsAt root asOf maxDepth lim out ↔
          g₂.ReturnsAsAt root asOf maxDepth lim out) ↔
      g.Unexposed root asOf maxDepth lim late) ∧
    ((∀ g₁ g₂ : Graph, g₁.AgreesUpTo g asOf late → g₂.AgreesUpTo g asOf late →
        ∀ out₁ out₂, g₁.ReturnsAsAt root asOf maxDepth lim out₁ →
          g₂.ReturnsAsAt root asOf maxDepth lim out₂ → out₁ = out₂) ↔
      g.Unexposed root asOf maxDepth lim late ∧ g.Untied root asOf maxDepth lim) := by
  -- an exposed end gives two graphs without a result in common
  have hapart : ¬ g.Unexposed root asOf maxDepth lim late →
      ∃ g₁ g₂ : Graph, g₁.AgreesUpTo g asOf late ∧ g₂.AgreesUpTo g asOf late ∧
        ∀ out, g₁.ReturnsAsAt root asOf maxDepth lim out →
          ¬ g₂.ReturnsAsAt root asOf maxDepth lim out := by
    intro hnot
    by_contra hsame
    refine hnot fun p hp hs ht => ⟨fun hexposed => hsame ?_, fun hexposed => hsame ?_⟩
    · exact exposed_leaks hp hs ht (.inl rfl) hexposed
    · exact exposed_leaks hp hs ht (.inr rfl) hexposed
  constructor
  · constructor
    · intro hsame
      by_contra hnot
      obtain ⟨g₁, g₂, h₁, h₂, hno⟩ := hapart hnot
      have hout := returnsAsAt_neighbourhoodAsAt g₁ root asOf maxDepth lim
      exact hno _ hout ((hsame g₁ g₂ h₁ h₂ _).mp hout)
    · intro hunexposed g₁ g₂ h₁ h₂ out
      exact ⟨h₁.returnsAsAt h₂ hunexposed, h₂.returnsAsAt h₁ hunexposed⟩
  · constructor
    · intro hsame
      refine ⟨?_, untied_of_unique (hsame _ _ agreesUpTo_upTo agreesUpTo_upTo)⟩
      by_contra hnot
      obtain ⟨g₁, g₂, h₁, h₂, hno⟩ := hapart hnot
      have hout := returnsAsAt_neighbourhoodAsAt g₁ root asOf maxDepth lim
      have hout' := returnsAsAt_neighbourhoodAsAt g₂ root asOf maxDepth lim
      exact hno _ hout (hsame g₁ g₂ h₁ h₂ _ _ hout hout' ▸ hout')
    · rintro ⟨hunexposed, huntied⟩ g₁ g₂ h₁ h₂ out₁ out₂ hout₁ hout₂
      exact huntied.unique (h₁.returnsAsAt agreesUpTo_upTo hunexposed hout₁)
        (h₂.returnsAsAt agreesUpTo_upTo hunexposed hout₂)

/-- A paper of day 9 links the two neighbours. -/
def laterPaper : Graph :=
  firstPapers.addEdge ⟨2, 3, "third", 9, some 9⟩ (by decide) (by decide)

/-- A document of day 9 is in the rows as at day 5: the two graphs have no result in common. -/
theorem later_paper_shows : ¬ ∀ (g₁ g₂ : Graph) (root : Int) (asOf maxDepth lim : Option Int),
    (∀ e, e ∈ g₁.entities ↔ e ∈ g₂.entities) → (∀ e, e ∈ g₁.known asOf ↔ e ∈ g₂.known asOf) →
      ∃ out, g₁.ReturnsAsAt root asOf maxDepth lim out ∧
        g₂.ReturnsAsAt root asOf maxDepth lim out := by
  intro hsame
  have hknown : laterPaper.known (some 5) = firstPapers.known (some 5) := by decide
  obtain ⟨out, h₁, h₂⟩ := hsame firstPapers laterPaper 1 (some 5) (some 2) (some 200)
    (fun _ => Iff.rfl) fun e => by rw [hknown]
  have hfound : ((⟨2, "cfr", "1 CFR 51"⟩, 1) : Entity × Nat) ∈
      laterPaper.found 1 (some 5) (some 2) := by decide
  exact not_both_of_heavy hfound Nat.one_pos (by decide) (w := 9) (by decide) (by decide) h₁ h₂

end SupabaseLab.CorpusGraph
