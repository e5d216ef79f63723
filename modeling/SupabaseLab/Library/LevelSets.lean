/-
  Library/LevelSets.lean --- a bounded walk by level sets.

  A recursive query whose steps are united as sets keeps each pair of a node and a
  depth once: its working tables are the levels of the walk.  `minDepths` of the walk
  has each node with its distance from the start, and where steps go both ways that is
  the distance in the graph they make.
-/
import Mathlib

set_option autoImplicit false

namespace SupabaseLab.Library

variable {α : Type} [DecidableEq α]

/-- A list names the members of a set, each once. -/
theorem ncard_eq_length {s : Set α} {l : List α} (hnodup : l.Nodup) (h : ∀ x, x ∈ s ↔ x ∈ l) :
    s.ncard = l.length := by
  have hset : s = (l.toFinset : Set α) := by
    ext x
    rw [Finset.mem_coe, List.mem_toFinset, h]
  rw [hset, Set.ncard_coe_finset, List.toFinset_card_of_nodup hnodup]

section Walk

variable (adj : α → List α)

def nextLevel (level : List α) : List α := (level.flatMap adj).dedup

/-- The working tables, from a first one on. -/
def levels : Nat → List α → List (List α)
  | 0, level => [level]
  | n + 1, level => level :: levels n (nextLevel adj level)

/-- The nodes met within `n` steps, each with every depth at which it was met. -/
def levelWalk (n : Nat) (start : List α) : List (α × Nat) :=
  (levels adj n start).zipIdx.flatMap fun (level, d) => level.map fun x => (x, d)

end Walk

/-- Every node with the least depth at which it was met. -/
def minDepths (w : List (α × Nat)) : List (α × Nat) :=
  (w.map Prod.fst).dedup.map fun x =>
    (x, ((w.filter fun y => y.1 = x).map Prod.snd).min?.getD 0)

/-- The node can be reached in exactly `n` steps. -/
inductive Steps (adj : α → List α) (start : List α) : Nat → α → Prop where
  | start {x : α} : x ∈ start → Steps adj start 0 x
  | step {n : Nat} {x y : α} : Steps adj start n x → y ∈ adj x → Steps adj start (n + 1) y

/-- The node is reached in `d` steps and in no fewer. -/
def IsDistance (adj : α → List α) (start : List α) (d : Nat) (x : α) : Prop :=
  Steps adj start d x ∧ ∀ n < d, ¬ Steps adj start n x

variable {adj : α → List α} {start : List α} {n d : Nat} {x : α}

omit [DecidableEq α] in
theorem Steps.zero : Steps adj start 0 x ↔ x ∈ start :=
  ⟨fun h => by cases h; assumption, .start⟩

omit [DecidableEq α] in
theorem Steps.succ : Steps adj start (n + 1) x ↔ ∃ y, Steps adj start n y ∧ x ∈ adj y := by
  constructor
  · intro h
    cases h with
    | step hy hx => exact ⟨_, hy, hx⟩
  · rintro ⟨y, hy, hx⟩
    exact .step hy hx

omit [DecidableEq α] in
theorem Steps.exists_start (h : Steps adj start n x) : ∃ y, y ∈ start := by
  induction h with
  | start hx => exact ⟨_, hx⟩
  | step _ _ ih => exact ih

omit [DecidableEq α] in
/-- The walk only asks who is next to whom. -/
theorem Steps.congr {adj' : α → List α} {start' : List α} (hadj : ∀ y z, z ∈ adj y ↔ z ∈ adj' y)
    (hstart : ∀ y, y ∈ start ↔ y ∈ start') : Steps adj start n x ↔ Steps adj' start' n x := by
  induction n generalizing x with
  | zero => rw [Steps.zero, Steps.zero, hstart]
  | succ n ih => simp only [Steps.succ, ih, hadj]

omit [DecidableEq α] in
theorem isDistance_congr {adj' : α → List α} {start' : List α} (hadj : ∀ y z, z ∈ adj y ↔ z ∈ adj' y)
    (hstart : ∀ y, y ∈ start ↔ y ∈ start') :
    IsDistance adj start n x ↔ IsDistance adj' start' n x := by
  unfold IsDistance
  simp only [Steps.congr hadj hstart]

theorem mem_nextLevel {level : List α} : x ∈ nextLevel adj level ↔ ∃ y ∈ level, x ∈ adj y :=
  List.mem_dedup.trans List.mem_flatMap

theorem getElem?_levels (adj : α → List α) (n d : Nat) (start : List α) :
    (levels adj n start)[d]? = if d ≤ n then some ((nextLevel adj)^[d] start) else none := by
  induction n generalizing d start with
  | zero =>
    cases d with
    | zero => rfl
    | succ d => rfl
  | succ n ih =>
    cases d with
    | zero => rfl
    | succ d =>
      rw [levels, List.getElem?_cons_succ, ih, Function.iterate_succ_apply]
      by_cases h : d ≤ n
      · rw [if_pos h, if_pos (Nat.succ_le_succ h)]
      · rw [if_neg h, if_neg fun hle => h (Nat.le_of_succ_le_succ hle)]

theorem mem_iterate_nextLevel : x ∈ (nextLevel adj)^[d] start ↔ Steps adj start d x := by
  induction d generalizing x with
  | zero => exact Steps.zero.symm
  | succ d ih =>
    rw [Function.iterate_succ_apply', mem_nextLevel, Steps.succ]
    exact exists_congr fun y => and_congr_left fun _ => ih

theorem mem_levelWalk : (x, d) ∈ levelWalk adj n start ↔ d ≤ n ∧ Steps adj start d x := by
  unfold levelWalk
  rw [List.mem_flatMap]
  constructor
  · rintro ⟨⟨level, k⟩, hlevel, hmem⟩
    obtain ⟨y, hy, heq⟩ := List.mem_map.mp hmem
    cases heq
    have hlevel : (levels adj n start)[d]? = some level := List.mem_zipIdx_iff_getElem?.mp hlevel
    rw [getElem?_levels] at hlevel
    split at hlevel
    · rename_i hle
      exact ⟨hle, mem_iterate_nextLevel.mp ((Option.some.inj hlevel).symm ▸ hy)⟩
    · cases hlevel
  · rintro ⟨hle, hsteps⟩
    refine ⟨((nextLevel adj)^[d] start, d), ?_, List.mem_map_of_mem
      (mem_iterate_nextLevel.mpr hsteps)⟩
    rw [List.mem_zipIdx_iff_getElem?, getElem?_levels, if_pos hle]

theorem mem_minDepths {w : List (α × Nat)} :
    (x, d) ∈ minDepths w ↔ (x, d) ∈ w ∧ ∀ k, (x, k) ∈ w → d ≤ k := by
  have hmem : ∀ k, k ∈ (w.filter fun y => y.1 = x).map Prod.snd ↔ (x, k) ∈ w := by
    intro k
    rw [List.mem_map]
    constructor
    · rintro ⟨⟨y, k'⟩, hy, rfl⟩
      obtain ⟨hy, heq⟩ := List.mem_filter.mp hy
      exact of_decide_eq_true heq ▸ hy
    · exact fun h => ⟨_, List.mem_filter.mpr ⟨h, decide_eq_true rfl⟩, rfl⟩
  unfold minDepths
  rw [List.mem_map]
  constructor
  · rintro ⟨y, hy, heq⟩
    obtain ⟨rfl, hd⟩ := Prod.mk.inj heq
    obtain ⟨⟨y, k⟩, hk, rfl⟩ := List.mem_map.mp (List.mem_dedup.mp hy)
    cases hmin : ((w.filter fun z => z.1 = y).map Prod.snd).min? with
    | none =>
      rw [List.min?_eq_none_iff] at hmin
      exact absurd (hmin ▸ (hmem k).mpr hk) List.not_mem_nil
    | some m =>
      rw [hmin, Option.getD_some] at hd
      subst hd
      obtain ⟨hin, hleast⟩ := List.min?_eq_some_iff.mp hmin
      exact ⟨(hmem m).mp hin, fun k hk => hleast k ((hmem k).mpr hk)⟩
  · rintro ⟨hin, hleast⟩
    refine ⟨x, List.mem_dedup.mpr (List.mem_map_of_mem hin), ?_⟩
    rw [List.min?_eq_some_iff.mpr ⟨(hmem d).mpr hin, fun k hk => hleast k ((hmem k).mp hk)⟩,
      Option.getD_some]

/-- The walk finds the nodes within `n` steps, at their distances. -/
theorem mem_minDepths_levelWalk :
    (x, d) ∈ minDepths (levelWalk adj n start) ↔ d ≤ n ∧ IsDistance adj start d x := by
  rw [mem_minDepths, mem_levelWalk]
  constructor
  · rintro ⟨⟨hle, hsteps⟩, hleast⟩
    refine ⟨hle, hsteps, fun k hk hk' => ?_⟩
    have := hleast k (mem_levelWalk.mpr ⟨(Nat.le_of_lt hk).trans hle, hk'⟩)
    omega
  · rintro ⟨hle, hsteps, hno⟩
    refine ⟨⟨hle, hsteps⟩, fun k hk => ?_⟩
    by_contra hlt
    exact hno k (Nat.not_le.mp hlt) (mem_levelWalk.mp hk).2

theorem nodup_minDepths (w : List (α × Nat)) : ((minDepths w).map Prod.fst).Nodup := by
  have heq : (minDepths w).map Prod.fst = (w.map Prod.fst).dedup := by
    rw [minDepths, List.map_map]
    exact List.map_id _
  rw [heq]
  exact List.nodup_dedup _

omit [DecidableEq α] in
theorem exists_isDistance (h : Steps adj start n x) : ∃ d ≤ n, IsDistance adj start d x := by
  classical
  have hex : ∃ n, Steps adj start n x := ⟨n, h⟩
  exact ⟨Nat.find hex, Nat.find_min' hex h, Nat.find_spec hex, fun k hk => Nat.find_min hex hk⟩

/-! ## The size of a walk -/

theorem length_levels (adj : α → List α) (n : Nat) (start : List α) :
    (levels adj n start).length = n + 1 := by
  induction n generalizing start with
  | zero => rfl
  | succ n ih => rw [levels, List.length_cons, ih]

theorem nodup_iterate_nextLevel (hstart : start.Nodup) (d : Nat) :
    ((nextLevel adj)^[d] start).Nodup := by
  cases d with
  | zero => exact hstart
  | succ d =>
    rw [Function.iterate_succ_apply']
    exact List.nodup_dedup _

/-- A walk has at most one row for each node and depth. -/
theorem length_levelWalk_le (nodes : List α) (hstart : start.Nodup)
    (hnodes : ∀ d x, Steps adj start d x → x ∈ nodes) :
    (levelWalk adj n start).length ≤ nodes.length * (n + 1) := by
  have hlevel : ∀ level ∈ levels adj n start, level.length ≤ nodes.length := by
    intro level hmem
    obtain ⟨d, hd⟩ := List.mem_iff_getElem?.mp hmem
    rw [getElem?_levels] at hd
    split at hd
    · cases hd
      refine ((nodup_iterate_nextLevel hstart d).subperm fun x hx => ?_).length_le
      exact hnodes d x (mem_iterate_nextLevel.mp hx)
    · cases hd
  have hsum := List.sum_le_card_nsmul
    ((levels adj n start).zipIdx.map fun p => (p.1.map fun x => (x, p.2)).length) nodes.length ?_
  · rw [List.length_map, List.length_zipIdx, length_levels, smul_eq_mul, Nat.mul_comm] at hsum
    unfold levelWalk
    rw [List.length_flatMap]
    exact hsum
  · intro k hk
    obtain ⟨p, hp, rfl⟩ := List.mem_map.mp hk
    rw [List.length_map]
    exact hlevel p.1 (List.fst_mem_of_mem_zipIdx hp)

/-! ## Distance in a graph -/

section Distance

variable {G : SimpleGraph α} {r : α}

omit [DecidableEq α] in
theorem edist_le_of_steps (hadj : ∀ x y, y ∈ adj x → x = y ∨ G.Adj x y)
    (hstart : ∀ y ∈ start, y = r) (h : Steps adj start n x) : G.edist r x ≤ n := by
  induction h with
  | start hx =>
    rw [hstart _ hx, SimpleGraph.edist_self]
    exact bot_le
  | @step n x y _ hy ih =>
    push_cast
    rcases hadj x y hy with rfl | hxy
    · exact ih.trans le_self_add
    · refine SimpleGraph.edist_triangle.trans (add_le_add ih ?_)
      exact (SimpleGraph.edist_eq_one_iff_adj.mpr hxy).le

omit [DecidableEq α] in
theorem steps_of_walk (hadj : ∀ x y, G.Adj x y → y ∈ adj x) {y : α} (hx : Steps adj start n x)
    (w : G.Walk x y) : Steps adj start (n + w.length) y := by
  induction w generalizing n with
  | nil => exact hx
  | cons hxy w ih =>
    have := ih (.step hx (hadj _ _ hxy))
    rwa [SimpleGraph.Walk.length_cons, Nat.add_comm w.length, ← Nat.add_assoc]

omit [DecidableEq α] in
/-- A step along an edge leads to a neighbour or stays, so the walk measures distance. -/
theorem isDistance_iff_edist (hsound : ∀ x y, y ∈ adj x → x = y ∨ G.Adj x y)
    (hcomplete : ∀ x y, G.Adj x y → y ∈ adj x) (hstart : ∀ y, y ∈ start ↔ y = r) :
    IsDistance adj start d x ↔ G.edist r x = d := by
  have hle : ∀ {n}, Steps adj start n x → G.edist r x ≤ n :=
    edist_le_of_steps hsound fun y hy => (hstart y).mp hy
  have hsteps : ∀ {n : Nat}, G.edist r x = n → Steps adj start n x := by
    intro n hn
    obtain ⟨w, hw⟩ := SimpleGraph.exists_walk_of_edist_ne_top (hn ▸ ENat.natCast_ne_top n)
    have hlen : w.length = n := ENat.natCast_inj.mp (hw.trans hn)
    have := steps_of_walk hcomplete (.start ((hstart r).mpr rfl)) w
    rwa [hlen, Nat.zero_add] at this
  constructor
  · rintro ⟨hd, hno⟩
    obtain ⟨m, hm⟩ := ENat.ne_top_iff_exists.mp (ne_top_of_le_ne_top (ENat.natCast_ne_top d) (hle hd))
    have hmd : m ≤ d := by
      have := hle hd
      rw [← hm] at this
      exact_mod_cast this
    rcases hmd.eq_or_lt with rfl | hlt
    · exact hm.symm
    · exact absurd (hsteps hm.symm) (hno m hlt)
  · intro hd
    refine ⟨hsteps hd, fun n hn hs => ?_⟩
    have := hle hs
    rw [hd] at this
    exact absurd (by exact_mod_cast this) (not_le.mpr hn)

end Distance

end SupabaseLab.Library
