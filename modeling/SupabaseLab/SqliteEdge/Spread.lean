/-
  SqliteEdge/Spread.lean --- a ranking of backends by the spread of their latencies.

  Source: `separated` of experiments/sqlite-edge-compare/lib/stats.ts and `rankBySpread`
  of lib/td02-03-plan.ts.

  The chain orders the systems by p50 and puts "<" between neighbours whose spreads do
  not overlap; pairs further apart are listed after it unless some "<" stands between
  them.  A "<" says more than its two neighbours: it is read as one for every pair on
  either side of it.
-/
import SupabaseLab.Library.JsDouble
import SupabaseLab.Library.StableSort

set_option autoImplicit false

namespace SupabaseLab.SqliteEdge

open Library

/-! ## Two spreads -/

/-- The part of a `Summary` that a ranking reads. -/
structure Spread where
  p25 : Double
  p50 : Double
  p75 : Double
  n : Nat
  deriving DecidableEq

inductive Side where
  | a
  | b
  deriving DecidableEq

/-- The faster of two backends whose p25-p75 ranges do not overlap. -/
def separated (a b : Spread) : Option Side :=
  if a.p75.lt b.p25 then some .a
  else if b.p75.lt a.p25 then some .b
  else none

/-- `p25 <= p50 <= p75`. -/
def Spread.Ordered (s : Spread) : Prop := s.p25.le s.p50 = true ∧ s.p50.le s.p75 = true

instance (s : Spread) : Decidable s.Ordered := inferInstanceAs (Decidable (_ ∧ _))

/-! ## The ranking -/

structure Entry where
  key : String
  s : Spread
  deriving DecidableEq

/-- The entries that are ranked: `e.s.n > 0 && Number.isFinite(e.s.p50)`. -/
def Entry.counted (e : Entry) : Bool := decide (0 < e.s.n) && e.s.p50.isFinite

/-- `a.s.p50 - b.s.p50` is not above zero: the difference of two finite doubles has the sign
of the exact one. -/
def NotSlower (a b : Entry) : Prop := a.s.p50.value ≤ b.s.p50.value

instance : DecidableRel NotSlower := fun _ _ => inferInstanceAs (Decidable (_ ≤ _))

instance : Std.Total NotSlower := ⟨fun _ _ => le_total _ _⟩

instance : IsTrans Entry NotSlower := ⟨fun _ _ _ => le_trans⟩

/-- The chain; sorting keeps entries that tie in the order they came in. -/
def ranked (entries : List Entry) : List Entry :=
  (entries.filter Entry.counted).insertionSort NotSlower

/-- What stands between two neighbours of the chain. -/
def mark (a b : Entry) : String := if separated a.s b.s = some .a then "<" else "~"

def marks (xs : List Entry) : List String := List.zipWith mark xs xs.tail

def chainText : List Entry → String
  | [] => ""
  | [x] => x.key
  | x :: y :: rest => x.key ++ (" " ++ mark x y ++ " ") ++ chainText (y :: rest)

/-- `separated(xs[i]!.s, xs[j]!.s) === "a"`. -/
def fasterAt (xs : List Entry) (i j : Nat) : Bool :=
  match xs[i]?, xs[j]? with
  | some a, some b => decide (separated a.s b.s = some .a)
  | _, _ => false

/-- Some "<" stands between the places `i` and `j` of the chain. -/
def chained (xs : List Entry) (i j : Nat) : Bool :=
  (List.range (j - i)).any fun k => fasterAt xs (i + k) (i + k + 1)

/-- The pairs that are listed after the chain, by their places in it. -/
def alsoPairs (xs : List Entry) : List (Nat × Nat) :=
  (List.range xs.length).flatMap fun i =>
    ((List.range xs.length).filter fun j =>
      decide (i + 2 ≤ j) && (!chained xs i j && fasterAt xs i j)).map fun j => (i, j)

def alsoText (xs : List Entry) : List String :=
  (alsoPairs xs).filterMap fun p =>
    match xs[p.1]?, xs[p.2]? with
    | some a, some b => some (a.key ++ " < " ++ b.key)
    | _, _ => none

def rankBySpread (entries : List Entry) : String :=
  let xs := ranked entries
  if xs = [] then "no samples"
  else if alsoPairs xs = [] then chainText xs
  else chainText xs ++ " (also " ++ ", ".intercalate (alsoText xs) ++ ")"

/-! ## What a reader takes from it -/

/-- `x` is read as faster than `y`: a "<" stands between them in the chain, or the pair is
listed after it. -/
def ReadsFaster (entries : List Entry) (x y : Entry) : Prop :=
  ∃ i j, (ranked entries)[i]? = some x ∧ (ranked entries)[j]? = some y ∧
    ((∃ k, i ≤ k ∧ k < j ∧ (marks (ranked entries))[k]? = some "<") ∨
      (i, j) ∈ alsoPairs (ranked entries))

/-- The ranking says of every pair whether its spreads are apart. -/
def SaysWhatIsSeparated (entries : List Entry) : Prop :=
  ∀ x ∈ entries, ∀ y ∈ entries, ReadsFaster entries x y ↔ separated x.s y.s = some .a

/-- The entries that are ranked, each with its place among them. -/
def placed (entries : List Entry) : List (Entry × Nat) := (entries.filter Entry.counted).zipIdx

/-- An entry that is not ranked overlaps with all others, and where two systems are apart
and none has a median between theirs, all systems up to the one are apart from all from the
other on.  Systems with one median stand in the order they came in. -/
structure Layered (entries : List Entry) : Prop where
  left_out : ∀ x ∈ entries, x.counted = false → ∀ y ∈ entries, separated x.s y.s = none
  split : ∀ p ∈ placed entries, ∀ q ∈ placed entries, separated p.1.s q.1.s = some .a →
    (∀ z ∈ placed entries, ByPlace NotSlower z p ∨ ByPlace NotSlower q z) →
      ∀ u ∈ placed entries, ∀ v ∈ placed entries, ByPlace NotSlower u p → ByPlace NotSlower q v →
        separated u.1.s v.1.s = some .a

section Lemmas

variable {entries xs : List Entry} {x y : Entry} {a b : Spread} {i j k : Nat}

theorem separated_eq_a : separated a b = some .a ↔ a.p75.lt b.p25 = true := by
  rw [separated]
  split
  · rename_i h
    exact ⟨fun _ => h, fun _ => rfl⟩
  · rename_i h
    split
    · exact ⟨fun hab => (nomatch hab), fun hab => absurd hab h⟩
    · exact ⟨fun hab => (nomatch hab), fun hab => absurd hab h⟩

theorem separated_eq_none :
    separated a b = none ↔ ¬ separated a b = some .a ∧ ¬ separated b a = some .a := by
  rw [separated_eq_a, separated_eq_a, separated]
  split
  · rename_i h
    exact ⟨fun hab => (nomatch hab), fun hab => absurd h hab.1⟩
  · rename_i h
    split
    · rename_i hba
      exact ⟨fun hab => (nomatch hab), fun hab => absurd hba hab.2⟩
    · rename_i hba
      exact ⟨fun _ => ⟨h, hba⟩, fun _ => rfl⟩

/-- Of two spreads that are apart, the faster one has the lower median. -/
theorem p50_lt_of_separated (ha : a.Ordered) (hb : b.Ordered) (h : separated a b = some .a) :
    a.p50.lt b.p50 = true :=
  Double.lt_of_lt_of_le (Double.lt_of_le_of_lt ha.2 (separated_eq_a.mp h)) hb.1

theorem mem_ranked : x ∈ ranked entries ↔ x ∈ entries ∧ x.counted = true := by
  rw [ranked, List.mem_insertionSort, List.mem_filter]

theorem ranked_sorted (entries : List Entry) : (ranked entries).Pairwise NotSlower :=
  List.pairwise_insertionSort NotSlower _

theorem finite_of_counted (h : x.counted = true) : x.s.p50 = .fin x.s.p50.value :=
  Double.isFinite_iff.mp (Bool.and_eq_true _ _ ▸ h).2

theorem fasterAt_iff : fasterAt xs i j = true ↔
    ∃ x y, xs[i]? = some x ∧ xs[j]? = some y ∧ separated x.s y.s = some .a := by
  rw [fasterAt]
  split
  · rename_i x y hx hy
    rw [decide_eq_true_iff]
    refine ⟨fun h => ⟨x, y, hx, hy, h⟩, ?_⟩
    rintro ⟨x', y', hx', hy', h⟩
    rw [hx] at hx'
    rw [hy] at hy'
    cases hx'
    cases hy'
    exact h
  · rename_i hnone
    exact ⟨fun h => absurd h Bool.false_ne_true, fun ⟨x, y, hx, hy, _⟩ => (hnone x y hx hy).elim⟩

theorem marks_eq_lt_iff : (marks xs)[k]? = some "<" ↔ fasterAt xs k (k + 1) = true := by
  rw [marks, List.getElem?_zipWith, List.getElem?_tail, fasterAt]
  cases hx : xs[k]? with
  | none => exact ⟨fun h => (nomatch h), fun h => absurd h Bool.false_ne_true⟩
  | some x =>
    cases hy : xs[k + 1]? with
    | none => exact ⟨fun h => (nomatch h), fun h => absurd h Bool.false_ne_true⟩
    | some y =>
      dsimp only
      rw [decide_eq_true_iff, Option.some_inj, mark]
      split
      · rename_i h
        exact ⟨fun _ => h, fun _ => rfl⟩
      · rename_i h
        exact ⟨fun heq => absurd heq (by decide), fun heq => absurd heq h⟩

theorem chained_iff : chained xs i j = true ↔
    ∃ k, i ≤ k ∧ k < j ∧ fasterAt xs k (k + 1) = true := by
  rw [chained, List.any_eq_true]
  constructor
  · rintro ⟨k, hk, h⟩
    have hlt := List.mem_range.mp hk
    exact ⟨i + k, by omega, by omega, h⟩
  · rintro ⟨k, hik, hkj, h⟩
    refine ⟨k - i, List.mem_range.mpr (by omega), ?_⟩
    rwa [show i + (k - i) = k by omega]

theorem mem_alsoPairs : (i, j) ∈ alsoPairs xs ↔
    i + 2 ≤ j ∧ chained xs i j = false ∧ fasterAt xs i j = true := by
  rw [alsoPairs, List.mem_flatMap]
  constructor
  · rintro ⟨i', -, hmem⟩
    obtain ⟨j', hj, heq⟩ := List.mem_map.mp hmem
    cases heq
    have hfound := (List.mem_filter.mp hj).2
    rw [Bool.and_eq_true, Bool.and_eq_true, Bool.not_eq_true', decide_eq_true_iff] at hfound
    exact hfound
  · rintro ⟨hij, hchained, hfaster⟩
    obtain ⟨x, y, hx, hy, -⟩ := fasterAt_iff.mp hfaster
    refine ⟨i, List.mem_range.mpr (List.getElem?_eq_some_iff.mp hx).1, List.mem_map.mpr ⟨j, ?_, rfl⟩⟩
    refine List.mem_filter.mpr ⟨List.mem_range.mpr (List.getElem?_eq_some_iff.mp hy).1, ?_⟩
    rw [decide_eq_true hij, hchained, hfaster]
    rfl

/-- Entries stand in the chain in the order of their medians. -/
theorem place_lt (hx : (ranked entries)[i]? = some x) (hy : (ranked entries)[j]? = some y)
    (h : x.s.p50.lt y.s.p50 = true) : i < j := by
  obtain ⟨hi, rfl⟩ := List.getElem?_eq_some_iff.mp hx
  obtain ⟨hj, rfl⟩ := List.getElem?_eq_some_iff.mp hy
  rw [finite_of_counted (mem_ranked.mp (List.getElem_mem hi)).2,
    finite_of_counted (mem_ranked.mp (List.getElem_mem hj)).2, Double.lt_fin_iff] at h
  by_contra hle
  rcases (not_lt.mp hle).eq_or_lt with rfl | hlt
  · exact lt_irrefl _ h
  · exact absurd (List.pairwise_iff_getElem.mp (ranked_sorted entries) j i hj hi hlt) (not_le.mpr h)

/-- No separated pair of ranked systems goes unsaid. -/
theorem readsFaster_of_separated (hordered : ∀ e ∈ entries, e.counted = true → e.s.Ordered)
    (hx : x ∈ ranked entries) (hy : y ∈ ranked entries) (h : separated x.s y.s = some .a) :
    ReadsFaster entries x y := by
  have ordered : ∀ e ∈ ranked entries, e.s.Ordered := fun e he =>
    hordered e (mem_ranked.mp he).1 (mem_ranked.mp he).2
  obtain ⟨i, hi⟩ := List.mem_iff_getElem?.mp hx
  obtain ⟨j, hj⟩ := List.mem_iff_getElem?.mp hy
  have hij : i < j := place_lt hi hj (p50_lt_of_separated (ordered x hx) (ordered y hy) h)
  have hfaster : fasterAt (ranked entries) i j = true := fasterAt_iff.mpr ⟨x, y, hi, hj, h⟩
  refine ⟨i, j, hi, hj, ?_⟩
  cases hchained : chained (ranked entries) i j with
  | true =>
    obtain ⟨k, hik, hkj, hk⟩ := chained_iff.mp hchained
    exact .inl ⟨k, hik, hkj, marks_eq_lt_iff.mpr hk⟩
  | false =>
    -- neighbours have the mark between them, so the pair is one of those listed
    refine .inr (mem_alsoPairs.mpr ⟨?_, hchained, hfaster⟩)
    by_contra hlt
    have hnext : j = i + 1 := by omega
    subst hnext
    have := chained_iff.mpr ⟨i, le_refl i, Nat.lt_succ_self i, hfaster⟩
    rw [hchained] at this
    exact Bool.false_ne_true this

/-- What stands at a place of the chain, with its place in the table. -/
theorem exists_placed (h : (ranked entries)[i]? = some x) : ∃ p ∈ placed entries,
    (sortedPlaces NotSlower (entries.filter Entry.counted))[i]? = some p ∧ p.1 = x := by
  rw [ranked, ← map_fst_sortedPlaces, List.getElem?_map] at h
  obtain ⟨p, hp, rfl⟩ := Option.map_eq_some_iff.mp h
  exact ⟨p, mem_sortedPlaces.mp (List.mem_of_getElem? hp), hp, rfl⟩

/-- An entry of the table stands somewhere in the chain. -/
theorem exists_ranked {p : Entry × Nat} (h : p ∈ placed entries) : ∃ i : Nat,
    (sortedPlaces NotSlower (entries.filter Entry.counted))[i]? = some p ∧
      (ranked entries)[i]? = some p.1 := by
  obtain ⟨i, hi⟩ := List.mem_iff_getElem?.mp (mem_sortedPlaces (r := NotSlower).mpr h)
  refine ⟨i, hi, ?_⟩
  rw [ranked, ← map_fst_sortedPlaces, List.getElem?_map, hi]
  rfl

/-- What is read off a layered ranking is so. -/
theorem separated_of_readsFaster (hlayered : Layered entries) (h : ReadsFaster entries x y) :
    separated x.s y.s = some .a := by
  obtain ⟨i, j, hi, hj, ⟨k, hik, hkj, hk⟩ | halso⟩ := h
  · obtain ⟨a, b, ha, hb, hsep⟩ := fasterAt_iff.mp (marks_eq_lt_iff.mp hk)
    obtain ⟨u, hu, hui, rfl⟩ := exists_placed hi
    obtain ⟨v, hv, hvj, rfl⟩ := exists_placed hj
    obtain ⟨p, hp, hpk, rfl⟩ := exists_placed ha
    obtain ⟨q, hq, hqk, rfl⟩ := exists_placed hb
    refine hlayered.split p hp q hq hsep (fun z hz => ?_) u hu v hv
      ((byPlace_sortedPlaces_iff hui hpk).mpr hik) ((byPlace_sortedPlaces_iff hqk hvj).mpr hkj)
    obtain ⟨m, hm, -⟩ := exists_ranked hz
    rcases Nat.lt_or_ge k m with hlt | hle
    · exact .inr ((byPlace_sortedPlaces_iff hqk hm).mpr hlt)
    · exact .inl ((byPlace_sortedPlaces_iff hm hpk).mpr hle)
  · obtain ⟨x', y', hx', hy', hsep⟩ := fasterAt_iff.mp (mem_alsoPairs.mp halso).2.2
    rw [hi] at hx'
    rw [hj] at hy'
    cases hx'
    cases hy'
    exact hsep

theorem mem_ranked_of_readsFaster (h : ReadsFaster entries x y) :
    x ∈ ranked entries ∧ y ∈ ranked entries := by
  obtain ⟨i, j, hi, hj, -⟩ := h
  exact ⟨List.mem_iff_getElem?.mpr ⟨i, hi⟩, List.mem_iff_getElem?.mpr ⟨j, hj⟩⟩

/-- Two systems with none between them are neighbours in the chain. -/
theorem place_next {p q : Entry × Nat}
    (hp : (sortedPlaces NotSlower (entries.filter Entry.counted))[i]? = some p)
    (hq : (sortedPlaces NotSlower (entries.filter Entry.counted))[j]? = some q) (hij : i < j)
    (hnext : ∀ z ∈ placed entries, ByPlace NotSlower z p ∨ ByPlace NotSlower q z) : j = i + 1 := by
  have hj := (List.getElem?_eq_some_iff.mp hq).1
  have hin : i + 1 < (sortedPlaces NotSlower (entries.filter Entry.counted)).length := by omega
  have hz := List.getElem?_eq_getElem hin
  rcases hnext _ (mem_sortedPlaces.mp (List.getElem_mem hin)) with h | h
  · have := (byPlace_sortedPlaces_iff hz hp).mp h
    omega
  · have := (byPlace_sortedPlaces_iff hq hz).mp h
    omega

theorem layered_of_reading (hordered : ∀ e ∈ entries, e.counted = true → e.s.Ordered)
    (hreading : SaysWhatIsSeparated entries) : Layered entries where
  left_out x hx hleft y hy := by
    have hnot : x ∉ ranked entries := fun hmem =>
      Bool.false_ne_true (hleft.symm.trans (mem_ranked.mp hmem).2)
    rw [separated_eq_none]
    constructor
    · exact fun hxy => hnot (mem_ranked_of_readsFaster ((hreading x hx y hy).mpr hxy)).1
    · exact fun hyx => hnot (mem_ranked_of_readsFaster ((hreading y hy x hx).mpr hyx)).2
  split p hp q hq hsep hnext u hu v hv hup hqv := by
    obtain ⟨k, hpk, hrp⟩ := exists_ranked hp
    obtain ⟨l, hql, hrq⟩ := exists_ranked hq
    obtain ⟨i, hui, hru⟩ := exists_ranked hu
    obtain ⟨j, hvj, hrv⟩ := exists_ranked hv
    have hmem {e : Entry} {n : Nat} (h : (ranked entries)[n]? = some e) :
        e ∈ entries ∧ e.counted = true := mem_ranked.mp (List.mem_of_getElem? h)
    have hkl : k < l := place_lt hrp hrq <| p50_lt_of_separated (hordered _ (hmem hrp).1 (hmem hrp).2)
      (hordered _ (hmem hrq).1 (hmem hrq).2) hsep
    have hik := (byPlace_sortedPlaces_iff hui hpk).mp hup
    have hlj := (byPlace_sortedPlaces_iff hql hvj).mp hqv
    rw [place_next hpk hql hkl hnext] at hrq
    refine (hreading _ (hmem hru).1 _ (hmem hrv).1).mp ⟨i, j, hru, hrv, .inl ⟨k, hik, by omega, ?_⟩⟩
    exact marks_eq_lt_iff.mpr (fasterAt_iff.mpr ⟨p.1, q.1, hrp, hrq, hsep⟩)

/-- The ranking says what is separated exactly when its layers do not overlap. -/
theorem saysWhatIsSeparated_iff (hordered : ∀ e ∈ entries, e.counted = true → e.s.Ordered) :
    SaysWhatIsSeparated entries ↔ Layered entries := by
  refine ⟨layered_of_reading hordered, fun hlayered x hx y hy => ?_⟩
  refine ⟨separated_of_readsFaster hlayered, fun hsep => ?_⟩
  have hcounted : x.counted = true ∧ y.counted = true := by
    constructor
    · by_contra hleft
      have := separated_eq_none.mp (hlayered.left_out x hx (Bool.not_eq_true _ ▸ hleft) y hy)
      exact this.1 hsep
    · by_contra hleft
      have := separated_eq_none.mp (hlayered.left_out y hy (Bool.not_eq_true _ ▸ hleft) x hx)
      exact this.2 hsep
  exact readsFaster_of_separated hordered (mem_ranked.mpr ⟨hx, hcounted.1⟩)
    (mem_ranked.mpr ⟨hy, hcounted.2⟩) hsep

end Lemmas

/-! ## A wide spread before a narrow one -/

/-- `a` reaches over both of the others; only its neighbour is told so. -/
def wideFirst : List Entry :=
  [⟨"a", ⟨.fin 1, .fin 2, .fin 100, 3⟩⟩, ⟨"b", ⟨.fin 3, .fin 4, .fin 5, 3⟩⟩,
    ⟨"c", ⟨.fin 6, .fin 7, .fin 8, 3⟩⟩]

/-- Here `a` is read as faster than `c`, and their spreads overlap. -/
theorem wideFirst_misread :
    (∀ e ∈ wideFirst, e.s.Ordered) ∧ rankBySpread wideFirst = "a ~ b < c" ∧
      ¬ SaysWhatIsSeparated wideFirst := by
  have hordered : ∀ e ∈ wideFirst, e.s.Ordered := by decide
  refine ⟨hordered, by decide, fun hreading => ?_⟩
  have hlayered := layered_of_reading (fun e he _ => hordered e he) hreading
  have hsplit := hlayered.split (⟨"b", ⟨.fin 3, .fin 4, .fin 5, 3⟩⟩, 1) (by decide)
    (⟨"c", ⟨.fin 6, .fin 7, .fin 8, 3⟩⟩, 2) (by decide) (by decide) (by decide)
    (⟨"a", ⟨.fin 1, .fin 2, .fin 100, 3⟩⟩, 0) (by decide) (⟨"c", ⟨.fin 6, .fin 7, .fin 8, 3⟩⟩, 2)
    (by decide) (by decide) (by decide)
  exact absurd hsplit (by decide)

/-- Three backends of which the outer two are apart. -/
def overlapping : List Entry :=
  [⟨"pooler", ⟨.fin 244, .fin 250, .fin 259, 5⟩⟩, ⟨"turso", ⟨.fin 250, .fin 270, .fin 300, 5⟩⟩,
    ⟨"d1", ⟨.fin 279, .fin 300, .fin 332, 5⟩⟩]

example : rankBySpread overlapping = "pooler ~ turso ~ d1 (also pooler < d1)" := by decide

theorem saysWhatIsSeparated_overlapping :
    (∀ e ∈ overlapping, e.counted = true → e.s.Ordered) ∧
      (SaysWhatIsSeparated overlapping ↔ Layered overlapping) :=
  ⟨by decide, saysWhatIsSeparated_iff (by decide)⟩

end SupabaseLab.SqliteEdge
