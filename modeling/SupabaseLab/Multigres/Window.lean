/-
  Multigres/Window.lean --- the failover window that `analyse` reads off a log.

  Source: `Analysis.stallMs` and `Analysis.recoveredMs` of
  experiments/multigres/lib/load.ts, and their docs.

  The stall is looked for between two acknowledgements, so the stretch before the first
  one is not seen.  The recovery is looked for by the times at which statements were
  acknowledged; its doc speaks of the times at which they were started, and a statement
  that was out when the last error ended is told apart by that alone.
-/
import SupabaseLab.Multigres.Load

set_option autoImplicit false

namespace SupabaseLab.Multigres

open Library

/-! ## The stall -/

/-- A statement was acknowledged at this time. -/
def AckAt (events : List WriteEvent) (t : Int) : Prop := ∃ e ∈ events, e.ok = true ∧ e.t1 = t

/-- The earliest time of the log. -/
def logStart (events : List WriteEvent) : Int := (events.map fun e => min e.t0 e.t1).min?.getD 0

/-- A stretch of the log in which nothing was acknowledged. -/
structure AckFree (events : List WriteEvent) (a b : Int) : Prop where
  start : logStart events ≤ a
  le : a ≤ b
  clear : ∀ t, AckAt events t → t ≤ a ∨ b ≤ t

/-- The stall is the longest stretch without an acknowledgement that an acknowledgement after
the fault ends, and there is none when no acknowledgement comes after the fault. -/
structure LongestStall (events : List WriteEvent) (tFault : Int) (stallMs : Option Int) : Prop where
  null : stallMs = none ↔ ∀ t, AckAt events t → t ≤ tFault
  longest : ∀ ms, stallMs = some ms →
    IsGreatest {d | ∃ a b, AckFree events a b ∧ AckAt events b ∧ tFault < b ∧ b - a = d} ms

/-- Two acknowledgements with none in between. -/
structure Successive (events : List WriteEvent) (e e' : WriteEvent) : Prop where
  left : e ∈ events ∧ e.ok = true
  right : e' ∈ events ∧ e'.ok = true
  ne : e ≠ e'
  le : e.t1 ≤ e'.t1
  clear : ∀ t, AckAt events t → t ≤ e.t1 ∨ e'.t1 ≤ t

/-- No acknowledgement comes after the fault, or one comes before it, or two successive ones
are as far apart as the first one is from the start of the log. -/
def StallSeen (events : List WriteEvent) (tFault : Int) : Prop :=
  (∀ t, AckAt events t → t ≤ tFault) ∨ (∃ t, AckAt events t ∧ t ≤ tFault) ∨
    ∃ first e e', AckAt events first ∧ Successive events e e' ∧
      first - logStart events ≤ e'.t1 - e.t1

section Stall

variable {events : List WriteEvent} {tFault t a b : Int}

theorem mem_ackTimes : t ∈ ackTimes events ↔ AckAt events t := by
  rw [ackTimes, (List.mergeSort_perm _ _).mem_iff, List.mem_map]
  constructor
  · rintro ⟨e, he, rfl⟩
    obtain ⟨hmem, hok⟩ := List.mem_filter.mp he
    exact ⟨e, hmem, hok, rfl⟩
  · rintro ⟨e, hmem, hok, rfl⟩
    exact ⟨e, List.mem_filter.mpr ⟨hmem, hok⟩, rfl⟩

theorem ackTimes_sorted : (ackTimes events).Pairwise (· ≤ ·) := by
  refine List.Pairwise.imp of_decide_eq_true (List.pairwise_mergeSort ?_ ?_ _)
  · intro s t u hst htu
    exact decide_eq_true (le_trans (of_decide_eq_true hst) (of_decide_eq_true htu))
  · intro s t
    rw [Bool.or_eq_true, decide_eq_true_eq, decide_eq_true_eq]
    exact le_total s t

theorem logStart_le (h : AckAt events t) : logStart events ≤ t := by
  obtain ⟨e, he, -, rfl⟩ := h
  have hmem : min e.t0 e.t1 ∈ events.map fun e => min e.t0 e.t1 := List.mem_map_of_mem he
  obtain ⟨m, hm⟩ : ∃ m, (events.map fun e => min e.t0 e.t1).min? = some m := by
    cases hmin : (events.map fun e => min e.t0 e.t1).min? with
    | none =>
      rw [List.min?_eq_none_iff.mp hmin] at hmem
      exact absurd hmem List.not_mem_nil
    | some m => exact ⟨m, rfl⟩
  rw [logStart, hm, Option.getD_some]
  exact le_trans ((List.min?_eq_some_iff.mp hm).2 _ hmem) (min_le_right _ _)

theorem length_ackTimes : (ackTimes events).length = (ackedOf events).length := by
  rw [ackTimes, List.length_mergeSort, List.length_map]

/-- A gap between the times of two acknowledgements is free of them. -/
theorem AckFree.of_gap {g : Int × Int} (hg : g ∈ gaps (ackTimes events)) :
    AckFree events g.1 g.2 := by
  obtain ⟨hleft, -, hle, hclear⟩ := gapIn_of_mem ackTimes_sorted hg
  exact ⟨logStart_le (mem_ackTimes.mp hleft), hle, fun t ht => hclear t (mem_ackTimes.mpr ht)⟩

/-- A free stretch that does not begin before the first acknowledgement lies in a gap. -/
theorem exists_gap_over {first : Int} (hfree : AckFree events a b) (hb : AckAt events b)
    (hfirst : AckAt events first) (hlt : first < b) :
    ∃ g ∈ gaps (ackTimes events), g.2 = b ∧ b - a ≤ g.2 - g.1 := by
  obtain ⟨p, hp, hpb⟩ :=
    exists_gap_to ackTimes_sorted (mem_ackTimes.mpr hb) (mem_ackTimes.mpr hfirst) hlt
  have hgap := gapIn_of_mem ackTimes_sorted hp
  rcases hfree.clear p (mem_ackTimes.mp hgap.left) with hpa | hbp
  · exact ⟨(p, b), hp, rfl, by dsimp only; omega⟩
  · omega

/-- Two successive acknowledgements make a gap, or coincide, and then there is one. -/
theorem Successive.gap {e e' : WriteEvent} (h : Successive events e e') :
    ∃ g ∈ gaps (ackTimes events), e'.t1 - e.t1 ≤ g.2 - g.1 := by
  have hleft : AckAt events e.t1 := ⟨e, h.left.1, h.left.2, rfl⟩
  have hright : AckAt events e'.t1 := ⟨e', h.right.1, h.right.2, rfl⟩
  rcases h.le.lt_or_eq with hlt | heq
  · have hfree : AckFree events e.t1 e'.t1 := ⟨logStart_le hleft, h.le, h.clear⟩
    obtain ⟨g, hg, -, hle⟩ := exists_gap_over hfree hright hleft hlt
    exact ⟨g, hg, hle⟩
  · have hpair : ∀ l : List WriteEvent, e ∈ l → e' ∈ l → 2 ≤ l.length := by
      intro l he he'
      match l with
      | [] => exact absurd he List.not_mem_nil
      | [x] =>
        rw [List.mem_singleton] at he he'
        exact absurd (he.trans he'.symm) h.ne
      | _ :: _ :: l => exact Nat.le_add_left 2 l.length
    have htwo : 2 ≤ (ackTimes events).length := by
      rw [length_ackTimes]
      exact hpair _ (List.mem_filter.mpr h.left) (List.mem_filter.mpr h.right)
    obtain ⟨g, hg⟩ := List.exists_mem_of_ne_nil _ (gaps_ne_nil.mpr htwo)
    refine ⟨g, hg, ?_⟩
    have := (gapIn_of_mem ackTimes_sorted hg).le
    omega

/-- The scan finds the widest gap that ends after the fault. -/
theorem widestOf_stall (events : List WriteEvent) (tFault : Int) :
    WidestOf (fun b => decide (tFault < b)) (gaps (ackTimes events))
      (widest (fun b => decide (tFault < b)) (ackTimes events)) :=
  widestOf_gaps ackTimes_sorted

/-- Where each stretch lies in a gap, or is no wider than one, the scan finds the longest. -/
theorem longestStall_of_gaps
    (hgaps : ∀ a b, AckFree events a b → AckAt events b → tFault < b →
      ∃ g ∈ gaps (ackTimes events), tFault < g.2 ∧ b - a ≤ g.2 - g.1) :
    LongestStall events tFault (widest (fun b => decide (tFault < b)) (ackTimes events)) := by
  have hscan := widestOf_stall events tFault
  refine ⟨hscan.none.trans ⟨fun hnone t ht => ?_, fun hnone g hg => ?_⟩, fun ms hms => ?_⟩
  · by_contra hlate
    have hfree : AckFree events t t := ⟨logStart_le ht, le_rfl, fun s _ => le_total s t⟩
    obtain ⟨g, hg, hgl, -⟩ := hgaps t t hfree ht (not_le.mp hlate)
    exact absurd (decide_eq_true hgl) (by rw [hnone g hg]; decide)
  · have hright := (gapIn_of_mem ackTimes_sorted hg).right
    exact decide_eq_false (not_lt.mpr (hnone g.2 (mem_ackTimes.mp hright)))
  · obtain ⟨⟨g, hg, hlate, hd⟩, hupper⟩ := hscan.some ms hms
    refine ⟨⟨g.1, g.2, .of_gap hg, ?_, of_decide_eq_true hlate, hd⟩, ?_⟩
    · exact mem_ackTimes.mp (gapIn_of_mem ackTimes_sorted hg).right
    · rintro d ⟨a, b, hfree, hb, hlt, rfl⟩
      obtain ⟨g', hg', hlate', hle⟩ := hgaps a b hfree hb hlt
      exact le_trans hle (hupper ⟨g', hg', decide_eq_true hlate', rfl⟩)

theorem longestStall_of_seen (hseen : StallSeen events tFault) :
    LongestStall events tFault (widest (fun b => decide (tFault < b)) (ackTimes events)) := by
  refine longestStall_of_gaps fun a b hfree hb hlt => ?_
  rcases hseen with hnone | ⟨early, hearly, hle⟩ | ⟨first, e, e', hfirst, hpair, hwide⟩
  · exact absurd hlt (not_lt.mpr (hnone b hb))
  · obtain ⟨g, hg, rfl, hle⟩ := exists_gap_over hfree hb hearly (lt_of_le_of_lt hle hlt)
    exact ⟨g, hg, hlt, hle⟩
  · by_cases hearlier : ∃ s, AckAt events s ∧ s < b
    · obtain ⟨s, hs, hsb⟩ := hearlier
      obtain ⟨g, hg, rfl, hle⟩ := exists_gap_over hfree hb hs hsb
      exact ⟨g, hg, hlt, hle⟩
    · -- `b` is the first acknowledgement, so the stretch is no longer than the one before it
      obtain ⟨g, hg, hle⟩ := hpair.gap
      have hbg : b ≤ g.2 := by
        have hright := mem_ackTimes.mp (gapIn_of_mem ackTimes_sorted hg).right
        exact not_lt.mp fun h => hearlier ⟨g.2, hright, h⟩
      have hbfirst : b ≤ first := not_lt.mp fun h => hearlier ⟨first, hfirst, h⟩
      have hstart := hfree.start
      exact ⟨g, hg, lt_of_lt_of_le hlt hbg, by omega⟩

theorem exists_successive_of_lt {g : Int × Int} (hg : g ∈ gaps (ackTimes events)) (hlt : g.1 < g.2) :
    ∃ e e', Successive events e e' ∧ e'.t1 - e.t1 = g.2 - g.1 := by
  obtain ⟨hleft, hright, hle, hclear⟩ := gapIn_of_mem ackTimes_sorted hg
  obtain ⟨e, he, hok, hte⟩ := mem_ackTimes.mp hleft
  obtain ⟨e', he', hok', hte'⟩ := mem_ackTimes.mp hright
  refine ⟨e, e', ⟨⟨he, hok⟩, ⟨he', hok'⟩, ?_, by rw [hte, hte']; exact hle, fun t ht => ?_⟩, by rw [hte, hte']⟩
  · rintro rfl
    omega
  · rw [hte, hte']
    exact hclear t (mem_ackTimes.mpr ht)

/-- Every gap is no wider than the time between two successive acknowledgements. -/
theorem exists_successive (hevents : events.Nodup) {g : Int × Int}
    (hg : g ∈ gaps (ackTimes events)) :
    ∃ e e', Successive events e e' ∧ g.2 - g.1 ≤ e'.t1 - e.t1 := by
  rcases (gapIn_of_mem ackTimes_sorted hg).le.lt_or_eq with hlt | heq
  · obtain ⟨e, e', hpair, hwidth⟩ := exists_successive_of_lt hg hlt
    exact ⟨e, e', hpair, le_of_eq hwidth.symm⟩
  · -- two acknowledgements at one time, or further apart
    have htwo : 2 ≤ (ackedOf events).length := by
      rw [← length_ackTimes]
      exact gaps_ne_nil.mp (List.ne_nil_of_mem hg)
    have hnodup : (ackedOf events).Nodup := hevents.filter _
    have hmem : ∀ e ∈ ackedOf events, e ∈ events ∧ e.ok = true := fun e he => List.mem_filter.mp he
    obtain ⟨x, y, hx, hy, hne⟩ : ∃ x y, x ∈ ackedOf events ∧ y ∈ ackedOf events ∧ x ≠ y := by
      match ackedOf events, htwo, hnodup with
      | x :: y :: l, _, hnodup =>
        refine ⟨x, y, List.mem_cons_self, List.mem_cons_of_mem _ List.mem_cons_self, fun h => ?_⟩
        exact (List.nodup_cons.mp hnodup).1 (h ▸ List.mem_cons_self)
    have hwide : ∀ {x y : WriteEvent}, x ∈ ackedOf events → y ∈ ackedOf events → x.t1 < y.t1 →
        ∃ e e', Successive events e e' ∧ g.2 - g.1 ≤ e'.t1 - e.t1 := by
      intro x y hx hy hlt
      obtain ⟨a, ha, hay⟩ := exists_gap_to ackTimes_sorted
        (mem_ackTimes.mpr ⟨y, (hmem y hy).1, (hmem y hy).2, rfl⟩)
        (mem_ackTimes.mpr ⟨x, (hmem x hx).1, (hmem x hx).2, rfl⟩) hlt
      obtain ⟨e, e', hpair, hwidth⟩ := exists_successive_of_lt ha hay
      exact ⟨e, e', hpair, by dsimp only at hwidth; omega⟩
    rcases lt_trichotomy x.t1 y.t1 with hlt | hsame | hlt
    · exact hwide hx hy hlt
    · exact ⟨x, y, ⟨hmem x hx, hmem y hy, hne, le_of_eq hsame, fun t _ => hsame ▸ le_total t x.t1⟩,
        by omega⟩
    · exact hwide hy hx hlt

/-- Of acknowledged attempts of some kind there is one that was acknowledged first. -/
theorem exists_isLeast (p : WriteEvent → Prop) {e : WriteEvent} (he : e ∈ events)
    (hok : e.ok = true) (hp : p e) :
    ∃ t, IsLeast {t | ∃ e ∈ events, e.ok = true ∧ p e ∧ e.t1 = t} t := by
  classical
  have hmem : e ∈ events.filter fun e => e.ok = true ∧ p e :=
    List.mem_filter.mpr ⟨he, decide_eq_true ⟨hok, hp⟩⟩
  obtain ⟨x, hx, hleast⟩ := Finset.exists_min_image
    (events.filter fun e => e.ok = true ∧ p e).toFinset (fun e => e.t1)
    ⟨e, List.mem_toFinset.mpr hmem⟩
  have hx' := List.mem_filter.mp (List.mem_toFinset.mp hx)
  have hkind := of_decide_eq_true hx'.2
  refine ⟨x.t1, ⟨x, hx'.1, hkind.1, hkind.2, rfl⟩, ?_⟩
  rintro t ⟨y, hy, hyok, hyp, rfl⟩
  exact hleast y (List.mem_toFinset.mpr (List.mem_filter.mpr ⟨hy, decide_eq_true ⟨hyok, hyp⟩⟩))

/-- The first acknowledgement. -/
theorem exists_first (h : AckAt events t) :
    ∃ first, AckAt events first ∧ ∀ s, AckAt events s → first ≤ s := by
  obtain ⟨e, he, hok, -⟩ := h
  obtain ⟨first, ⟨x, hx, hxok, -, hfirst⟩, hleast⟩ := exists_isLeast (fun _ => True) he hok trivial
  refine ⟨first, ⟨x, hx, hxok, hfirst⟩, ?_⟩
  rintro s ⟨y, hy, hyok, rfl⟩
  exact hleast ⟨y, hy, hyok, trivial, rfl⟩

theorem stallSeen_of_longest (hevents : events.Nodup)
    (h : LongestStall events tFault
      (widest (fun b => decide (tFault < b)) (ackTimes events))) : StallSeen events tFault := by
  by_contra hnot
  obtain ⟨hsome, hrest⟩ := not_or.mp hnot
  obtain ⟨hnone, hnopair⟩ := not_or.mp hrest
  push Not at hsome hnone
  obtain ⟨t, ht, hlate⟩ := hsome
  obtain ⟨first, hfirst, hleast⟩ := exists_first ht
  obtain ⟨ms, hms⟩ : ∃ ms, widest (fun b => decide (tFault < b)) (ackTimes events) = some ms := by
    refine Option.ne_none_iff_exists'.mp fun hnull => ?_
    exact absurd (h.null.mp hnull t ht) (not_le.mpr hlate)
  -- the stretch before the first acknowledgement is no longer than the gap that was found
  have hbefore : first - logStart events ≤ ms :=
    (h.longest ms hms).2 ⟨logStart events, first, ⟨le_rfl, logStart_le hfirst, fun s hs =>
      .inr (hleast s hs)⟩, hfirst, hnone first hfirst, rfl⟩
  obtain ⟨⟨g, hg, -, hd⟩, -⟩ := (widestOf_stall events tFault).some ms hms
  obtain ⟨e, e', hpair, hwidth⟩ := exists_successive hevents hg
  exact hnopair ⟨first, e, e', hfirst, hpair, by omega⟩

end Stall

/-- What `analyse` says of the attempts and of the stall. -/
def Accounts (events : List WriteEvent) (rows : List (Nat × Nat)) (tFault : Int) (a : Analysis) :
    Prop :=
  Partitions events rows a ∧ LongestStall events tFault a.stallMs

/-- For every log with pairs of their own and every table found afterwards: the attempts are
accounted for, and the stall is the longest one, exactly when no acknowledgement comes
after the fault, or one comes before it, or the stretch before the first one is no
longer than one between two others. -/
theorem analyse_accounts_iff (rate : Nat → Int → Int) (events : List WriteEvent)
    (rows : List (Nat × Nat)) (tFault : Int) (hids : (events.map WriteEvent.id).Nodup) :
    Accounts events rows tFault (analyse rate events (readPresent rows) tFault) ↔
      StallSeen events tFault :=
  ⟨fun h => stallSeen_of_longest (.of_map _ hids) h.2, fun h =>
    ⟨analyse_partitions hids, longestStall_of_seen h⟩⟩

/-- A worker that goes on, and the same log for a worker that was stalled by the fault. -/
def steadyLog : List WriteEvent := [⟨0, 1, 0, 10, true, none⟩, ⟨0, 2, 10, 2010, true, none⟩]

def singleAckLog : List WriteEvent := [⟨0, 1, 0, 2000, true, none⟩]

theorem analyse_accounts_iff_steady :
    Accounts steadyLog [(0, 1), (0, 2)] 15
      (analyse (fun _ _ => 0) steadyLog (readPresent [(0, 1), (0, 2)]) 15) :=
  (analyse_accounts_iff (fun _ _ => 0) steadyLog [(0, 1), (0, 2)] 15 (by decide)).mpr
    (.inr (.inl ⟨10, ⟨_, List.mem_cons_self, rfl, rfl⟩, by decide⟩))

/-- The only acknowledgement comes two seconds after the fault, and no stall is reported. -/
theorem stall_not_seen :
    (analyse (fun _ _ => 0) singleAckLog (readPresent [(0, 1)]) 5).stallMs = none ∧
      ¬ Accounts singleAckLog [(0, 1)] 5
        (analyse (fun _ _ => 0) singleAckLog (readPresent [(0, 1)]) 5) := by
  have htimes : ackTimes singleAckLog = [2000] := List.mergeSort_singleton _
  have hcode : (analyse (fun _ _ => 0) singleAckLog (readPresent [(0, 1)]) 5).stallMs = none := by
    simp only [analyse, htimes]
    rfl
  refine ⟨hcode, fun h => ?_⟩
  have hnull := h.2.null.mp hcode 2000 ⟨_, List.mem_cons_self, rfl, rfl⟩
  omega

/-! ## The recovery -/

/-- The end of the last error that counts against the fault. -/
def LastErrorEnds (events : List WriteEvent) (tFault stop : Int) : Prop :=
  IsGreatest {t | ∃ e ∈ events, e.ok = false ∧ tFault ≤ e.t1 ∧ e.t1 = t} stop

/-- The recovery is measured to the first acknowledgement of a statement that was started
after the last error, and there is none when there is no such statement. -/
def RecoversAsDocumented (events : List WriteEvent) (tFault : Int) (recoveredMs : Option Int) :
    Prop :=
  ∀ ms, recoveredMs = some ms ↔ ∃ stop t, LastErrorEnds events tFault stop ∧
    IsLeast {t | ∃ e ∈ events, e.ok = true ∧ stop < e.t0 ∧ e.t1 = t} t ∧ t - tFault = ms

/-- No statement that was out when the last error ended is acknowledged before all statements
started after it; nor does one started after it end before it, by a clock set back. -/
def NoneOutlasts (events : List WriteEvent) (tFault : Int) : Prop :=
  ∀ stop, LastErrorEnds events tFault stop → ∀ e ∈ events, e.ok = true →
    (stop < e.t1 → ∃ e' ∈ events, e'.ok = true ∧ stop < e'.t0 ∧ e'.t1 ≤ e.t1) ∧
      (stop < e.t0 → stop < e.t1)

section Recovery

variable {events : List WriteEvent} {tFault stop t : Int}

theorem lastErrEnd_eq_some : lastErrEnd events tFault = some stop ↔
    LastErrorEnds events tFault stop := by
  have hset : {t | t ∈ (errAfter events tFault).map fun e => e.t1} =
      {t | ∃ e ∈ events, e.ok = false ∧ tFault ≤ e.t1 ∧ e.t1 = t} := by
    ext t
    simp only [errAfter, erroredOf, Set.mem_ofPred_eq, List.mem_map, List.mem_filter,
      Bool.not_eq_true', decide_eq_true_eq]
    constructor
    · rintro ⟨e, ⟨⟨he, hok⟩, hafter⟩, ht⟩
      exact ⟨e, he, hok, hafter, ht⟩
    · rintro ⟨e, he, hok, hafter, ht⟩
      exact ⟨e, ⟨⟨he, hok⟩, hafter⟩, ht⟩
  rw [lastErrEnd, List.max?_eq_some_iff, LastErrorEnds, ← hset]
  rfl

theorem firstAckAfterLastErr_eq_some : firstAckAfterLastErr events tFault = some t ↔
    ∃ stop, LastErrorEnds events tFault stop ∧
      IsLeast {t | ∃ e ∈ events, e.ok = true ∧ stop < e.t1 ∧ e.t1 = t} t := by
  have hset : ∀ stop : Int, {t | t ∈ ackTimes events ∧ decide (stop < t) = true} =
      {t | ∃ e ∈ events, e.ok = true ∧ stop < e.t1 ∧ e.t1 = t} := by
    intro stop
    ext t
    simp only [Set.mem_ofPred_eq, mem_ackTimes, AckAt, decide_eq_true_eq]
    constructor
    · rintro ⟨⟨e, he, hok, rfl⟩, hlt⟩
      exact ⟨e, he, hok, hlt, rfl⟩
    · rintro ⟨e, he, hok, hlt, rfl⟩
      exact ⟨⟨e, he, hok, rfl⟩, hlt⟩
  rw [firstAckAfterLastErr, Option.bind_eq_some_iff]
  simp only [lastErrEnd_eq_some, find?_isLeast ackTimes_sorted, hset]

end Recovery

/-- For every log and every fault time: the recovery is the one that is documented exactly
when no acknowledgement of a statement that was out when the last error ended comes
before those of the statements started after it. -/
theorem recovers_as_documented_iff (rate : Nat → Int → Int) (events : List WriteEvent)
    (present : List String) (tFault : Int) :
    RecoversAsDocumented events tFault (analyse rate events present tFault).recoveredMs ↔
      NoneOutlasts events tFault := by
  have hrecovered : ∀ ms, (analyse rate events present tFault).recoveredMs = some ms ↔
      ∃ stop t, LastErrorEnds events tFault stop ∧
        IsLeast {t | ∃ e ∈ events, e.ok = true ∧ stop < e.t1 ∧ e.t1 = t} t ∧ t - tFault = ms := by
    intro ms
    show (firstAckAfterLastErr events tFault).map (fun ack => ack - tFault) = some ms ↔ _
    rw [Option.map_eq_some_iff]
    simp only [firstAckAfterLastErr_eq_some]
    constructor
    · rintro ⟨t, ⟨stop, hstop, ht⟩, hms⟩
      exact ⟨stop, t, hstop, ht, hms⟩
    · rintro ⟨stop, t, hstop, ht, hms⟩
      exact ⟨t, ⟨stop, hstop, ht⟩, hms⟩
  constructor
  · intro h stop hstop e he hok
    refine ⟨fun hlate => ?_, fun hstarted => ?_⟩
    · obtain ⟨t, ht⟩ := exists_isLeast (fun e => stop < e.t1) he hok hlate
      obtain ⟨stop', t', hstop', ht', heq⟩ := (h _).mp ((hrecovered _).mpr ⟨stop, t, hstop, ht, rfl⟩)
      obtain rfl := hstop'.unique hstop
      obtain ⟨e', he', hok', hstarted, hte'⟩ := ht'.1
      have hle := ht.2 ⟨e, he, hok, hlate, rfl⟩
      exact ⟨e', he', hok', hstarted, by omega⟩
    · obtain ⟨t, ht⟩ := exists_isLeast (fun e => stop < e.t0) he hok hstarted
      obtain ⟨stop', t', hstop', ht', heq⟩ := (hrecovered _).mp ((h _).mpr ⟨stop, t, hstop, ht, rfl⟩)
      obtain rfl := hstop'.unique hstop
      obtain ⟨e', -, -, hlate, hte'⟩ := ht'.1
      have hle := ht.2 ⟨e, he, hok, hstarted, rfl⟩
      omega
  · intro h ms
    rw [hrecovered]
    refine exists_congr fun stop => exists_congr fun t => and_congr_right fun hstop =>
      and_congr_left fun _ => ?_
    constructor
    · rintro ⟨⟨e, he, hok, hlate, rfl⟩, hleast⟩
      obtain ⟨e', he', hok', hstarted, hle⟩ := (h stop hstop e he hok).1 hlate
      have hge := hleast ⟨e', he', hok', (h stop hstop e' he' hok').2 hstarted, rfl⟩
      refine ⟨⟨e', he', hok', hstarted, by omega⟩, ?_⟩
      rintro s ⟨f, hf, hfok, hfstarted, rfl⟩
      exact hleast ⟨f, hf, hfok, (h stop hstop f hf hfok).2 hfstarted, rfl⟩
    · rintro ⟨⟨e, he, hok, hstarted, rfl⟩, hleast⟩
      refine ⟨⟨e, he, hok, (h stop hstop e he hok).2 hstarted, rfl⟩, ?_⟩
      rintro s ⟨f, hf, hfok, hlate, rfl⟩
      obtain ⟨e', he', hok', hstarted', hle⟩ := (h stop hstop f hf hfok).1 hlate
      exact le_trans (hleast ⟨e', he', hok', hstarted', rfl⟩) hle

/-- An error, a statement that is out when it ends, and one that is started after it. -/
def spanningLog : List WriteEvent :=
  [⟨0, 1, 20, 120, false, some "boom"⟩, ⟨1, 1, 30, 150, true, none⟩, ⟨0, 2, 160, 170, true, none⟩]

/-- The recovery is measured to a statement that was started before the last error. -/
theorem recovery_not_as_documented :
    (analyse (fun _ _ => 0) spanningLog (readPresent [(1, 1), (0, 2)]) 15).recoveredMs = some 135 ∧
      ¬ RecoversAsDocumented spanningLog 15
        (analyse (fun _ _ => 0) spanningLog (readPresent [(1, 1), (0, 2)]) 15).recoveredMs := by
  have hcode : (analyse (fun _ _ => 0) spanningLog (readPresent [(1, 1), (0, 2)]) 15).recoveredMs =
      some 135 := by
    have htimes : ackTimes spanningLog = [150, 170] := List.mergeSort_of_pairwise (by decide)
    show (firstAckAfterLastErr spanningLog 15).map _ = some 135
    rw [firstAckAfterLastErr, htimes]
    rfl
  refine ⟨hcode, fun h => ?_⟩
  obtain ⟨stop, t, hstop, ⟨⟨e, he, hok, hstarted, rfl⟩, -⟩, ht⟩ := (h 135).mp hcode
  have hge : 120 ≤ stop := hstop.2 ⟨_, List.mem_cons_self, rfl, by decide, rfl⟩
  simp only [spanningLog, List.mem_cons, List.not_mem_nil, or_false] at he
  rcases he with rfl | rfl | rfl
  · cases hok
  · dsimp only at hstarted
    omega
  · dsimp only at ht
    omega

end SupabaseLab.Multigres
