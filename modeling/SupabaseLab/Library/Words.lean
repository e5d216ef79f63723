/-
  Library/Words.lean --- the words of an expression.

  What an expression takes at a place is a word of its language.  Without assertions
  that is all: wherever a word stands the expression matches it, whatever stands around.
  A word of an expression that ends in a repetition may be cut short once the bounded
  part before it is over.
-/
import SupabaseLab.Library.Matches

set_option autoImplicit false

namespace SupabaseLab.Library

open scoped Computability

variable {r s : Regex} {rs ss : List Regex} {p q : Place} {w : List Char} {k : CharClass} {n m : Nat}

/-! ## Languages -/

/-- The words that matches may take; an assertion takes nothing. -/
def Regex.words : Regex → Language Char
  | .empty => 1
  | .char k => {w | ∃ c, k c = true ∧ w = [c]}
  | .seq r s => r.words * s.words
  | .alt r s => r.words + s.words
  | .star r => r.words∗
  | .ahead _ _ => 1
  | .behind _ _ => 1
  | .boundary => 1

/-- Steps of more than nothing, one after the other, take a word of the repetition. -/
theorem over_of_mem_starEnds {step : Place → List Place} {L : Language Char}
    (hstep : ∀ p, ∀ q ∈ step p, ∃ w ∈ L, p.Over w q) (h : q ∈ starEnds step n p) :
    ∃ w ∈ L∗, p.Over w q := by
  induction n generalizing p with
  | zero =>
    rw [List.mem_singleton.mp h]
    exact ⟨[], Language.nil_mem_kstar L, .nil p⟩
  | succ n ih =>
    rcases List.mem_append.mp h with h | h
    · obtain ⟨m, hm, hq⟩ := List.mem_flatMap.mp h
      obtain ⟨u, hu, hover⟩ := hstep p m (List.mem_of_mem_filter hm)
      obtain ⟨v, hv, hover'⟩ := ih hq
      have hmem : u ++ v ∈ L * L∗ := Language.append_mem_mul hu hv
      exact ⟨u ++ v, (mul_kstar_le_kstar : L * L∗ ≤ L∗) hmem, hover.trans hover'⟩
    · rw [List.mem_singleton.mp h]
      exact ⟨[], Language.nil_mem_kstar L, .nil p⟩

/-- A match takes a word of the expression. -/
theorem exists_word (h : q ∈ r.ends p) : ∃ w ∈ r.words, p.Over w q := by
  have hnone : ∀ {q : Place}, q = p → ∃ w ∈ (1 : Language Char), p.Over w q := by
    rintro _ rfl
    exact ⟨[], Language.nil_mem_one, .nil _⟩
  induction r generalizing p q with
  | empty => exact hnone (mem_empty.mp h)
  | char k =>
    obtain ⟨c, hc, hover⟩ := mem_char.mp h
    exact ⟨[c], ⟨c, hc, rfl⟩, hover⟩
  | seq r s ihr ihs =>
    obtain ⟨m, hm, hq⟩ := mem_seq.mp h
    obtain ⟨u, hu, hover⟩ := ihr hm fun h => h ▸ ⟨[], Language.nil_mem_one, .nil _⟩
    obtain ⟨v, hv, hover'⟩ := ihs hq fun h => h ▸ ⟨[], Language.nil_mem_one, .nil _⟩
    exact ⟨u ++ v, Language.append_mem_mul hu hv, hover.trans hover'⟩
  | alt r s ihr ihs =>
    rcases mem_alt.mp h with h | h
    · obtain ⟨w, hw, hover⟩ := ihr h hnone
      exact ⟨w, .inl hw, hover⟩
    · obtain ⟨w, hw, hover⟩ := ihs h hnone
      exact ⟨w, .inr hw, hover⟩
  | star r ih =>
    exact over_of_mem_starEnds (fun p q hq => ih hq fun h => h ▸ ⟨[], Language.nil_mem_one, .nil _⟩) h
  | ahead wanted r _ => exact hnone (eq_of_mem_check h)
  | behind wanted classes => exact hnone (eq_of_mem_check h)
  | boundary => exact hnone (eq_of_mem_check h)

/-- The place behind a word. -/
def Place.past (p : Place) (w : List Char) : Place := ⟨w.reverse ++ p.before, p.after.drop w.length⟩

theorem Place.over_past (h : w <+: p.after) : p.Over w (p.past w) := by
  obtain ⟨t, ht⟩ := h
  refine ⟨?_, rfl⟩
  rw [Place.past, ← ht, List.drop_left]

theorem Place.Over.eq_past (h : p.Over w q) : q = p.past w := by
  obtain ⟨b, t⟩ := q
  rw [Place.past, h.1, List.drop_left]
  exact congrArg₂ Place.mk h.2 rfl

theorem Place.Over.stands (h : p.Over w q) : w <+: p.after := ⟨q.after, h.1.symm⟩

/-- The expression takes the word at the place. -/
def Regex.TakesAt (r : Regex) (p : Place) (w : List Char) : Prop := w <+: p.after ∧ p.past w ∈ r.ends p

theorem takesAt_of_over (h : q ∈ r.ends p) (hover : p.Over w q) : r.TakesAt p w :=
  ⟨hover.stands, hover.eq_past ▸ h⟩

theorem exists_takesAt (h : q ∈ r.ends p) : ∃ w, r.TakesAt p w ∧ q = p.past w := by
  obtain ⟨w, -, hover⟩ := exists_word h
  exact ⟨w, takesAt_of_over h hover, hover.eq_past⟩

theorem takesAt_seq : (Regex.seq r s).TakesAt p w ↔
    ∃ u v, w = u ++ v ∧ r.TakesAt p u ∧ s.TakesAt (p.past u) v := by
  constructor
  · rintro ⟨hstands, h⟩
    obtain ⟨m, hm, hq⟩ := mem_seq.mp h
    obtain ⟨u, hu, rfl⟩ := exists_takesAt hm
    obtain ⟨v, hv, heq⟩ := exists_takesAt hq
    have hover := (Place.over_past hu.1).trans (Place.over_past hv.1)
    rw [← heq] at hover
    exact ⟨u, v, (Place.over_past hstands).unique hover, hu, hv⟩
  · rintro ⟨u, v, rfl, hu, hv⟩
    have hover := (Place.over_past hu.1).trans (Place.over_past hv.1)
    exact takesAt_of_over (mem_seq.mpr ⟨_, hu.2, hv.2⟩) hover

theorem takesAt_seqs_append : (Regex.seqs (rs ++ ss)).TakesAt p w ↔
    ∃ u v, w = u ++ v ∧ (Regex.seqs rs).TakesAt p u ∧ (Regex.seqs ss).TakesAt (p.past u) v := by
  have hcons : ∀ {r : Regex} {rs : List Regex} {p : Place} {w : List Char},
      (Regex.seqs (r :: rs)).TakesAt p w ↔ (Regex.seq r (Regex.seqs rs)).TakesAt p w := fun {r rs p w} =>
    and_congr_right fun _ => mem_seqs_cons.trans mem_seq.symm
  induction rs generalizing p w with
  | nil =>
    constructor
    · exact fun h => ⟨[], w, rfl, ⟨List.nil_prefix, mem_empty.mpr rfl⟩, h⟩
    · rintro ⟨u, v, rfl, hu, hv⟩
      have hover := Place.over_past hu.1
      rw [mem_empty.mp hu.2] at hover hv
      rw [hover.unique (.nil p)]
      exact hv
  | cons r rs ih =>
    rw [List.cons_append, hcons, takesAt_seq]
    constructor
    · rintro ⟨u, v, rfl, hu, hv⟩
      obtain ⟨v, x, rfl, hv, hx⟩ := ih.mp hv
      refine ⟨u ++ v, x, (List.append_assoc ..).symm, hcons.mpr (takesAt_seq.mpr ⟨u, v, rfl, hu, hv⟩), ?_⟩
      have hover := (Place.over_past hu.1).trans (Place.over_past hv.1)
      rw [← hover.eq_past]
      exact hx
    · rintro ⟨u, x, rfl, hu, hx⟩
      obtain ⟨u, v, rfl, hu, hv⟩ := takesAt_seq.mp (hcons.mp hu)
      have hover := (Place.over_past hu.1).trans (Place.over_past hv.1)
      rw [← hover.eq_past] at hx
      exact ⟨u, v ++ x, List.append_assoc .., hu, ih.mpr ⟨v, x, rfl, hv, hx⟩⟩

/-! ## Expressions without assertions -/

instance Regex.decidablePlain : DecidablePred Regex.Plain
  | .empty | .char _ => .isTrue trivial
  | .seq r s | .alt r s =>
      have := Regex.decidablePlain r
      have := Regex.decidablePlain s
      inferInstanceAs (Decidable (r.Plain ∧ s.Plain))
  | .star r => Regex.decidablePlain r
  | .ahead _ _ | .behind _ _ | .boundary => .isFalse id

/-- A word that stands at a place is matched there. -/
theorem mem_ends_of_word (hr : r.Plain) (hw : w ∈ r.words) (hover : p.Over w q) : q ∈ r.ends p := by
  induction r generalizing p q w with
  | empty =>
    rw [(Language.mem_one w).mp hw] at hover
    exact mem_empty.mpr (Place.over_nil_iff.mp hover)
  | char k =>
    obtain ⟨c, hc, rfl⟩ := hw
    exact mem_char.mpr ⟨c, hc, hover⟩
  | seq r s ihr ihs =>
    obtain ⟨u, hu, v, hv, rfl⟩ := Language.mem_mul.mp hw
    have hfirst : p.Over u ⟨u.reverse ++ p.before, v ++ q.after⟩ := by
      refine ⟨?_, rfl⟩
      rw [hover.1, List.append_assoc]
    refine mem_seq.mpr ⟨_, ihr hr.1 hu hfirst, ihs hr.2 hv ⟨rfl, ?_⟩⟩
    rw [hover.2, List.reverse_append, List.append_assoc]
  | alt r s ihr ihs =>
    rcases hw with hw | hw
    · exact mem_alt.mpr (.inl (ihr hr.1 hw hover))
    · exact mem_alt.mpr (.inr (ihs hr.2 hw hover))
  | star r ih =>
    obtain ⟨ws, rfl, hws⟩ := Language.mem_kstar_iff_exists_nonempty.mp hw
    have hsteps : ∀ n (p : Place), p.after.length ≤ n → p.Over ws.flatten q →
        q ∈ starEnds r.ends n p := by
      clear hover hw
      induction ws with
      | nil =>
        intro n p _ hover
        rw [Place.over_nil_iff.mp hover]
        cases n with
        | zero => exact List.mem_singleton_self p
        | succ n => exact List.mem_append_right _ (List.mem_singleton_self p)
      | cons u us ihs =>
        intro n p hn hover
        obtain ⟨hu, hne⟩ := hws u List.mem_cons_self
        have hpos := List.length_pos_of_ne_nil hne
        rw [List.flatten_cons] at hover
        have hlen := congrArg List.length hover.1
        rw [List.length_append, List.length_append] at hlen
        cases n with
        | zero => omega
        | succ n =>
          have hfirst : p.Over u ⟨u.reverse ++ p.before, us.flatten ++ q.after⟩ := by
            refine ⟨?_, rfl⟩
            rw [hover.1, List.append_assoc]
          refine List.mem_append_left _ (List.mem_flatMap.mpr
            ⟨_, List.mem_filter.mpr ⟨ih hr hu hfirst, ?_⟩, ?_⟩)
          · rw [decide_eq_true_iff, List.length_append]
            omega
          · refine ihs (fun v hv => hws v (List.mem_cons_of_mem u hv)) n _ ?_ ⟨rfl, ?_⟩
            · rw [List.length_append]
              omega
            · rw [hover.2, List.reverse_append, List.append_assoc]
    exact hsteps _ p le_rfl hover
  | ahead => exact hr.elim
  | behind => exact hr.elim
  | boundary => exact hr.elim

/-- **Without assertions the words say what is matched.** -/
theorem takesAt_iff (hr : r.Plain) : r.TakesAt p w ↔ w ∈ r.words ∧ w <+: p.after := by
  constructor
  · rintro ⟨hstands, h⟩
    obtain ⟨u, hu, hover⟩ := exists_word h
    rw [(Place.over_past hstands).unique hover]
    exact ⟨hu, hover.stands⟩
  · rintro ⟨hw, hstands⟩
    exact ⟨hstands, mem_ends_of_word hr hw (Place.over_past hstands)⟩

/-! ## Lengths -/

/-- The length of the longest word, where there is one. -/
def Regex.most : Regex → Option Nat
  | .empty => some 0
  | .char _ => some 1
  | .seq r s => r.most.bind fun n => s.most.map fun m => n + m
  | .alt r s => r.most.bind fun n => s.most.map fun m => max n m
  | .star _ => none
  | .ahead _ _ => some 0
  | .behind _ _ => some 0
  | .boundary => some 0

theorem length_le_most (h : r.most = some n) (hw : w ∈ r.words) : w.length ≤ n := by
  have hnone : ∀ {w : List Char}, w ∈ (1 : Language Char) → w.length ≤ n := by
    intro w hw
    rw [(Language.mem_one w).mp hw]
    exact Nat.zero_le n
  induction r generalizing n w with
  | empty => exact hnone hw
  | char k =>
    obtain ⟨c, -, rfl⟩ := hw
    cases h
    exact le_rfl
  | seq r s ihr ihs =>
    obtain ⟨a, ha, h⟩ := Option.bind_eq_some_iff.mp h
    obtain ⟨b, hb, rfl⟩ := Option.map_eq_some_iff.mp h
    obtain ⟨u, hu, v, hv, rfl⟩ := Language.mem_mul.mp hw
    have hu := ihr ha hu fun h => (Language.mem_one _).mp h ▸ Nat.zero_le _
    have hv := ihs hb hv fun h => (Language.mem_one _).mp h ▸ Nat.zero_le _
    rw [List.length_append]
    exact Nat.add_le_add hu hv
  | alt r s ihr ihs =>
    obtain ⟨a, ha, h⟩ := Option.bind_eq_some_iff.mp h
    obtain ⟨b, hb, rfl⟩ := Option.map_eq_some_iff.mp h
    rcases hw with hw | hw
    · exact (ihr ha hw fun h => (Language.mem_one _).mp h ▸ Nat.zero_le _).trans (le_max_left a b)
    · exact (ihs hb hw fun h => (Language.mem_one _).mp h ▸ Nat.zero_le _).trans (le_max_right a b)
  | star => cases h
  | ahead => exact hnone hw
  | behind => exact hnone hw
  | boundary => exact hnone hw

/-- From `n` letters on a word may end anywhere, and what is cut off is of the class. -/
def Regex.CutsFrom (r : Regex) (k : CharClass) (n : Nat) : Prop :=
  ∀ w ∈ r.words, ∀ m, n ≤ m → m ≤ w.length → w.take m ∈ r.words ∧ ∀ c ∈ w.drop m, k c = true

theorem cutsFrom_of_most (h : r.most = some n) : r.CutsFrom k n := by
  intro w hw m hnm hm
  have hlen := length_le_most h hw
  rw [List.take_of_length_le (hlen.trans hnm), List.drop_of_length_le (hlen.trans hnm)]
  exact ⟨hw, List.forall_mem_nil _⟩

theorem cutsFrom_plus : (Regex.plus (.char k)).CutsFrom k 1 := by
  have hstar : ∀ {w : List Char}, w ∈ (Regex.star (.char k)).words ↔ ∀ c ∈ w, k c = true := by
    intro w
    constructor
    · intro hw
      obtain ⟨ws, rfl, hws⟩ := Language.mem_kstar.mp hw
      intro c hc
      obtain ⟨u, hu, hc⟩ := List.mem_flatten.mp hc
      obtain ⟨d, hd, rfl⟩ := hws u hu
      exact List.mem_singleton.mp hc ▸ hd
    · intro hw
      refine Language.mem_kstar.mpr ⟨w.map fun c => [c], ?_, fun u hu => ?_⟩
      · rw [← List.flatMap_def, List.flatMap_singleton']
      · obtain ⟨c, hc, rfl⟩ := List.mem_map.mp hu
        exact ⟨c, hw c hc, rfl⟩
  intro w hw m hm _
  obtain ⟨u, ⟨c, hc, rfl⟩, v, hv, rfl⟩ := Language.mem_mul.mp hw
  have hv := hstar.mp hv
  obtain ⟨m, rfl⟩ := Nat.exists_eq_add_of_le' hm
  refine ⟨Language.mem_mul.mpr ⟨[c], ⟨c, hc, rfl⟩, v.take m, hstar.mpr fun d hd => ?_, rfl⟩, fun d hd => ?_⟩
  · exact hv d (List.mem_of_mem_take hd)
  · exact hv d (List.mem_of_mem_drop hd)

/-- What comes before is bounded, and what comes after may be cut. -/
theorem cutsFrom_seq (hr : r.most = some m) (hs : s.CutsFrom k n) : (Regex.seq r s).CutsFrom k (m + n) := by
  intro w hw i hi hlen
  obtain ⟨u, hu, v, hv, rfl⟩ := Language.mem_mul.mp hw
  have hshort := length_le_most hr hu
  rw [List.length_append] at hlen
  obtain ⟨hmem, hrest⟩ := hs v hv (i - u.length) (by omega) (by omega)
  rw [List.take_append, List.drop_append, List.take_of_length_le (by omega),
    List.drop_of_length_le (by omega), List.nil_append]
  exact ⟨Language.mem_mul.mpr ⟨u, hu, _, hmem, rfl⟩, hrest⟩

/-- Bounded parts before one that may be cut. -/
theorem cutsFrom_seqs {ns : List Nat} (h : rs.map Regex.most = ns.map some) (hs : s.CutsFrom k n) :
    (Regex.seqs (rs ++ [s])).CutsFrom k (ns.sum + n) := by
  induction rs generalizing ns with
  | nil =>
    rw [List.map_eq_nil_iff.mp h.symm, List.sum_nil, Nat.zero_add]
    exact hs
  | cons r rs ih =>
    cases ns with
    | nil => cases h
    | cons m ns =>
      obtain ⟨hr, hrest⟩ := List.cons.inj h
      have hseq : Regex.seqs (r :: rs ++ [s]) = .seq r (.seqs (rs ++ [s])) := by
        cases rs <;> rfl
      rw [hseq, List.sum_cons, Nat.add_assoc]
      exact cutsFrom_seq hr (ih hrest)

/-! ## First letters -/

/-- The class of the first letter, where every word has one. -/
def Regex.leads : Regex → Option CharClass
  | .char k => some k
  | .seq r _ => r.leads
  | _ => none

theorem exists_cons_of_leads (h : r.leads = some k) (hw : w ∈ r.words) :
    ∃ c t, w = c :: t ∧ k c = true := by
  induction r generalizing w with
  | char k' =>
    cases h
    obtain ⟨c, hc, rfl⟩ := hw
    exact ⟨c, [], rfl, hc⟩
  | seq r s ihr _ =>
    obtain ⟨u, hu, v, -, rfl⟩ := Language.mem_mul.mp hw
    obtain ⟨c, t, rfl, hc⟩ := ihr h hu
    exact ⟨c, t ++ v, rfl, hc⟩
  | _ => cases h

/-! ## The boundary of a locale -/

/-- A character of a word stands on one side of the place only. -/
def wordEdge (k : CharClass) (p : Place) : Bool := p.before.head?.any k != p.after.head?.any k

/-- `\y` by what a locale takes for a character of a word. -/
def Regex.edge (k : CharClass) : Regex :=
  .alt (.seq (.behind true [k]) (.ahead false (.char k))) (.seq (.behind false [k]) (.ahead true (.char k)))

/-- The expression as a locale reads it. -/
def Regex.inLocale (k : CharClass) : Regex → Regex
  | .empty => .empty
  | .char class_ => .char class_
  | .seq r s => .seq (r.inLocale k) (s.inLocale k)
  | .alt r s => .alt (r.inLocale k) (s.inLocale k)
  | .star r => .star (r.inLocale k)
  | .ahead wanted r => .ahead wanted (r.inLocale k)
  | .behind wanted classes => .behind wanted classes
  | .boundary => .edge k

theorem ends_edge (k : CharClass) (p : Place) :
    (Regex.edge k).ends p = if wordEdge k p then [p] else [] := by
  obtain ⟨b, t⟩ := p
  have hahead : ∀ wanted, (Regex.ahead wanted (.char k)).ends ⟨b, t⟩ =
      if t.head?.any k = wanted then [⟨b, t⟩] else [] := by
    intro wanted
    cases t with
    | nil => cases wanted <;> rfl
    | cons c t =>
      rw [Regex.ends, Regex.ends]
      show (if (if k c then _ else _ : List Place).isEmpty = !wanted then _ else _) =
        if k c = wanted then _ else _
      cases k c <;> cases wanted <;> rfl
  have hbehind : ∀ wanted, (Regex.behind wanted [k]).ends ⟨b, t⟩ =
      if b.head?.any k = wanted then [⟨b, t⟩] else [] := by
    intro wanted
    cases b with
    | nil => rfl
    | cons c b =>
      rw [Regex.ends]
      show (if (k c && true) = wanted then _ else _) = if k c = wanted then _ else _
      rw [Bool.and_true]
  rw [Regex.edge, Regex.ends, Regex.ends, Regex.ends, hbehind, hbehind, wordEdge]
  cases b.head?.any k <;> cases hany : t.head?.any k <;> simp [hahead, hany]

theorem inLocale_of_plain (h : r.Plain) : r.inLocale k = r := by
  induction r with
  | seq r s ihr ihs => exact congrArg₂ Regex.seq (ihr h.1) (ihs h.2)
  | alt r s ihr ihs => exact congrArg₂ Regex.alt (ihr h.1) (ihs h.2)
  | star r ih => exact congrArg Regex.star (ih h)
  | ahead => exact h.elim
  | behind => exact h.elim
  | boundary => exact h.elim
  | _ => rfl

/-- The edge of a word takes nothing. -/
theorem takesAt_edge : (Regex.edge k).TakesAt p w ↔ w = [] ∧ wordEdge k p = true := by
  rw [Regex.TakesAt, ends_edge]
  constructor
  · rintro ⟨hstands, h⟩
    split at h
    · rename_i hedge
      have hover := Place.over_past hstands
      rw [List.mem_singleton.mp h] at hover
      exact ⟨hover.unique (.nil p), hedge⟩
    · cases h
  · rintro ⟨rfl, hedge⟩
    rw [if_pos hedge]
    exact ⟨List.nil_prefix, List.mem_singleton_self p⟩

theorem takesAt_edge_seq : (Regex.seq (.edge k) r).TakesAt p w ↔ wordEdge k p = true ∧ r.TakesAt p w := by
  rw [takesAt_seq]
  constructor
  · rintro ⟨u, v, rfl, hu, hv⟩
    obtain ⟨rfl, hedge⟩ := takesAt_edge.mp hu
    exact ⟨hedge, hv⟩
  · rintro ⟨hedge, hw⟩
    exact ⟨[], w, rfl, takesAt_edge.mpr ⟨rfl, hedge⟩, hw⟩

theorem takesAt_seqs_edge : (Regex.seqs (rs ++ [.edge k])).TakesAt p w ↔
    (Regex.seqs rs).TakesAt p w ∧ wordEdge k (p.past w) = true := by
  rw [takesAt_seqs_append]
  constructor
  · rintro ⟨u, v, rfl, hu, hv⟩
    obtain ⟨rfl, hedge⟩ := takesAt_edge.mp hv
    rw [List.append_nil]
    exact ⟨hu, hedge⟩
  · rintro ⟨hw, hedge⟩
    exact ⟨w, [], (List.append_nil w).symm, hw, takesAt_edge.mpr ⟨rfl, hedge⟩⟩

end SupabaseLab.Library
