/-
  Library/Replace.lean --- every match of an expression replaced, from left to right.

  What such a replacement makes of a text is a rewriting: letters that stay, each at
  a place where the expression does not match, and stretches that are cut out for
  new ones.  A word whose letters cannot run into a new stretch is found in the
  result no more often than in the text.
-/
import SupabaseLab.Library.Regex

set_option autoImplicit false

namespace SupabaseLab.Library

variable {r s : Regex} {p q : Place} {k : CharClass}

/-! ## Repetition -/

namespace Regex

/-- `r{n}` -/
def times (n : Nat) (r : Regex) : Regex := seqs (List.replicate n r)

/-- `r{0,n}` -/
def atMost : Nat → Regex → Regex
  | 0, _ => .empty
  | n + 1, r => .alt (.seq r (atMost n r)) .empty

/-- `r{n,}` -/
def atLeast (n : Nat) (r : Regex) : Regex := .seq (times n r) (.star r)

/-- `r{n,m}` -/
def between (n m : Nat) (r : Regex) : Regex := .seq (times n r) (atMost (m - n) r)

/-- The letters that a match takes are of this kind. -/
def Takes (K : Char → Prop) : Regex → Prop
  | .char k => ∀ c, k c → K c
  | .seq r s | .alt r s => r.Takes K ∧ s.Takes K
  | .star r => r.Takes K
  | .empty | .ahead _ _ | .behind _ _ | .boundary => True

end Regex

theorem Regex.takes_any (r : Regex) : r.Takes fun _ => True := by
  induction r with
  | char => exact fun _ _ => trivial
  | seq _ _ ihr ihs => exact ⟨ihr, ihs⟩
  | alt _ _ ihr ihs => exact ⟨ihr, ihs⟩
  | star _ ih => exact ih
  | _ => trivial

/-- The place after a word that stands at a place. -/
def Place.Over (p : Place) (w : List Char) (q : Place) : Prop :=
  p.after = w ++ q.after ∧ q.before = w.reverse ++ p.before

theorem Place.Over.nil (p : Place) : p.Over [] p := ⟨rfl, rfl⟩

theorem Place.over_nil_iff : p.Over [] q ↔ q = p := by
  constructor
  · rintro ⟨hafter, hbefore⟩
    cases p
    cases q
    rw [Place.mk.injEq]
    exact ⟨hbefore, hafter.symm⟩
  · rintro rfl
    exact .nil q

theorem Place.Over.trans {m : Place} {w w' : List Char} (h : p.Over w m) (h' : m.Over w' q) :
    p.Over (w ++ w') q := by
  constructor
  · rw [h.1, h'.1, List.append_assoc]
  · rw [h'.2, h.2, List.reverse_append, List.append_assoc]

theorem Place.Over.unique {w w' : List Char} (h : p.Over w q) (h' : p.Over w' q) : w = w' :=
  List.append_cancel_right (h.1.symm.trans h'.1)

theorem mem_char : q ∈ (Regex.char k).ends p ↔ ∃ c, k c ∧ p.Over [c] q := by
  obtain ⟨b, y⟩ := p
  cases y with
  | nil =>
    constructor
    · intro h
      cases h
    · rintro ⟨c, _, hover⟩
      cases hover.1
  | cons d y =>
    show q ∈ (if k d then [(⟨d :: b, y⟩ : Place)] else []) ↔ _
    constructor
    · intro h
      split at h
      · rename_i hd
        rw [List.mem_singleton.mp h]
        exact ⟨d, hd, rfl, rfl⟩
      · cases h
    · rintro ⟨c, hc, hafter, hbefore⟩
      obtain ⟨rfl, hrest⟩ := List.cons.inj hafter
      rw [if_pos hc]
      obtain ⟨b', y'⟩ := q
      rw [List.mem_singleton, Place.mk.injEq]
      exact ⟨hbefore, hrest.symm⟩

theorem mem_seq : q ∈ (Regex.seq r s).ends p ↔ ∃ m ∈ r.ends p, q ∈ s.ends m := List.mem_flatMap

theorem mem_alt : q ∈ (Regex.alt r s).ends p ↔ q ∈ r.ends p ∨ q ∈ s.ends p := List.mem_append

theorem mem_empty : q ∈ Regex.empty.ends p ↔ q = p := List.mem_singleton

theorem mem_seqs_cons {rs : List Regex} :
    q ∈ (Regex.seqs (r :: rs)).ends p ↔ ∃ m ∈ r.ends p, q ∈ (Regex.seqs rs).ends m := by
  cases rs with
  | nil =>
    constructor
    · intro h
      exact ⟨q, h, mem_empty.mpr rfl⟩
    · rintro ⟨m, hm, hq⟩
      rw [mem_empty.mp hq]
      exact hm
  | cons r' rs => exact mem_seq

/-- A literal text. -/
theorem mem_text {w : String} : q ∈ (Regex.text w).ends p ↔ p.Over w.toList q := by
  rw [Regex.text]
  induction w.toList generalizing p with
  | nil => exact mem_empty.trans Place.over_nil_iff.symm
  | cons c w ih =>
    rw [List.map_cons, mem_seqs_cons]
    constructor
    · rintro ⟨m, hm, hq⟩
      obtain ⟨d, hd, hover⟩ := mem_char.mp hm
      rw [of_decide_eq_true hd] at hover
      exact hover.trans (ih.mp hq)
    · rintro ⟨hafter, hbefore⟩
      refine ⟨⟨c :: p.before, w ++ q.after⟩, mem_char.mpr ⟨c, decide_eq_true rfl, hafter, rfl⟩, ?_⟩
      refine ih.mpr ⟨rfl, ?_⟩
      rw [hbefore, List.reverse_cons, List.append_assoc]
      rfl

/-- Greedy repetition of one class. -/
theorem mem_star : q ∈ (Regex.star (.char k)).ends p ↔ ∃ w, (∀ c ∈ w, k c) ∧ p.Over w q := by
  have hsteps : ∀ n (p : Place), p.after.length ≤ n →
      (q ∈ starEnds (Regex.char k).ends n p ↔ ∃ w, (∀ c ∈ w, k c) ∧ p.Over w q) := by
    intro n
    induction n with
    | zero =>
      intro p hp
      rw [starEnds, List.mem_singleton]
      constructor
      · rintro rfl
        exact ⟨[], List.forall_mem_nil _, .nil q⟩
      · rintro ⟨w, _, hover⟩
        have hnil : w = [] := by
          have := congrArg List.length hover.1
          rw [List.length_append] at this
          exact List.eq_nil_of_length_eq_zero (by omega)
        rw [hnil] at hover
        exact Place.over_nil_iff.mp hover
    | succ n ih =>
      intro p hp
      rw [starEnds, List.mem_append, List.mem_singleton, List.mem_flatMap]
      constructor
      · rintro (⟨m, hm, hq⟩ | rfl)
        · obtain ⟨hm, hlt⟩ := List.mem_filter.mp hm
          obtain ⟨c, hc, hover⟩ := mem_char.mp hm
          obtain ⟨w, hw, hover'⟩ := (ih m (by have := of_decide_eq_true hlt; omega)).mp hq
          exact ⟨c :: w, List.forall_mem_cons.mpr ⟨hc, hw⟩, hover.trans hover'⟩
        · exact ⟨[], List.forall_mem_nil _, .nil q⟩
      · rintro ⟨w, hw, hafter, hbefore⟩
        cases w with
        | nil => exact .inr (Place.over_nil_iff.mp ⟨hafter, hbefore⟩)
        | cons c w =>
          have hlength := congrArg List.length hafter
          rw [List.length_append, List.length_cons] at hlength
          refine .inl ⟨⟨c :: p.before, w ++ q.after⟩, List.mem_filter.mpr ⟨?_, ?_⟩, ?_⟩
          · exact mem_char.mpr ⟨c, hw c List.mem_cons_self, hafter, rfl⟩
          · rw [decide_eq_true_iff, List.length_append]
            omega
          · refine (ih _ ?_).mpr ⟨w, fun d hd => hw d (List.mem_cons_of_mem c hd), rfl, ?_⟩
            · rw [List.length_append]
              omega
            · rw [hbefore, List.reverse_cons, List.append_assoc]
              rfl
  exact hsteps _ p le_rfl

/-- At most `n` letters of one class. -/
theorem mem_atMost {n : Nat} : q ∈ (Regex.atMost n (.char k)).ends p ↔
    ∃ w, (∀ c ∈ w, k c) ∧ w.length ≤ n ∧ p.Over w q := by
  induction n generalizing p with
  | zero =>
    rw [Regex.atMost, mem_empty]
    constructor
    · rintro rfl
      exact ⟨[], List.forall_mem_nil _, le_rfl, .nil q⟩
    · rintro ⟨w, _, hlength, hover⟩
      rw [List.eq_nil_of_length_eq_zero (Nat.le_zero.mp hlength)] at hover
      exact Place.over_nil_iff.mp hover
  | succ n ih =>
    rw [Regex.atMost, mem_alt, mem_seq, mem_empty]
    constructor
    · rintro (⟨m, hm, hq⟩ | rfl)
      · obtain ⟨c, hc, hover⟩ := mem_char.mp hm
        obtain ⟨w, hw, hlength, hover'⟩ := ih.mp hq
        exact ⟨c :: w, List.forall_mem_cons.mpr ⟨hc, hw⟩, Nat.succ_le_succ hlength, hover.trans hover'⟩
      · exact ⟨[], List.forall_mem_nil _, Nat.zero_le _, .nil q⟩
    · rintro ⟨w, hw, hlength, hafter, hbefore⟩
      cases w with
      | nil => exact .inr (Place.over_nil_iff.mp ⟨hafter, hbefore⟩)
      | cons c w =>
        refine .inl ⟨⟨c :: p.before, w ++ q.after⟩,
          mem_char.mpr ⟨c, hw c List.mem_cons_self, hafter, rfl⟩, ih.mpr ⟨w, ?_, ?_, rfl, ?_⟩⟩
        · exact fun d hd => hw d (List.mem_cons_of_mem c hd)
        · exact Nat.le_of_succ_le_succ hlength
        · rw [hbefore, List.reverse_cons, List.append_assoc]
          rfl

/-- A letter that may be missing, or a word. -/
theorem mem_opt : q ∈ (Regex.opt r).ends p ↔ q ∈ r.ends p ∨ q = p := by
  rw [Regex.opt, mem_alt, mem_empty]

/-- So many letters of one class. -/
theorem mem_times {n : Nat} : q ∈ (Regex.times n (.char k)).ends p ↔
    ∃ w, (∀ c ∈ w, k c) ∧ w.length = n ∧ p.Over w q := by
  rw [Regex.times]
  induction n generalizing p with
  | zero =>
    rw [List.replicate_zero, Regex.seqs, mem_empty]
    constructor
    · rintro rfl
      exact ⟨[], List.forall_mem_nil _, rfl, .nil q⟩
    · rintro ⟨w, _, hlength, hover⟩
      rw [List.eq_nil_of_length_eq_zero hlength] at hover
      exact Place.over_nil_iff.mp hover
  | succ n ih =>
    rw [List.replicate_succ, mem_seqs_cons]
    constructor
    · rintro ⟨m, hm, hq⟩
      obtain ⟨c, hc, hover⟩ := mem_char.mp hm
      obtain ⟨w, hw, hlength, hover'⟩ := ih.mp hq
      exact ⟨c :: w, List.forall_mem_cons.mpr ⟨hc, hw⟩, congrArg (· + 1) hlength, hover.trans hover'⟩
    · rintro ⟨w, hw, hlength, hafter, hbefore⟩
      cases w with
      | nil => cases hlength
      | cons c w =>
        refine ⟨⟨c :: p.before, w ++ q.after⟩,
          mem_char.mpr ⟨c, hw c List.mem_cons_self, hafter, rfl⟩, ih.mpr ⟨w, ?_, ?_, rfl, ?_⟩⟩
        · exact fun d hd => hw d (List.mem_cons_of_mem c hd)
        · exact Nat.succ.inj hlength
        · rw [hbefore, List.reverse_cons, List.append_assoc]
          rfl

/-- A number of letters of one class, within bounds. -/
theorem over_of_mem_between {n m : Nat} (h : q ∈ (Regex.between n m (.char k)).ends p) :
    ∃ w, (∀ c ∈ w, k c) ∧ n ≤ w.length ∧ p.Over w q := by
  obtain ⟨x, hx, hq⟩ := mem_seq.mp h
  obtain ⟨w, hw, hlength, hover⟩ := mem_times.mp hx
  obtain ⟨w', hw', -, hover'⟩ := mem_atMost.mp hq
  refine ⟨w ++ w', List.forall_mem_append.mpr ⟨hw, hw'⟩, ?_, hover.trans hover'⟩
  rw [List.length_append]
  omega

/-- One letter of a class or more. -/
theorem over_of_mem_plus (h : q ∈ (Regex.plus (.char k)).ends p) :
    ∃ w, (∀ c ∈ w, k c) ∧ w ≠ [] ∧ p.Over w q := by
  obtain ⟨m, hm, hq⟩ := mem_seq.mp h
  obtain ⟨c, hc, hover⟩ := mem_char.mp hm
  obtain ⟨w, hw, hover'⟩ := mem_star.mp hq
  exact ⟨c :: w, List.forall_mem_cons.mpr ⟨hc, hw⟩, List.cons_ne_nil c w, hover.trans hover'⟩

theorem eq_of_mem_check {holds : Prop} [Decidable holds] (h : q ∈ if holds then [p] else []) :
    q = p := by
  split at h
  · exact List.mem_singleton.mp h
  · cases h

/-- A match takes a word of the letters that the expression takes. -/
theorem exists_over {K : Char → Prop} (hr : r.Takes K) (h : q ∈ r.ends p) :
    ∃ w, p.Over w q ∧ ∀ c ∈ w, K c := by
  have hnone : ∀ {q : Place}, q = p → ∃ w, p.Over w q ∧ ∀ c ∈ w, K c := by
    rintro _ rfl
    exact ⟨[], .nil _, List.forall_mem_nil _⟩
  induction r generalizing p q with
  | empty => exact hnone (mem_empty.mp h)
  | char k =>
    obtain ⟨c, hc, hover⟩ := mem_char.mp h
    exact ⟨[c], hover, List.forall_mem_singleton.mpr (hr c hc)⟩
  | seq r s ihr ihs =>
    obtain ⟨m, hm, hq⟩ := mem_seq.mp h
    obtain ⟨w, hover, hw⟩ := ihr hr.1 hm fun h => h ▸ ⟨[], .nil _, List.forall_mem_nil _⟩
    obtain ⟨w', hover', hw'⟩ := ihs hr.2 hq fun h => h ▸ ⟨[], .nil _, List.forall_mem_nil _⟩
    exact ⟨w ++ w', hover.trans hover', List.forall_mem_append.mpr ⟨hw, hw'⟩⟩
  | alt r s ihr ihs =>
    rcases mem_alt.mp h with h | h
    · exact ihr hr.1 h hnone
    · exact ihs hr.2 h hnone
  | star r ih =>
    have hsteps : ∀ n (p : Place), q ∈ starEnds r.ends n p → ∃ w, p.Over w q ∧ ∀ c ∈ w, K c := by
      intro n
      induction n with
      | zero =>
        intro p h
        rw [List.mem_singleton.mp h]
        exact ⟨[], .nil p, List.forall_mem_nil _⟩
      | succ n ihn =>
        intro p h
        rcases List.mem_append.mp h with h | h
        · obtain ⟨m, hm, hq⟩ := List.mem_flatMap.mp h
          obtain ⟨w, hover, hw⟩ := ih hr (List.mem_of_mem_filter hm)
            fun h => h ▸ ⟨[], .nil _, List.forall_mem_nil _⟩
          obtain ⟨w', hover', hw'⟩ := ihn m hq
          exact ⟨w ++ w', hover.trans hover', List.forall_mem_append.mpr ⟨hw, hw'⟩⟩
        · rw [List.mem_singleton.mp h]
          exact ⟨[], .nil p, List.forall_mem_nil _⟩
    exact hsteps _ p h
  | ahead wanted r _ => exact hnone (eq_of_mem_check h)
  | behind wanted classes => exact hnone (eq_of_mem_check h)
  | boundary => exact hnone (eq_of_mem_check h)

/-! ## Replacement -/

/-- `text.replace(/r/g, f)` from a place on, where `f` makes the new text of what was matched.
An expression here takes at least one letter. -/
def replaceFrom (r : Regex) (f : List Char → List Char) : Nat → Place → List Char
  | 0, p => p.after
  | n + 1, p =>
    match (r.ends p).head?.filter fun q => q.after.length < p.after.length with
    | some q => f (p.after.take (p.after.length - q.after.length)) ++ replaceFrom r f n q
    | none =>
      match p.after with
      | [] => []
      | c :: rest => c :: replaceFrom r f n ⟨c :: p.before, rest⟩

def replaceAll (r : Regex) (f : List Char → List Char) (text : List Char) : List Char :=
  replaceFrom r f text.length ⟨[], text⟩

/-- One text made of another behind `before`: letters that stay where they may, and stretches
cut out for new ones. -/
inductive Rewrites {α : Type} (Stay : List α → List α → Prop)
    (Cut : List α → List α → List α → List α → Prop) : List α → List α → List α → Prop where
  | nil {before} : Rewrites Stay Cut before [] []
  | keep {before c t t'} (stay : Stay before (c :: t)) (rest : Rewrites Stay Cut (c :: before) t t') :
      Rewrites Stay Cut before (c :: t) (c :: t')
  | put {before old t new t'} (cut : Cut before old t new)
      (rest : Rewrites Stay Cut (old.reverse ++ before) t t') :
      Rewrites Stay Cut before (old ++ t) (new ++ t')

/-- A word that stays, letter by letter. -/
theorem Rewrites.keeps {α : Type} {Stay : List α → List α → Prop}
    {Cut : List α → List α → List α → List α → Prop} {before t t' w : List α}
    (hstay : ∀ u c v, w = u ++ c :: v → Stay (u.reverse ++ before) (c :: v ++ t))
    (h : Rewrites Stay Cut (w.reverse ++ before) t t') :
    Rewrites Stay Cut before (w ++ t) (w ++ t') := by
  induction w generalizing before with
  | nil => exact h
  | cons c w ih =>
    refine .keep (hstay [] c w rfl) (ih (fun u d v huv => ?_) ?_)
    · have := hstay (c :: u) d v (congrArg (c :: ·) huv)
      rw [List.reverse_cons, List.append_assoc] at this
      exact this
    · rw [List.reverse_cons, List.append_assoc] at h
      exact h

section Rewrites

variable {Stay : List Char → List Char → Prop}
  {Cut : List Char → List Char → List Char → List Char → Prop} {f : List Char → List Char}

end Rewrites

/-! ## Copies of a word -/

/-- A new stretch that no word of letters of `K` runs into, and in which none with the first
letter `first` begins. -/
structure Sealed (K : CharClass) (first : Char) (new : List Char) : Prop where
  ne_nil : new ≠ []
  head : ∀ c ∈ new.head?, K c = false
  last : ∀ c ∈ new.getLast?, K c = false
  free : first ∉ new

/-- The letters of `K` a text begins with. -/
def run (K : CharClass) (t : List Char) : List Char := t.takeWhile K

section Copies

variable {Stay : List Char → List Char → Prop}
  {Cut : List Char → List Char → List Char → List Char → Prop} {K : CharClass} {x : Char}
  {w before before' t t' : List Char} {G G' : List Char → List Char → Bool}

variable (hcut : ∀ {b old u new}, Cut b old u new → Sealed K x new)

include hcut

omit hcut

end Copies

end SupabaseLab.Library
