/-
  Library/Champion.lean --- a running maximum whose best value is kept rounded.

  Each member is compared, unrounded, with what is kept of the best so far.  The member
  that is left at the end need not be a greatest one: a smaller one ahead of them all can
  be kept as if it were as great, and one behind them can beat what is kept of them.  No
  other member does harm.
-/
import Mathlib.Order.Lattice
import Mathlib.Data.List.Basic

set_option autoImplicit false

namespace SupabaseLab.Library

variable {α β : Type} [LinearOrder β] {value kept : α → β} {l pre post : List α} {b c m top : α}

/-- One round of the loop; `none` is the start. -/
def challenge (value kept : α → β) (best : Option α) (c : α) : Option α :=
  match best with
  | none => some c
  | some b => if kept b < value c then some c else some b

def champion (value kept : α → β) (l : List α) : Option α := l.foldl (challenge value kept) none

/-- A member that no member exceeds. -/
def GreatestIn (value : α → β) (l : List α) (c : α) : Prop := c ∈ l ∧ ∀ d ∈ l, value d ≤ value c

/-- A smaller member, where it does harm. -/
def Misleads (value kept : α → β) (l : List α) (top : α) : Prop :=
  ∃ pre c post, l = pre ++ c :: post ∧ value c < value top ∧
    ((∀ d ∈ pre, value d < value top) ∧ value top ≤ kept c ∨
      (∀ d ∈ post, value d < value top) ∧ kept top < value c)

/-- The kept value is a rounding of the value: it keeps the order, and no value lies
between a kept value and its own. -/
structure IsRounding (value kept : α → β) : Prop where
  mono : ∀ c d, value c ≤ value d → kept c ≤ kept d
  grid : ∀ c d, value c ≤ kept d → kept c ≤ kept d

theorem foldl_challenge_some (value kept : α → β) (b : α) (l : List α) :
    ∃ m, l.foldl (challenge value kept) (some b) = some m ∧ (m = b ∨ m ∈ l) := by
  induction l generalizing b with
  | nil => exact ⟨b, rfl, .inl rfl⟩
  | cons c l ih =>
    rw [List.foldl_cons, challenge]
    split
    · obtain ⟨m, hm, hmem⟩ := ih c
      exact ⟨m, hm, .inr (List.mem_cons.mpr hmem)⟩
    · obtain ⟨m, hm, hmem⟩ := ih b
      exact ⟨m, hm, hmem.imp_right (List.mem_cons_of_mem c)⟩

/-- Nobody takes the place of a member that nobody beats. -/
theorem foldl_challenge_held (h : ∀ d ∈ l, value d ≤ kept b) :
    l.foldl (challenge value kept) (some b) = some b := by
  induction l with
  | nil => rfl
  | cons c l ih =>
    rw [List.foldl_cons, challenge, if_neg (not_lt.mpr (h c List.mem_cons_self))]
    exact ih fun d hd => h d (List.mem_cons_of_mem c hd)

theorem champion_cases (value kept : α → β) (l : List α) :
    champion value kept l = none ∧ l = [] ∨
    ∃ m ∈ l, champion value kept l = some m := by
  cases l with
  | nil => exact .inl ⟨rfl, rfl⟩
  | cons c l =>
    obtain ⟨m, hm, hmem⟩ := foldl_challenge_some value kept c l
    exact .inr ⟨m, List.mem_cons.mpr hmem, hm⟩

theorem champion_append :
    champion value kept (pre ++ l) = l.foldl (challenge value kept) (champion value kept pre) :=
  List.foldl_append

/-- A member that beats everyone ahead of it and is not beaten later is the champion. -/
theorem champion_of_beats (hpre : ∀ d ∈ pre, kept d < value c) (hpost : ∀ d ∈ post, value d ≤ kept c) :
    champion value kept (pre ++ c :: post) = some c := by
  have htaken : challenge value kept (champion value kept pre) c = some c := by
    rcases champion_cases value kept pre with ⟨hnone, -⟩ | ⟨b, hb, hsome⟩
    · rw [hnone]
      rfl
    · rw [hsome, challenge, if_pos (hpre b hb)]
  rw [champion_append, List.foldl_cons, htaken]
  exact foldl_challenge_held hpost

/-- Of the members up to one that misleads, the best is kept as high as that one. -/
theorem champion_concat (pre : List α) (c : α) (hr : IsRounding value kept) :
    ∃ b ∈ pre ++ [c], champion value kept (pre ++ [c]) = some b ∧ kept c ≤ kept b := by
  rw [champion_append, List.foldl_cons, List.foldl_nil]
  rcases champion_cases value kept pre with ⟨hnone, -⟩ | ⟨b, hb, hsome⟩
  · rw [hnone]
    exact ⟨c, List.mem_append_right pre List.mem_cons_self, rfl, le_refl _⟩
  · rw [hsome, challenge]
    split
    · exact ⟨c, List.mem_append_right pre List.mem_cons_self, rfl, le_refl _⟩
    · rename_i hkeeps
      exact ⟨b, List.mem_append_left [c] hb, rfl, hr.grid c b (not_lt.mp hkeeps)⟩

theorem not_greatest_of_misled (hr : IsRounding value kept) (htop : GreatestIn value l top)
    (h : Misleads value kept l top) (hm : champion value kept l = some m) :
    value m < value top := by
  obtain ⟨pre, c, post, rfl, hc, ⟨hahead, hround⟩ | ⟨hbehind, hround⟩⟩ := h
  · -- from `c` on, what is kept of the best is as high as anyone
    obtain ⟨b, hb, hbest, hkept⟩ := champion_concat pre c hr
    have hheld : champion value kept (pre ++ c :: post) = some b := by
      rw [List.append_cons, champion_append, hbest]
      refine foldl_challenge_held fun d hd => ?_
      have hd : value d ≤ value top :=
        htop.2 d (List.mem_append_right pre (List.mem_cons_of_mem c hd))
      exact hd.trans (hround.trans hkept)
    rw [hheld] at hm
    cases hm
    rcases List.mem_append.mp hb with hb | hb
    · exact hahead m hb
    · exact List.mem_singleton.mp hb ▸ hc
  · -- `c` beats whoever is the best before it, and no greatest one is left after it
    have htaken : challenge value kept (champion value kept pre) c = some c := by
      rcases champion_cases value kept pre with ⟨hnone, -⟩ | ⟨b, hb, hsome⟩
      · rw [hnone]
        rfl
      · have hb : value b ≤ value top := htop.2 b (List.mem_append_left _ hb)
        rw [hsome, challenge, if_pos ((hr.mono b top hb).trans_lt hround)]
    rw [champion_append, List.foldl_cons, htaken] at hm
    obtain ⟨m', hm', hmem⟩ := foldl_challenge_some value kept c post
    rw [hm] at hm'
    cases hm'
    rcases hmem with rfl | hmem
    · exact hc
    · exact hbehind m hmem

/-- The first member with a property. -/
theorem exists_first {p : α → Prop} [DecidablePred p] (h : ∃ c ∈ l, p c) :
    ∃ pre c post, l = pre ++ c :: post ∧ p c ∧ ∀ d ∈ pre, ¬ p d := by
  obtain ⟨c, hc, hp⟩ := h
  cases hfind : l.find? (fun c => decide (p c)) with
  | none => exact absurd (decide_eq_true hp) (List.find?_eq_none.mp hfind c hc)
  | some first =>
    obtain ⟨hfirst, pre, post, rfl, hpre⟩ := List.find?_eq_some_iff_append.mp hfind
    exact ⟨pre, first, post, rfl, of_decide_eq_true hfirst, fun d hd => by simpa using hpre d hd⟩

/-- The last member with a property. -/
theorem exists_last {p : α → Prop} [DecidablePred p] (h : ∃ c ∈ l, p c) :
    ∃ pre c post, l = pre ++ c :: post ∧ p c ∧ ∀ d ∈ post, ¬ p d := by
  obtain ⟨c, hc, hp⟩ := h
  obtain ⟨post, c, pre, hl, hp, hlast⟩ := exists_first (l := l.reverse) ⟨c, List.mem_reverse.mpr hc, hp⟩
  refine ⟨pre.reverse, c, post.reverse, ?_, hp, fun d hd => hlast d (List.mem_reverse.mp hd)⟩
  rw [← List.reverse_reverse l, hl, List.reverse_append, List.reverse_cons, List.append_assoc]
  rfl

theorem greatest_of_not_misled (hr : IsRounding value kept) (htop : GreatestIn value l top)
    (h : ¬ Misleads value kept l top) (hm : champion value kept l = some m) :
    value m = value top := by
  have hle : ∀ d ∈ l, value d = value top ∨ value d < value top := fun d hd =>
    (htop.2 d hd).eq_or_lt
  have hexists : ∃ c ∈ l, value c = value top := ⟨top, htop.1, rfl⟩
  have hkept : ∀ {c}, value c = value top → kept c = kept top := fun {c} hc =>
    le_antisymm (hr.mono c top hc.le) (hr.mono top c hc.ge)
  rcases lt_or_ge (kept top) (value top) with hdown | hup
  · -- the greatest are kept too low: the last of them takes its place and holds it
    obtain ⟨pre, c, post, rfl, hc, hlast⟩ := exists_last hexists
    have hlater : ∀ d ∈ post, value d < value top := fun d hd =>
      (hle d (by simp [hd])).resolve_left (hlast d hd)
    have hbeats : champion value kept (pre ++ c :: post) = some c := by
      refine champion_of_beats (fun d hd => ?_) fun d hd => ?_
      · have hd : value d ≤ value top := htop.2 d (List.mem_append_left _ hd)
        exact ((hr.mono d top hd).trans_lt hdown).trans_eq hc.symm
      · by_contra hbeaten
        rw [not_le, hkept hc] at hbeaten
        obtain ⟨before, after, rfl⟩ := List.append_of_mem hd
        refine h ⟨pre ++ c :: before, d, after, by simp, hlater d hd, .inr ⟨?_, hbeaten⟩⟩
        exact fun x hx => hlater x (by simp [hx])
    rw [hbeats] at hm
    cases hm
    exact hc
  · -- the greatest are kept high enough: the first of them holds its place for good
    obtain ⟨pre, c, post, rfl, hc, hfirst⟩ := exists_first hexists
    have hearlier : ∀ d ∈ pre, value d < value top := fun d hd =>
      (hle d (List.mem_append_left _ hd)).resolve_left (hfirst d hd)
    have hbeats : champion value kept (pre ++ c :: post) = some c := by
      refine champion_of_beats (fun d hd => ?_) fun d hd => ?_
      · by_contra hblocked
        rw [not_lt, hc] at hblocked
        obtain ⟨before, after, rfl⟩ := List.append_of_mem hd
        refine h ⟨before, d, after ++ c :: post, by simp, hearlier d hd, .inl ⟨?_, hblocked⟩⟩
        exact fun x hx => hearlier x (List.mem_append_left _ hx)
      · have hd : value d ≤ value top := htop.2 d (by simp [hd])
        exact hd.trans (hup.trans_eq (hkept hc).symm)
    rw [hbeats] at hm
    cases hm
    exact hc

/-- **The champion is a greatest member exactly when no smaller one misleads.** -/
theorem champion_greatest_iff (hr : IsRounding value kept) (htop : GreatestIn value l top)
    (hm : champion value kept l = some m) : value m = value top ↔ ¬ Misleads value kept l top :=
  ⟨fun heq hmisled => absurd heq (not_greatest_of_misled hr htop hmisled hm).ne,
    fun h => greatest_of_not_misled hr htop h hm⟩

end SupabaseLab.Library
