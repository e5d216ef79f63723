/-
  Library/Separated.lean --- texts put together with separators between them.

  The cells of a record are written one after the other, with a fixed separator
  after each but the last, and no cell is quoted.  Two records are written alike
  exactly when their cells are the same or one is a recut of the other: in the
  first cell where they differ, one goes on with a text that begins as the
  separator after it does, and the cells behind make up for it.
-/
import Mathlib.Data.List.Basic

set_option autoImplicit false

namespace SupabaseLab.Library

variable {α : Type} {ss cs ds : List (List α)} {s c d : List α}

/-- A text that begins before the first delimiter is cut there in one way. -/
theorem append_cons_inj {x x' y y' : List α} {a : α} (hx : a ∉ x) (hx' : a ∉ x')
    (h : x ++ a :: y = x' ++ a :: y') : x = x' ∧ y = y' := by
  induction x generalizing x' with
  | nil =>
    cases x' with
    | nil => exact ⟨rfl, (List.cons.inj h).2⟩
    | cons b x' => exact absurd ((List.cons.inj h).1 ▸ List.mem_cons_self) hx'
  | cons b x ih =>
    cases x' with
    | nil => exact absurd ((List.cons.inj h).1.symm ▸ List.mem_cons_self) hx
    | cons c x' =>
      obtain ⟨rfl, htail⟩ := List.cons.inj h
      obtain ⟨rfl, rfl⟩ := ih (fun hmem => hx (List.mem_cons_of_mem _ hmem))
        (fun hmem => hx' (List.mem_cons_of_mem _ hmem)) htail
      exact ⟨rfl, rfl⟩

/-- The cells, with the separators between them. -/
def joinWith : List (List α) → List (List α) → List α
  | _, [] => []
  | [], c :: _ => c
  | s :: ss, c :: cs => c ++ (s ++ joinWith ss cs)

/-- The cell `d` goes on after `c`, with text that stands in the other record behind it. -/
def Straddles (s : List α) (ss : List (List α)) (c : List α) (cs : List (List α)) (d : List α)
    (ds : List (List α)) : Prop :=
  c <+: d ∧ c ≠ d ∧ s ++ joinWith ss cs = d.drop c.length ++ (s ++ joinWith ss ds)

/-- The same cells up to one that goes on in one of the two records, over the separator
after it. -/
def Recut : List (List α) → List (List α) → List (List α) → Prop
  | s :: ss, c :: cs, d :: ds =>
    (c = d ∧ Recut ss cs ds) ∨ Straddles s ss c cs d ds ∨ Straddles s ss d ds c cs
  | _, _, _ => False

instance [DecidableEq α] : Decidable (Straddles s ss c cs d ds) :=
  inferInstanceAs (Decidable (_ ∧ _ ∧ _))

instance Recut.decidable [DecidableEq α] : (ss cs ds : List (List α)) → Decidable (Recut ss cs ds)
  | [], _, _ => .isFalse fun h => h
  | _ :: _, [], _ => .isFalse fun h => h
  | _ :: _, _ :: _, [] => .isFalse fun h => h
  | _ :: ss, c :: cs, d :: ds =>
    haveI := Recut.decidable ss cs ds
    inferInstanceAs (Decidable ((c = d ∧ Recut ss cs ds) ∨ _ ∨ _))

theorem Straddles.join_eq (h : Straddles s ss c cs d ds) :
    c ++ (s ++ joinWith ss cs) = d ++ (s ++ joinWith ss ds) := by
  obtain ⟨⟨e, rfl⟩, _, heq⟩ := h
  rw [List.drop_left] at heq
  rw [heq, List.append_assoc]

/-- Two cuts of one text are the same, or the longer first cell goes on over the shorter. -/
theorem straddles_of_join_eq (h : c ++ (s ++ joinWith ss cs) = d ++ (s ++ joinWith ss ds))
    (hne : c ≠ d) : Straddles s ss c cs d ds ∨ Straddles s ss d ds c cs := by
  rcases List.append_eq_append_iff.mp h with ⟨e, rfl, hrest⟩ | ⟨e, rfl, hrest⟩
  · refine .inl ⟨List.prefix_append c e, hne, ?_⟩
    rw [List.drop_left]
    exact hrest
  · refine .inr ⟨List.prefix_append d e, hne.symm, ?_⟩
    rw [List.drop_left]
    exact hrest

theorem joinWith_eq_iff (hc : cs.length = ss.length + 1) (hd : ds.length = ss.length + 1) :
    joinWith ss cs = joinWith ss ds ↔ cs = ds ∨ Recut ss cs ds := by
  induction ss generalizing cs ds with
  | nil =>
    obtain ⟨c, rfl⟩ := List.length_eq_one_iff.mp hc
    obtain ⟨d, rfl⟩ := List.length_eq_one_iff.mp hd
    constructor
    · intro h
      exact .inl (congrArg (fun c => [c]) h)
    · rintro (h | h)
      · rw [h]
      · exact h.elim
  | cons s ss ih =>
    cases cs with
    | nil => cases hc
    | cons c cs =>
      cases ds with
      | nil => cases hd
      | cons d ds =>
        have htail := ih (Nat.succ.inj hc) (Nat.succ.inj hd)
        constructor
        · intro h
          by_cases hcd : c = d
          · subst hcd
            have hrest := List.append_cancel_left (List.append_cancel_left h)
            rcases htail.mp hrest with rfl | hrecut
            · exact .inl rfl
            · exact .inr (.inl ⟨rfl, hrecut⟩)
          · exact .inr (.inr (straddles_of_join_eq h hcd))
        · rintro (h | ⟨rfl, hrecut⟩ | h | h)
          · rw [h]
          · simp only [joinWith, htail.mpr (.inr hrecut)]
          · exact h.join_eq
          · exact h.join_eq.symm

/-- In a cell that goes on over a separator the separator begins. -/
theorem Straddles.infix (h : Straddles s ss c cs d ds) : s <:+: d ++ s.dropLast := by
  obtain ⟨⟨e, rfl⟩, hne, heq⟩ := h
  rw [List.drop_left] at heq
  have he : 1 ≤ e.length := List.length_pos_iff.mpr fun hnil => hne (by rw [hnil, List.append_nil])
  have hprefix : s <+: e ++ s.dropLast := by
    have hrest : e ++ s.dropLast <+: s ++ joinWith ss cs := by
      rw [heq, List.prefix_append_right_inj]
      exact (List.dropLast_prefix s).trans (List.prefix_append _ _)
    refine List.prefix_of_prefix_length_le (List.prefix_append _ _) hrest ?_
    rw [List.length_append, List.length_dropLast]
    omega
  rw [List.append_assoc]
  exact hprefix.isInfix.trans (List.suffix_append c _).isInfix

/-- Cells in which the separator after them does not begin cannot be cut otherwise. -/
theorem not_recut (hc : ∀ p ∈ ss.zip cs, ¬ p.1 <:+: p.2 ++ p.1.dropLast)
    (hd : ∀ p ∈ ss.zip ds, ¬ p.1 <:+: p.2 ++ p.1.dropLast) : ¬ Recut ss cs ds := by
  induction ss generalizing cs ds with
  | nil => exact fun h => h
  | cons s ss ih =>
    cases cs with
    | nil => exact fun h => h
    | cons c cs =>
      cases ds with
      | nil => exact fun h => h
      | cons d ds =>
        rintro (⟨_, h⟩ | h | h)
        · exact ih (fun p hp => hc p (List.mem_cons_of_mem _ hp))
            (fun p hp => hd p (List.mem_cons_of_mem _ hp)) h
        · exact hd (s, d) List.mem_cons_self h.infix
        · exact hc (s, c) List.mem_cons_self h.infix

end SupabaseLab.Library
