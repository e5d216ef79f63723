/-
  Library/Framing.lean --- messages taken from the front of a growing buffer.

  A framing reads one message from the front of a buffer, or finds that there is
  not a whole one yet.  Bytes that arrive later must not change a message that
  is already whole.  Then cutting a stream into pieces makes no difference: what
  is taken from the pieces as they come in is the beginning of what is taken
  from the stream.
-/
import Mathlib

set_option autoImplicit false

namespace SupabaseLab.Library

variable {α β : Type}

/-! ## The first occurrence of a text -/

/-- `indexOf`: where `text` begins for the first time in a list. -/
def indexOf [DecidableEq β] (text : List β) : List β → Option Nat
  | [] => if text = [] then some 0 else none
  | x :: l => if text <+: x :: l then some 0 else (indexOf text l).map (· + 1)

section IndexOf

variable [DecidableEq β] {text l : List β} {i : Nat}

theorem indexOf_fits (h : indexOf text l = some i) : i + text.length ≤ l.length := by
  induction l generalizing i with
  | nil =>
    rw [indexOf] at h
    split at h
    · rename_i htext
      cases h
      rw [htext]
      exact le_refl 0
    · cases h
  | cons x l ih =>
    rw [indexOf] at h
    split at h
    · rename_i hprefix
      cases h
      rw [Nat.zero_add]
      exact hprefix.length_le
    · obtain ⟨j, hj, rfl⟩ := Option.map_eq_some_iff.mp h
      have hfits := ih hj
      rw [List.length_cons]
      omega

/-- What comes after does not move the first occurrence. -/
theorem indexOf_append (later : List β) (h : indexOf text l = some i) :
    indexOf text (l ++ later) = some i := by
  induction l generalizing i with
  | nil =>
    rw [indexOf] at h
    split at h
    · rename_i htext
      cases h
      rw [htext]
      cases later with
      | nil => rfl
      | cons y later =>
        rw [List.nil_append, indexOf, if_pos List.nil_prefix]
    · cases h
  | cons x l ih =>
    have hfits := indexOf_fits h
    rw [indexOf] at h
    rw [List.cons_append, indexOf]
    split at h
    · rename_i hprefix
      cases h
      have hlonger : text <+: x :: (l ++ later) := by
        rw [← List.cons_append]
        exact hprefix.trans (List.prefix_append _ _)
      rw [if_pos hlonger]
    · rename_i hprefix
      obtain ⟨j, hj, rfl⟩ := Option.map_eq_some_iff.mp h
      -- the text fits into what was there, so it does not begin here now either
      have hnot : ¬ text <+: x :: (l ++ later) := by
        intro hlonger
        apply hprefix
        rw [← List.cons_append] at hlonger
        exact List.prefix_of_prefix_length_le hlonger (List.prefix_append _ _) (by omega)
      rw [if_neg hnot, ih hj, Option.map_some]

end IndexOf

/-! ## Framings -/

/-- How one message is read from the front of a buffer, with the number of bytes
it takes. -/
structure Framing (β α : Type) where
  read : List β → Option (α × Nat)
  fits : ∀ {buf m n}, read buf = some (m, n) → n ≤ buf.length
  stable : ∀ {buf m n} (later : List β), read buf = some (m, n) → read (buf ++ later) = some (m, n)

/-- `ms` are read from `buf`, one after another, and `rest` is left. -/
inductive Framing.Reads (F : Framing β α) : List β → List α → List β → Prop
  | nil (buf : List β) : F.Reads buf [] buf
  | cons {buf : List β} {m : α} {n : Nat} {ms : List α} {rest : List β} :
      F.read buf = some (m, n) → F.Reads (buf.drop n) ms rest → F.Reads buf (m :: ms) rest

namespace Framing

variable {F : Framing β α} {buf rest rest' : List β} {ms ms' : List α} {m : α} {n : Nat}

/-- What arrives later is left, behind what was left before. -/
theorem Reads.append (later : List β) (h : F.Reads buf ms rest) :
    F.Reads (buf ++ later) ms (rest ++ later) := by
  induction h with
  | nil buf => exact .nil _
  | cons hread _ ih =>
    refine .cons (F.stable later hread) ?_
    rw [List.drop_append_of_le_length (F.fits hread)]
    exact ih

/-- One message more. -/
theorem Reads.concat (h : F.Reads buf ms rest) (hread : F.read rest = some (m, n)) :
    F.Reads buf (ms ++ [m]) (rest.drop n) := by
  induction h with
  | nil buf => exact .cons hread (.nil _)
  | cons hfirst _ ih => exact .cons hfirst (ih hread)

/-- Reading to the end goes on where any other reading of the same buffer stops. -/
theorem Reads.continues (h : F.Reads buf ms rest) (hall : F.Reads buf ms' rest')
    (hend : F.read rest' = none) : ∃ more, ms' = ms ++ more ∧ F.Reads rest more rest' := by
  induction h generalizing ms' with
  | nil buf => exact ⟨ms', rfl, hall⟩
  | cons hread _ ih =>
    cases hall with
    | nil =>
      rw [hend] at hread
      cases hread
    | cons hread' hrest =>
      rw [hread] at hread'
      cases hread'
      obtain ⟨more, hmore, hreads⟩ := ih hrest
      exact ⟨more, congrArg (_ :: ·) hmore, hreads⟩

/-- Nothing is read where there is no whole message. -/
theorem Reads.eq_nil (h : F.Reads buf ms rest) (hnone : F.read buf = none) : ms = [] := by
  cases h with
  | nil => rfl
  | cons hread _ =>
    rw [hnone] at hread
    cases hread

end Framing

end SupabaseLab.Library
