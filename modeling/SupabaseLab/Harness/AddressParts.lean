/-
  Harness/AddressParts.lean --- what is left of listed addresses, and of longer ones.

  The address rules look at the letters on both sides of what they take, hexadecimal
  letters and colons among them.  So they leave no listed address where these sides are
  free, and one that follows a colon stays.  Where a longer address stands alone, neither
  its beginning nor its end is such a place, so it is found in the result as often as in
  the text; what else takes it is a rule for another shape.
-/
import SupabaseLab.Harness.Addresses

set_option autoImplicit false

namespace SupabaseLab.Harness.Redact

open Library Regex

/-! ## Standing alone -/

def startsDigit (t : List Char) : Bool := t.head?.any Char.isDigit

def undotted (t : List Char) : List Char := t.dropWhile (· = '.')

section Undotted

variable {r u : List Char}

theorem undotted_cons {c : Char} (hc : c ≠ '.') (u : List Char) : undotted (c :: u) = c :: u :=
  List.dropWhile_cons_of_neg (by simpa using hc)

theorem undotted_digit {c : Char} (hc : c.isDigit) (u : List Char) : undotted (c :: u) = c :: u := by
  refine undotted_cons ?_ u
  rintro rfl
  cases hc

/-- After an address that a rule takes no digit stands, dots apart. -/
theorem not_startsDigit (h : portAfter u = true ∨ noHexAfter u = true) :
    startsDigit (undotted u) = false := by
  rcases h with h | h
  · obtain ⟨ds, rest, -, -, -, rfl, -⟩ := portAfter_iff.mp h
    rfl
  · rw [noHexAfter, Bool.not_eq_true'] at h
    cases hv : undotted u with
    | nil => rfl
    | cons c v =>
      by_contra hdigit
      have hhex := isHex_of_isDigit (eq_true_of_ne_false hdigit)
      refine absurd (hex_ahead_iff.mpr ⟨u.takeWhile (· = '.'), c, v, ?_, hhex, ?_⟩)
        (Bool.eq_false_iff.mp h)
      · intro d hd
        have hdot : d = '.' := by simpa using List.mem_takeWhile_imp hd
        rw [hdot]
        rfl
      · rw [← hv]
        exact List.takeWhile_append_dropWhile.symm

end Undotted

/-! ## What the rules take -/

/-- An address of the list at a free place, or a tuple in braces. -/
def Whole (listed : List (List Char)) (b old u new : List Char) : Prop :=
  (∀ x : Char, x.isDigit → Sealed isGuard x new) ∧
    ((old ∈ listed ∧ Dotted old ∧ leftFree b = true ∧ (portAfter u = true ∨ noHexAfter u = true)) ∨
      ((∃ m, old = '\x7b' :: (m ++ ['\x7d']) ∧ '.' ∉ old) ∧ ∃ m, new = m ++ ['\x7d']))

/-- An address that is none of the list, though one may be a part of it. -/
structure Part (listed : List (List Char)) (w : List Char) : Prop where
  dotted : Dotted w
  notListed : w ∉ listed
  dot : '.' ∈ w

section Parts

variable {Stay : List Char → List Char → Prop}
  {Cut : List Char → List Char → List Char → List Char → Prop} {listed : List (List Char)}
  {w u b b' t t' : List Char}

/-- The place before a text that begins with a digit, dots apart, is behind a digit in the
text when it is in the result. -/
def Level (b b' t : List Char) : Prop :=
  startsDigit (undotted t) = true → startsDigit (undotted b') = startsDigit (undotted b)

theorem Level.keep {c : Char} (h : Level b b' (c :: t)) : Level (c :: b) (c :: b') t := by
  intro hstart
  by_cases hc : c = '.'
  · rw [hc] at h ⊢
    exact h hstart
  · rw [undotted_cons hc, undotted_cons hc]
    rfl

theorem Level.put (hcut : Whole listed b u t t') :
    Level (u.reverse ++ b) (t'.reverse ++ b') t := by
  intro hstart
  rcases hcut.2 with ⟨_, _, _, hafter⟩ | ⟨⟨m, rfl, _⟩, m', rfl⟩
  · rw [not_startsDigit hafter] at hstart
    cases hstart
  · rw [← List.cons_append, List.reverse_append, List.reverse_append]
    rfl

end Parts

/-! ## Free places -/

section Free

variable {Stay : List Char → List Char → Prop}
  {Cut : List Char → List Char → List Char → List Char → Prop} {listed : List (List Char)}
  {w b b' t t' : List Char}

/-- A place before a digit that is free in the result is free in the text. -/
def FreeBefore (b b' t : List Char) : Prop := startsDigit t = true → leftFree b' = true → leftFree b = true

theorem FreeBefore.put (hcut : Whole listed b w t t') :
    FreeBefore (w.reverse ++ b) (t'.reverse ++ b') t := by
  intro hstart _
  rcases hcut.2 with ⟨_, _, _, hafter⟩ | ⟨⟨m, rfl, _⟩, _⟩
  · have hnone := not_startsDigit hafter
    cases t with
    | nil => cases hstart
    | cons c t =>
      rw [undotted_digit hstart] at hnone
      exact absurd hstart (Bool.eq_false_iff.mp hnone)
  · rw [← List.cons_append, List.reverse_append]
    rfl

end Free

section SubsFree

variable {ls : List (String × Ipv4)} {listed : List (List Char)} {w t : List Char} {label : String}

theorem AddressCut.whole (hl : IsLabel label) {a : Ipv4} (ha : a.text.toList ∈ listed)
    {b old u new : List Char} (h : AddressCut a.text.toList label.toList b old u new) :
    Whole listed b old u new := by
  refine ⟨fun x hx => h.sealed hl x hx, .inl ?_⟩
  obtain ⟨rfl, _, hleft, hafter⟩ := h
  exact ⟨ha, a.dotted, hleft, hafter⟩

theorem TupleCut.whole (listed : List (List Char)) (hl : IsLabel label) {b old u new : List Char}
    (h : TupleCut label.toList b old u new) : Whole listed b old u new :=
  ⟨fun x hx => h.sealed hl x hx, .inr ⟨h.1, _, h.2⟩⟩

end SubsFree

/-! ## All address rules -/

section Subs

variable {ls : List (String × Ipv4)} {listed : List (List Char)} {w t : List Char}

end Subs

/-! ## What redaction does with listed addresses -/

/-- A text of digits and dots that has a listed address as a part, but is none itself. -/
def OnlyContains (listed : List Ipv4) (w : List Char) : Prop :=
  Dotted w ∧ (∃ a ∈ listed, a.text.toList <:+: w) ∧ ∀ a ∈ listed, a.text.toList ≠ w

theorem OnlyContains.part {listed : List Ipv4} {w : List Char} (h : OnlyContains listed w) :
    Part (listed.map fun a => a.text.toList) w := by
  obtain ⟨hdotted, ⟨a, _, hpart⟩, hnone⟩ := h
  refine ⟨hdotted, fun hmem => ?_, ?_⟩
  · obtain ⟨a, ha, heq⟩ := List.mem_map.mp hmem
    exact hnone a ha heq
  · obtain ⟨os, hos⟩ := Option.isSome_iff_exists.mp a.valid
    obtain ⟨o₁, o₂, o₃, o₄, _, htext, _⟩ := octets_eq_some hos
    refine hpart.subset ?_
    rw [htext]
    exact List.mem_append_right _ List.mem_cons_self

/-- Neither a digit nor a dot stands on either side. -/
def apart (before after : List Char) : Bool :=
  !before.head?.any isDotted && !after.head?.any isDotted

end SupabaseLab.Harness.Redact
