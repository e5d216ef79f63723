/-
  Library/Uuid.lean --- the text form of a uuid.
-/
import Mathlib.Data.List.Basic

set_option autoImplicit false

namespace SupabaseLab.Library

def isLowerHex (c : Char) : Bool := c ∈ "0123456789abcdef".toList

/-- `^[0-9a-f]{8}-[0-9a-f]{4}-[0-9a-f]{4}-[0-9a-f]{4}-[0-9a-f]{12}$`. -/
def isUuid (s : String) : Bool :=
  s.toList.length = 36 &&
    s.toList.zipIdx.all fun (c, i) => if i ∈ [8, 13, 18, 23] then c = '-' else isLowerHex c

theorem length_of_isUuid {s : String} (h : isUuid s) : s.toList.length = 36 :=
  of_decide_eq_true (Bool.and_eq_true_iff.mp h).1

/-- A uuid, in the form the database prints it. -/
structure Uuid where
  text : String
  wellFormed : isUuid text
  deriving DecidableEq, Repr

theorem Uuid.text_injective : Function.Injective Uuid.text := by
  rintro ⟨text, _⟩ ⟨_, _⟩ rfl
  rfl

theorem hyphen_notMem_of_hex {s : List Char} (h : ∀ c ∈ s, isLowerHex c = true) : '-' ∉ s :=
  fun hmem => absurd (h _ hmem) (by decide)

theorem Uuid.getElem_text (u : Uuid) {i : Nat} (hi : i < u.text.toList.length) :
    (if i ∈ [8, 13, 18, 23] then decide (u.text.toList[i] = '-')
      else isLowerHex u.text.toList[i]) = true :=
  List.all_eq_true.mp (Bool.and_eq_true_iff.mp u.wellFormed).2 (u.text.toList[i], i)
    (List.mem_zipIdx_iff_getElem?.mpr (List.getElem?_eq_getElem hi))

/-- Eight hex digits stand before the first hyphen. -/
theorem Uuid.exists_split (u : Uuid) : ∃ first rest : List Char,
    u.text.toList = first ++ '-' :: rest ∧ first.length = 8 ∧ rest.length = 27 ∧ '-' ∉ first := by
  have hlen := length_of_isUuid u.wellFormed
  have h8 : 8 < u.text.toList.length := by omega
  have hhyphen : u.text.toList[8] = '-' := of_decide_eq_true (u.getElem_text h8)
  refine ⟨u.text.toList.take 8, u.text.toList.drop 9, ?_, ?_, ?_, hyphen_notMem_of_hex ?_⟩
  · rw [← hhyphen, ← List.drop_eq_getElem_cons h8, List.take_append_drop]
  · rw [List.length_take, hlen]
    rfl
  · rw [List.length_drop, hlen]
  · intro c hc
    obtain ⟨i, hi, rfl⟩ := List.mem_iff_getElem.mp hc
    have h8' : i < 8 := Nat.lt_of_lt_of_le hi (List.length_take_le _ _)
    have hno : i ∉ [8, 13, 18, 23] := by
      simp only [List.mem_cons, List.not_mem_nil, or_false]
      omega
    have hchar := u.getElem_text (i := i) (by omega)
    rw [if_neg hno] at hchar
    rw [List.getElem_take]
    exact hchar

end SupabaseLab.Library
