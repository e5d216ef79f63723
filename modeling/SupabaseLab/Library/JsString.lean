/-
  Library/JsString.lean --- strings as JavaScript orders and sorts them.

  `sort()` compares UTF-16 code units, not characters: a character beyond the
  basic plane is a pair of surrogates and sorts before the upper part of that
  plane.  Sorting gives one result for all arrangements of the same strings.
-/
import Mathlib

set_option autoImplicit false

namespace SupabaseLab.Library

/-! ## Code units -/

/-- The UTF-16 code units of a character. -/
def charUnits (c : Char) : List Nat :=
  if c.toNat < 0x10000 then [c.toNat]
  else [0xD800 + (c.toNat - 0x10000) / 0x400, 0xDC00 + (c.toNat - 0x10000) % 0x400]

def codeUnits (s : String) : List Nat := s.toList.flatMap charUnits

/-- A single code unit is no surrogate, so no character starts another one. -/
theorem charUnits_append_inj {c d : Char} {s t : List Nat}
    (h : charUnits c ++ s = charUnits d ++ t) : c = d ∧ s = t := by
  have hc : c.toNat < 0xD800 ∨ 0xDFFF < c.toNat ∧ c.toNat < 0x110000 := c.valid
  have hd : d.toNat < 0xD800 ∨ 0xDFFF < d.toNat ∧ d.toNat < 0x110000 := d.valid
  unfold charUnits at h
  split at h
  · split at h
    · obtain ⟨hhead, htail⟩ := List.cons.inj h
      exact ⟨Char.toNat_inj.mp hhead, htail⟩
    · have hhead := (List.cons.inj h).1
      omega
  · split at h
    · have hhead := (List.cons.inj h).1
      omega
    · obtain ⟨hhigh, hrest⟩ := List.cons.inj h
      obtain ⟨hlow, htail⟩ := List.cons.inj hrest
      exact ⟨Char.toNat_inj.mp (by omega), htail⟩

theorem charUnits_ne_nil (c : Char) : charUnits c ≠ [] := by
  unfold charUnits
  split
  · exact List.cons_ne_nil _ _
  · exact List.cons_ne_nil _ _

theorem flatMap_charUnits_injective {s t : List Char}
    (h : s.flatMap charUnits = t.flatMap charUnits) : s = t := by
  induction s generalizing t with
  | nil =>
    cases t with
    | nil => rfl
    | cons d t =>
      rw [List.flatMap_nil, List.flatMap_cons] at h
      exact absurd (List.append_eq_nil_iff.mp h.symm).1 (charUnits_ne_nil d)
  | cons c s ih =>
    cases t with
    | nil =>
      rw [List.flatMap_nil, List.flatMap_cons] at h
      exact absurd (List.append_eq_nil_iff.mp h).1 (charUnits_ne_nil c)
    | cons d t =>
      rw [List.flatMap_cons, List.flatMap_cons] at h
      obtain ⟨rfl, hrest⟩ := charUnits_append_inj h
      rw [ih hrest]

theorem codeUnits_injective {s t : String} (h : codeUnits s = codeUnits t) : s = t :=
  String.toList_inj.mp (flatMap_charUnits_injective h)

/-! ## Trimming -/

/-- White space and line terminators, as `trim` knows them. -/
def isJsSpace (c : Char) : Bool :=
  c.toNat ∈ [0x9, 0xA, 0xB, 0xC, 0xD, 0x20, 0xA0, 0x1680, 0x2028, 0x2029, 0x202F, 0x205F, 0x3000,
    0xFEFF] || (0x2000 ≤ c.toNat && c.toNat ≤ 0x200A)

/-- `trim()`. -/
def jsTrim (s : String) : String :=
  String.ofList ((s.toList.dropWhile isJsSpace).reverse.dropWhile isJsSpace).reverse

/-- A text between two characters that are no white space is not trimmed. -/
theorem jsTrim_ofList {c d : Char} {m : List Char} (hc : isJsSpace c = false)
    (hd : isJsSpace d = false) : jsTrim (String.ofList (c :: m ++ [d])) = String.ofList (c :: m ++ [d]) := by
  unfold jsTrim
  rw [String.toList_ofList, List.cons_append, List.dropWhile_cons_of_neg (Bool.eq_false_iff.mp hc),
    ← List.cons_append, List.reverse_append, List.reverse_singleton, List.singleton_append,
    List.dropWhile_cons_of_neg (Bool.eq_false_iff.mp hd), List.reverse_cons, List.reverse_reverse]

/-- A text is a core with white space around it. -/
structure TrimsTo (t core : List Char) : Prop where
  around : ∃ l r, t = l ++ core ++ r ∧ (∀ c ∈ l, isJsSpace c = true) ∧ ∀ c ∈ r, isJsSpace c = true
  head : ∀ c ∈ core.head?, isJsSpace c = false
  last : ∀ c ∈ core.getLast?, isJsSpace c = false

theorem isJsSpace_head_dropWhile (l : List Char) :
    ∀ c ∈ (l.dropWhile isJsSpace).head?, isJsSpace c = false := by
  intro c hc
  have hnot := List.head?_dropWhile_not isJsSpace l
  rw [Option.mem_def.mp hc] at hnot
  simpa using hnot

theorem trimsTo_jsTrim (s : String) : TrimsTo s.toList (jsTrim s).toList := by
  have hcore : (jsTrim s).toList =
      ((s.toList.dropWhile isJsSpace).reverse.dropWhile isJsSpace).reverse := String.toList_ofList
  have hfront := List.takeWhile_append_dropWhile (p := isJsSpace) (l := s.toList)
  have hhead := isJsSpace_head_dropWhile s.toList
  generalize s.toList.dropWhile isJsSpace = rest at hcore hfront hhead
  have hback := List.takeWhile_append_dropWhile (p := isJsSpace) (l := rest.reverse)
  have hlast := isJsSpace_head_dropWhile rest.reverse
  have hrest : rest = (rest.reverse.dropWhile isJsSpace).reverse ++
      (rest.reverse.takeWhile isJsSpace).reverse := by
    rw [← List.reverse_append, hback, List.reverse_reverse]
  generalize rest.reverse.dropWhile isJsSpace = back at hcore hlast hrest
  rw [hcore]
  refine ⟨⟨s.toList.takeWhile isJsSpace, (rest.reverse.takeWhile isJsSpace).reverse, ?_,
    fun c hc => List.mem_takeWhile_imp hc,
    fun c hc => List.mem_takeWhile_imp (List.mem_reverse.mp hc)⟩, fun c hc => ?_, ?_⟩
  · rw [List.append_assoc, ← hrest, hfront]
  · refine hhead c ?_
    rw [hrest, List.head?_append]
    rw [Option.mem_def.mp hc]
    rfl
  · rw [List.getLast?_reverse]
    exact hlast

theorem TrimsTo.jsTrim_eq {t core : List Char} (h : TrimsTo t core) :
    jsTrim (String.ofList t) = String.ofList core := by
  obtain ⟨⟨l, r, rfl, hl, hr⟩, hhead, hlast⟩ := h
  have hstop : ∀ m : List Char, (∀ c ∈ m.head?, isJsSpace c = false) → m.dropWhile isJsSpace = m := by
    intro m hm
    cases m with
    | nil => rfl
    | cons c m => exact List.dropWhile_cons_of_neg (Bool.eq_false_iff.mp (hm c rfl))
  have hback : ((core ++ r).reverse.dropWhile isJsSpace).reverse = core := by
    rw [List.reverse_append, List.dropWhile_append_of_pos fun c hc => hr c (List.mem_reverse.mp hc),
      hstop _ (by rwa [List.head?_reverse]), List.reverse_reverse]
  have hfront : ((l ++ core ++ r).dropWhile isJsSpace).reverse.dropWhile isJsSpace =
      (core ++ r).reverse.dropWhile isJsSpace := by
    rw [List.append_assoc, List.dropWhile_append_of_pos hl]
    cases core with
    | nil =>
      have hnil : ∀ m : List Char, (∀ c ∈ m, isJsSpace c = true) → m.dropWhile isJsSpace = [] :=
        fun m hm => List.dropWhile_eq_nil_iff.mpr hm
      rw [List.nil_append, hnil r hr, hnil r.reverse fun c hc => hr c (List.mem_reverse.mp hc)]
      rfl
    | cons c core => rw [hstop (c :: core ++ r) fun d hd => hhead d hd]
  rw [jsTrim, String.toList_ofList, hfront, hback]

/-! ## Sorting -/

/-- `sort()`, of an array of strings. -/
def sortStrings (l : List String) : List String :=
  l.mergeSort fun s t => decide (codeUnits s ≤ codeUnits t)

theorem sortStrings_perm (l : List String) : (sortStrings l).Perm l :=
  List.mergeSort_perm _ _

@[simp] theorem mem_sortStrings {s : String} {l : List String} : s ∈ sortStrings l ↔ s ∈ l :=
  (sortStrings_perm l).mem_iff

theorem nodup_sortStrings {l : List String} : (sortStrings l).Nodup ↔ l.Nodup :=
  (sortStrings_perm l).nodup_iff

theorem sortStrings_pairwise (l : List String) :
    (sortStrings l).Pairwise fun s t => codeUnits s ≤ codeUnits t := by
  refine List.Pairwise.imp of_decide_eq_true (List.pairwise_mergeSort ?_ ?_ l)
  · intro s t u hst htu
    exact decide_eq_true (le_trans (of_decide_eq_true hst) (of_decide_eq_true htu))
  · intro s t
    rw [Bool.or_eq_true, decide_eq_true_eq, decide_eq_true_eq]
    exact le_total _ _

/-- The order of the array does not matter. -/
theorem sortStrings_congr {l l' : List String} (h : l.Perm l') : sortStrings l = sortStrings l' := by
  refine List.Perm.eq_of_pairwise (fun s t _ _ hst hts => ?_) (sortStrings_pairwise l)
    (sortStrings_pairwise l') ?_
  · exact codeUnits_injective (le_antisymm hst hts)
  · exact (sortStrings_perm l).trans (h.trans (sortStrings_perm l').symm)

/-! ## Sets -/

/-- `[...new Set(l)]`: the distinct members, each where it comes first. -/
def distinct {α : Type} [DecidableEq α] : List α → List α
  | [] => []
  | x :: l => x :: (distinct l).filter fun y => y ≠ x

section Distinct

variable {α : Type} [DecidableEq α]

@[simp] theorem mem_distinct {l : List α} {x : α} : x ∈ distinct l ↔ x ∈ l := by
  induction l with
  | nil => rfl
  | cons y l ih =>
    rw [distinct, List.mem_cons, List.mem_cons, List.mem_filter, ih, decide_eq_true_eq]
    by_cases h : x = y
    · simp [h]
    · simp [h]

theorem nodup_distinct (l : List α) : (distinct l).Nodup := by
  induction l with
  | nil => exact List.nodup_nil
  | cons x l ih =>
    rw [distinct]
    refine List.nodup_cons.mpr ⟨fun hx => ?_, ih.filter _⟩
    exact of_decide_eq_true (List.mem_filter.mp hx).2 rfl

/-- A new member goes to the end. -/
theorem distinct_concat (l : List α) (x : α) :
    distinct (l ++ [x]) = if x ∈ l then distinct l else distinct l ++ [x] := by
  induction l with
  | nil => rfl
  | cons y l ih =>
    rw [List.cons_append, distinct, ih, distinct]
    by_cases hl : x ∈ l
    · rw [if_pos hl, if_pos (List.mem_cons_of_mem _ hl)]
    · rw [if_neg hl, List.filter_append]
      by_cases hxy : x = y
      · rw [if_pos (by rw [hxy]; exact List.mem_cons_self)]
        simp [hxy]
      · rw [if_neg fun h => (List.mem_cons.mp h).elim hxy hl]
        simp [hxy]

theorem distinct_perm {l l' : List α} (h : ∀ x, x ∈ l ↔ x ∈ l') :
    (distinct l).Perm (distinct l') := by
  refine (List.perm_ext_iff_of_nodup (nodup_distinct l) (nodup_distinct l')).mpr fun x => ?_
  rw [mem_distinct, mem_distinct, h]

end Distinct

end SupabaseLab.Library
