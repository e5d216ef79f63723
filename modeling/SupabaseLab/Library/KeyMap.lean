/-
  Library/KeyMap.lean --- maps that carry the uniqueness of their keys.

  The entries are those of a `Map`, in insertion order; no key is there twice, so
  an entry and a lookup say the same thing.
-/
import SupabaseLab.Library.JsMap

set_option autoImplicit false

namespace SupabaseLab.Library

variable {K V : Type} [DecidableEq K]

/-! ## Keys under `set` and `delete` -/

theorem JsMap.keys_set_of_has {m : JsMap K V} {k : K} (v : V) (h : m.has k = true) :
    (m.set k v).map Prod.fst = m.map Prod.fst := by
  rw [JsMap.set, if_pos h, List.map_map]
  refine List.map_congr_left fun e _ => ?_
  show (if e.1 = k then (k, v) else e).1 = e.1
  split
  · rename_i heq
    exact heq.symm
  · rfl

theorem JsMap.set_of_not_has {m : JsMap K V} {k : K} (v : V) (h : m.has k = false) :
    m.set k v = m ++ [(k, v)] := by
  rw [JsMap.set, if_neg (by rw [h]; decide)]

theorem JsMap.has_iff {m : JsMap K V} {k : K} : m.has k = true ↔ k ∈ m.map Prod.fst := by
  induction m with
  | nil => simp [JsMap.has]
  | cons e m ih =>
    obtain ⟨k', v⟩ := e
    rw [JsMap.has, JsMap.get?_cons, List.map_cons, List.mem_cons, ← ih, JsMap.has]
    by_cases h : k = k'
    · simp [h]
    · simp [h]

theorem JsMap.nodup_set {m : JsMap K V} (h : (m.map Prod.fst).Nodup) (k : K) (v : V) :
    ((m.set k v).map Prod.fst).Nodup := by
  cases hhas : m.has k with
  | true =>
    rw [JsMap.keys_set_of_has v hhas]
    exact h
  | false =>
    have hfresh : k ∉ m.map Prod.fst := fun hk => by
      rw [JsMap.has_iff.mpr hk] at hhas
      cases hhas
    rw [JsMap.set_of_not_has v hhas, List.map_append]
    refine List.nodup_append.mpr ⟨h, List.nodup_singleton _, fun a ha b hb heq => hfresh ?_⟩
    rw [List.map_singleton, List.mem_singleton] at hb
    rw [heq, hb] at ha
    exact ha

/-! ## The map -/

/-- A map; its keys are unique. -/
structure KeyMap (K V : Type) where
  entries : JsMap K V
  nodup : (entries.map Prod.fst).Nodup

namespace KeyMap

instance [DecidableEq V] : DecidableEq (KeyMap K V) := fun a b =>
  decidable_of_iff (a.entries = b.entries)
    ⟨fun h => by cases a; cases b; cases h; rfl, fun h => congrArg entries h⟩

def empty : KeyMap K V := ⟨[], List.nodup_nil⟩

def get? (m : KeyMap K V) (k : K) : Option V := m.entries.get? k

def has (m : KeyMap K V) (k : K) : Bool := m.entries.has k

def keys (m : KeyMap K V) : List K := m.entries.map Prod.fst

def set (m : KeyMap K V) (k : K) (v : V) : KeyMap K V :=
  ⟨m.entries.set k v, JsMap.nodup_set m.nodup k v⟩

def delete (m : KeyMap K V) (k : K) : KeyMap K V :=
  ⟨m.entries.delete k, m.nodup.sublist (List.filter_sublist.map _)⟩

variable {m : KeyMap K V}

@[simp] theorem get?_empty (k : K) : (empty : KeyMap K V).get? k = none := rfl

theorem get?_set (m : KeyMap K V) (k : K) (v : V) (k' : K) :
    (m.set k v).get? k' = if k' = k then some v else m.get? k' :=
  JsMap.get?_set m.entries k v k'

@[simp] theorem get?_set_self (m : KeyMap K V) (k : K) (v : V) : (m.set k v).get? k = some v := by
  rw [get?_set, if_pos rfl]

theorem get?_set_of_ne (m : KeyMap K V) {k k' : K} (v : V) (h : k' ≠ k) :
    (m.set k v).get? k' = m.get? k' := by
  rw [get?_set, if_neg h]

theorem get?_delete (m : KeyMap K V) (k k' : K) :
    (m.delete k).get? k' = if k' = k then none else m.get? k' :=
  JsMap.get?_delete m.entries k k'

theorem has_eq (m : KeyMap K V) (k : K) : m.has k = (m.get? k).isSome := rfl

theorem mem_keys {k : K} : k ∈ m.keys ↔ (m.get? k).isSome = true :=
  JsMap.has_iff.symm

theorem keys_set_of_mem {k : K} (v : V) (h : k ∈ m.keys) : (m.set k v).keys = m.keys :=
  JsMap.keys_set_of_has v (mem_keys.mp h)

theorem keys_set_of_not_mem {k : K} (v : V) (h : k ∉ m.keys) :
    (m.set k v).keys = m.keys ++ [k] := by
  have hhas : m.entries.has k = false := by
    rw [Bool.eq_false_iff]
    exact fun hk => h (JsMap.has_iff.mp hk)
  show (m.entries.set k v).map Prod.fst = _
  rw [JsMap.set_of_not_has v hhas, List.map_append]
  rfl

/-- An entry and a lookup say the same. -/
theorem mem_entries {k : K} {v : V} : (k, v) ∈ m.entries ↔ m.get? k = some v := by
  obtain ⟨entries, hnodup⟩ := m
  show (k, v) ∈ entries ↔ JsMap.get? entries k = some v
  induction entries with
  | nil => simp
  | cons e rest ih =>
    obtain ⟨k', v'⟩ := e
    obtain ⟨hfresh, hrest⟩ := List.nodup_cons.mp hnodup
    rw [List.mem_cons, JsMap.get?_cons, ih hrest]
    by_cases h : k = k'
    · rw [if_pos h]
      constructor
      · rintro (heq | hlookup)
        · rw [(Prod.mk.inj heq).2]
        · refine absurd (JsMap.has_iff.mp ?_) hfresh
          rw [JsMap.has, ← h, hlookup]
          rfl
      · intro hv
        rw [h, Option.some.inj hv]
        exact .inl rfl
    · rw [if_neg h]
      constructor
      · rintro (heq | hlookup)
        · exact absurd (Prod.mk.inj heq).1 h
        · exact hlookup
      · exact .inr

/-- A key that is there has exactly one entry. -/
theorem filter_entries {k : K} {v : V} (h : m.get? k = some v) :
    (m.entries.filter fun e => e.1 = k) = [(k, v)] := by
  obtain ⟨entries, hnodup⟩ := m
  change JsMap.get? entries k = some v at h
  show (entries.filter fun e => e.1 = k) = [(k, v)]
  induction entries with
  | nil => cases h
  | cons e rest ih =>
    obtain ⟨k', v'⟩ := e
    obtain ⟨hfresh, hrest⟩ := List.nodup_cons.mp hnodup
    rw [JsMap.get?_cons] at h
    by_cases hk : k = k'
    · rw [if_pos hk] at h
      have hnone : (rest.filter fun e => e.1 = k) = [] := by
        refine List.filter_eq_nil_iff.mpr fun e he heq => hfresh ?_
        exact List.mem_map.mpr ⟨e, he, (of_decide_eq_true heq).trans hk⟩
      rw [List.filter_cons, if_pos (decide_eq_true hk.symm), hnone, hk, Option.some.inj h]
    · rw [if_neg hk] at h
      rw [List.filter_cons, if_neg (fun heq => hk (of_decide_eq_true heq).symm), ih hrest h]

/-- The entries are the keys, each with what it is mapped to. -/
theorem entries_eq {α : Type} (m : KeyMap K V) (f : K → Option V → α) :
    m.entries.map (fun e => f e.1 (some e.2)) = m.keys.map fun k => f k (m.get? k) := by
  rw [keys, List.map_map]
  refine List.map_congr_left fun e he => ?_
  have hget : m.get? e.1 = some e.2 := mem_entries.mp he
  show f e.1 (some e.2) = f e.1 (m.get? e.1)
  rw [hget]

/-- Setting a key to what it is mapped to changes nothing. -/
theorem set_same {k : K} {v : V} (h : m.get? k = some v) : m.set k v = m := by
  have hhas : m.entries.has k = true := JsMap.has_iff.mpr (List.mem_map_of_mem (mem_entries.mpr h))
  have hsame : m.entries.set k v = m.entries := by
    rw [JsMap.set, if_pos hhas]
    refine (List.map_congr_left fun e he => ?_).trans (List.map_id _)
    split
    · rename_i heq
      have hget : m.get? e.1 = some e.2 := mem_entries.mp he
      rw [heq, h] at hget
      rw [Option.some.inj hget, ← heq]
      rfl
    · rfl
  unfold set
  congr

/-! ### Changing all values -/

def mapValues {W : Type} (m : KeyMap K V) (f : V → W) : KeyMap K W where
  entries := m.entries.map fun e => (e.1, f e.2)
  nodup := by
    rw [List.map_map]
    exact m.nodup

theorem get?_mapValues {W : Type} (f : V → W) (k : K) : (m.mapValues f).get? k = (m.get? k).map f := by
  cases h : m.get? k with
  | some v => exact mem_entries.mp (List.mem_map_of_mem (mem_entries.mpr h))
  | none =>
    rw [Option.map_none, Option.eq_none_iff_forall_ne_some]
    intro w hw
    obtain ⟨e, he, heq⟩ := List.mem_map.mp (mem_entries.mpr hw)
    cases heq
    rw [mem_entries.mp he] at h
    cases h

theorem mapValues_same {f : V → V} (h : ∀ k v, m.get? k = some v → f v = v) : m.mapValues f = m := by
  have hsame : (m.entries.map fun e => (e.1, f e.2)) = m.entries := by
    refine (List.map_congr_left fun e he => ?_).trans (List.map_id _)
    rw [h e.1 e.2 (mem_entries.mp he)]
    rfl
  unfold mapValues
  congr

/-! ### Setting many keys -/

theorem foldl_set_same {l : List (K × V)} (h : ∀ e ∈ l, m.get? e.1 = some e.2) :
    l.foldl (fun m e => m.set e.1 e.2) m = m := by
  induction l with
  | nil => rfl
  | cons e l ih =>
    rw [List.foldl_cons, set_same (h e List.mem_cons_self)]
    exact ih fun x hx => h x (List.mem_cons_of_mem _ hx)

theorem get?_foldl_set_of_not_mem {l : List (K × V)} {k : K} (h : k ∉ l.map Prod.fst) :
    (l.foldl (fun m e => m.set e.1 e.2) m).get? k = m.get? k := by
  induction l generalizing m with
  | nil => rfl
  | cons e l ih =>
    obtain ⟨hne, hrest⟩ := not_or.mp (mt List.mem_cons.mpr h)
    rw [List.foldl_cons, ih hrest, get?_set_of_ne _ _ hne]

theorem get?_foldl_set_of_mem {l : List (K × V)} (hnodup : (l.map Prod.fst).Nodup) {k : K} {v : V}
    (h : (k, v) ∈ l) : (l.foldl (fun m e => m.set e.1 e.2) m).get? k = some v := by
  induction l generalizing m with
  | nil => exact absurd h List.not_mem_nil
  | cons e l ih =>
    obtain ⟨hfresh, hrest⟩ := List.nodup_cons.mp hnodup
    rw [List.foldl_cons]
    rcases List.mem_cons.mp h with rfl | h
    · rw [get?_foldl_set_of_not_mem hfresh, get?_set_self]
    · exact ih hrest h

end KeyMap

/-! ## Ascending listings -/

/-- Every key is at most the largest. -/
theorem le_foldl_max {l : List Nat} {n init : Nat} (h : n ∈ l ∨ n ≤ init) :
    n ≤ l.foldl max init := by
  induction l generalizing init with
  | nil =>
    rcases h with h | h
    · exact absurd h List.not_mem_nil
    · exact h
  | cons k l ih =>
    rw [List.foldl_cons]
    rcases h with h | h
    · rcases List.mem_cons.mp h with rfl | h
      · exact ih (.inr (Nat.le_max_right _ _))
      · exact ih (.inl h)
    · exact ih (.inr (Nat.le_trans h (Nat.le_max_left _ _)))

/-- Numbered entries in strictly ascending order. -/
def Ascending (l : List (Nat × V)) : Prop := l.Pairwise fun x y => x.1 < y.1

omit [DecidableEq K] in
theorem Ascending.nodup {l : List (Nat × V)} (h : Ascending l) : (l.map Prod.fst).Nodup :=
  List.pairwise_map.mpr (h.imp fun hlt => Nat.ne_of_lt hlt)

/-- What lies above the last entry of a page is what the page leaves over. -/
theorem Ascending.filter_above {page tail : List (Nat × V)} (h : Ascending (page ++ tail))
    {x : Nat × V} (hx : page.getLast? = some x) :
    (page ++ tail).filter (fun e => x.1 < e.1) = tail := by
  obtain ⟨init, rfl⟩ := List.getLast?_eq_some_iff.mp hx
  obtain ⟨hpage, -, hcross⟩ := List.pairwise_append.mp h
  obtain ⟨-, -, hlast⟩ := List.pairwise_append.mp hpage
  rw [List.filter_append]
  have hnone : (init ++ [x]).filter (fun e => x.1 < e.1) = [] := by
    refine List.filter_eq_nil_iff.mpr fun e he => ?_
    rw [decide_eq_true_eq]
    rcases List.mem_append.mp he with he | he
    · have := hlast e he x (List.mem_singleton_self x)
      omega
    · rw [List.mem_singleton.mp he]
      omega
  have hall : tail.filter (fun e => x.1 < e.1) = tail := by
    refine List.filter_eq_self.mpr fun e he => decide_eq_true ?_
    exact hcross x (List.mem_append_right _ (List.mem_singleton_self x)) e he
  rw [hnone, hall, List.nil_append]

end SupabaseLab.Library
