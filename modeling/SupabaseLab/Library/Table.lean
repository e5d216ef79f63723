/-
  Library/Table.lean --- a table with a primary key, and the statements on it.

  A statement names rows one by one and each is accepted or refused on its own:
  a row-level policy, a trigger and the constraints of one row are all `accept`.
  The key is checked as each row is written.  What a whole statement did is then
  said once, in `insertRows_ok`, `updateRows_ok` and `upsertRows_ok`.
-/
import SupabaseLab.Library.Except

set_option autoImplicit false

namespace SupabaseLab.Library

variable {ρ κ ε : Type}

/-! ## Statements -/

/-- The rows an UPDATE meets, in the order it meets them, each with its new
version.  No row is met twice. -/
structure Hits (ρ : Type) where
  pairs : List (ρ × ρ)
  once : (pairs.map Prod.fst).Nodup

/-- The hits on rows that are there and that a policy lets be touched. -/
def Hits.touching [DecidableEq ρ] (hits : Hits ρ) (rows : List ρ) (usable : ρ → Bool) :
    List (ρ × ρ) :=
  hits.pairs.filter fun p => p.1 ∈ rows && usable p.1

section Keyed

variable [DecidableEq κ] (key : ρ → κ)

/-- INSERT, row by row. -/
def insertRows (accept : ρ → Except ε Unit) (dup : ε) : List ρ → List ρ → Except ε (List ρ)
  | rows, [] => .ok rows
  | rows, new :: rest => do
      accept new
      refuseIf (key new ∈ rows.map key) dup
      insertRows accept dup (rows ++ [new]) rest

/-- One row in place of the row with `old`'s key. -/
def replaceRow (rows : List ρ) (old new : ρ) : List ρ :=
  rows.map fun r => if key r = key old then new else r

/-- UPDATE, row by row. -/
def updateRows (accept : ρ → ρ → Except ε Unit) (dup : ε) :
    List ρ → List (ρ × ρ) → Except ε (List ρ)
  | rows, [] => .ok rows
  | rows, (old, new) :: rest => do
      accept old new
      refuseIf (key new ≠ key old ∧ key new ∈ rows.map key) dup
      updateRows accept dup (replaceRow key rows old new) rest

/-- The rows of an INSERT … ON CONFLICT: each with the new version of the row it
conflicts with, `none` for DO NOTHING.  A command that names one key twice is
refused as a whole. -/
structure Upserts (key : ρ → κ) where
  proposals : List (ρ × (ρ → Option ρ))
  once : (proposals.map fun p => key p.1).Nodup
  keeps : ∀ p ∈ proposals, ∀ old merged, p.2 old = some merged → key merged = key old

/-- INSERT … ON CONFLICT on the key, row by row.  A row that the policy of the
update hides is an error here, not a row passed over. -/
def upsertRows (accept : ρ → Except ε Unit) (usable : ρ → Bool)
    (acceptMerged : ρ → ρ → Except ε Unit) (hidden : ε) :
    List ρ → List (ρ × (ρ → Option ρ)) → Except ε (List ρ)
  | rows, [] => .ok rows
  | rows, (new, merge) :: rest => do
      accept new
      match rows.find? fun r => key r = key new with
      | none => upsertRows accept usable acceptMerged hidden (rows ++ [new]) rest
      | some old =>
          match merge old with
          | none => upsertRows accept usable acceptMerged hidden rows rest
          | some merged =>
              refuseIf (usable old = false) hidden
              acceptMerged old merged
              upsertRows accept usable acceptMerged hidden (replaceRow key rows old merged) rest

end Keyed

/-! ## What a statement did -/

section Spec

variable {key : ρ → κ} {rows rows' : List ρ}

/-- Two rows of one key are one row. -/
theorem eq_of_key_eq (hkeys : (rows.map key).Nodup) {r s : ρ} (hr : r ∈ rows) (hs : s ∈ rows)
    (h : key r = key s) : r = s :=
  List.inj_on_of_nodup_map hkeys hr hs h

theorem keys_append {new : ρ} (hkeys : (rows.map key).Nodup) (hfresh : key new ∉ rows.map key) :
    ((rows ++ [new]).map key).Nodup := by
  rw [List.map_append]
  refine List.nodup_append.mpr ⟨hkeys, List.nodup_singleton _, fun a ha b hb heq => ?_⟩
  rw [List.map_singleton, List.mem_singleton] at hb
  exact hfresh (hb ▸ heq ▸ ha)

/-- A new row changes nothing at other keys. -/
theorem mem_append_of_ne {new r : ρ} (hne : key r ≠ key new) : r ∈ rows ++ [new] ↔ r ∈ rows := by
  rw [List.mem_append, List.mem_singleton]
  exact or_iff_left fun heq => hne (congrArg key heq)

/-- What an UPDATE of the rows in `pairs` leaves. -/
structure Updated (key : ρ → κ) (rows rows' : List ρ) (pairs : List (ρ × ρ)) : Prop where
  keys : (rows'.map key).Nodup
  origin : ∀ r ∈ rows', (r ∈ rows ∧ ∀ p ∈ pairs, p.1 ≠ r) ∨ ∃ p ∈ pairs, r = p.2
  written : ∀ p ∈ pairs, p.2 ∈ rows'
  kept : ∀ r ∈ rows, (∀ p ∈ pairs, p.1 ≠ r) → r ∈ rows'

/-- The row `old` that a proposal conflicts with, and its new version. -/
def Conflicts (key : ρ → κ) (rows : List ρ) (p : ρ × (ρ → Option ρ)) (old merged : ρ) : Prop :=
  old ∈ rows ∧ key old = key p.1 ∧ p.2 old = some merged

/-- What an INSERT … ON CONFLICT leaves: rows of new keys, and new versions of rows. -/
structure Upserted (key : ρ → κ) (rows rows' : List ρ) (proposals : List (ρ × (ρ → Option ρ))) :
    Prop where
  keys : (rows'.map key).Nodup
  held : ∀ r ∈ rows, key r ∈ rows'.map key
  origin : ∀ r ∈ rows', r ∈ rows ∨ (∃ p ∈ proposals, r = p.1 ∧ key p.1 ∉ rows.map key) ∨
    ∃ p ∈ proposals, ∃ old, Conflicts key rows p old r
  written : ∀ p ∈ proposals, ∀ old merged, Conflicts key rows p old merged → merged ∈ rows'
  kept : ∀ r ∈ rows, (∀ p ∈ proposals, ∀ merged, ¬ Conflicts key rows p r merged) → r ∈ rows'

variable {p : ρ × (ρ → Option ρ)} {rest : List (ρ × (ρ → Option ρ))} {old merged r : ρ}

theorem not_conflicts_of_fresh (hfresh : key p.1 ∉ rows.map key) :
    ¬ Conflicts key rows p old merged :=
  fun h => hfresh (h.2.1 ▸ List.mem_map_of_mem h.1)

/-- A proposal conflicts with rows of its own key alone. -/
theorem conflicts_congr {rows₁ : List ρ} {k : κ}
    (hsame : ∀ r, key r ≠ k → (r ∈ rows₁ ↔ r ∈ rows)) (hne : key p.1 ≠ k) :
    Conflicts key rows₁ p old merged ↔ Conflicts key rows p old merged :=
  and_congr_left fun h => hsame old (h.1 ▸ hne)

/-- A proposal conflicts with one row at most. -/
theorem Conflicts.eq (hkeys : (rows.map key).Nodup) (h : Conflicts key rows p r merged)
    (hold : old ∈ rows) (hkey : key old = key p.1) :
    r = old ∧ p.2 old = some merged := by
  have heq := eq_of_key_eq hkeys h.1 hold (h.2.1.trans hkey.symm)
  exact ⟨heq, heq ▸ h.2.2⟩

theorem not_conflicts_of_nothing (hkeys : (rows.map key).Nodup)
    (hold : old ∈ rows) (hkey : key old = key p.1) (hnothing : p.2 old = none) :
    ¬ Conflicts key rows p r merged := by
  intro h
  obtain ⟨-, hsome⟩ := h.eq hkeys hold hkey
  cases hnothing.symm.trans hsome

/-- The first proposal changes rows of its own key alone, which no other proposal names. -/
theorem Upserted.cons {rows₁ : List ρ}
    (hkeeps : ∀ old merged, p.2 old = some merged → key merged = key old)
    (honce : ∀ q ∈ rest, key q.1 ≠ key p.1)
    (hsame : ∀ r, key r ≠ key p.1 → (r ∈ rows₁ ↔ r ∈ rows))
    (hheld : key p.1 ∈ rows.map key → key p.1 ∈ rows₁.map key)
    (horigin : ∀ r ∈ rows₁, key r = key p.1 → r ∈ rows ∨ (r = p.1 ∧ key p.1 ∉ rows.map key) ∨
      ∃ old, Conflicts key rows p old r)
    (hwritten : ∀ old merged, Conflicts key rows p old merged → merged ∈ rows₁)
    (hkept : ∀ r ∈ rows, key r = key p.1 → (∀ merged, ¬ Conflicts key rows p r merged) → r ∈ rows₁)
    (h : Upserted key rows₁ rows' rest) : Upserted key rows rows' (p :: rest) := by
  have hconflicts : ∀ q ∈ rest, ∀ old merged,
      Conflicts key rows₁ q old merged ↔ Conflicts key rows q old merged :=
    fun q hq _ _ => conflicts_congr hsame (honce q hq)
  -- a row of the first key is out of reach of the others
  have hout : ∀ r, key r = key p.1 → ∀ q ∈ rest, ∀ merged, ¬ Conflicts key rows₁ q r merged :=
    fun r hkey q hq merged hconflict => honce q hq (hconflict.2.1.symm.trans hkey)
  refine ⟨h.keys, fun r hr => ?_, fun r hr => ?_, fun q hq old merged hconflict => ?_,
    fun r hr hnone => ?_⟩
  · by_cases hkey : key r = key p.1
    · have hmem := hheld (hkey ▸ List.mem_map_of_mem hr)
      obtain ⟨x, hx, hxkey⟩ := List.mem_map.mp hmem
      exact (hxkey.trans hkey.symm) ▸ h.held x hx
    · exact h.held r ((hsame r hkey).mpr hr)
  · obtain hr | ⟨q, hq, rfl, hfresh⟩ | ⟨q, hq, old, hconflict⟩ := h.origin r hr
    · by_cases hkey : key r = key p.1
      · exact (horigin r hr hkey).imp id (Or.imp (fun h => ⟨p, List.mem_cons_self, h⟩)
          fun h => ⟨p, List.mem_cons_self, h⟩)
      · exact .inl ((hsame r hkey).mp hr)
    · refine .inr (.inl ⟨q, List.mem_cons_of_mem _ hq, rfl, fun hmem => hfresh ?_⟩)
      obtain ⟨x, hx, hxkey⟩ := List.mem_map.mp hmem
      rw [← hxkey]
      exact List.mem_map_of_mem ((hsame x (hxkey ▸ honce q hq)).mpr hx)
    · exact .inr (.inr ⟨q, List.mem_cons_of_mem _ hq, old, (hconflicts q hq _ _).mp hconflict⟩)
  · rcases List.mem_cons.mp hq with rfl | hq
    · have hkey : key merged = key q.1 := (hkeeps old merged hconflict.2.2).trans hconflict.2.1
      exact h.kept merged (hwritten old merged hconflict) (hout merged hkey)
    · exact h.written q hq old merged ((hconflicts q hq _ _).mpr hconflict)
  · by_cases hkey : key r = key p.1
    · exact h.kept r (hkept r hr hkey fun merged => hnone p List.mem_cons_self merged) (hout r hkey)
    · refine h.kept r ((hsame r hkey).mpr hr) fun q hq merged hconflict => ?_
      exact hnone q (List.mem_cons_of_mem _ hq) merged ((hconflicts q hq _ _).mp hconflict)

theorem Upserted.append (hkeeps : ∀ old merged, p.2 old = some merged → key merged = key old)
    (honce : ∀ q ∈ rest, key q.1 ≠ key p.1) (hfresh : key p.1 ∉ rows.map key)
    (h : Upserted key (rows ++ [p.1]) rows' rest) : Upserted key rows rows' (p :: rest) := by
  refine h.cons hkeeps honce (fun r hne => mem_append_of_ne hne) (fun hmem => absurd hmem hfresh)
    (fun r hr _ => ?_) (fun r m hconflict => absurd hconflict (not_conflicts_of_fresh hfresh))
    fun r hr _ _ => List.mem_append_left _ hr
  rcases List.mem_append.mp hr with hr | hr
  · exact .inl hr
  · exact .inr (.inl ⟨List.mem_singleton.mp hr, hfresh⟩)

/-- DO NOTHING leaves the rows to the proposals after it. -/
theorem Upserted.passOver (hkeys : (rows.map key).Nodup)
    (hkeeps : ∀ old merged, p.2 old = some merged → key merged = key old)
    (honce : ∀ q ∈ rest, key q.1 ≠ key p.1) (hold : old ∈ rows) (hkey : key old = key p.1)
    (hnothing : p.2 old = none) (h : Upserted key rows rows' rest) :
    Upserted key rows rows' (p :: rest) := by
  refine h.cons hkeeps honce (fun _ _ => Iff.rfl) id (fun r hr _ => .inl hr)
    (fun r m hconflict => ?_) fun r hr _ _ => hr
  exact absurd hconflict (not_conflicts_of_nothing hkeys hold hkey hnothing)

variable [DecidableEq κ]

theorem insertRows_ok {accept : ρ → Except ε Unit} {dup : ε} {new : List ρ}
    (hkeys : (rows.map key).Nodup) (h : insertRows key accept dup rows new = .ok rows') :
    rows' = rows ++ new ∧ (rows'.map key).Nodup ∧ ∀ r ∈ new, accept r = .ok () := by
  induction new generalizing rows with
  | nil =>
    cases h
    exact ⟨(List.append_nil _).symm, hkeys, fun r hr => absurd hr List.not_mem_nil⟩
  | cons r rest ih =>
    obtain ⟨_, haccept, h⟩ := bind_eq_ok.mp h
    obtain ⟨_, hfresh, h⟩ := bind_eq_ok.mp h
    obtain ⟨rfl, hnodup, hrest⟩ := ih (keys_append hkeys (refuseIf_eq_ok.mp hfresh)) h
    refine ⟨by rw [List.append_assoc, List.singleton_append], hnodup, fun s hs => ?_⟩
    rcases List.mem_cons.mp hs with rfl | hs
    · exact haccept
    · exact hrest s hs

theorem mem_replaceRow {old new r : ρ} (h : r ∈ replaceRow key rows old new) :
    r = new ∨ (r ∈ rows ∧ key r ≠ key old) := by
  obtain ⟨s, hs, rfl⟩ := List.mem_map.mp h
  split
  · exact .inl rfl
  · rename_i hne
    exact .inr ⟨hs, hne⟩

theorem mem_replaceRow_of_ne {old new r : ρ} (hr : r ∈ rows) (hne : key r ≠ key old) :
    r ∈ replaceRow key rows old new :=
  List.mem_map.mpr ⟨r, hr, if_neg hne⟩

theorem mem_replaceRow_new {old new : ρ} (hold : old ∈ rows) :
    new ∈ replaceRow key rows old new :=
  List.mem_map.mpr ⟨old, hold, if_pos rfl⟩

/-- A new version of a row changes nothing at other keys. -/
theorem mem_replaceRow_iff {old new r : ρ} (hkey : key new = key old) (hne : key r ≠ key old) :
    r ∈ replaceRow key rows old new ↔ r ∈ rows := by
  refine ⟨fun hr => ?_, fun hr => mem_replaceRow_of_ne hr hne⟩
  obtain rfl | ⟨hr, -⟩ := mem_replaceRow hr
  · exact absurd hkey hne
  · exact hr

theorem replaceRow_keys {old new : ρ} (hkeys : (rows.map key).Nodup)
    (hfresh : ¬ (key new ≠ key old ∧ key new ∈ rows.map key)) :
    ((replaceRow key rows old new).map key).Nodup := by
  have hmap : (replaceRow key rows old new).map key =
      (rows.map key).map fun k => if k = key old then key new else k := by
    rw [replaceRow, List.map_map, List.map_map]
    refine List.map_congr_left fun r _ => ?_
    show key (if key r = key old then new else r) = if key r = key old then key new else key r
    exact apply_ite key _ _ _
  rw [hmap]
  refine List.Nodup.map_on (fun k hk l hl heq => ?_) hkeys
  -- a key other than the old one cannot be the new one
  have hother : ∀ k ∈ rows.map key, k ≠ key old → k ≠ key new := by
    rintro k hk hne rfl
    exact hfresh ⟨hne, hk⟩
  by_cases hkold : k = key old
  · by_cases hlold : l = key old
    · rw [hkold, hlold]
    · rw [if_pos hkold, if_neg hlold] at heq
      exact absurd heq.symm (hother l hl hlold)
  · by_cases hlold : l = key old
    · rw [if_neg hkold, if_pos hlold] at heq
      exact absurd heq (hother k hk hkold)
    · rw [if_neg hkold, if_neg hlold] at heq
      exact heq

theorem updateRows_ok {accept : ρ → ρ → Except ε Unit} {dup : ε} {pairs : List (ρ × ρ)}
    (hkeys : (rows.map key).Nodup) (hthere : ∀ p ∈ pairs, p.1 ∈ rows)
    (honce : (pairs.map Prod.fst).Nodup)
    (h : updateRows key accept dup rows pairs = .ok rows') :
    Updated key rows rows' pairs ∧ ∀ p ∈ pairs, accept p.1 p.2 = .ok () := by
  induction pairs generalizing rows with
  | nil =>
    cases h
    exact ⟨⟨hkeys, fun r hr => .inl ⟨hr, fun p hp => absurd hp List.not_mem_nil⟩,
      fun p hp => absurd hp List.not_mem_nil, fun r hr _ => hr⟩,
      fun p hp => absurd hp List.not_mem_nil⟩
  | cons pair rest ih =>
    obtain ⟨old, new⟩ := pair
    obtain ⟨_, haccept, h⟩ := bind_eq_ok.mp h
    obtain ⟨_, hfresh, h⟩ := bind_eq_ok.mp h
    have hfresh := refuseIf_eq_ok.mp hfresh
    obtain ⟨hnotmem, honce'⟩ := List.nodup_cons.mp honce
    have hold : old ∈ rows := hthere _ List.mem_cons_self
    -- a row met later has another key, so it is still there
    have hother : ∀ p ∈ rest, p.1 ∈ rows ∧ key p.1 ≠ key old := by
      intro p hp
      have hp' := hthere p (List.mem_cons_of_mem _ hp)
      refine ⟨hp', fun heq => hnotmem ?_⟩
      exact List.mem_map.mpr ⟨p, hp, eq_of_key_eq hkeys hp' hold heq⟩
    obtain ⟨hupdated, haccepts⟩ := ih (replaceRow_keys hkeys hfresh)
      (fun p hp => mem_replaceRow_of_ne (hother p hp).1 (hother p hp).2) honce' h
    have hnew : ∀ p ∈ rest, p.1 ≠ new := by
      intro p hp heq
      obtain ⟨hmem, hne⟩ := hother p hp
      exact hfresh ⟨heq ▸ hne, heq ▸ List.mem_map_of_mem hmem⟩
    refine ⟨⟨hupdated.keys, ?_, ?_, ?_⟩, ?_⟩
    · intro r hr
      obtain ⟨hr, hmissed⟩ | ⟨p, hp, rfl⟩ := hupdated.origin r hr
      · obtain rfl | ⟨hr, hne⟩ := mem_replaceRow hr
        · exact .inr ⟨_, List.mem_cons_self, rfl⟩
        · refine .inl ⟨hr, fun p hp => ?_⟩
          rcases List.mem_cons.mp hp with rfl | hp
          · rintro rfl
            exact hne rfl
          · exact hmissed p hp
      · exact .inr ⟨p, List.mem_cons_of_mem _ hp, rfl⟩
    · intro p hp
      rcases List.mem_cons.mp hp with rfl | hp
      · exact hupdated.kept new (mem_replaceRow_new hold) hnew
      · exact hupdated.written p hp
    · intro r hr hmissed
      have hne : key r ≠ key old := fun heq =>
        hmissed _ List.mem_cons_self (eq_of_key_eq hkeys hr hold heq).symm
      exact hupdated.kept r (mem_replaceRow_of_ne hr hne)
        fun p hp => hmissed p (List.mem_cons_of_mem _ hp)
    · intro p hp
      rcases List.mem_cons.mp hp with rfl | hp
      · exact haccept
      · exact haccepts p hp

theorem Upserted.merge (hkeys : (rows.map key).Nodup)
    (hkeeps : ∀ old merged, p.2 old = some merged → key merged = key old)
    (honce : ∀ q ∈ rest, key q.1 ≠ key p.1) (hconflict : Conflicts key rows p old merged)
    (h : Upserted key (replaceRow key rows old merged) rows' rest) :
    Upserted key rows rows' (p :: rest) := by
  obtain ⟨hold, hkey, hmerge⟩ := hconflict
  have hmerged : key merged = key old := hkeeps old merged hmerge
  refine h.cons hkeeps honce (fun r hne => mem_replaceRow_iff hmerged (hkey ▸ hne)) (fun _ => ?_)
    (fun r hr _ => ?_) (fun r m hother => ?_) fun r hr hrkey hnone => ?_
  · exact (hmerged.trans hkey) ▸ List.mem_map_of_mem (mem_replaceRow_new hold)
  · obtain rfl | ⟨hr, -⟩ := mem_replaceRow hr
    · exact .inr (.inr ⟨old, hold, hkey, hmerge⟩)
    · exact .inl hr
  · cases hmerge.symm.trans (hother.eq hkeys hold hkey).2
    exact mem_replaceRow_new hold
  · obtain rfl := eq_of_key_eq hkeys hr hold (hrkey.trans hkey.symm)
    exact absurd ⟨hold, hkey, hmerge⟩ (hnone merged)

theorem upsertRows_ok {accept : ρ → Except ε Unit} {usable : ρ → Bool}
    {acceptMerged : ρ → ρ → Except ε Unit} {hidden : ε} {proposals : List (ρ × (ρ → Option ρ))}
    (hkeys : (rows.map key).Nodup) (honce : (proposals.map fun p => key p.1).Nodup)
    (hkeeps : ∀ p ∈ proposals, ∀ old merged, p.2 old = some merged → key merged = key old)
    (h : upsertRows key accept usable acceptMerged hidden rows proposals = .ok rows') :
    Upserted key rows rows' proposals ∧ (∀ p ∈ proposals, accept p.1 = .ok ()) ∧
      ∀ p ∈ proposals, ∀ old merged, Conflicts key rows p old merged →
        usable old = true ∧ acceptMerged old merged = .ok () := by
  induction proposals generalizing rows with
  | nil =>
    cases h
    exact ⟨⟨hkeys, fun r hr => List.mem_map_of_mem hr, fun r hr => .inl hr,
      fun p hp => absurd hp List.not_mem_nil, fun r hr _ => hr⟩,
      fun p hp => absurd hp List.not_mem_nil, fun p hp => absurd hp List.not_mem_nil⟩
  | cons p rest ih =>
    obtain ⟨new, merge⟩ := p
    obtain ⟨hnot, honce'⟩ := List.nodup_cons.mp honce
    have hother : ∀ q ∈ rest, key q.1 ≠ key new := fun q hq heq =>
      hnot (List.mem_map.mpr ⟨q, hq, heq⟩)
    obtain ⟨hkeepsNew, hkeeps'⟩ := List.forall_mem_cons.mp hkeeps
    unfold upsertRows at h
    obtain ⟨_, haccept, h⟩ := bind_eq_ok.mp h
    split at h
    · rename_i hfind
      have hfresh : key new ∉ rows.map key := by
        intro hmem
        obtain ⟨r, hr, hkey⟩ := List.mem_map.mp hmem
        have hnone := List.find?_eq_none.mp hfind r hr
        rw [decide_eq_true_eq] at hnone
        exact hnone hkey
      obtain ⟨hupserted, haccepts, hmerges⟩ := ih (keys_append hkeys hfresh) honce' hkeeps' h
      refine ⟨hupserted.append hkeepsNew hother hfresh, List.forall_mem_cons.mpr ⟨haccept, haccepts⟩,
        List.forall_mem_cons.mpr ⟨fun old merged hconflict => ?_,
          fun q hq old merged hconflict => hmerges q hq old merged ?_⟩⟩
      · exact absurd hconflict (not_conflicts_of_fresh hfresh)
      · exact (conflicts_congr (fun r hne => mem_append_of_ne hne) (hother q hq)).mpr hconflict
    · rename_i old hfind
      have hold := List.mem_of_find?_eq_some hfind
      have hkey : key old = key new := by
        have hmatch := List.find?_some hfind
        rwa [decide_eq_true_eq] at hmatch
      split at h
      · rename_i hnothing
        obtain ⟨hupserted, haccepts, hmerges⟩ := ih hkeys honce' hkeeps' h
        refine ⟨hupserted.passOver hkeys hkeepsNew hother hold hkey hnothing,
          List.forall_mem_cons.mpr ⟨haccept, haccepts⟩,
          List.forall_mem_cons.mpr ⟨fun r merged hconflict => ?_, hmerges⟩⟩
        exact absurd hconflict (not_conflicts_of_nothing hkeys hold hkey hnothing)
      · rename_i merged hmerge
        obtain ⟨_, husable, h⟩ := bind_eq_ok.mp h
        obtain ⟨_, hcheck, h⟩ := bind_eq_ok.mp h
        have husable : usable old = true := Bool.not_eq_false _ ▸ refuseIf_eq_ok.mp husable
        have hmerged : key merged = key old := hkeepsNew old merged hmerge
        obtain ⟨hupserted, haccepts, hmerges⟩ :=
          ih (replaceRow_keys hkeys fun hne => hne.1 hmerged) honce' hkeeps' h
        refine ⟨hupserted.merge hkeys hkeepsNew hother ⟨hold, hkey, hmerge⟩,
          List.forall_mem_cons.mpr ⟨haccept, haccepts⟩,
          List.forall_mem_cons.mpr ⟨fun r m hconflict => ?_,
            fun q hq r m hconflict => hmerges q hq r m ?_⟩⟩
        · obtain ⟨rfl, hm⟩ := hconflict.eq hkeys hold hkey
          cases hmerge.symm.trans hm
          exact ⟨husable, hcheck⟩
        · exact (conflicts_congr (fun x hne => mem_replaceRow_iff hmerged (hkey ▸ hne))
            (hother q hq)).mpr hconflict

end Spec

/-! ## Rows that come and go -/

section Within

variable {gone came : ρ → Prop} {rows rows' rows'' : List ρ}

/-- Every row that went meets `gone`, and every row that came meets `came`. -/
structure Within (gone came : ρ → Prop) (rows rows' : List ρ) : Prop where
  went : ∀ r ∈ rows, r ∉ rows' → gone r
  entered : ∀ r ∈ rows', r ∉ rows → came r

theorem Within.refl (rows : List ρ) : Within gone came rows rows :=
  ⟨fun _ h hnot => absurd h hnot, fun _ h hnot => absurd h hnot⟩

theorem Within.trans (h : Within gone came rows rows') (h' : Within gone came rows' rows'') :
    Within gone came rows rows'' := by
  refine ⟨fun r hr hnot => ?_, fun r hr hnot => ?_⟩
  · by_cases hmid : r ∈ rows'
    · exact h'.went r hmid hnot
    · exact h.went r hr hmid
  · by_cases hmid : r ∈ rows'
    · exact h.entered r hmid hnot
    · exact h'.entered r hr hmid

/-- A row of neither kind is where it was. -/
theorem Within.iff {r : ρ} (h : Within gone came rows rows') (hgone : ¬ gone r)
    (hcame : ¬ came r) : r ∈ rows' ↔ r ∈ rows :=
  ⟨fun hr => not_not.mp fun hnot => hcame (h.entered r hr hnot),
    fun hr => not_not.mp fun hnot => hgone (h.went r hr hnot)⟩

/-- What all rows have, and all rows that come, all rows have then. -/
theorem Within.all {P : ρ → Prop} (h : Within gone came rows rows') (hrows : ∀ r ∈ rows, P r)
    (hcame : ∀ r, came r → P r) : ∀ r ∈ rows', P r := by
  intro r hr
  by_cases hold : r ∈ rows
  · exact hrows r hold
  · exact hcame r (h.entered r hr hold)

theorem within_append {new : List ρ} (h : ∀ r ∈ new, came r) :
    Within gone came rows (rows ++ new) := by
  refine ⟨fun r hr hnot => absurd (List.mem_append_left _ hr) hnot, fun r hr hnot => ?_⟩
  obtain hold | hnew := List.mem_append.mp hr
  · exact absurd hold hnot
  · exact h r hnew

theorem within_filter {p : ρ → Bool} (h : ∀ r ∈ rows, p r = false → gone r) :
    Within gone came rows (rows.filter p) := by
  refine ⟨fun r hr hnot => h r hr ?_, fun r hr hnot => absurd (List.mem_filter.mp hr).1 hnot⟩
  rw [← Bool.not_eq_true]
  exact fun hp => hnot (List.mem_filter.mpr ⟨hr, hp⟩)

variable {key : ρ → κ}

theorem Updated.within {pairs : List (ρ × ρ)} (h : Updated key rows rows' pairs)
    (hold : ∀ p ∈ pairs, gone p.1) (hnew : ∀ p ∈ pairs, came p.2) :
    Within gone came rows rows' := by
  refine ⟨fun r hr hnot => ?_, fun r hr hnot => ?_⟩
  · by_contra hgone
    exact hnot (h.kept r hr fun p hp heq => hgone (heq ▸ hold p hp))
  · obtain ⟨hmem, -⟩ | ⟨p, hp, rfl⟩ := h.origin r hr
    · exact absurd hmem hnot
    · exact hnew p hp

theorem Upserted.within {proposals : List (ρ × (ρ → Option ρ))}
    (h : Upserted key rows rows' proposals) (hnew : ∀ p ∈ proposals, came p.1)
    (hmerged : ∀ p ∈ proposals, ∀ old merged, Conflicts key rows p old merged →
      gone old ∧ came merged) : Within gone came rows rows' := by
  refine ⟨fun r hr hnot => ?_, fun r hr hnot => ?_⟩
  · by_contra hgone
    exact hnot (h.kept r hr fun p hp merged hconflict => hgone (hmerged p hp r merged hconflict).1)
  · obtain hmem | ⟨p, hp, rfl, -⟩ | ⟨p, hp, old, hconflict⟩ := h.origin r hr
    · exact absurd hmem hnot
    · exact hnew p hp
    · exact (hmerged p hp old r hconflict).2

end Within

section Touching

variable [DecidableEq ρ] {hits : Hits ρ} {rows : List ρ} {usable : ρ → Bool}

theorem mem_touching {p : ρ × ρ} :
    p ∈ hits.touching rows usable ↔ p ∈ hits.pairs ∧ p.1 ∈ rows ∧ usable p.1 = true := by
  unfold Hits.touching
  rw [List.mem_filter, Bool.and_eq_true, decide_eq_true_eq]

theorem touching_once : ((hits.touching rows usable).map Prod.fst).Nodup :=
  hits.once.sublist (List.Sublist.map _ List.filter_sublist)

end Touching

/-! ## What the policies let go and let in -/

section Policies

variable [DecidableEq κ] {key : ρ → κ} {gone came : ρ → Prop} {rows rows' : List ρ}
  {usable : ρ → Bool}

theorem insertRows_within {accept : ρ → Except ε Unit} {dup : ε} {new : List ρ}
    (hkeys : (rows.map key).Nodup) (h : insertRows key accept dup rows new = .ok rows')
    (hcame : ∀ r, accept r = .ok () → came r) :
    Within gone came rows rows' ∧ (rows'.map key).Nodup := by
  obtain ⟨rfl, hnodup, haccepts⟩ := insertRows_ok hkeys h
  exact ⟨within_append fun r hr => hcame r (haccepts r hr), hnodup⟩

theorem updateRows_within [DecidableEq ρ] {accept : ρ → ρ → Except ε Unit} {dup : ε} {hits : Hits ρ}
    (hkeys : (rows.map key).Nodup)
    (h : updateRows key accept dup rows (hits.touching rows usable) = .ok rows')
    (hgone : ∀ r, usable r = true → gone r)
    (hcame : ∀ old new, accept old new = .ok () → came new) :
    Within gone came rows rows' ∧ (rows'.map key).Nodup := by
  obtain ⟨hupdated, haccepts⟩ :=
    updateRows_ok hkeys (fun p hp => (mem_touching.mp hp).2.1) touching_once h
  exact ⟨hupdated.within (fun p hp => hgone p.1 (mem_touching.mp hp).2.2)
    fun p hp => hcame p.1 p.2 (haccepts p hp), hupdated.keys⟩

theorem upsertRows_within {accept : ρ → Except ε Unit} {acceptMerged : ρ → ρ → Except ε Unit}
    {hidden : ε} {new : Upserts key} (hkeys : (rows.map key).Nodup)
    (h : upsertRows key accept usable acceptMerged hidden rows new.proposals = .ok rows')
    (hgone : ∀ r, usable r = true → gone r) (hcame : ∀ r, accept r = .ok () → came r)
    (hmerged : ∀ old merged, acceptMerged old merged = .ok () → came merged) :
    Within gone came rows rows' ∧ (rows'.map key).Nodup := by
  obtain ⟨hupserted, haccepts, hmerges⟩ := upsertRows_ok hkeys new.once new.keeps h
  refine ⟨hupserted.within (fun p hp => hcame p.1 (haccepts p hp))
    fun p hp old merged hconflict => ?_, hupserted.keys⟩
  obtain ⟨husable, hcheck⟩ := hmerges p hp old merged hconflict
  exact ⟨hgone old husable, hmerged old merged hcheck⟩

end Policies

end SupabaseLab.Library
