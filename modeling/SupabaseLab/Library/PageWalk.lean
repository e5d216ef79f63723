/-
  Library/PageWalk.lean --- reading page by page, when a cursor may leave rows behind.

  A page holds some of the rows that its cursor admits, and all of them when it is
  short.  The next cursor admits none of the rows that were read.  A row is lost at a full
  page exactly when the page's turn came for it, and neither the page nor the next
  cursor has it.  Pages merged from the pages of parts are of this kind.
-/
import SupabaseLab.Library.Keyset

set_option autoImplicit false

namespace SupabaseLab.Library

variable {α γ : Type} {s : List α} {admits : Option α → α → Prop} {n : Nat} {c : Option α}
  {read : Option α → Option (List α)} {rows : List α} {pages : List (List α)} {x last : α}

/-! ## Pages -/

/-- The pages that `readPages` puts together. -/
def walkPages (readPage : Option γ → Option (List α)) (cursor : α → γ) (n : Nat) :
    Nat → Option γ → Option (List (List α))
  | 0, _ => none
  | fuel + 1, c => (readPage c).bind fun rows =>
      if rows.length < n then some [rows]
      else match rows.getLast? with
        | none => some [rows]
        | some last => (walkPages readPage cursor n fuel (some (cursor last))).map (rows :: ·)

theorem readPages_eq_flatten (readPage : Option γ → Option (List α)) (cursor : α → γ) (n fuel : Nat)
    (c : Option γ) :
    readPages readPage cursor n fuel c =
      (walkPages readPage cursor n fuel c).map List.flatten := by
  induction fuel generalizing c with
  | zero => rfl
  | succ fuel ih =>
    rw [readPages, walkPages]
    cases readPage c with
    | none => rfl
    | some rows =>
      rw [Option.bind_some, Option.bind_some]
      split
      · exact congrArg some (List.flatten_singleton).symm
      · cases rows.getLast? with
        | none => exact congrArg some (List.flatten_singleton).symm
        | some last =>
          dsimp only
          rw [ih, Option.map_map, Option.map_map]
          rfl

/-- Rows of `s` that the cursor admits, and all of them when there is room. -/
structure IsPage (s : List α) (admitted : α → Prop) (n : Nat) (rows : List α) : Prop where
  nodup : rows.Nodup
  mem : ∀ x ∈ rows, x ∈ s ∧ admitted x
  length_le : rows.length ≤ n
  whole : rows.length < n → ∀ x ∈ s, admitted x → x ∈ rows

/-- Pages of which only the last one may be short; a cursor is the row it is made from. -/
inductive PageRun (read : Option α → Option (List α)) (s : List α)
    (admits : Option α → α → Prop) (n : Nat) : Option α → List (List α) → Prop where
  | short {c : Option α} {rows : List α} (hread : read c = some rows)
      (hpage : IsPage s (admits c) n rows) (hlen : rows.length < n) :
      PageRun read s admits n c [rows]
  | full {c : Option α} {rows : List α} {last : α} {pages : List (List α)}
      (hread : read c = some rows) (hpage : IsPage s (admits c) n rows) (hlen : rows.length = n)
      (hlast : rows.getLast? = some last)
      (hgoes : ∀ x, admits (some last) x → admits c x ∧ x ∉ rows)
      (hrest : PageRun read s admits n (some last) pages) :
      PageRun read s admits n c (rows :: pages)

theorem PageRun.mem (h : PageRun read s admits n c pages) (hx : x ∈ pages.flatten) :
    x ∈ s ∧ admits c x := by
  induction h with
  | short _ hpage _ =>
    rw [List.flatten_singleton] at hx
    exact hpage.mem x hx
  | full _ hpage _ _ hgoes _ ih =>
    obtain hx | hx := List.mem_append.mp (List.flatten_cons ▸ hx)
    · exact hpage.mem x hx
    · exact ⟨(ih hx).1, (hgoes x (ih hx).2).1⟩

/-- No row is read twice. -/
theorem PageRun.nodup (h : PageRun read s admits n c pages) : pages.flatten.Nodup := by
  induction h with
  | short _ hpage _ =>
    rw [List.flatten_singleton]
    exact hpage.nodup
  | full _ hpage _ _ hgoes hrest ih =>
    rw [List.flatten_cons]
    refine List.Nodup.append hpage.nodup ih fun x hx hrestx => ?_
    exact (hgoes x (hrest.mem hrestx).2).2 hx

/-- What is read page by page comes in order when each page does, and the next cursor
admits only what comes after it. -/
theorem PageRun.pairwise {r : α → α → Prop} (h : PageRun read s admits n c pages)
    (hpages : ∀ rows ∈ pages, rows.Pairwise r)
    (hnext : ∀ rows ∈ pages, ∀ last, rows.getLast? = some last →
      ∀ x, admits (some last) x → ∀ y ∈ rows, r y x) : pages.flatten.Pairwise r := by
  induction h with
  | short _ _ _ =>
    rw [List.flatten_singleton]
    exact hpages _ List.mem_cons_self
  | full _ _ _ hlast _ hrest ih =>
    rw [List.flatten_cons, List.pairwise_append]
    refine ⟨hpages _ List.mem_cons_self, ih ?_ ?_, ?_⟩
    · exact fun rows hmem => hpages rows (List.mem_cons_of_mem _ hmem)
    · exact fun rows hmem => hnext rows (List.mem_cons_of_mem _ hmem)
    · exact fun y hy x hx => hnext _ List.mem_cons_self _ hlast x (hrest.mem hx).2 y hy

/-- Every page is read after the row that was read last. -/
theorem PageRun.read_eq (h : PageRun read s admits n c pages) {before after : List (List α)}
    {rows : List α} (hpages : pages = before ++ rows :: after) :
    read (before.flatten.getLast?.or c) = some rows := by
  induction h generalizing before with
  | short hread _ _ =>
    cases before with
    | nil => exact (List.cons.inj hpages).1 ▸ hread
    | cons first before => simp at hpages
  | full hread _ _ hlast _ _ ih =>
    cases before with
    | nil => exact (List.cons.inj hpages).1 ▸ hread
    | cons first before =>
      obtain ⟨rfl, hrest⟩ := List.cons.inj hpages
      rw [List.flatten_cons, List.getLast?_append, hlast, Option.or_assoc]
      exact ih hrest

theorem PageRun.ne_nil (h : PageRun read s admits n c pages) {before after : List (List α)}
    {rows : List α} (hpages : pages = before ++ rows :: after) : ∀ part ∈ before, part ≠ [] := by
  induction h generalizing before with
  | short hread _ _ =>
    cases before with
    | nil => simp
    | cons first before => simp at hpages
  | full _ _ _ hlast _ _ ih =>
    cases before with
    | nil => simp
    | cons first before =>
      obtain ⟨rfl, hrest⟩ := List.cons.inj hpages
      refine List.forall_mem_cons.mpr ⟨?_, ih hrest⟩
      rintro rfl
      cases hlast

/-! ## What is lost -/

/-- At some full page the row was due, and neither the page nor the cursor after it has
the row. -/
inductive PassedOver (admits : Option α → α → Prop) (n : Nat) (x : α) :
    Option α → List (List α) → Prop where
  | here {c : Option α} {rows : List α} {last : α} {pages : List (List α)}
      (hlen : rows.length = n) (hlast : rows.getLast? = some last) (hdue : admits c x)
      (hunread : x ∉ rows) (hpassed : ¬ admits (some last) x) :
      PassedOver admits n x c (rows :: pages)
  | later {c : Option α} {rows : List α} {last : α} {pages : List (List α)}
      (hlast : rows.getLast? = some last) (hrest : PassedOver admits n x (some last) pages) :
      PassedOver admits n x c (rows :: pages)

theorem PassedOver.due (h : PassedOver admits n x c pages) (hrun : PageRun read s admits n c pages) :
    admits c x := by
  induction hrun with
  | short _ hpage hlen =>
    cases h with
    | here _ _ hdue _ _ => exact hdue
    | later _ hrest => cases hrest
  | full _ _ _ hlast hgoes _ ih =>
    cases h with
    | here _ _ hdue _ _ => exact hdue
    | later hlast' hrest =>
      cases hlast.symm.trans hlast'
      exact (hgoes x (ih hrest)).1

/-- A row is lost when it is passed over, and not otherwise. -/
theorem PageRun.notMem_iff (h : PageRun read s admits n c pages) (hx : x ∈ s) (hdue : admits c x) :
    x ∉ pages.flatten ↔ PassedOver admits n x c pages := by
  induction h with
  | short _ hpage hlen =>
    rw [List.flatten_singleton]
    constructor
    · exact fun hnot => absurd (hpage.whole hlen x hx hdue) hnot
    · intro hpassed
      cases hpassed with
      | here hfull _ _ _ _ => omega
      | later _ hrest => cases hrest
  | @full c rows last pages _ hpage hlen hlast hgoes hrest ih =>
    rw [List.flatten_cons, List.mem_append, not_or]
    constructor
    · rintro ⟨hrows, hpages⟩
      by_cases hadmits : admits (some last) x
      · exact .later hlast ((ih hadmits).mp hpages)
      · exact .here hlen hlast hdue hrows hadmits
    · intro hpassed
      cases hpassed with
      | here _ hlast' _ hrows hpassed =>
        cases hlast.symm.trans hlast'
        exact ⟨hrows, fun hmem => hpassed (hrest.mem hmem).2⟩
      | later hlast' hpassed =>
        cases hlast.symm.trans hlast'
        have hadmits := hpassed.due hrest
        exact ⟨(hgoes x hadmits).2, (ih hadmits).mpr hpassed⟩

/-- Where it was passed over. -/
theorem passedOver_iff : PassedOver admits n x c pages ↔ ∃ before page after last,
    pages = before ++ page :: after ∧ (∀ rows ∈ before, rows ≠ []) ∧ page.length = n ∧
      page.getLast? = some last ∧ admits (before.flatten.getLast?.or c) x ∧ x ∉ page ∧
      ¬ admits (some last) x := by
  constructor
  · intro h
    induction h with
    | here hlen hlast hdue hunread hpassed =>
      exact ⟨[], _, _, _, rfl, by simp, hlen, hlast, hdue, hunread, hpassed⟩
    | @later c rows last pages hlast _ ih =>
      obtain ⟨before, page, after, last', rfl, hne, hlen, hlast', hdue, hunread, hpassed⟩ := ih
      refine ⟨rows :: before, page, after, last', rfl, ?_, hlen, hlast', ?_, hunread, hpassed⟩
      · intro part hpart
        obtain rfl | hpart := List.mem_cons.mp hpart
        · rintro rfl
          cases hlast
        · exact hne part hpart
      · rw [List.flatten_cons, List.getLast?_append, hlast, Option.or_assoc]
        exact hdue
  · rintro ⟨before, page, after, last, rfl, hne, hlen, hlast, hdue, hunread, hpassed⟩
    induction before generalizing c with
    | nil => exact .here hlen hlast hdue hunread hpassed
    | cons rows before ih =>
      have hrows : rows ≠ [] := hne rows List.mem_cons_self
      refine .later (List.getLast?_eq_some_getLast hrows) (ih ?_ ?_)
      · exact fun part hpart => hne part (List.mem_cons_of_mem _ hpart)
      · rw [List.flatten_cons, List.getLast?_append, List.getLast?_eq_some_getLast hrows,
          Option.or_assoc] at hdue
        exact hdue

/-! ## Merged pages -/

section Merged

variable {κ κ' : Type} [LinearOrder κ] [LinearOrder κ'] {key : α → κ} {order : α → κ'}
  {parts : List (List α)} {l : List α} {y : α}

/-- Some of the elements, in another order, are as distinct as all of them. -/
theorem nodup_map_of_subperm {β : Type} {f : α → β} {l' : List α} (h : l.Subperm l')
    (hnodup : (l'.map f).Nodup) : (l.map f).Nodup := by
  obtain ⟨l'', hperm, hsublist⟩ := h
  exact (hperm.map f).nodup_iff.mp ((hsublist.map f).nodup hnodup)

theorem ranked_page (h : (l.map key).Nodup) : Ranked key (page key n l) :=
  List.Pairwise.sublist (List.take_sublist _ _) (ranked_rank h)

/-- A page with room left has all rows. -/
theorem mem_page_of_length_lt (hlen : (page key n l).length < n) (hx : x ∈ l) :
    x ∈ page key n l := by
  unfold page at hlen ⊢
  rw [List.length_take, length_rank] at hlen
  rw [List.take_of_length_le (by rw [length_rank]; omega)]
  exact mem_rank.mpr hx

/-- What ranks before a row of the page is on it. -/
theorem mem_page_of_lt (h : (l.map key).Nodup) (hx : x ∈ page key n l) (hy : y ∈ l)
    (hlt : key x < key y) : y ∈ page key n l := by
  unfold page at hx ⊢
  have hranked := ranked_rank h
  rw [← List.take_append_drop n (rank key l)] at hranked
  have hmem : y ∈ rank key l := mem_rank.mpr hy
  rw [← List.take_append_drop n (rank key l)] at hmem
  obtain hmem | hmem := List.mem_append.mp hmem
  · exact hmem
  · exact absurd ((List.pairwise_append.mp hranked).2.2 x hx y hmem) (lt_asymm hlt)

/-- Fewer than `n` rows rank before a row of the page. -/
theorem length_lt_of_mem_page (h : (l.map key).Nodup) (hx : x ∈ page key n l) {l' : List α}
    (hnodup : l'.Nodup) (hl' : ∀ y ∈ l', y ∈ l ∧ key x < key y) : l'.length < n := by
  have hsub : (x :: l').Subperm (page key n l) := by
    refine List.Nodup.subperm (List.nodup_cons.mpr ⟨fun hmem => ?_, hnodup⟩) fun y hy => ?_
    · exact lt_irrefl _ (hl' x hmem).2
    · obtain rfl | hy := List.mem_cons.mp hy
      · exact hx
      · exact mem_page_of_lt h hx (hl' y hy).1 (hl' y hy).2
  calc l'.length < (x :: l').length := Nat.lt_succ_self _
    _ ≤ (page key n l).length := hsub.length_le
    _ ≤ n := List.length_take_le _ _

/-- The page has the rows that fewer than `n` rows rank before. -/
theorem mem_page_iff (h : (l.map key).Nodup) :
    x ∈ page key n l ↔ x ∈ l ∧ (l.countP fun y => decide (key x < key y)) < n := by
  constructor
  · intro hx
    refine ⟨mem_rank.mp (List.mem_of_mem_take hx), ?_⟩
    rw [List.countP_eq_length_filter]
    refine length_lt_of_mem_page h hx ((List.Nodup.of_map key h).filter _) fun y hy => ?_
    exact (List.mem_filter.mp hy).imp_right of_decide_eq_true
  · rintro ⟨hx, hcount⟩
    by_contra hnot
    refine absurd hcount (Nat.not_lt.mpr ?_)
    have hfull : (page key n l).length = n := by
      refine Nat.le_antisymm (List.length_take_le _ _) (Nat.not_lt.mp fun hlen => ?_)
      exact hnot (mem_page_of_length_lt hlen hx)
    have hsub : (page key n l).Subperm (l.filter fun y => decide (key x < key y)) := by
      refine List.Nodup.subperm ?_ fun y hy => ?_
      · exact ((List.Nodup.of_map key h).perm (rank_perm key l).symm).sublist (List.take_sublist _ _)
      · have hyl := mem_rank.mp (List.mem_of_mem_take hy)
        refine List.mem_filter.mpr ⟨hyl, decide_eq_true (lt_of_not_ge fun hle => hnot ?_)⟩
        obtain hlt | heq := lt_or_eq_of_le hle
        · exact mem_page_of_lt h hy hx hlt
        · exact List.inj_on_of_nodup_map h hyl hx heq ▸ hy
    calc n = (page key n l).length := hfull.symm
      _ ≤ (l.filter fun y => decide (key x < key y)).length := hsub.length_le
      _ = l.countP fun y => decide (key x < key y) := (List.countP_eq_length_filter).symm

/-- The last row of a page ranks last. -/
theorem le_of_getLast? (h : (l.map key).Nodup) (hlast : (page key n l).getLast? = some last)
    (hx : x ∈ page key n l) : key last ≤ key x := by
  obtain ⟨front, hfront⟩ := List.getLast?_eq_some_iff.mp hlast
  have hranked := ranked_page (n := n) h
  rw [hfront] at hranked hx
  obtain hx | hx := List.mem_append.mp hx
  · exact le_of_lt ((List.pairwise_append.mp hranked).2.2 x hx last (List.mem_singleton_self _))
  · rw [List.mem_singleton.mp hx]

/-- The pages of the parts, ranked again and cut, are a page, whatever is ranked by. -/
theorem isPage_merge {admitted : α → Prop} [DecidablePred admitted] (parts : List (List α))
    (hnodup : parts.flatten.Nodup) :
    IsPage parts.flatten admitted n (page order n
      ((parts.map fun part => part.filter fun x => admitted x).flatMap (page key n))) := by
  have hflatten : (parts.map fun part => part.filter fun x => admitted x).flatten =
      parts.flatten.filter fun x => admitted x := List.filter_flatten.symm
  have hsub := (page_subperm order n _).trans
    (flatMap_page_subperm key n (parts.map fun part => part.filter fun x => admitted x))
  rw [hflatten] at hsub
  refine ⟨?_, fun x hx => ?_, List.length_take_le _ _, fun hshort x hx hadmitted => ?_⟩
  · obtain ⟨l, hperm, hsublist⟩ := hsub
    exact hperm.nodup_iff.mp (hsublist.nodup (hnodup.filter _))
  · exact (List.mem_filter.mp (hsub.subset hx)).imp_right of_decide_eq_true
  · obtain ⟨part, hpart, hxpart⟩ := List.mem_flatten.mp hx
    have hmem : part.filter (fun x => decide (admitted x)) ∈
        parts.map fun part => part.filter fun x => decide (admitted x) := List.mem_map_of_mem hpart
    have hle := (List.sublist_flatten_of_mem (List.mem_map_of_mem (f := page key n) hmem)).length_le
    rw [← List.flatMap_def] at hle
    have hlength : (page key n (part.filter fun x => decide (admitted x))).length < n := by
      unfold page at hshort ⊢
      rw [List.length_take, length_rank] at hshort
      unfold page at hle
      omega
    refine mem_page_of_length_lt hshort (List.mem_flatMap.mpr ⟨_, hmem, ?_⟩)
    exact mem_page_of_length_lt hlength (List.mem_filter.mpr ⟨hxpart, decide_eq_true hadmitted⟩)

end Merged

/-! ## Walks -/

/-- Every full page leaves at least `n` rows fewer to read. -/
theorem length_left [DecidableEq α] [∀ c, DecidablePred (admits c)]
    (hrows : IsPage s (admits c) n rows) (hfull : n ≤ rows.length)
    (hgoes : ∀ x, admits (some last) x → admits c x ∧ x ∉ rows) :
    (s.filter fun x => admits (some last) x).length + n ≤
      (s.filter fun x => admits c x).length := by
  have hsplit := List.length_eq_length_filter_add (l := s.filter fun x => admits c x)
    fun x => decide (x ∈ rows)
  have hread : rows.length ≤
      ((s.filter fun x => admits c x).filter fun x => decide (x ∈ rows)).length := by
    refine (hrows.nodup.subperm fun x hx => ?_).length_le
    obtain ⟨hs, hdue⟩ := hrows.mem x hx
    exact List.mem_filter.mpr
      ⟨List.mem_filter.mpr ⟨hs, decide_eq_true hdue⟩, decide_eq_true hx⟩
  have hleft : (s.filter fun x => admits (some last) x).length ≤
      ((s.filter fun x => admits c x).filter fun x => !decide (x ∈ rows)).length := by
    rw [List.filter_filter, ← List.countP_eq_length_filter, ← List.countP_eq_length_filter]
    refine List.countP_mono_left fun x _ hx => ?_
    obtain ⟨hdue, hunread⟩ := hgoes x (of_decide_eq_true hx)
    rw [Bool.and_eq_true]
    exact ⟨by rw [decide_eq_false hunread]; rfl, decide_eq_true hdue⟩
  omega

/-- With fuel for every page, the pages are read. -/
theorem exists_pageRun {readPage : Option γ → Option (List α)} {cursor : α → γ} (hn : 0 < n)
    [DecidableEq α] [∀ c, DecidablePred (admits c)]
    (hpage : ∀ c : Option α, (∀ y, c = some y → y ∈ s) →
      ∃ rows, readPage (c.map cursor) = some rows ∧ IsPage s (admits c) n rows ∧
        ∀ last, rows.getLast? = some last → ∀ x, admits (some last) x → admits c x ∧ x ∉ rows)
    {fuel : Nat} (hc : ∀ y, c = some y → y ∈ s)
    (hfuel : (s.filter fun x => admits c x).length / n < fuel) :
    ∃ pages, walkPages readPage cursor n fuel (c.map cursor) = some pages ∧
      PageRun (fun c => readPage (c.map cursor)) s admits n c pages := by
  induction fuel generalizing c with
  | zero => exact absurd hfuel (Nat.not_lt_zero _)
  | succ fuel ih =>
    obtain ⟨rows, hread, hrows, hgoes⟩ := hpage c hc
    rw [walkPages, hread, Option.bind_some]
    by_cases hshort : rows.length < n
    · rw [if_pos hshort]
      exact ⟨_, rfl, .short hread hrows hshort⟩
    · have hfull : n ≤ rows.length := Nat.not_lt.mp hshort
      have hne : rows ≠ [] := List.ne_nil_of_length_pos (Nat.lt_of_lt_of_le hn hfull)
      have hlast := List.getLast?_eq_some_getLast hne
      have hleft := length_left hrows hfull (hgoes _ hlast)
      have hfuel' : (s.filter fun x => admits (some (rows.getLast hne)) x).length / n < fuel := by
        have hdiv := Nat.div_eq_sub_div hn (Nat.le_of_add_left_le hleft)
        have hmono := Nat.div_le_div_right (c := n) (Nat.le_sub_of_add_le hleft)
        omega
      obtain ⟨pages, hpages, hrun⟩ := ih (c := some (rows.getLast hne))
        (fun y hy => Option.some.inj hy ▸ (hrows.mem _ (List.getLast_mem hne)).1) hfuel'
      rw [if_neg hshort, hlast]
      dsimp only
      rw [← Option.map_some, hpages, Option.map_some]
      exact ⟨_, rfl, .full hread hrows (Nat.le_antisymm hrows.length_le hfull) hlast (hgoes _ hlast) hrun⟩

end SupabaseLab.Library
