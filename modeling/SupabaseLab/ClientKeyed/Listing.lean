/-
  ClientKeyed/Listing.lean --- what `listParts` finds.

  The endpoint lists the stored parts in ascending order, a page at a time, and
  the client asks for the next page with the last number it was given.  The loop
  ends, and what it has collected is the ETag of every part stored.
-/
import SupabaseLab.ClientKeyed.Upload

set_option autoImplicit false

namespace SupabaseLab.ClientKeyed

open Library Process

/-! ## The listing -/

section Listing

variable {K : Platform} {up : Upload}

theorem mem_listing {n : Nat} {e : String} :
    (n, e) ∈ up.listing K ↔ n ≠ 0 ∧ (up.parts.get? n).map K.etag = some e := by
  unfold Upload.listing
  rw [List.mem_filterMap]
  constructor
  · rintro ⟨k, hk, hget⟩
    obtain ⟨b, hb, heq⟩ := Option.map_eq_some_iff.mp hget
    obtain ⟨rfl, rfl⟩ := Prod.mk.inj heq
    refine ⟨?_, by rw [hb]; rfl⟩
    have := (List.mem_range'_1.mp hk).1
    omega
  · rintro ⟨hn, hget⟩
    obtain ⟨b, hb, rfl⟩ := Option.map_eq_some_iff.mp hget
    refine ⟨n, List.mem_range'_1.mpr ⟨by omega, ?_⟩, by rw [hb]; rfl⟩
    have hkey : n ∈ up.parts.keys := KeyMap.mem_keys.mpr (by rw [hb]; rfl)
    have hmax : n ≤ up.parts.keys.foldl max 0 := le_foldl_max (.inl hkey)
    omega

theorem listing_ascending : Ascending (up.listing K) := by
  unfold Upload.listing Ascending
  refine List.Pairwise.filterMap _ ?_ List.pairwise_lt_range'
  intro m n hlt x hx y hy
  obtain ⟨_, _, rfl⟩ := Option.map_eq_some_iff.mp hx
  obtain ⟨_, _, rfl⟩ := Option.map_eq_some_iff.mp hy
  exact hlt

/-- Neither test of the loop rejects an entry. -/
theorem listing_entry {e : Nat × String} (h : e ∈ up.listing K) : e.1 ≠ 0 ∧ e.2 ≠ "" := by
  obtain ⟨hn, hget⟩ := mem_listing.mp h
  obtain ⟨b, -, hb⟩ := Option.map_eq_some_iff.mp hget
  exact ⟨hn, hb ▸ K.etag_ne b⟩

end Listing

/-! ## The loop -/

section Loop

variable {K : Platform} {script : Script} {again : Bool} {a : AssetRow}
  {E : Stop Thrown → World → Prop} {w₁ : World} {u : String} {up : Upload}

/-- What is above the marker, in the order it is listed. -/
def above (K : Platform) (up : Upload) (marker : Option Nat) : List (Nat × String) :=
  (up.listing K).filter fun e => marker.getD 0 < e.1

theorem mem_above {marker : Option Nat} {e : Nat × String} (h : e ∈ above K up marker) :
    e ∈ up.listing K ∧ marker.getD 0 < e.1 := by
  obtain ⟨hmem, hlt⟩ := List.mem_filter.mp h
  exact ⟨hmem, of_decide_eq_true hlt⟩

theorem above_ascending (marker : Option Nat) : Ascending (above K up marker) :=
  listing_ascending.filter _

/-- The next page starts where this one ends. -/
theorem above_next {marker : Option Nat} {page tail : List (Nat × String)} {x : Nat × String}
    (hsplit : above K up marker = page ++ tail) (hx : page.getLast? = some x) :
    above K up (some x.1) = tail := by
  have hmem : x ∈ above K up marker := by
    rw [hsplit]
    exact List.mem_append_left _ (List.mem_of_getLast? hx)
  have hpage : above K up (some x.1) = (above K up marker).filter fun e => x.1 < e.1 := by
    unfold above
    rw [List.filter_filter]
    refine List.filter_congr fun e _ => ?_
    have := (mem_above hmem).2
    rw [Option.getD_some, Bool.eq_iff_iff, Bool.and_eq_true, decide_eq_true_eq, decide_eq_true_eq]
    omega
  rw [hpage, hsplit]
  exact Ascending.filter_above (hsplit ▸ above_ascending marker) hx

/-- The page the endpoint answers with, and what its parts are collected to. -/
theorem listPartsPage_eq (hup : w₁.upload? a.s3UploadId a.objectKey = .ok (u, up))
    (marker : Option Nat) :
    w₁.listPartsPage K a.s3UploadId a.objectKey marker =
      (.ok
        { parts := (above K up marker).take K.pageSize
          isTruncated := K.pageSize < (above K up marker).length
          nextPartNumberMarker := ((above K up marker).take K.pageSize).getLast?.map (·.1) },
        w₁) := by
  unfold World.listPartsPage
  rw [hup]
  rfl

theorem collect_page {page : List (Nat × String)} (hpage : ∀ e ∈ page, e ∈ up.listing K)
    (out : KeyMap Nat String) :
    page.foldl (fun out e => if e.1 ≠ 0 ∧ e.2 ≠ "" then out.set e.1 e.2 else out) out =
      page.foldl (fun out e => out.set e.1 e.2) out := by
  induction page generalizing out with
  | nil => rfl
  | cons e page ih =>
    rw [List.foldl_cons, List.foldl_cons, if_pos (listing_entry (hpage e List.mem_cons_self))]
    exact ih (fun x hx => hpage x (List.mem_cons_of_mem _ hx)) _

/-- The loop collects everything above its marker, and the world stays. -/
theorem listPartsLoop_spec (hup : w₁.upload? a.s3UploadId a.objectKey = .ok (u, up))
    (hfate : (∃ m, script (.listParts again m) ≠ .answered) → ∀ stop, E stop w₁) :
    ∀ (turns : Nat) (marker : Option Nat) (out : KeyMap Nat String),
      (above K up marker).length < turns →
      Ensures (· = w₁) (listPartsLoop K script again a turns marker out)
        (fun out' w => w = w₁ ∧
          out' = (above K up marker).foldl (fun out e => out.set e.1 e.2) out) E := by
  intro turns
  induction turns with
  | zero => intro marker out hturns; omega
  | succ turns ih =>
    intro marker out hturns
    unfold listPartsLoop
    refine Ensures.bind (Q := fun r w => w = w₁ ∧
      (.ok r, w₁) = w₁.listPartsPage K a.s3UploadId a.objectKey marker) ?_ fun r => ?_
    · refine Ensures.request ?_ ?_ ?_
      · rintro s r rfl hr
        dsimp only at hr ⊢
        rw [listPartsPage_eq hup] at hr ⊢
        cases hr
        exact ⟨rfl, rfl⟩
      · rintro s e rfl he
        dsimp only at he
        rw [listPartsPage_eq hup] at he
        cases he
      · rintro hne s rfl stop
        dsimp only
        rw [listPartsPage_eq hup]
        exact ⟨hfate ⟨marker, hne⟩ stop, hfate ⟨marker, hne⟩ stop⟩
    · intro s hs
      obtain ⟨rfl, hr⟩ := hs
      rw [listPartsPage_eq hup] at hr
      cases hr
      have hsplit : above K up marker = (above K up marker).take K.pageSize ++
          (above K up marker).drop K.pageSize := (List.take_append_drop _ _).symm
      have hpage : ∀ e ∈ (above K up marker).take K.pageSize, e ∈ up.listing K :=
        fun e he => (mem_above (List.mem_of_mem_take he)).1
      dsimp only
      rw [collect_page hpage]
      by_cases hmore : K.pageSize < (above K up marker).length
      · -- a full page, and its last number is the next marker
        have hsize := K.pageSize_pos
        obtain ⟨x, hx⟩ : ∃ x, ((above K up marker).take K.pageSize).getLast? = some x := by
          refine Option.isSome_iff_exists.mp (List.getLast?_isSome.mpr ?_)
          rw [← List.length_pos_iff, List.length_take]
          omega
        have hlast : x.1 ≠ 0 := (listing_entry (hpage x (List.mem_of_getLast? hx))).1
        rw [hx, Option.map_some, if_neg (by simp [hmore, hlast])]
        have hrest := above_next hsplit hx
        have hrun := ih (some x.1)
          (((above K up marker).take K.pageSize).foldl (fun out e => out.set e.1 e.2) out)
          (by rw [hrest, List.length_drop]; omega) s rfl
        rw [hrest, ← List.foldl_append, ← hsplit] at hrun
        exact hrun
      · have hwhole : (above K up marker).take K.pageSize = above K up marker :=
          List.take_of_length_le (Nat.le_of_not_lt hmore)
        rw [if_pos (.inl (by simp [hmore])), hwhole]
        exact ⟨rfl, rfl⟩

end Loop

/-! ## `listParts` -/

section ListParts

variable {K : Platform} {script : Script} {again : Bool} {a : AssetRow}
  {E : Stop Thrown → World → Prop} {w₁ : World}

/-- `listed` has the ETag of every part stored, and nothing else. -/
def Lists (K : Platform) (up : Upload) (listed : KeyMap Nat String) : Prop :=
  ∀ n, listed.get? n = if n = 0 then none else (up.parts.get? n).map K.etag

theorem lists_foldl_listing (K : Platform) (up : Upload) :
    Lists K up ((up.listing K).foldl (fun out e => out.set e.1 e.2) .empty) := by
  intro n
  by_cases hn : ∃ e, (n, e) ∈ up.listing K
  · obtain ⟨e, he⟩ := hn
    obtain ⟨hpos, hget⟩ := mem_listing.mp he
    rw [KeyMap.get?_foldl_set_of_mem listing_ascending.nodup he, if_neg hpos, hget]
  · have hkey : n ∉ (up.listing K).map Prod.fst := by
      intro hmem
      obtain ⟨⟨k, e⟩, he, rfl⟩ := List.mem_map.mp hmem
      exact hn ⟨e, he⟩
    rw [KeyMap.get?_foldl_set_of_not_mem hkey, KeyMap.get?_empty]
    split
    · rfl
    · rename_i hpos
      cases hget : (up.parts.get? n).map K.etag with
      | none => rfl
      | some e => exact absurd ⟨e, mem_listing.mpr ⟨hpos, hget⟩⟩ hn

/-- Of an upload in progress `listParts` returns the ETag of every part. -/
theorem listParts_spec {u : String} {up : Upload}
    (hup : w₁.upload? a.s3UploadId a.objectKey = .ok (u, up))
    (hfate : (∃ m, script (.listParts again m) ≠ .answered) → ∀ stop, E stop w₁) :
    Ensures (· = w₁) (listParts K script again a)
      (fun listed w => w = w₁ ∧ Lists K up listed) E := by
  rintro s rfl
  unfold listParts
  rw [hup]
  have hall : above K up none = up.listing K := by
    refine List.filter_eq_self.mpr fun e he => decide_eq_true ?_
    exact Nat.pos_of_ne_zero (listing_entry he).1
  have hloop := listPartsLoop_spec (K := K) hup hfate ((up.listing K).length + 1) none .empty
    (by rw [hall]; omega)
  rw [hall] at hloop
  refine hloop.post (fun listed w hw => ?_) s rfl
  obtain ⟨hworld, rfl⟩ := hw
  exact ⟨hworld, lists_foldl_listing K up⟩

/-- Without an upload in progress it throws. -/
theorem listParts_none {e : S3Error} (hup : w₁.upload? a.s3UploadId a.objectKey = .error e)
    {Q : KeyMap Nat String → World → Prop} (hE : ∀ stop, E stop w₁) :
    Ensures (· = w₁) (listParts K script again a) Q E := by
  rintro s rfl
  have hpage : s.listPartsPage K a.s3UploadId a.objectKey none = (.error e, s) := by
    unfold World.listPartsPage
    rw [hup]
  unfold listParts
  rw [hup]
  refine Ensures.bind (P := (· = s)) (Q := fun _ _ => False) ?_ (fun r s' hs' => hs'.elim) s rfl
  refine Ensures.request ?_ ?_ ?_
  · rintro s' r rfl hr
    dsimp only at hr
    rw [hpage] at hr
    cases hr
  · rintro s' x rfl hx
    dsimp only
    rw [hpage]
    exact hE _
  · rintro _ s' rfl stop
    dsimp only
    rw [hpage]
    exact ⟨hE _, hE _⟩

end ListParts

end SupabaseLab.ClientKeyed
