/-
  ClientKeyed/Journal.lean --- what every call keeps, wherever it stops.

  Source: `runParts`, `CipherSource`, `runTus`, `upload` and `resume` of
  client/src/upload.ts.

  An asset comes from one upload: its `Origin` is the source and the data key of
  that upload.  As long as resumes are given that source, or one that they refuse,
  what is sealed, hashed and sent for an asset is of its origin, and the hash of a
  chunk is written before any of its bytes is sent.  One invariant of the world
  says so; every request of every call keeps it.
-/
import SupabaseLab.ClientKeyed.Parts
import SupabaseLab.ClientKeyed.ReadBack

set_option autoImplicit false

namespace SupabaseLab.ClientKeyed

open Library Process

/-! ## Bytes and the chunks they are of -/

section Layout

variable {C : Crypto} {dek F : Bytes} {a : AssetRow} {i : Nat}

/-- The bytes, from position `pos` of the ciphertext on, have one of chunk `i`. -/
def Touches (C : Crypto) (dek : Bytes) (a : AssetRow) (F : Bytes) (pos : Nat) (bytes : Bytes)
    (i : Nat) : Prop :=
  i < a.chunkCount ∧ ∃ x, pos ≤ x ∧ x < pos + bytes.length ∧ cipherOffset i a.chunkSize ≤ x ∧
    x < cipherOffset i a.chunkSize + (cipherChunk C dek a F i).length

theorem blockStart_mono {α : Type} (f : Nat → List α) {i j : Nat} (h : i ≤ j) :
    blockStart f i ≤ blockStart f j := by
  induction j, h using Nat.le_induction with
  | base => exact Nat.le_refl _
  | succ j _ ih =>
    rw [blockStart_succ]
    omega

theorem blockStart_add {α : Type} (f : Nat → List α) (i n : Nat) :
    blockStart f (i + n) = blockStart f i + ((List.range' i n).flatMap f).length := by
  rw [blockStart, blockStart, range_add_eq, List.flatMap_append, List.length_append]

variable (hlaw : C.aead.Inverts TAG) (hrow : a.Describes F)

include hlaw hrow

theorem blockStart_eq_cipherOffset (key : Bytes) (hi : i < a.chunkCount) :
    blockStart (cipherChunk C key a F) i = cipherOffset i a.chunkSize :=
  blockStart_cipherChunk hlaw hrow.chunkSize_pos hrow.size (by rw [← hrow.count]; exact hi)

/-- A position lies in one chunk only. -/
theorem chunk_of_position {x : Nat} (hlow : cipherOffset i a.chunkSize ≤ x)
    (hhigh : x < cipherOffset i a.chunkSize + (cipherChunk C dek a F i).length) :
    i = x / (a.chunkSize + TAG) := by
  have hlen : (cipherChunk C dek a F i).length ≤ a.chunkSize + TAG := by
    rw [length_cipherChunk_eq hlaw hrow.size, plainLen]
    omega
  rw [cipherOffset] at hlow hhigh
  refine (Nat.div_eq_of_lt_le hlow ?_).symm
  rw [Nat.succ_mul]
  omega

/-- Consecutive chunks lie side by side in the ciphertext. -/
theorem chunks_eq_slice {first n : Nat} (hend : first + n ≤ a.chunkCount) :
    (List.range' first n).flatMap (cipherChunk C dek a F) =
      slice (cipherObject C dek a F) (cipherOffset first a.chunkSize)
        (cipherOffset first a.chunkSize +
          ((List.range' first n).flatMap (cipherChunk C dek a F)).length) := by
  cases n with
  | zero =>
    rw [List.range'_zero, List.flatMap_nil, List.length_nil, Nat.add_zero]
    exact (slice_eq_nil (Nat.le_refl _)).symm
  | succ n =>
    rw [← blockStart_eq_cipherOffset hlaw hrow dek (by omega), ← blockStart_add, cipherObject]
    exact (slice_blocks _ hend).symm

/-- The bytes of consecutive chunks are of these chunks. -/
theorem touches_chunks {first n : Nat} (hend : first + n ≤ a.chunkCount)
    (h : Touches C dek a F (cipherOffset first a.chunkSize)
      ((List.range' first n).flatMap (cipherChunk C dek a F)) i) : i ∈ List.range' first n := by
  obtain ⟨hi, x, hx, hx', hlow, hhigh⟩ := h
  have hn : 0 < n := by
    rcases Nat.eq_zero_or_pos n with rfl | hn
    · rw [List.range'_zero, List.flatMap_nil, List.length_nil] at hx'
      omega
    · exact hn
  rw [← blockStart_eq_cipherOffset hlaw hrow dek (by omega), ← blockStart_add] at hx'
  rw [← blockStart_eq_cipherOffset hlaw hrow dek (by omega)] at hx
  rw [← blockStart_eq_cipherOffset hlaw hrow dek hi] at hlow hhigh
  rw [← blockStart_succ] at hhigh
  rw [List.mem_range'_1]
  constructor
  · by_contra hlt
    have := blockStart_mono (cipherChunk C dek a F) (show i + 1 ≤ first by omega)
    omega
  · by_contra hge
    have := blockStart_mono (cipherChunk C dek a F) (show first + n ≤ i by omega)
    omega

end Layout

/-! ## What is known of an asset -/

/-- What no call changes in a row. -/
def AssetRow.core (a : AssetRow) : AssetRow :=
  { a with plaintextSha256 := none, uploadState := "", s3UploadId := none, tusUrl := none }

/-- The row is of the source `F`, and its wrapped key opens to `dek`. -/
structure Opens (K : Platform) (F : Bytes) (a : AssetRow) (dek : Bytes) : Prop where
  describes : a.Describes F
  noncePrefix : (unhex a.noncePrefix).length = 8
  keyLength : dek.length = 32
  wrapped : a.wrappedDek = (K.wrap a.tenantId dek).1

section Rows

variable {C : Crypto} {K : Platform} {F dek dek' : Bytes} {a b : AssetRow}

theorem Opens.unwrap (h : Opens K F a dek) : K.unwrap a.tenantId a.wrappedDek = .ok dek := by
  rw [h.wrapped]
  exact K.unwrap_wrap a.tenantId dek h.keyLength

/-- The key that comes out is the one that went in. -/
theorem Opens.eq_of_unwrap (h : Opens K F a dek) {tenant : String}
    (hd : K.unwrap tenant a.wrappedDek = .ok dek') : tenant = a.tenantId ∧ dek' = dek := by
  by_cases ht : tenant = a.tenantId
  · rw [ht, h.unwrap] at hd
    exact ⟨ht, (Except.ok.inj hd).symm⟩
  · rw [h.wrapped] at hd
    exact absurd hd (K.unwrap_other a.tenantId tenant dek ht dek')

theorem core_fields (h : a.core = b.core) : a.id = b.id ∧ a.tenantId = b.tenantId ∧
    a.plaintextSize = b.plaintextSize ∧ a.chunkSize = b.chunkSize ∧ a.chunkCount = b.chunkCount ∧
    a.ciphertextSize = b.ciphertextSize ∧ a.noncePrefix = b.noncePrefix ∧
    a.wrappedDek = b.wrappedDek := by
  injection h with hid _ htenant _ hsize hchunk hcount hcipher _ _ hwrapped hnoncePrefix
  exact ⟨hid, htenant, hsize, hchunk, hcount, hcipher, hnoncePrefix, hwrapped⟩

theorem Opens.of_core (h : Opens K F a dek) (hcore : a.core = b.core) : Opens K F b dek := by
  obtain ⟨-, htenant, hsize, hchunk, hcount, hcipher, hnoncePrefix, hwrapped⟩ := core_fields hcore
  obtain ⟨⟨hs, hc, hn, ht⟩, hnonce, hdek, hwrap⟩ := h
  rw [hsize] at hs hn ht
  rw [hchunk] at hc hn ht
  rw [hcount] at hn
  rw [hcipher] at ht
  rw [hnoncePrefix] at hnonce
  rw [hwrapped, htenant] at hwrap
  exact ⟨⟨hs, hc, hn, ht⟩, hnonce, hdek, hwrap⟩

theorem cipherChunk_of_core (hcore : a.core = b.core) :
    cipherChunk C dek a F = cipherChunk C dek b F := by
  obtain ⟨hid, -, -, hchunk, hcount, -, hnoncePrefix, -⟩ := core_fields hcore
  funext i
  rw [cipherChunk, cipherChunk, hid, hchunk, hcount, hnoncePrefix]

theorem cipherObject_of_core (hcore : a.core = b.core) :
    cipherObject C dek a F = cipherObject C dek b F := by
  obtain ⟨-, -, -, -, hcount, -, -, -⟩ := core_fields hcore
  rw [cipherObject, cipherObject, cipherChunk_of_core hcore, hcount]

theorem touches_of_core (hcore : a.core = b.core) {pos i : Nat} {bytes : Bytes} :
    Touches C dek a F pos bytes i ↔ Touches C dek b F pos bytes i := by
  obtain ⟨-, -, -, hchunk, hcount, -, -, -⟩ := core_fields hcore
  unfold Touches
  rw [cipherChunk_of_core hcore, hchunk, hcount]

end Rows

/-! ## The invariant -/

/-- What an asset was made of. -/
structure Origin where
  source : Bytes
  dek : Bytes
  deriving DecidableEq, Repr

/-- The hash of chunk `i`, as it is written. -/
def chunkEntry (C : Crypto) (dek : Bytes) (a : AssetRow) (F : Bytes) (i : Nat) : Entry :=
  .hashed a.id i (C.sha256Hex (cipherChunk C dek a F i))

/-- Bytes that were sent are bytes of the ciphertext, and each chunk they are of had
its hash written before. -/
def HashedBefore (C : Crypto) (dek : Bytes) (a : AssetRow) (F : Bytes) (journal : List Entry)
    (pos : Nat) (bytes : Bytes) : Prop :=
  bytes = slice (cipherObject C dek a F) pos (pos + bytes.length) ∧
    ∀ i, Touches C dek a F pos bytes i → chunkEntry C dek a F i ∈ journal

/-- What every request of every call keeps; `O` gives the origin of each asset. -/
structure Journaled (C : Crypto) (K : Platform) (O : String → Origin) (w : World) : Prop where
  rows : ∀ id row, w.assets.get? id = some row → row.id = id ∧ row.chunkCount < 2 ^ 32 ∧
    Opens K (O id).source row (O id).dek
  hashed : ∀ id i h, .hashed id i h ∈ w.journal → w.chunks.get? (id, i) = some h ∧
    ∃ row, w.assets.get? id = some row ∧
      h = C.sha256Hex (cipherChunk C (O id).dek row (O id).source i)
  sent : ∀ before after id pos bytes, w.journal = before ++ .sent id pos bytes :: after →
    ∃ row, w.assets.get? id = some row ∧
      HashedBefore C (O id).dek row (O id).source before pos bytes
  sealed : ∀ s ∈ w.sealed, ∃ id row i, w.assets.get? id = some row ∧ i < row.chunkCount ∧
    s = chunkSealing (O id).dek row (O id).source i

/-- And that the row `a` of a call is the stored one, but for what calls change. -/
structure Held (C : Crypto) (K : Platform) (O : String → Origin) (a : AssetRow) (w : World) :
    Prop where
  journaled : Journaled C K O w
  stored : ∃ row, w.assets.get? a.id = some row ∧ row.core = a.core

/-- The source and the key of a call are those of its asset. -/
structure Genuine (K : Platform) (O : String → Origin) (F dek : Bytes) (a : AssetRow) : Prop
    extends Opens K F a dek where
  origin : O a.id = ⟨F, dek⟩

section Invariant

variable {C : Crypto} {K : Platform} {O : String → Origin} {F dek : Bytes} {a b : AssetRow}
  {w w' : World}

theorem Genuine.of_core (h : Genuine K O F dek a) (hcore : a.core = b.core) :
    Genuine K O F dek b := by
  refine ⟨h.toOpens.of_core hcore, ?_⟩
  rw [← (core_fields hcore).1]
  exact h.origin

theorem chunkSealing_of_core (hcore : a.core = b.core) :
    chunkSealing dek a F = chunkSealing dek b F := by
  obtain ⟨hid, -, -, hchunk, hcount, -, hnoncePrefix, -⟩ := core_fields hcore
  funext i
  rw [chunkSealing, chunkSealing, hid, hchunk, hcount, hnoncePrefix]

theorem Journaled.congr (h : Journaled C K O w) (hassets : w'.assets = w.assets)
    (hchunks : w'.chunks = w.chunks) (hjournal : w'.journal = w.journal)
    (hsealed : w'.sealed = w.sealed) : Journaled C K O w' := by
  refine ⟨fun id row hget => ?_, fun id i x hmem => ?_, fun before after id pos bytes hsplit => ?_,
    fun s hs => ?_⟩
  · rw [hassets] at hget
    exact h.rows id row hget
  · rw [hjournal] at hmem
    rw [hassets, hchunks]
    exact h.hashed id i x hmem
  · rw [hjournal] at hsplit
    rw [hassets]
    exact h.sent before after id pos bytes hsplit
  · rw [hsealed] at hs
    rw [hassets]
    exact h.sealed s hs

theorem Held.congr (h : Held C K O a w) (hassets : w'.assets = w.assets)
    (hchunks : w'.chunks = w.chunks) (hjournal : w'.journal = w.journal)
    (hsealed : w'.sealed = w.sealed) : Held C K O a w' := by
  refine ⟨h.journaled.congr hassets hchunks hjournal hsealed, ?_⟩
  rw [hassets]
  exact h.stored

/-- Rows may change as long as their cores, where there are rows, stay. -/
theorem Journaled.of_assets (h : Journaled C K O w) {assets : KeyMap String AssetRow}
    (hrows : ∀ id row, assets.get? id = some row → row.id = id ∧ row.chunkCount < 2 ^ 32 ∧
      Opens K (O id).source row (O id).dek)
    (hkept : ∀ id row, w.assets.get? id = some row →
      ∃ row', assets.get? id = some row' ∧ row.core = row'.core) :
    Journaled C K O { w with assets := assets } := by
  refine ⟨hrows, fun id i x hmem => ?_, fun before after id pos bytes hsplit => ?_,
    fun s hs => ?_⟩
  · obtain ⟨hchunk, row, hget, hx⟩ := h.hashed id i x hmem
    obtain ⟨row', hget', hcore⟩ := hkept id row hget
    refine ⟨hchunk, row', hget', ?_⟩
    rw [← cipherChunk_of_core hcore]
    exact hx
  · obtain ⟨row, hget, hslice, htouched⟩ := h.sent before after id pos bytes hsplit
    obtain ⟨row', hget', hcore⟩ := hkept id row hget
    refine ⟨row', hget', ?_, fun i hi => ?_⟩
    · rw [← cipherObject_of_core hcore]
      exact hslice
    · rw [chunkEntry, ← cipherChunk_of_core hcore, ← (core_fields hcore).1]
      exact htouched i ((touches_of_core hcore).mpr hi)
  · obtain ⟨id, row, i, hget, hi, heq⟩ := h.sealed s hs
    obtain ⟨row', hget', hcore⟩ := hkept id row hget
    obtain ⟨-, -, -, -, hcount, -, -, -⟩ := core_fields hcore
    refine ⟨id, row', i, hget', hcount ▸ hi, ?_⟩
    rw [← chunkSealing_of_core hcore]
    exact heq

/-- A new row is of an asset that no call has touched. -/
theorem Journaled.insertAsset (h : Journaled C K O w)
    (hgenuine : w.assets.has a.id = false → Genuine K O F dek a) :
    Journaled C K O (w.insertAsset a).2 ∧ ((w.insertAsset a).1 = .ok () →
      Genuine K O F dek a ∧ Held C K O a (w.insertAsset a).2) := by
  unfold World.insertAsset
  split
  · rename_i hnew
    have hgenuine := hgenuine hnew.2.1
    have hfresh : w.assets.get? a.id = none := by
      have := hnew.2.1
      rw [KeyMap.has_eq, Option.isSome_eq_false_iff, Option.isNone_iff_eq_none] at this
      exact this
    have hjournaled : Journaled C K O { w with assets := w.assets.set a.id a } := by
      refine h.of_assets (fun id row hget => ?_) fun id row hget => ?_
      · rw [KeyMap.get?_set] at hget
        split at hget
        · rename_i hid
          cases hget
          refine ⟨hid.symm, hnew.1.chunkCount_lt, ?_⟩
          rw [hid, hgenuine.origin]
          exact hgenuine.toOpens
        · exact h.rows id row hget
      · refine ⟨row, ?_, rfl⟩
        rw [KeyMap.get?_set_of_ne]
        · exact hget
        · rintro rfl
          rw [hfresh] at hget
          cases hget
    exact ⟨hjournaled, fun _ => ⟨hgenuine, hjournaled, a, KeyMap.get?_set_self _ _ _, rfl⟩⟩
  · exact ⟨h, fun hok => by cases hok⟩

theorem Held.patchAsset (h : Held C K O a w) {id : String} {patch : AssetRow → AssetRow}
    (hpatch : ∀ row, (patch row).core = row.core) : Held C K O a (w.patchAsset id patch).2 := by
  unfold World.patchAsset
  split
  · rename_i old hold
    obtain ⟨hid, hcount, hopens⟩ := h.journaled.rows id old hold
    have hkept : ∀ id' row, w.assets.get? id' = some row →
        ∃ row', (w.assets.set id (patch old)).get? id' = some row' ∧ row.core = row'.core := by
      intro id' row hget
      rw [KeyMap.get?_set]
      split
      · rename_i hid'
        rw [hid', hold] at hget
        cases hget
        exact ⟨_, rfl, (hpatch old).symm⟩
      · exact ⟨row, hget, rfl⟩
    refine ⟨h.journaled.of_assets (fun id' row hget => ?_) hkept, ?_⟩
    · rw [KeyMap.get?_set] at hget
      split at hget
      · rename_i hid'
        cases hget
        have hcore := (hpatch old).symm
        obtain ⟨hsame, -, -, -, hcount', -, -, -⟩ := core_fields hcore
        rw [hid']
        exact ⟨hsame.symm.trans hid, hcount' ▸ hcount, hopens.of_core hcore⟩
      · exact h.journaled.rows id' row hget
    · obtain ⟨row, hget, hcore⟩ := h.stored
      obtain ⟨row', hget', hcore'⟩ := hkept a.id row hget
      exact ⟨row', hget', hcore'.symm.trans hcore⟩
  · exact h

/-- Where a joined list is cut before an entry that the second part does not have. -/
theorem split_of_append {ι : Type} {l new before after : List ι} {e : ι} (hnot : e ∉ new)
    (h : l ++ new = before ++ e :: after) : ∃ after', l = before ++ e :: after' := by
  obtain ⟨mid, -, hnew⟩ | ⟨mid, hl, hrest⟩ := List.append_eq_append_iff.mp h
  · exact absurd (hnew ▸ List.mem_append_right mid List.mem_cons_self) hnot
  · cases mid with
    | nil =>
      rw [List.nil_append] at hrest
      exact absurd (hrest ▸ List.mem_cons_self) hnot
    | cons b mid =>
      rw [List.cons_append] at hrest
      obtain ⟨rfl, -⟩ := List.cons.inj hrest
      exact ⟨mid, hl⟩

/-- A hash of the asset that was written is the hash of its chunk. -/
theorem Held.hashed_eq (h : Held C K O a w) (hgenuine : Genuine K O F dek a) {i : Nat} {x : String}
    (hmem : .hashed a.id i x ∈ w.journal) : x = C.sha256Hex (cipherChunk C dek a F i) := by
  obtain ⟨-, row', hget', rfl⟩ := h.journaled.hashed a.id i x hmem
  obtain ⟨row, hget, hcore⟩ := h.stored
  rw [hget] at hget'
  cases hget'
  rw [hgenuine.origin, cipherChunk_of_core hcore]

/-- Writing the hashes of chunks of the asset. -/
theorem Held.putHashes (h : Held C K O a w) (hgenuine : Genuine K O F dek a) (first n : Nat) :
    Held C K O a (w.putHashes a.id (cipherRange C dek a F first n).hashes) := by
  refine ⟨⟨h.journaled.rows, fun id i x hmem => ?_, fun before after id pos bytes hsplit => ?_,
    h.journaled.sealed⟩, h.stored⟩
  · have hchunks : (w.putHashes a.id (cipherRange C dek a F first n).hashes).chunks.get? (id, i) =
        if id = a.id ∧ i ∈ List.range' first n then some (C.sha256Hex (cipherChunk C dek a F i))
        else w.chunks.get? (id, i) :=
      @get?_upsert ⟨C, false⟩ dek F a (List.range' first n) w.chunks (id, i)
    rw [hchunks]
    obtain hold | hnew := List.mem_append.mp hmem
    · obtain ⟨hchunk, hrow⟩ := h.journaled.hashed id i x hold
      refine ⟨?_, hrow⟩
      split
      · rename_i hin
        obtain ⟨rfl, -⟩ := hin
        rw [h.hashed_eq hgenuine hold]
      · exact hchunk
    · obtain ⟨y, hy, hentry⟩ := List.mem_map.mp hnew
      obtain ⟨j, hj, rfl⟩ := List.mem_map.mp hy
      obtain ⟨rfl, rfl, rfl⟩ := Entry.hashed.inj hentry
      obtain ⟨row, hget, hcore⟩ := h.stored
      refine ⟨if_pos ⟨rfl, hj⟩, row, hget, ?_⟩
      rw [hgenuine.origin, cipherChunk_of_core hcore]
  · refine (split_of_append ?_ hsplit).elim fun after' hl =>
      h.journaled.sent before after' id pos bytes hl
    intro hmem
    obtain ⟨y, -, hy⟩ := List.mem_map.mp hmem
    cases hy

theorem mem_putHashes {first n i : Nat} (hi : i ∈ List.range' first n) :
    chunkEntry C dek a F i ∈
      (w.putHashes a.id (cipherRange C dek a F first n).hashes).journal :=
  List.mem_append_right _ (List.mem_map.mpr
    ⟨⟨i, C.sha256Hex (cipherChunk C dek a F i)⟩, List.mem_map.mpr ⟨i, hi, rfl⟩, rfl⟩)

/-- Sending bytes whose hashes are there. -/
theorem Held.noteSent (h : Held C K O a w) (hgenuine : Genuine K O F dek a) {pos : Nat}
    {bytes : Bytes} (hbefore : HashedBefore C dek a F w.journal pos bytes) :
    Held C K O a (w.noteSent a.id pos bytes) := by
  refine ⟨⟨h.journaled.rows, fun id i x hmem => ?_, fun before after id pos' bytes' hsplit => ?_,
    h.journaled.sealed⟩, h.stored⟩
  · obtain hold | hnew := List.mem_append.mp hmem
    · exact h.journaled.hashed id i x hold
    · cases List.mem_singleton.mp hnew
  · obtain rfl | ⟨after', y, rfl⟩ := List.eq_nil_or_concat after
    · obtain ⟨hjournal, hlast⟩ := List.append_inj' hsplit rfl
      obtain ⟨rfl, rfl, rfl⟩ := Entry.sent.inj (List.cons.inj hlast).1
      obtain ⟨row, hget, hcore⟩ := h.stored
      rw [hgenuine.origin]
      refine ⟨row, hget, ?_, fun i hi => ?_⟩
      · rw [cipherObject_of_core hcore]
        exact hbefore.1
      · rw [chunkEntry, cipherChunk_of_core hcore, (core_fields hcore).1, ← hjournal]
        exact hbefore.2 i ((touches_of_core hcore).mp hi)
    · rw [List.concat_eq_append, ← List.cons_append, ← List.append_assoc] at hsplit
      obtain ⟨hjournal, -⟩ := List.append_inj' hsplit rfl
      exact h.journaled.sent before after' id pos' bytes' hjournal

/-- Sealing chunks of the asset. -/
theorem Held.noteSealed (h : Held C K O a w) (hgenuine : Genuine K O F dek a) {first n : Nat}
    (hend : ∀ i ∈ List.range' first n, i < a.chunkCount) :
    Held C K O a (w.noteSealed (cipherRange C dek a F first n).sealed) := by
  refine ⟨⟨h.journaled.rows, h.journaled.hashed, h.journaled.sent, fun s hs => ?_⟩, h.stored⟩
  obtain hold | hnew := List.mem_append.mp hs
  · exact h.journaled.sealed s hold
  · obtain ⟨i, hi, rfl⟩ := List.mem_map.mp hnew
    obtain ⟨row, hget, hcore⟩ := h.stored
    obtain ⟨-, -, -, -, hcount, -, -, -⟩ := core_fields hcore
    refine ⟨a.id, row, i, hget, hcount ▸ hend i hi, ?_⟩
    rw [hgenuine.origin, chunkSealing_of_core hcore]

end Invariant

/-! ## Requests and loops -/

section Calls

variable {ck : Ck} {K : Platform} {O : String → Origin} {F dek : Bytes} {a : AssetRow}

/-- The hashes of some chunks are written, or nothing happens; what was written
before stays. -/
theorem upsertChunks_held (hgenuine : Genuine K O F dek a) {fate : Fate Thrown} (first n : Nat)
    (X : Entry → Prop) :
    Ensures (fun w => Held ck.crypto K O a w ∧ ∀ e, X e → e ∈ w.journal)
      (request fate (World.upsertChunks a.id (cipherRange ck.crypto dek a F first n).hashes))
      (fun _ w => (Held ck.crypto K O a w ∧ ∀ e, X e → e ∈ w.journal) ∧
        ∀ i ∈ List.range' first n, chunkEntry ck.crypto dek a F i ∈ w.journal)
      (fun _ w => Held ck.crypto K O a w ∧ ∀ e, X e → e ∈ w.journal) := by
  have hupsert : ∀ w, Held ck.crypto K O a w →
      w.upsertChunks a.id (cipherRange ck.crypto dek a F first n).hashes =
        (.ok (), w.putHashes a.id (cipherRange ck.crypto dek a F first n).hashes) := by
    intro w hw
    obtain ⟨row, hget, -⟩ := hw.stored
    refine upsertChunks_eq ?_ _
    rw [KeyMap.has_eq, hget]
    rfl
  have hput : ∀ w, (Held ck.crypto K O a w ∧ ∀ e, X e → e ∈ w.journal) →
      Held ck.crypto K O a (w.putHashes a.id (cipherRange ck.crypto dek a F first n).hashes) ∧
        ∀ e, X e → e ∈ (w.putHashes a.id (cipherRange ck.crypto dek a F first n).hashes).journal :=
    fun w hw => ⟨hw.1.putHashes hgenuine first n, fun e he => List.mem_append_left _ (hw.2 e he)⟩
  refine Ensures.request (fun w u hw _ => ?_) (fun w e hw he => ?_) fun _ w hw _ => ?_
  · rw [hupsert w hw.1]
    exact ⟨hput w hw, fun i hi => mem_putHashes hi⟩
  · rw [hupsert w hw.1] at he
    cases he
  · rw [hupsert w hw.1]
    exact ⟨hw, hput w hw⟩

theorem uploadPart_held {fate : Fate Thrown} {C : Crypto} {what : String} {pn : Nat} {body : Bytes} :
    Ensures (Held C K O a)
      (request fate fun w =>
        let (r, w') := w.uploadPart K a.s3UploadId a.objectKey pn body
        (s3call what r, w'))
      (fun _ => Held C K O a) (fun _ => Held C K O a) := by
  refine Ensures.request_kept fun w hw => ?_
  refine hw.congr ?_ ?_ ?_ ?_
  all_goals
    dsimp only
    unfold World.uploadPart
    split
    · rfl
    · rfl

/-- One turn of the part loop. -/
theorem partStep_held (hlaw : ck.crypto.aead.Inverts TAG) (hgenuine : Genuine K O F dek a) {script : Script}
    {k p : Nat} {uploaded : KeyMap Nat String} {acc : PartsAcc} :
    Ensures (Held ck.crypto K O a) (partStep ck K script a dek F k uploaded acc p)
      (fun _ => Held ck.crypto K O a) (fun _ => Held ck.crypto K O a) := by
  have hcount : 0 < a.chunkCount := by
    rw [hgenuine.describes.count]
    exact chunkCount_pos _ _
  have hend : min (a.chunkCount - 1) (p * k + k - 1) + 1 - p * k = 0 ∨
      p * k + (min (a.chunkCount - 1) (p * k + k - 1) + 1 - p * k) ≤ a.chunkCount := by omega
  unfold partStep
  dsimp only
  rw [encryptRange_eq hgenuine.noncePrefix hgenuine.describes.size]
  generalize min (a.chunkCount - 1) (p * k + k - 1) + 1 - p * k = n at hend
  refine Ensures.bind (Q := fun enc w => enc = cipherRange ck.crypto dek a F (p * k) n ∧
    Held ck.crypto K O a w) (Ensures.ofExcept (fun enc w hok hw => ⟨(Except.ok.inj hok).symm, hw⟩)
      fun e w herror _ => by cases herror) fun enc => Ensures.assume fun henc => ?_
  subst henc
  refine Ensures.bind (Q := fun _ => Held ck.crypto K O a)
    (Ensures.note fun w hw => hw.noteSealed hgenuine fun i hi => ?_) fun _ => ?_
  · rw [List.mem_range'_1] at hi
    omega
  refine Ensures.bind ((upsertChunks_held hgenuine (p * k) n fun _ => False).mono
    (fun w hw => ⟨hw, fun _ he => he.elim⟩) (fun _ w hw => And.intro hw.1.1 hw.2)
    fun _ w hw => hw.1) fun _ => ?_
  split
  · exact Ensures.pure fun w hw => hw.1
  · refine Ensures.bind (Q := fun _ => Held ck.crypto K O a) (Ensures.note fun w hw => ?_) fun _ => ?_
    · refine hw.1.noteSent hgenuine ?_
      obtain rfl | hend := hend
      · refine ⟨(slice_eq_nil (Nat.le_refl _)).symm, fun i hi => ?_⟩
        obtain ⟨-, x, hlow, hhigh, -⟩ := hi
        change x < _ + 0 at hhigh
        omega
      · exact ⟨chunks_eq_slice hlaw hgenuine.describes hend, fun i hi =>
          hw.2 i (touches_chunks hlaw hgenuine.describes hend hi)⟩
    · exact Ensures.bind uploadPart_held fun _ => Ensures.pure fun w hw => hw

theorem listPartsLoop_held {C : Crypto} {script : Script} {again : Bool} (turns : Nat)
    (marker : Option Nat) (out : KeyMap Nat String) :
    Ensures (Held C K O a) (listPartsLoop K script again a turns marker out)
      (fun _ => Held C K O a) (fun _ => Held C K O a) := by
  induction turns generalizing marker out with
  | zero => exact Ensures.fail fun _ hw => hw
  | succ turns ih =>
    unfold listPartsLoop
    refine Ensures.bind (Q := fun _ => Held C K O a) (Ensures.request_kept fun w hw => ?_) fun r => ?_
    · refine hw.congr ?_ ?_ ?_ ?_
      all_goals
        dsimp only
        unfold World.listPartsPage
        split
        · rfl
        · rfl
    · dsimp only
      split
      · exact Ensures.pure fun _ hw => hw
      · exact ih _ _

theorem listParts_held {C : Crypto} {script : Script} {again : Bool} :
    Ensures (Held C K O a) (listParts K script again a)
      (fun _ => Held C K O a) (fun _ => Held C K O a) :=
  fun w hw => listPartsLoop_held _ none .empty w hw

/-- The end of `runParts`, whatever the ETags are. -/
theorem completion_held {C : Crypto} {fate : Fate Thrown} {e : Thrown} {r : PartsResult}
    (parts : List (Nat × Option String)) :
    Ensures (Held C K O a)
      (if (parts.any fun e => noEtag e.2) = true then fail e
        else do
          request fate fun w =>
            ((s3call "CompleteMultipartUpload" (w.completeMultipartUpload K a.s3UploadId a.objectKey
                (parts.map fun e => (e.1, e.2.getD ""))).1),
              (w.completeMultipartUpload K a.s3UploadId a.objectKey
                (parts.map fun e => (e.1, e.2.getD ""))).2)
          pure r)
      (fun _ => Held C K O a) (fun _ => Held C K O a) := by
  split
  · exact Ensures.fail fun _ hw => hw
  · refine Ensures.bind (Q := fun _ => Held C K O a) (Ensures.request_kept fun w hw => ?_)
      fun _ => Ensures.pure fun _ hw => hw
    refine hw.congr ?_ ?_ ?_ ?_
    all_goals
      unfold World.completeMultipartUpload
      split
      · rfl
      · dsimp only
        split
        · rfl
        · rfl

theorem runParts_held (hlaw : ck.crypto.aead.Inverts TAG) (hgenuine : Genuine K O F dek a) {script : Script}
    {k : Nat} {uploaded : KeyMap Nat String} :
    Ensures (Held ck.crypto K O a) (runParts ck K script a dek F k uploaded)
      (fun _ => Held ck.crypto K O a) (fun _ => Held ck.crypto K O a) := by
  unfold runParts
  refine Ensures.bind (Q := fun key w => key = dek ∧ Held ck.crypto K O a w)
    (Ensures.ofExcept (fun key w hok hw => ⟨importDek_ok hok, hw⟩) fun _ _ _ hw => hw)
    fun key => Ensures.assume fun hkey => ?_
  subst hkey
  refine Ensures.bind (Ensures.foldlM (fun acc p => partStep_held hlaw hgenuine) _ _) fun acc => ?_
  dsimp only
  split
  · exact Ensures.bind listParts_held fun listed =>
      Ensures.bind (Ensures.pure fun _ hw => hw) fun etags => completion_held (sortedParts etags)
  · exact Ensures.bind (Q := fun _ => Held ck.crypto K O a) (Ensures.pure fun _ hw => hw)
      fun etags => completion_held (sortedParts etags)

/-- What the source of the tus library hands out and keeps: chunks that are hashed. -/
structure Sourcing (C : Crypto) (K : Platform) (O : String → Origin) (F dek : Bytes) (a : AssetRow)
    (cache : KeyMap Nat Bytes) (w : World) : Prop where
  held : Held C K O a w
  cached : ∀ i b, cache.get? i = some b →
    b = cipherChunk C dek a F i ∧ chunkEntry C dek a F i ∈ w.journal

theorem get?_foldl_delete {l : List Nat} {m : KeyMap Nat Bytes} {i : Nat} {b : Bytes}
    (h : (l.foldl KeyMap.delete m).get? i = some b) : m.get? i = some b := by
  induction l generalizing m with
  | nil => exact h
  | cons k l ih =>
    have hdelete := ih h
    rw [KeyMap.get?_delete] at hdelete
    split at hdelete
    · cases hdelete
    · exact hdelete

/-- A chunk comes out of the cache, or is made and hashed; what was written before
stays. -/
theorem sourceChunk_held (hgenuine : Genuine K O F dek a) {fates : Nat → Fate Thrown}
    (cache : KeyMap Nat Bytes) {i : Nat} (hi : i < a.chunkCount) (X : Entry → Prop) :
    Ensures (fun w => Sourcing ck.crypto K O F dek a cache w ∧ ∀ e, X e → e ∈ w.journal)
      (sourceChunk ck a dek F fates cache i)
      (fun r w => (Sourcing ck.crypto K O F dek a r.2 w ∧ ∀ e, X e → e ∈ w.journal) ∧
        ∀ c, r.1 = .ok c → c = cipherChunk ck.crypto dek a F i ∧
          chunkEntry ck.crypto dek a F i ∈ w.journal)
      (fun _ => Held ck.crypto K O a) := by
  unfold sourceChunk
  split
  · rename_i hit hget
    refine Ensures.pure fun w hw => ⟨hw, fun c hc => ?_⟩
    cases hc
    exact hw.1.cached i hit hget
  · rw [encryptRange_eq hgenuine.noncePrefix hgenuine.describes.size, Nat.add_sub_cancel_left]
    dsimp only
    -- the cache is an old one, and what it relies on stays written
    let Y : Entry → Prop := fun e =>
      X e ∨ ∃ j b, cache.get? j = some b ∧ e = chunkEntry ck.crypto dek a F j
    have hbytes : (cipherRange ck.crypto dek a F i 1).bytes = cipherChunk ck.crypto dek a F i := by
      rw [cipherRange, List.range'_one]
      exact List.flatMap_singleton _ _
    refine Ensures.bind (Q := fun _ w => (∀ j b, cache.get? j = some b →
      b = cipherChunk ck.crypto dek a F j) ∧ Held ck.crypto K O a w ∧ ∀ e, Y e → e ∈ w.journal)
      (Ensures.note fun w hw => ⟨fun j b hb => (hw.1.cached j b hb).1,
        hw.1.held.noteSealed hgenuine fun j hj => ?_, fun e he => ?_⟩)
      fun _ => Ensures.assume fun hcache => ?_
    · rw [List.mem_range'_1] at hj
      omega
    · obtain hx | ⟨j, b, hb, rfl⟩ := he
      · exact hw.2 e hx
      · exact (hw.1.cached j b hb).2
    have hkept : ∀ w, (Held ck.crypto K O a w ∧ ∀ e, Y e → e ∈ w.journal) →
        Sourcing ck.crypto K O F dek a cache w ∧ ∀ e, X e → e ∈ w.journal := fun w hw =>
      ⟨⟨hw.1, fun j b hb => ⟨hcache j b hb, hw.2 _ (.inr ⟨j, b, hb, rfl⟩)⟩⟩,
        fun e he => hw.2 e (.inl he)⟩
    refine Ensures.bind (Q := fun r w => (Sourcing ck.crypto K O F dek a cache w ∧
      ∀ e, X e → e ∈ w.journal) ∧ (r = .ok () → chunkEntry ck.crypto dek a F i ∈ w.journal))
      (Ensures.attempt ((upsertChunks_held hgenuine i 1 Y).mono (fun w hw => hw)
        (fun _ w hw => ⟨hkept w hw.1, fun _ => hw.2 i (List.mem_range'_1.mpr ⟨by omega, by omega⟩)⟩)
        fun stop w hw => ?_)) fun r => ?_
    · cases stop with
      | threw e => exact ⟨hkept w hw, fun he => by cases he⟩
      | crashed => exact hw.1
    · split
      · exact Ensures.pure fun w hw => ⟨hw.1, fun c hc => by cases hc⟩
      · refine Ensures.pure fun w hw => ⟨⟨⟨hw.1.1.held, fun j b hb => ?_⟩, hw.1.2⟩, fun c hc => ?_⟩
        · have hset := get?_foldl_delete hb
          rw [KeyMap.get?_set] at hset
          split at hset
          · rename_i hj
            cases hset
            rw [hj]
            exact ⟨hbytes, hw.2 rfl⟩
          · exact hw.1.1.cached j b hset
        · cases hc
          exact ⟨hbytes, hw.2 rfl⟩

/-- One more piece, of a chunk that is hashed. -/
theorem HashedBefore.append {C : Crypto} (hlaw : C.aead.Inverts TAG) (hrow : a.Describes F)
    {journal : List Entry} {start i n : Nat} {out : Bytes} (h : HashedBefore C dek a F journal start out)
    (hi : i < a.chunkCount) (hentry : chunkEntry C dek a F i ∈ journal)
    (hoffset : cipherOffset i a.chunkSize ≤ start + out.length)
    (hn : n ≤ (cipherChunk C dek a F i).length - (start + out.length - cipherOffset i a.chunkSize)) :
    HashedBefore C dek a F journal start (out ++ Library.slice (cipherChunk C dek a F i)
      (start + out.length - cipherOffset i a.chunkSize)
      (start + out.length - cipherOffset i a.chunkSize + n)) := by
  rcases Nat.eq_zero_or_pos n with rfl | hpos
  · rw [Nat.add_zero, slice_eq_nil (Nat.le_refl _), List.append_nil]
    exact h
  · have hone : (List.range' i 1).flatMap (cipherChunk C dek a F) = _ := chunks_eq_slice hlaw hrow hi
    rw [List.range'_one, List.flatMap_singleton] at hone
    have hlen : (Library.slice (cipherChunk C dek a F i)
        (start + out.length - cipherOffset i a.chunkSize)
        (start + out.length - cipherOffset i a.chunkSize + n)).length = n := by
      rw [length_slice]
      omega
    refine ⟨?_, fun j hj => ?_⟩
    · rw [List.length_append, hlen, ← Nat.add_assoc, ← slice_append_slice (Nat.le_add_right start out.length)
        (Nat.le_add_right _ n), ← h.1]
      congr 1
      conv_lhs => rw [hone]
      rw [slice_slice, Nat.add_sub_cancel' hoffset, ← Nat.add_assoc, Nat.add_sub_cancel' hoffset,
        Nat.min_eq_right (by omega)]
    · obtain ⟨hjcount, x, hx, hx', hlow, hhigh⟩ := hj
      rw [List.length_append, hlen] at hx'
      by_cases hold : x < start + out.length
      · exact h.2 j ⟨hjcount, x, hx, hold, hlow, hhigh⟩
      · have hjx := chunk_of_position hlaw hrow hlow hhigh
        have hix := chunk_of_position hlaw hrow (show cipherOffset i a.chunkSize ≤ x by omega)
          (show x < cipherOffset i a.chunkSize + (cipherChunk C dek a F i).length by omega)
        rw [hjx, ← hix]
        exact hentry

theorem lt_chunkCount_of_position (hrow : a.Describes F) {pos : Nat} (h : pos < a.ciphertextSize) :
    pos / (a.chunkSize + TAG) < a.chunkCount := by
  rw [Nat.div_lt_iff_lt_mul (by rw [TAG]; omega)]
  rw [hrow.ciphertext, cipherSize, ← hrow.count] at h
  have hcover : a.plaintextSize ≤ a.chunkCount * a.chunkSize := by
    rw [hrow.count]
    exact le_chunkCount_mul hrow.chunkSize_pos
  rw [Nat.mul_add]
  omega

/-- The loop hands out bytes of hashed chunks only. -/
theorem sourceSliceLoop_held (hlaw : ck.crypto.aead.Inverts TAG) (hgenuine : Genuine K O F dek a)
    {fates : Nat → Fate Thrown} {stop start : Nat} (hstop : stop ≤ a.ciphertextSize) (turns : Nat)
    (pos : Nat) (cache : KeyMap Nat Bytes) (out : Bytes) (hpos : pos = start + out.length) :
    Ensures (fun w => HashedBefore ck.crypto dek a F w.journal start out ∧
        Sourcing ck.crypto K O F dek a cache w)
      (sourceSliceLoop ck a dek F fates stop turns pos cache out)
      (fun r w => (∀ bytes, r.1 = .ok bytes → HashedBefore ck.crypto dek a F w.journal start bytes) ∧
        Sourcing ck.crypto K O F dek a r.2 w)
      (fun _ => Held ck.crypto K O a) := by
  induction turns generalizing pos cache out with
  | zero =>
    refine Ensures.pure fun w hw => ⟨fun bytes hbytes => ?_, hw.2⟩
    cases hbytes
    exact hw.1
  | succ turns ih =>
    unfold sourceSliceLoop
    split
    · rename_i hlt
      have hi := lt_chunkCount_of_position hgenuine.describes (Nat.lt_of_lt_of_le hlt hstop)
      have hoffset : cipherOffset (pos / (a.chunkSize + TAG)) a.chunkSize ≤ pos :=
        Nat.div_mul_le_self _ _
      generalize pos / (a.chunkSize + TAG) = i at hi hoffset
      -- what the bytes so far rely on stays written
      let X : Entry → Prop := fun e =>
        ∃ j, Touches ck.crypto dek a F start out j ∧ e = chunkEntry ck.crypto dek a F j
      refine Ensures.bind (Q := fun r w => out = Library.slice (cipherObject ck.crypto dek a F) start
        (start + out.length) ∧ (Sourcing ck.crypto K O F dek a r.2 w ∧ ∀ e, X e → e ∈ w.journal) ∧
          ∀ c, r.1 = .ok c → c = cipherChunk ck.crypto dek a F i ∧
            chunkEntry ck.crypto dek a F i ∈ w.journal) ?_ fun r => ?_
      · refine Ensures.pre (P := fun w => out = Library.slice (cipherObject ck.crypto dek a F) start
          (start + out.length) ∧ Sourcing ck.crypto K O F dek a cache w ∧ ∀ e, X e → e ∈ w.journal)
          (Ensures.assume fun hout => ?_) fun w hw => ⟨hw.1.1, hw.2, fun e he => ?_⟩
        · exact (sourceChunk_held hgenuine cache hi X).post fun r w hw => ⟨hout, hw⟩
        · obtain ⟨j, hj, rfl⟩ := he
          exact hw.1.2 j hj
      · refine Ensures.assume fun hout => ?_
        split
        · exact Ensures.pure fun w hw => ⟨fun bytes hbytes => (by cases hbytes), hw.1.1⟩
        · rename_i c cache'
          refine Ensures.pre (ih _ cache' _ ?_) fun w hw => ⟨?_, hw.1.1⟩
          · rw [List.length_append, length_slice, hpos]
            omega
          · obtain ⟨rfl, hentry⟩ := hw.2 c rfl
            subst hpos
            exact HashedBefore.append hlaw hgenuine.describes
              ⟨hout, fun j hj => hw.1.2 _ ⟨j, hj, rfl⟩⟩ hi hentry hoffset (Nat.min_le_left _ _)
    · refine Ensures.pure fun w hw => ⟨fun bytes hbytes => ?_, hw.2⟩
      cases hbytes
      exact hw.1

theorem sourceSlice_held (hlaw : ck.crypto.aead.Inverts TAG) (hgenuine : Genuine K O F dek a)
    {fates : Nat → Fate Thrown} (cache : KeyMap Nat Bytes) (start stop : Nat) :
    Ensures (Sourcing ck.crypto K O F dek a cache) (sourceSlice ck a dek F fates cache start stop)
      (fun r w => (∀ bytes, r.1 = .ok bytes → HashedBefore ck.crypto dek a F w.journal start bytes) ∧
        Sourcing ck.crypto K O F dek a r.2 w)
      (fun _ => Held ck.crypto K O a) := by
  refine Ensures.pre (sourceSliceLoop_held hlaw hgenuine (Nat.min_le_right _ _) _ start cache [] rfl)
    fun w hw => ⟨⟨(slice_eq_nil (Nat.le_refl _)).symm, fun i hi => ?_⟩, hw⟩
  obtain ⟨-, x, hlow, hhigh, -⟩ := hi
  rw [List.length_nil] at hhigh
  omega

/-- A callback of the tus library. -/
theorem tusStep_held (hlaw : ck.crypto.aead.Inverts TAG) (hgenuine : Genuine K O F dek a) (acc : TusAcc)
    (e : TusEvent) :
    Ensures (Sourcing ck.crypto K O F dek a acc.cache) (tusStep ck a dek F acc e)
      (fun acc' => Sourcing ck.crypto K O F dek a acc'.cache) (fun _ => Held ck.crypto K O a) := by
  cases e with
  | slice start stop fates =>
    refine Ensures.bind (sourceSlice_held hlaw hgenuine acc.cache start stop) fun r => ?_
    split
    · exact Ensures.pure fun w hw => hw.2
    · rename_i bytes cache
      refine Ensures.bind (Q := fun _ => Sourcing ck.crypto K O F dek a cache)
        (Ensures.note fun w hw => ⟨hw.2.held.noteSent hgenuine (hw.1 bytes rfl), fun i b hb => ?_⟩)
        fun _ => Ensures.pure fun _ hw => hw
      obtain ⟨heq, hentry⟩ := hw.2.cached i b hb
      exact ⟨heq, List.mem_append_left _ hentry⟩
  | urlAvailable url fate =>
    unfold tusStep
    dsimp only
    split
    · refine Ensures.bind (Q := fun _ => Sourcing ck.crypto K O F dek a acc.cache)
        (Ensures.attempt (Ensures.mono
          (Ensures.request_kept (P := Sourcing ck.crypto K O F dek a acc.cache) fun w hw => ?_)
          (fun w hw => hw) (fun _ w hw => hw) fun stop' w hw => ?_))
        fun _ => Ensures.pure fun _ hw => hw
      · refine ⟨hw.held.patchAsset fun row => rfl, fun i b hb => ?_⟩
        obtain ⟨heq, hentry⟩ := hw.cached i b hb
        refine ⟨heq, ?_⟩
        unfold World.patchAsset
        split
        · exact hentry
        · exact hentry
      · cases stop' with
        | threw e => exact hw
        | crashed => exact hw.held
    · exact Ensures.pure fun _ hw => hw
  | headAnswered offset => exact Ensures.pure fun _ hw => hw
  | failed message status body => exact Ensures.fail fun _ hw => hw.held
  | killed => exact Ensures.die fun _ hw => hw.held

theorem runTus_held (hlaw : ck.crypto.aead.Inverts TAG) (hgenuine : Genuine K O F dek a)
    (events : List TusEvent) :
    Ensures (Held ck.crypto K O a) (runTus ck a dek F events)
      (fun _ => Held ck.crypto K O a) (fun _ => Held ck.crypto K O a) := by
  unfold runTus
  refine Ensures.bind (Q := fun key w => key = dek ∧ Held ck.crypto K O a w)
    (Ensures.ofExcept (fun key w hok hw => ⟨importDek_ok hok, hw⟩) fun _ _ _ hw => hw)
    fun key => Ensures.assume fun hkey => ?_
  subst hkey
  refine Ensures.bind (Q := fun _ => Held ck.crypto K O a) ?_ fun acc => Ensures.pure fun _ hw => hw
  refine Ensures.mono (Ensures.foldlM (tusStep_held hlaw hgenuine) events { tusUrl := a.tusUrl })
    (fun w hw => ⟨hw, fun i b hb => ?_⟩) (fun _ w hw => hw.held) fun _ _ hw => hw
  cases hb

/-! ## Whole calls -/

theorem Held.of_core {C : Crypto} {w : World} {b : AssetRow} (h : Held C K O a w)
    (hcore : a.core = b.core) : Held C K O b w := by
  obtain ⟨row, hget, hrow⟩ := h.stored
  refine ⟨h.journaled, row, ?_, hrow.trans hcore⟩
  rw [← (core_fields hcore).1]
  exact hget

theorem Opens.newRow (draw : Draw) (o : UploadOpts) :
    Opens K o.source (ClientKeyed.newRow K draw o) draw.dek where
  describes := ⟨rfl, show 0 < CHUNK by decide, rfl, rfl⟩
  noncePrefix := by
    rw [ClientKeyed.newRow, unhex_hex]
    exact draw.noncePrefix.2
  keyLength := draw.dek.2
  wrapped := rfl

/-- What an upload needs: its asset is of its source and its key, unless there is
one of that id, which it does not touch. -/
structure Fresh (C : Crypto) (K : Platform) (O : String → Origin) (draw : Draw) (o : UploadOpts)
    (w : World) : Prop where
  journaled : Journaled C K O w
  origin : w.assets.has (o.assetId.getD draw.uuid) = false →
    O (o.assetId.getD draw.uuid) = ⟨o.source, draw.dek⟩

theorem createAsset_held {C : Crypto} {script : Script} {draw : Draw} {o : UploadOpts} :
    Ensures (Fresh C K O draw o) (createAsset K script draw o)
      (fun r w => Genuine K O o.source r.2 r.1 ∧ Held C K O r.1 w) (fun _ => Journaled C K O) := by
  unfold createAsset
  refine Ensures.bind (Q := fun wrapped w => wrapped = K.wrap o.tenantId draw.dek ∧
      Fresh C K O draw o w)
    (Ensures.request (fun w wrapped hw hok => ⟨(Except.ok.inj hok).symm, hw⟩)
      (fun w e hw _ => hw.journaled) fun _ w hw _ => ⟨hw.journaled, hw.journaled⟩)
    fun wrapped => Ensures.assume fun hwrapped => ?_
  subst hwrapped
  have hinsert : ∀ w, Fresh C K O draw o w →
      Journaled C K O (w.insertAsset (ClientKeyed.newRow K draw o)).2 ∧
        ((w.insertAsset (ClientKeyed.newRow K draw o)).1 = .ok () →
          Genuine K O o.source draw.dek (ClientKeyed.newRow K draw o) ∧
            Held C K O (ClientKeyed.newRow K draw o)
              (w.insertAsset (ClientKeyed.newRow K draw o)).2) :=
    fun w hw => hw.journaled.insertAsset fun hnew => ⟨Opens.newRow draw o, hw.origin hnew⟩
  refine Ensures.bind (Q := fun _ w => Genuine K O o.source draw.dek (ClientKeyed.newRow K draw o) ∧
      Held C K O (ClientKeyed.newRow K draw o) w)
    (Ensures.request (fun w u hw hok => (hinsert w hw).2 hok) (fun w e hw _ => (hinsert w hw).1)
      fun _ w hw _ => ⟨hw.journaled, (hinsert w hw).1⟩)
    fun _ => Ensures.pure fun w hw => hw

theorem finish_held {script : Script} {parts : Option PartsResult} {tusOffset : Option (Option Nat)} :
    Ensures (Held ck.crypto K O a) (finish ck script a F parts tusOffset)
      (fun _ => Held ck.crypto K O a) (fun _ => Held ck.crypto K O a) := by
  unfold finish
  refine Ensures.bind (Q := fun _ => Held ck.crypto K O a)
    (Ensures.request_kept fun w hw => hw.patchAsset fun row => rfl) fun _ => ?_
  exact Ensures.bind (Q := fun _ => Held ck.crypto K O a) (Ensures.request_kept fun w hw => hw)
    fun _ => Ensures.pure fun w hw => hw

theorem upload_journaled (hlaw : ck.crypto.aead.Inverts TAG) {script : Script}
    {events : List TusEvent} {draw : Draw} {o : UploadOpts} :
    Ensures (Fresh ck.crypto K O draw o) (upload ck K script events draw o)
      (fun _ => Journaled ck.crypto K O) (fun _ => Journaled ck.crypto K O) := by
  unfold upload
  refine Ensures.bind (Q := fun _ => Fresh ck.crypto K O draw o)
    (Ensures.request (fun w _ hw _ => hw) (fun w _ hw _ => hw.journaled)
      fun _ w hw _ => ⟨hw.journaled, hw.journaled⟩) fun _ => ?_
  refine Ensures.bind createAsset_held fun r => Ensures.assume fun hgenuine => ?_
  obtain ⟨row, dek⟩ := r
  dsimp only at hgenuine ⊢
  refine Ensures.mono (P := Held ck.crypto K O row) (Q := fun _ => Held ck.crypto K O row)
    (E := fun _ => Held ck.crypto K O row) ?_ (fun w hw => hw)
    (fun _ w hw => hw.journaled) fun _ w hw => hw.journaled
  split
  · refine Ensures.bind (Q := fun _ => Held ck.crypto K O row)
      (Ensures.request_kept fun w hw => ?_) fun c => ?_
    · refine hw.congr ?_ ?_ ?_ ?_
      all_goals
        dsimp only
        unfold World.createMultipartUpload
        split
        · rfl
        · rfl
    · split
      · exact Ensures.fail fun w hw => hw
      · have hcore : ({ row with s3UploadId := c } : AssetRow).core = row.core := rfl
        refine Ensures.mono (P := Held ck.crypto K O { row with s3UploadId := c })
          (Q := fun _ => Held ck.crypto K O { row with s3UploadId := c })
          (E := fun _ => Held ck.crypto K O { row with s3UploadId := c }) ?_
          (fun w hw => hw.of_core hcore.symm) (fun _ w hw => hw.of_core hcore)
          fun _ w hw => hw.of_core hcore
        refine Ensures.bind (Q := fun _ => Held ck.crypto K O { row with s3UploadId := c })
          (Ensures.request_kept fun w hw => hw.patchAsset fun _ => rfl) fun _ => ?_
        exact Ensures.bind (runParts_held hlaw (hgenuine.of_core hcore.symm)) fun _ => finish_held
  · exact Ensures.bind (runTus_held hlaw hgenuine events) fun _ => finish_held

theorem World.getAsset_world (id : String) (w : World) : (w.getAsset id).2 = w := by
  unfold World.getAsset
  split
  · rfl
  · rfl

theorem World.getAsset_ok {id : String} {w : World} (h : (w.getAsset id).1 = .ok a) :
    w.assets.get? id = some a := by
  unfold World.getAsset at h
  split at h
  · rename_i row hget
    cases h
    exact hget
  · cases h

/-- A resume is given the source of the asset, or one of another size, which it
refuses. -/
theorem resume_journaled (hlaw : ck.crypto.aead.Inverts TAG) {script : Script}
    {events : List TusEvent} {tenantId assetId : String} {source : Bytes} {partChunks : Option Nat}
    (hsame : source.length = (O assetId).source.length → source = (O assetId).source) :
    Ensures (Journaled ck.crypto K O) (resume ck K script events tenantId assetId source partChunks)
      (fun _ => Journaled ck.crypto K O) (fun _ => Journaled ck.crypto K O) := by
  unfold resume
  refine Ensures.bind (Q := fun _ => Journaled ck.crypto K O)
    (Ensures.request_kept fun w hw => hw) fun _ => ?_
  refine Ensures.bind (Q := fun a w => (a.id = assetId ∧ Genuine K O (O assetId).source
      (O assetId).dek a) ∧ Held ck.crypto K O a w)
    (Ensures.request (fun w a hw hok => ?_) (fun w e hw _ => ?_) fun _ w hw _ => ?_)
    fun a => Ensures.assume fun hrow => ?_
  · obtain ⟨hid, -, hopens⟩ := hw.rows _ _ (World.getAsset_ok hok)
    rw [World.getAsset_world]
    refine ⟨⟨hid, hopens, by rw [hid]⟩, hw, a, ?_, rfl⟩
    rw [hid]
    exact World.getAsset_ok hok
  · rw [World.getAsset_world]
    exact hw
  · rw [World.getAsset_world]
    exact ⟨hw, hw⟩
  · obtain ⟨hid, hgenuine⟩ := hrow
    refine Ensures.mono (P := Held ck.crypto K O a) (Q := fun _ => Held ck.crypto K O a)
      (E := fun _ => Held ck.crypto K O a) ?_ (fun w hw => hw)
      (fun _ w hw => hw.journaled) fun _ w hw => hw.journaled
    split
    · exact Ensures.fail fun w hw => hw
    · rename_i hsize
      have hsource : source = (O assetId).source := by
        refine hsame ?_
        rw [hgenuine.describes.size]
        exact (not_not.mp hsize).symm
      rw [← hsource] at hgenuine
      refine Ensures.bind (Q := fun dek w => dek = (O assetId).dek ∧ Held ck.crypto K O a w)
        (Ensures.request (fun w dek hw hok => ⟨(hgenuine.eq_of_unwrap hok).2, hw⟩)
          (fun w e hw _ => hw) fun _ w hw _ => ⟨hw, hw⟩)
        fun dek => Ensures.assume fun hdek => ?_
      rw [← hdek] at hgenuine
      split
      · refine Ensures.bind listParts_held fun uploaded => ?_
        exact Ensures.bind (runParts_held hlaw hgenuine) fun _ => finish_held
      · exact Ensures.bind (runTus_held hlaw hgenuine events) fun _ => finish_held

end Calls

end SupabaseLab.ClientKeyed
