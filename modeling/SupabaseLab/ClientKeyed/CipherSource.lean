/-
  ClientKeyed/CipherSource.lean --- what the tus library reads is the ciphertext.

  Source: `CipherSource` of client/src/upload.ts.

  The library asks for byte ranges, forward, again, or from an earlier offset after a
  retry.  A range is cut out of chunks that are encrypted when they are first asked
  for and kept as long as the cache keeps them.  What any call returns depends on the
  range alone: the cache only ever holds chunks of the one ciphertext.
-/
import SupabaseLab.ClientKeyed.Journal

set_option autoImplicit false

namespace SupabaseLab.ClientKeyed

open Library Process

/-! ## The source -/

structure CipherSource where
  a : AssetRow
  key : Bytes
  src : Bytes
  cache : KeyMap Nat Bytes := .empty

structure SliceAnswer where
  value : Bytes
  done : Bool
  deriving DecidableEq, Repr

/-- A call of `slice`, and what becomes of the catalogue requests it makes, by chunk. -/
structure SliceCall where
  start : Nat
  stop : Nat
  fates : Nat → Fate Thrown

/-- The loop of `slice` over its output buffer, given at most `turns` turns; `none` when it is
not over by then. -/
def sliceLoop (ck : Ck) (a : AssetRow) (key src : Bytes) (fates : Nat → Fate Thrown)
    (start stop : Nat) : Nat → Nat → KeyMap Nat Bytes → Bytes →
      Client (Option (Except Thrown Bytes) × KeyMap Nat Bytes)
  | 0, pos, cache, out => return (if pos < stop then none else some (.ok out), cache)
  | turns + 1, pos, cache, out =>
      if pos < stop then do
        let i := pos / (a.chunkSize + TAG)
        match ← sourceChunk ck a key src fates cache i with
        | (.error e, cache) => return (some (.error e), cache)
        | (.ok c, cache) =>
            let off := pos - cipherOffset i a.chunkSize
            let n := min (c.length - off) (stop - pos)
            match setAt out (Library.slice c off (off + n)) (pos - start) with
            | .error e => return (some (.error e), cache)
            | .ok out => sliceLoop ck a key src fates start stop turns (pos + n) cache out
      else return (some (.ok out), cache)

/-- `CipherSource.slice`. -/
def CipherSource.slice (ck : Ck) (turns : Nat) (s : CipherSource) (call : SliceCall) :
    Client (Option (Except Thrown SliceAnswer) × CipherSource) := do
  let stop := min call.stop s.a.ciphertextSize
  let (out, cache) ← sliceLoop ck s.a s.key s.src call.fates call.start stop turns call.start s.cache
    (List.replicate (stop - call.start) 0)
  return (out.map fun out => out.map fun out =>
    { value := out
      done := s.a.ciphertextSize ≤ stop }, { s with cache := cache })

/-- One call after the other. -/
def CipherSource.run (ck : Ck) (turns : Nat) :
    List SliceCall → CipherSource → Client (List (Option (Except Thrown SliceAnswer)))
  | [], _ => return []
  | call :: calls, s => do
      let (answer, s) ← s.slice ck turns call
      let answers ← CipherSource.run ck turns calls s
      return answer :: answers

/-! ## One chunk -/

section View

variable {ck : Ck} {a : AssetRow} {dek F : Bytes} {fates : Nat → Fate Thrown} {present : Bool}

/-- The cache holds chunks of the ciphertext. -/
def CacheOf (C : Crypto) (dek : Bytes) (a : AssetRow) (F : Bytes) (cache : KeyMap Nat Bytes) : Prop :=
  ∀ i b, cache.get? i = some b → b = cipherChunk C dek a F i

/-- The catalogue has a row of the asset, or has none. -/
def RowThere (a : AssetRow) (present : Bool) (w : World) : Prop := w.assets.has a.id = present

/-- The hash of chunk `i` could not be put in the catalogue. -/
def HashFails (fates : Nat → Fate Thrown) (present : Bool) (i : Nat) : Prop :=
  present = false ∨ fates i ≠ .answered

/-- What `chunk(i)` may answer. -/
def ChunkAnswer (C : Crypto) (dek : Bytes) (a : AssetRow) (F : Bytes) (fates : Nat → Fate Thrown)
    (present : Bool) (i : Nat) : Except Thrown Bytes → Prop
  | .ok c => c = cipherChunk C dek a F i
  | .error _ => HashFails fates present i

theorem RowThere.upsertChunks {w : World} (hw : RowThere a present w) (hashes : List ChunkHash) :
    RowThere a present (w.upsertChunks a.id hashes).2 := by
  unfold World.upsertChunks
  split
  · exact hw
  · split
    · exact hw
    · exact hw

theorem upsertChunks_views (i : Nat) (hashes : List ChunkHash) :
    Ensures (RowThere a present) (request (fates i) (World.upsertChunks a.id hashes))
      (fun _ => RowThere a present) fun _ w => HashFails fates present i ∧ RowThere a present w := by
  refine Ensures.request (fun w _ hw _ => hw.upsertChunks hashes) (fun w e hw herror => ?_)
    fun hne w hw stop => ⟨⟨.inr hne, hw⟩, .inr hne, hw.upsertChunks hashes⟩
  refine ⟨.inl ?_, hw.upsertChunks hashes⟩
  unfold World.upsertChunks at herror
  split at herror
  · cases herror
  · split at herror
    · cases herror
    · rename_i hmissing
      rw [← hw]
      exact Bool.eq_false_iff.mpr hmissing

theorem CacheOf.set {C : Crypto} {cache : KeyMap Nat Bytes} (h : CacheOf C dek a F cache) (i : Nat) :
    CacheOf C dek a F (cache.set i (cipherChunk C dek a F i)) := by
  intro j b hb
  rw [KeyMap.get?_set] at hb
  split at hb
  · rename_i hj
    cases hb
    rw [hj]
  · exact h j b hb

theorem CacheOf.evict {C : Crypto} {cache : KeyMap Nat Bytes} (h : CacheOf C dek a F cache)
    (l : List Nat) : CacheOf C dek a F (l.foldl KeyMap.delete cache) :=
  fun i b hb => h i b (get?_foldl_delete hb)

theorem sourceChunk_views (hnonce : (unhex a.noncePrefix).length = 8) (hsize : F.length = a.plaintextSize)
    {cache : KeyMap Nat Bytes} (hcache : CacheOf ck.crypto dek a F cache) (i : Nat) :
    Ensures (RowThere a present) (sourceChunk ck a dek F fates cache i)
      (fun r w => (ChunkAnswer ck.crypto dek a F fates present i r.1 ∧ CacheOf ck.crypto dek a F r.2) ∧
        RowThere a present w)
      (fun stop _ => stop = .crashed ∧ HashFails fates present i) := by
  unfold sourceChunk
  split
  · rename_i hit hget
    exact Ensures.pure fun w hw => ⟨⟨hcache i hit hget, hcache⟩, hw⟩
  · have hbytes : (cipherRange ck.crypto dek a F i 1).bytes = cipherChunk ck.crypto dek a F i := by
      rw [cipherRange, List.range'_one]
      exact List.flatMap_singleton _ _
    rw [encryptRange_eq hnonce hsize, Nat.add_sub_cancel_left]
    dsimp only
    rw [hbytes]
    refine Ensures.bind (Q := fun _ => RowThere a present) (Ensures.note fun w hw => hw) fun _ => ?_
    refine Ensures.bind (Q := fun r w => (∀ e, r = .error e → HashFails fates present i) ∧
      RowThere a present w) (Ensures.attempt ?_) fun r => Ensures.assume fun hr => ?_
    · refine (upsertChunks_views i _).mono (fun w hw => hw) (fun _ w hw => ⟨fun e he => ?_, hw⟩)
        fun stop w hw => ?_
      · cases he
      · cases stop with
        | threw e => exact ⟨fun _ _ => hw.1, hw.2⟩
        | crashed => exact ⟨rfl, hw.1⟩
    · cases r with
      | error e => exact Ensures.pure fun w hw => ⟨⟨hr e rfl, hcache⟩, hw⟩
      | ok _ => exact Ensures.pure fun w hw => ⟨⟨rfl, (hcache.set i).evict _⟩, hw⟩

/-! ## One call -/

/-- The buffer is filled up to `pos`. -/
structure Filled (object : Bytes) (start stop pos : Nat) (out : Bytes) : Prop where
  length : out.length = stop - start
  reached : start ≤ pos
  within : pos ≤ max start stop
  bytes : ∀ j, start + j < pos → out[j]? = object[start + j]?

theorem Filled.start (object : Bytes) (start stop : Nat) :
    Filled object start stop start (List.replicate (stop - start) 0) where
  length := List.length_replicate
  reached := Nat.le_refl start
  within := Nat.le_max_left start stop
  bytes j hj := absurd hj (by omega)

/-- A buffer that is full is the range. -/
theorem Filled.full {object out : Bytes} {start stop pos : Nat} (h : Filled object start stop pos out)
    (hpos : ¬ pos < stop) : out = Library.slice object start stop := by
  apply List.ext_getElem?
  intro j
  rw [getElem?_slice]
  by_cases hj : start + j < stop
  · rw [if_pos hj, h.bytes j (by omega)]
  · rw [if_neg hj, List.getElem?_eq_none (by rw [h.length]; omega)]

/-- The chunk that is asked for at a position ends beyond it. -/
theorem lt_chunk_end (hlaw : ck.crypto.aead.Inverts TAG) (hrow : a.Describes F) {pos : Nat}
    (h : pos < a.ciphertextSize) :
    pos < cipherOffset (pos / (a.chunkSize + TAG)) a.chunkSize +
      (cipherChunk ck.crypto dek a F (pos / (a.chunkSize + TAG))).length := by
  have hi := lt_chunkCount_of_position hrow h
  have hmod : pos < (pos / (a.chunkSize + TAG) + 1) * (a.chunkSize + TAG) :=
    (Nat.div_lt_iff_lt_mul (by rw [TAG]; omega)).mp (Nat.lt_succ_self _)
  generalize pos / (a.chunkSize + TAG) = i at hi hmod ⊢
  rw [← blockStart_eq_cipherOffset hlaw hrow dek hi, ← blockStart_succ]
  rcases Nat.lt_or_ge (i + 1) a.chunkCount with hnext | hlast
  · rw [blockStart_eq_cipherOffset hlaw hrow dek hnext]
    exact hmod
  · have hend : i + 1 = a.chunkCount := by omega
    have hlen : blockStart (cipherChunk ck.crypto dek a F) a.chunkCount = a.ciphertextSize :=
      (length_cipherObject hlaw hrow.chunkSize_pos hrow.size hrow.count).trans hrow.ciphertext.symm
    rw [hend, hlen]
    exact h

/-- The chunk has the bytes of its place. -/
theorem getElem?_cipherChunk (hlaw : ck.crypto.aead.Inverts TAG) (hrow : a.Describes F) {i k : Nat}
    (hi : i < a.chunkCount) (hk : k < (cipherChunk ck.crypto dek a F i).length) :
    (cipherChunk ck.crypto dek a F i)[k]? =
      (cipherObject ck.crypto dek a F)[cipherOffset i a.chunkSize + k]? := by
  have hone : (List.range' i 1).flatMap (cipherChunk ck.crypto dek a F) = _ := chunks_eq_slice hlaw hrow hi
  rw [List.range'_one, List.flatMap_singleton] at hone
  calc (cipherChunk ck.crypto dek a F i)[k]?
      = (Library.slice (cipherObject ck.crypto dek a F) (cipherOffset i a.chunkSize)
          (cipherOffset i a.chunkSize + (cipherChunk ck.crypto dek a F i).length))[k]? := by rw [← hone]
    _ = _ := by rw [getElem?_slice, if_pos (by omega)]

/-- One turn of the loop: it takes a byte at least, and they are the next ones. -/
theorem Filled.turn (hlaw : ck.crypto.aead.Inverts TAG) (hrow : a.Describes F) {start stop pos : Nat}
    {out : Bytes} (h : Filled (cipherObject ck.crypto dek a F) start stop pos out) (hpos : pos < stop)
    (hstop : stop ≤ a.ciphertextSize) {i off n : Nat} (hi : i = pos / (a.chunkSize + TAG))
    (hoff : off = pos - cipherOffset i a.chunkSize)
    (hn : n = min ((cipherChunk ck.crypto dek a F i).length - off) (stop - pos)) :
    0 < n ∧ ∃ next, setAt out (Library.slice (cipherChunk ck.crypto dek a F i) off (off + n))
        (pos - start) = .ok next ∧
      Filled (cipherObject ck.crypto dek a F) start stop (pos + n) next := by
  have hin : pos < a.ciphertextSize := Nat.lt_of_lt_of_le hpos hstop
  have hend : pos < cipherOffset (pos / (a.chunkSize + TAG)) a.chunkSize +
      (cipherChunk ck.crypto dek a F (pos / (a.chunkSize + TAG))).length :=
    lt_chunk_end hlaw hrow hin
  have hcount := lt_chunkCount_of_position hrow hin
  have hbegin : cipherOffset i a.chunkSize ≤ pos := by
    rw [hi]
    exact Nat.div_mul_le_self _ _
  rw [← hi] at hend hcount
  obtain ⟨hlen, hreached, hwithin, hbytes⟩ := h
  have hpiece : (Library.slice (cipherChunk ck.crypto dek a F i) off (off + n)).length = n := by
    rw [length_slice]
    omega
  obtain ⟨next, hset⟩ := setAt_isOk out
    (Library.slice (cipherChunk ck.crypto dek a F i) off (off + n)) (pos - start) (by omega)
  obtain ⟨hnextlen, hnext⟩ := setAt_ok hset
  refine ⟨by omega, next, hset, ?_⟩
  refine { length := by omega, reached := by omega, within := by omega, bytes := fun j hj => ?_ }
  rw [hnext j, hpiece]
  by_cases hnew : pos - start ≤ j
  · rw [if_pos ⟨hnew, by omega⟩, getElem?_slice, if_pos (by omega),
      getElem?_cipherChunk hlaw hrow hcount (by omega)]
    congr 1
    omega
  · rw [if_neg (by omega)]
    exact hbytes j (by omega)

/-- What the loop may come to. -/
def LoopAnswer (object : Bytes) (a : AssetRow) (fates : Nat → Fate Thrown) (present : Bool)
    (start stop : Nat) : Option (Except Thrown Bytes) → Prop
  | none => False
  | some (.ok out) => out = Library.slice object start stop
  | some (.error _) => ∃ x, start ≤ x ∧ x < stop ∧ HashFails fates present (x / (a.chunkSize + TAG))

/-- **The loop ends**, with the range or with what a request for one of its chunks threw. -/
theorem sliceLoop_views (hlaw : ck.crypto.aead.Inverts TAG) (hrow : a.Describes F)
    (hnonce : (unhex a.noncePrefix).length = 8) {start stop : Nat} (hstop : stop ≤ a.ciphertextSize)
    (turns pos : Nat) {cache : KeyMap Nat Bytes} {out : Bytes} (hturns : stop - pos ≤ turns)
    (hcache : CacheOf ck.crypto dek a F cache)
    (hout : Filled (cipherObject ck.crypto dek a F) start stop pos out) :
    Ensures (RowThere a present) (sliceLoop ck a dek F fates start stop turns pos cache out)
      (fun r w => (LoopAnswer (cipherObject ck.crypto dek a F) a fates present start stop r.1 ∧
        CacheOf ck.crypto dek a F r.2) ∧ RowThere a present w)
      (fun stop' _ => stop' = .crashed ∧ ∃ i, HashFails fates present i) := by
  induction turns generalizing pos cache out with
  | zero =>
    have hover : ¬ pos < stop := by omega
    rw [sliceLoop, if_neg hover]
    exact Ensures.pure fun w hw => ⟨⟨hout.full hover, hcache⟩, hw⟩
  | succ turns ih =>
    rw [sliceLoop]
    split
    · rename_i hpos
      dsimp only
      refine Ensures.bind ((sourceChunk_views hnonce hrow.size hcache _).mono (fun w hw => hw)
        (fun _ _ hw => hw) fun stop' w hw => ⟨hw.1, _, hw.2⟩) fun r => Ensures.assume fun hr => ?_
      obtain ⟨(e | c), cache'⟩ := r
      · exact Ensures.pure fun w hw => ⟨⟨⟨pos, hout.reached, hpos, hr.1⟩, hr.2⟩, hw⟩
      · obtain ⟨rfl, hcache'⟩ := hr
        obtain ⟨hn, next, hset, hnext⟩ := hout.turn hlaw hrow hpos hstop rfl rfl rfl
        dsimp only
        rw [hset]
        exact ih _ (by omega) hcache' hnext
    · rename_i hover
      exact Ensures.pure fun w hw => ⟨⟨hout.full hover, hcache⟩, hw⟩

/-! ## Histories of calls -/

/-- A pure view: the range of the ciphertext as far as it goes, and whether that is its end.
A call that could not put a hash of its chunks in the catalogue throws. -/
def ViewOf (object : Bytes) (a : AssetRow) (present : Bool) (call : SliceCall) :
    Option (Except Thrown SliceAnswer) → Prop
  | none => False
  | some (.ok r) =>
      r.value = Library.slice object call.start (min call.stop object.length) ∧
        (r.done = true ↔ object.length ≤ call.stop)
  | some (.error _) => ∃ x, call.start ≤ x ∧ x < min call.stop object.length ∧
      HashFails call.fates present (x / (a.chunkSize + TAG))

/-- What no call changes in a source, and what its cache may hold. -/
structure SourceOf (C : Crypto) (dek : Bytes) (a : AssetRow) (F : Bytes) (s : CipherSource) : Prop where
  row : s.a = a
  key : s.key = dek
  src : s.src = F
  cache : CacheOf C dek a F s.cache

theorem SourceOf.fresh {C : Crypto} : SourceOf C dek a F { a := a, key := dek, src := F } :=
  ⟨rfl, rfl, rfl, fun _ _ hb => nomatch hb⟩

theorem slice_views (hlaw : ck.crypto.aead.Inverts TAG) (hrow : a.Describes F)
    (hnonce : (unhex a.noncePrefix).length = 8) {turns : Nat} {s : CipherSource}
    (hs : SourceOf ck.crypto dek a F s) (call : SliceCall)
    (hturns : min call.stop a.ciphertextSize - call.start ≤ turns) :
    Ensures (RowThere a present) (s.slice ck turns call)
      (fun r w => (ViewOf (cipherObject ck.crypto dek a F) a present call r.1 ∧
        SourceOf ck.crypto dek a F r.2) ∧ RowThere a present w)
      (fun stop' _ => stop' = .crashed ∧ ∃ i, HashFails call.fates present i) := by
  obtain ⟨rfl, rfl, rfl, hcache⟩ := hs
  have hlen : (cipherObject ck.crypto s.key s.a s.src).length = s.a.ciphertextSize :=
    (length_cipherObject hlaw hrow.chunkSize_pos hrow.size hrow.count).trans hrow.ciphertext.symm
  rw [CipherSource.slice]
  refine Ensures.bind (sliceLoop_views hlaw hrow hnonce (Nat.min_le_right _ _) turns call.start hturns
    hcache (.start _ _ _)) fun r => Ensures.assume fun hr => ?_
  obtain ⟨out, cache⟩ := r
  refine Ensures.pure fun w hw => ⟨⟨?_, rfl, rfl, rfl, hr.2⟩, hw⟩
  match out, hr.1 with
  | some (.ok out), hout =>
    refine ⟨hout.trans (by rw [hlen]), ?_⟩
    rw [hlen]
    exact decide_eq_true_iff.trans (by omega)
  | some (.error e), herror =>
    obtain ⟨x, hstart, hstop, hfails⟩ := herror
    exact ⟨x, hstart, by rw [hlen]; exact hstop, hfails⟩

theorem run_views (hlaw : ck.crypto.aead.Inverts TAG) (hrow : a.Describes F)
    (hnonce : (unhex a.noncePrefix).length = 8) {turns : Nat} {s : CipherSource}
    (hs : SourceOf ck.crypto dek a F s) (calls : List SliceCall)
    (hturns : ∀ call ∈ calls, min call.stop a.ciphertextSize - call.start ≤ turns) :
    Ensures (RowThere a present) (CipherSource.run ck turns calls s)
      (fun answers _ => List.Forall₂ (ViewOf (cipherObject ck.crypto dek a F) a present) calls answers)
      (fun stop _ => stop = .crashed ∧ ∃ call ∈ calls, ∃ i, HashFails call.fates present i) := by
  induction calls generalizing s with
  | nil => exact Ensures.pure fun _ _ => .nil
  | cons call calls ih =>
    rw [CipherSource.run]
    refine Ensures.bind ((slice_views hlaw hrow hnonce hs call (hturns call List.mem_cons_self)).mono
      (fun w hw => hw) (fun _ _ hw => hw) fun stop w hw => ⟨hw.1, call, List.mem_cons_self, hw.2⟩)
      fun r => Ensures.assume fun hr => ?_
    refine Ensures.bind ((ih hr.2 fun c hc => hturns c (List.mem_cons_of_mem _ hc)).mono
      (fun w hw => hw) (fun _ _ hw => hw) fun stop w hw => ⟨hw.1, ?_⟩)
      fun answers => Ensures.pure fun _ hall => .cons hr.1 hall
    obtain ⟨c, hc, hfails⟩ := hw.2
    exact ⟨c, List.mem_cons_of_mem _ hc, hfails⟩

/-- **`slice` is a pure view of the ciphertext.**  Whatever calls came before, the loop of a
call ends, and it returns its range of the ciphertext; only where the catalogue did not take
the hash of one of its chunks does it throw, or does the process end there. -/
theorem slices_are_views (hlaw : ck.crypto.aead.Inverts TAG) (hrow : a.Describes F)
    (hnonce : (unhex a.noncePrefix).length = 8) (calls : List SliceCall) {turns : Nat}
    (hturns : ∀ call ∈ calls, min call.stop a.ciphertextSize - call.start ≤ turns) (w : World) :
    (∃ answers w', CipherSource.run ck turns calls { a := a, key := dek, src := F } w = (.ok answers, w') ∧
      List.Forall₂ (ViewOf (cipherObject ck.crypto dek a F) a (w.assets.has a.id)) calls answers) ∨
    ∃ w', CipherSource.run ck turns calls { a := a, key := dek, src := F } w = (.error .crashed, w') ∧
      ∃ call ∈ calls, ∃ i, HashFails call.fates (w.assets.has a.id) i := by
  have hrun : Ensures (RowThere a (w.assets.has a.id))
      (CipherSource.run ck turns calls { a := a, key := dek, src := F }) _ _ :=
    run_views hlaw hrow hnonce .fresh calls hturns
  have hrun := hrun w rfl
  revert hrun
  rcases CipherSource.run ck turns calls { a := a, key := dek, src := F } w with ⟨stop | answers, w'⟩
  · rintro ⟨rfl, hfails⟩
    exact .inr ⟨w', rfl, hfails⟩
  · exact fun hall => .inl ⟨answers, w', rfl, hall⟩

end View

/-- A range across two chunks, the rest and more, and a jump back. -/
def jumpingCalls : List SliceCall :=
  [⟨0, 20, fun _ => .answered⟩, ⟨20, 100, fun _ => .answered⟩, ⟨5, 30, fun _ => .answered⟩]

/-- A world with the row of five bytes. -/
def fiveByteWorld : World := { World.empty with assets := KeyMap.empty.set "a1" fiveByteRow }

theorem fiveByteWorld_has : fiveByteWorld.assets.has fiveByteRow.id = true := by
  rw [KeyMap.has_eq]
  rfl

theorem slices_are_views_jumping :
    ∃ answers w', CipherSource.run ⟨plainCrypto, true⟩ 100 jumpingCalls
        { a := fiveByteRow, key := List.replicate 32 7, src := [10, 20, 30, 40, 50] }
        fiveByteWorld = (.ok answers, w') ∧
      List.Forall₂ (ViewOf (cipherObject plainCrypto (List.replicate 32 7) fiveByteRow
        [10, 20, 30, 40, 50]) fiveByteRow true) jumpingCalls answers := by
  have hturns : ∀ call ∈ jumpingCalls, min call.stop fiveByteRow.ciphertextSize - call.start ≤ 100 := by
    intro call _
    show min call.stop 53 - call.start ≤ 100
    omega
  have hnonce : (unhex fiveByteRow.noncePrefix).length = 8 := by
    rw [fiveByteRow, unhex_hex]
    rfl
  have hrun : (∃ answers w', CipherSource.run ⟨plainCrypto, true⟩ 100 jumpingCalls
      { a := fiveByteRow, key := List.replicate 32 7, src := [10, 20, 30, 40, 50] }
      fiveByteWorld = (.ok answers, w') ∧ _) ∨ _ :=
    slices_are_views Aead.checksum_lawful.toInverts fiveByteRow_describes hnonce jumpingCalls hturns
      fiveByteWorld
  rw [fiveByteWorld_has] at hrun
  rcases hrun with hviews | ⟨_, -, call, hcall, i, hmissing | hunanswered⟩
  · exact hviews
  · cases hmissing
  · have hall : ∀ c ∈ jumpingCalls, c.fates = fun _ => .answered := by simp [jumpingCalls]
    exact absurd (congrFun (hall call hcall) i) hunanswered

end SupabaseLab.ClientKeyed
