/-
  ClientKeyed/ReadWorld.lean --- reading back what is stored.

  Source: `readRange` and `readAll` of client/src/read.ts, over the world that the
  uploads leave.

  A full read of an object that is the ciphertext of a source gives the source, and
  nothing else does: a cipher that opens a chunk to a plaintext has only one
  ciphertext for it.
-/
import SupabaseLab.ClientKeyed.Journal

set_option autoImplicit false

namespace SupabaseLab.ClientKeyed

open Library

/-! ## The environment of a read -/

/-- The answer of a store that has `object`: the bytes of the range that are there, or
that there are none. -/
def rangeAnswer (object : Bytes) (cStart cEnd : Nat) : HttpAnswer :=
  if cStart < object.length then partialContent object cStart (min cEnd (object.length - 1))
  else
    { status := 416
      body := []
      contentRange := none
      cfCacheStatus := none
      errorCode := "InvalidRange" }

def noSuchKey : HttpAnswer where
  status := 404
  body := []
  contentRange := none
  cfCacheStatus := none
  errorCode := "NoSuchKey"

/-- A reader of the tenant, in a world where every service answers. -/
def World.readEnv (K : Platform) (tenantId id : String) (w : World) : ReadEnv where
  session := .ok ()
  asset := (w.getAsset id).1
  unwrapDek := (w.getAsset id).1.bind fun a => K.unwrap tenantId a.wrappedDek
  access := .ok ()
  get cStart cEnd := .answered <|
    match (w.assets.get? id).bind fun a => w.objects.get? a.objectKey with
    | some object => rangeAnswer object cStart cEnd
    | none => noSuchKey
  chunkHashes first last := .ok <|
    (List.range' first (last + 1 - first)).filterMap fun i =>
      (w.chunks.get? (id, i)).map fun h => ⟨i, h⟩
  logAccess := .ok ()

/-- A complete asset, with the hashes of the chunks of `G` and some object. -/
structure Stored (C : Crypto) (K : Platform) (G dek : Bytes) (id : String) (a : AssetRow)
    (object : Bytes) (w : World) : Prop where
  row : w.assets.get? id = some a
  complete : a.uploadState = "complete"
  opens : Opens K G a dek
  hashes : ∀ i < a.chunkCount, w.chunks.get? (id, i) = some (C.sha256Hex (cipherChunk C dek a G i))
  plaintext : a.plaintextSha256 = some (C.sha256Hex G)
  object : w.objects.get? a.objectKey = some object

section Read

variable {C : Crypto} {K : Platform} {G dek object : Bytes} {id : String} {a : AssetRow} {w : World}
  {o : ReadOpts} {start endExcl : Nat}

theorem Stored.asset (h : Stored C K G dek id a object w) :
    (w.readEnv K a.tenantId id).asset = .ok a := by
  unfold World.readEnv World.getAsset
  rw [h.row]

theorem Stored.unwrapDek (h : Stored C K G dek id a object w) :
    (w.readEnv K a.tenantId id).unwrapDek = .ok dek := by
  unfold World.readEnv World.getAsset
  rw [h.row]
  exact h.opens.unwrap

theorem Stored.get (h : Stored C K G dek id a object w) (cStart cEnd : Nat) :
    (w.readEnv K a.tenantId id).get cStart cEnd = .answered (rangeAnswer object cStart cEnd) := by
  unfold World.readEnv
  dsimp only
  rw [h.row, Option.bind_some, h.object]

/-! ## A ciphertext is read back -/

/-- The hashes in the catalogue let the chunks of `G` pass. -/
theorem Stored.checks (h : Stored C K G dek id a object w) {first last : Nat}
    (hcount : last < a.chunkCount) :
    ∃ hashes, (if o.verifyHashes then (w.readEnv K a.tenantId id).chunkHashes first last
        else .ok []) = .ok hashes ∧
      ∀ i, first ≤ i → i ≤ last → checkHash C o hashes i (cipherChunk C dek a G i) = .ok () := by
  by_cases hverify : o.verifyHashes
  · refine ⟨_, if_pos hverify, fun i hfirst hlast => ?_⟩
    have hfound : hashOf ((List.range' first (last + 1 - first)).filterMap fun i =>
        (w.chunks.get? (id, i)).map fun h => (⟨i, h⟩ : ChunkHash)) i =
        some (C.sha256Hex (cipherChunk C dek a G i)) := by
      refine hashOf_eq (List.mem_filterMap.mpr ⟨i, List.mem_range'_1.mpr ⟨hfirst, by omega⟩, ?_⟩)
        fun x hx hidx => ?_
      · rw [h.hashes i (by omega)]
        rfl
      · obtain ⟨j, -, hj⟩ := List.mem_filterMap.mp hx
        obtain ⟨y, hy, rfl⟩ := Option.map_eq_some_iff.mp hj
        change j = i at hidx
        subst hidx
        rw [h.hashes j (by omega)] at hy
        exact (Option.some.inj hy).symm
    rw [checkHash, if_pos hverify, hfound]
    dsimp only
    rw [refuseIf_of_not (C.sha256Hex_ne_empty _), refuseIf_of_not (not_not.mpr rfl)]
    rfl
  · refine ⟨[], if_neg hverify, fun i _ _ => ?_⟩
    rw [checkHash, if_neg hverify]

/-- A range of a stored ciphertext is read back. -/
theorem Stored.readRange_returns (hlaw : C.aead.Inverts TAG)
    (h : Stored C K G dek id a (cipherObject C dek a G) w) (hlt : start < endExcl)
    (hle : endExcl ≤ a.plaintextSize) :
    ∃ r, readRange C (w.readEnv K a.tenantId id) start endExcl o = .ok r ∧
      r.plain = slice G start endExcl := by
  have hrow := h.opens.describes
  have hc := hrow.chunkSize_pos
  obtain ⟨sp, hspan⟩ : ∃ sp, span start endExcl a.plaintextSize a.chunkSize = .ok sp :=
    ⟨_, span_eq hlt hle⟩
  have hcover := span_covers hc hspan
  have hcount : sp.last < a.chunkCount := by
    rw [hrow.count]
    exact hcover.last_lt hc hle
  have hlen : (cipherObject C dek a G).length = a.ciphertextSize := by
    rw [hrow.ciphertext]
    exact length_cipherObject hlaw hc hrow.size hrow.count
  have hin : sp.cEnd < (cipherObject C dek a G).length := by
    rw [hlen]
    exact cEnd_lt_ciphertextSize hrow hcover hle
  have hget : (w.readEnv K a.tenantId id).get sp.cStart sp.cEnd =
      .answered (partialContent (cipherObject C dek a G) sp.cStart sp.cEnd) := by
    have hstart := hcover.cStart_le
    rw [h.get, rangeAnswer, if_pos (by omega), Nat.min_eq_left (by omega)]
  obtain ⟨got, hfetch, hbytes, hstatus, hrange⟩ :=
    fetchCipher_answered o.path (show (w.readEnv K a.tenantId id).access = .ok () from rfl) hget
      (.inr rfl)
  obtain ⟨hashes, hhashes, hchecks⟩ := @Stored.checks _ _ _ _ _ _ _ _ o h sp.first _ hcount
  have hloop := decryptLoop_serves hlaw hrow h.opens.noncePrefix hcover hle hlt
    (fun i hfirst hlast => cutChunk_cipherObject hlaw hrow hcover.cStart_eq hcover.cEnd_eq hfirst
      hlast hcount) hchecks
  refine ⟨_, readRange_eq_ok.mpr ⟨a, dek, sp, got, hashes, _, _,
    { session := rfl
      asset := h.asset
      complete := h.complete
      unwrapDek := h.unwrapDek
      span := hspan
      fetch := hfetch
      catalogue := hhashes
      window := takeWindow_serves hcover.cStart_le hin hlen.symm (.inl ⟨hstatus, hbytes⟩)
      total := checkTotal_serves hlen.symm _ (.inr hrange)
      need := ?_
      key := if_pos (by rw [h.opens.keyLength]; decide)
      loop := ?_
      log := ite_self _ }, rfl⟩, rfl⟩
  · rw [length_slice_of_le hin, ChunkSpan.need]
    have := hcover.cStart_le
    omega
  · have hbuf : ((endExcl : Int) - (start : Int)).toNat = endExcl - start := by omega
    rw [Int.toNat_natCast, Int.toNat_natCast, hbuf]
    exact hloop

/-- Reading it all: the windows are read one after the other, and are the source. -/
theorem Stored.readWindows_returns (hlaw : C.aead.Inverts TAG)
    (h : Stored C K G dek id a (cipherObject C dek a G) w) {step : Nat} (hstep : 0 < step) (n : Nat)
    (hn : ∀ i < n, i * step < a.plaintextSize) :
    ∀ first, first ≤ n → ∃ reads, readWindows C (fun _ => w.readEnv K a.tenantId id) o
        a.plaintextSize step ((List.range' first (n - first)).map (· * step)) = .ok reads ∧
      reads.flatMap (·.plain) = (List.range' first (n - first)).flatMap (tile step G) := by
  intro first hfirst
  induction hk : n - first generalizing first with
  | zero => exact ⟨[], rfl, rfl⟩
  | succ k ih =>
    have hlt := hn first (by omega)
    obtain ⟨r, hr, hplain⟩ := h.readRange_returns (o := o) hlaw
      (show first * step < min a.plaintextSize (first * step + step) by omega)
      (Nat.min_le_left _ _)
    obtain ⟨reads, hreads, hrest⟩ := ih (first + 1) (by omega) (by omega)
    refine ⟨r :: reads, ?_, ?_⟩
    · rw [List.range'_succ, List.map_cons, readWindows]
      simp only [hr, ok_bind, hreads]
      rfl
    · rw [List.flatMap_cons, hrest, hplain, List.range'_succ, List.flatMap_cons, tile,
        ← h.opens.describes.size, Nat.min_comm, slice_min_length, Nat.succ_mul]

theorem Stored.readAll_returns (hlaw : C.aead.Inverts TAG)
    (h : Stored C K G dek id a (cipherObject C dek a G) w) {windowChunks : Nat}
    (hwindow : 0 < windowChunks) :
    ∃ r, readAll C (w.readEnv K a.tenantId id) (fun _ => w.readEnv K a.tenantId id) o windowChunks =
      .ok r ∧ r.plain = G := by
  have hrow := h.opens.describes
  have hstep : 0 < windowChunks * a.chunkSize := Nat.mul_pos hwindow hrow.chunkSize_pos
  generalize hs : windowChunks * a.chunkSize = step at hstep
  have hn : ∀ i < (a.plaintextSize + step - 1) / step, i * step < a.plaintextSize := by
    intro i hi
    have := (Nat.le_div_iff_mul_le hstep).mp (Nat.succ_le_of_lt hi)
    rw [Nat.succ_mul] at this
    omega
  obtain ⟨reads, hreads, hplain⟩ := h.readWindows_returns (o := { o with log := false }) hlaw hstep
    _ hn 0 (Nat.zero_le _)
  have hsource : reads.flatMap (·.plain) = G := by
    rw [hplain, Nat.sub_zero, ← List.range_eq_range']
    refine flatMap_tile_range ?_
    have hdiv := Nat.div_add_mod (a.plaintextSize + step - 1) step
    have hmod := Nat.mod_lt (a.plaintextSize + step - 1) hstep
    rw [Nat.mul_comm] at hdiv
    rw [hrow.size]
    omega
  have hasset := h.asset
  rw [Nat.sub_zero, ← List.range_eq_range'] at hreads
  refine ⟨⟨C.sha256Hex G, (reads.map (·.transferred)).sum, G⟩, ?_, rfl⟩
  unfold readAll windowStarts
  rw [show (w.readEnv K a.tenantId id).session = .ok () from rfl, ok_bind, hasset, ok_bind]
  dsimp only
  rw [hs, hreads, ok_bind, hsource, show (w.readEnv K a.tenantId id).logAccess = .ok () from rfl,
    ok_bind, refuseIf_of_not (not_not.mpr h.plaintext.symm), ok_bind]
  rfl

/-! ## Nothing else is -/

/-- The loop over one chunk: it opens, and what it opens to is what is returned. -/
theorem decryptLoop_one {key body plain : Bytes} {hashes : List ChunkHash} {sp : ChunkSpan} {i : Nat}
    (hlen : ∀ pt, decryptChunk C key (unhex a.noncePrefix) a.id i a.chunkCount
      (cutChunk a sp body i) = .ok pt → i * a.chunkSize + pt.length = endExcl)
    (hstart : start = i * a.chunkSize)
    (h : decryptLoop C a o key hashes sp body start endExcl [i]
      (List.replicate (endExcl - start) 0) = .ok plain) :
    decryptChunk C key (unhex a.noncePrefix) a.id i a.chunkCount (cutChunk a sp body i) =
      .ok plain := by
  obtain ⟨pt, next, -, hdec, hset, hdone⟩ := decryptLoop_cons_ok h
  cases hdone
  have hpt := hlen pt hdec
  rw [hdec]
  congr 1
  obtain ⟨houtlen, hout⟩ := setAt_ok hset
  rw [List.length_replicate] at houtlen
  refine List.ext_getElem? fun j => ?_
  rw [hout j, length_slice, getElem?_slice]
  have hmax : max start (i * a.chunkSize) = i * a.chunkSize := by omega
  have hmin : min endExcl (i * a.chunkSize + pt.length) = i * a.chunkSize + pt.length := by omega
  rw [hmax, hmin, hstart, Nat.sub_self, Nat.add_sub_cancel_left]
  by_cases hj : j < pt.length
  · have hin : 0 ≤ j ∧ j < 0 + (min pt.length pt.length - 0) := by omega
    rw [if_pos hin, if_pos (by omega)]
    congr 1
    omega
  · have hout : ¬ (0 ≤ j ∧ j < 0 + (min pt.length pt.length - 0)) := by omega
    rw [if_neg hout, List.getElem?_eq_none (by omega), List.getElem?_eq_none]
    rw [List.length_replicate]
    omega

/-- What a read that returns was answered: a part of the object, with its length. -/
theorem Stored.fetched (h : Stored C K G dek id a object w) {b : AssetRow} {key body plain : Bytes}
    {sp : ChunkSpan} {got : Fetched} {hashes : List ChunkHash} {first endInt : Int}
    (hsteps : ReadSteps C (w.readEnv K a.tenantId id) first endInt o b key sp got hashes body plain) :
    sp.cStart < object.length ∧
      body = slice object sp.cStart (min sp.cEnd (object.length - 1) + 1) ∧
      got.contentRange =
        (partialContent object sp.cStart (min sp.cEnd (object.length - 1))).contentRange.getD "" := by
  have hwithin : sp.cStart < object.length := by
    by_contra hnot
    have hfetch := hsteps.fetch
    unfold fetchCipher at hfetch
    rw [show (w.readEnv K a.tenantId id).access = .ok () from rfl, ok_bind] at hfetch
    rw [h.get, rangeAnswer, if_neg hnot] at hfetch
    cases hpath : o.path with
    | s3 =>
      rw [hpath] at hfetch
      cases hfetch
    | s3Presigned | signedUrl | authenticated =>
      rw [hpath] at hfetch
      cases hfetch
  obtain ⟨got', hfetch, hbytes, hstatus, hrange⟩ :=
    fetchCipher_answered o.path (show (w.readEnv K a.tenantId id).access = .ok () from rfl)
      (h.get sp.cStart sp.cEnd) (by rw [rangeAnswer, if_pos hwithin]; exact .inr rfl)
  have hgot : got' = got := Except.ok.inj (hfetch.symm.trans hsteps.fetch)
  subst hgot
  rw [rangeAnswer, if_pos hwithin] at hbytes hstatus hrange
  refine ⟨hwithin, ?_, hrange⟩
  have hwindow := hsteps.window
  rw [takeWindow, if_neg fun hand => (by rw [hstatus] at hand; cases hand.1)] at hwindow
  rw [← Except.ok.inj hwindow, hbytes]
  rfl

/-- What a read of chunk `i` alone shows of the object. -/
theorem Stored.readRange_chunk (hlaw : C.aead.Lawful TAG) (h : Stored C K G dek id a object w)
    {i : Nat} (hi : i * a.chunkSize < a.plaintextSize) {r : ReadResult}
    (hr : readRange C (w.readEnv K a.tenantId id) (i * a.chunkSize : Nat)
      (min a.plaintextSize (i * a.chunkSize + a.chunkSize) : Nat) o = .ok r) :
    r.plain.length = plainLen i a.plaintextSize a.chunkSize ∧
      C.aead.encrypt dek (unhex a.noncePrefix ++ uint32be i) (aad a.id i a.chunkCount) r.plain =
        slice object (cipherOffset i a.chunkSize)
          (cipherOffset i a.chunkSize + plainLen i a.plaintextSize a.chunkSize + TAG) ∧
      (toDouble object.length = none ∨ toDouble object.length = toDouble a.ciphertextSize) := by
  have hc := h.opens.describes.chunkSize_pos
  obtain ⟨b, key, sp, got, hashes, body, plain, hsteps, rfl⟩ := readRange_eq_ok.mp hr
  have hb : b = a := by
    have := hsteps.asset.symm.trans h.asset
    exact Except.ok.inj this
  subst hb
  have hkey : key = dek := by
    have := hsteps.unwrapDek.symm.trans h.unwrapDek
    exact Except.ok.inj this
  subst hkey
  have hplainLen : plainLen i b.plaintextSize b.chunkSize =
      min b.plaintextSize (i * b.chunkSize + b.chunkSize) - i * b.chunkSize := by
    rw [plainLen]
    omega
  -- the one covering chunk
  have hcover := span_covers hc hsteps.span
  obtain ⟨-, -, -, hfirst, hlast, -, -⟩ := span_ok hsteps.span
  rw [Int.toNat_natCast] at hfirst hlast
  have hfirst : sp.first = i := by rw [hfirst, Nat.mul_div_cancel _ hc]
  have hlast : sp.last = i := by
    rw [hlast]
    refine Nat.div_eq_of_lt_le (by omega) ?_
    rw [Nat.succ_mul]
    omega
  have hcStart := hcover.cStart_eq
  have hcEnd := hcover.cEnd_eq
  rw [hfirst] at hcStart
  rw [hlast] at hcEnd
  -- the answer was a part of the object, and all of the window
  obtain ⟨hwithin, hbody, hrange⟩ := h.fetched hsteps
  have hneed := hsteps.need
  rw [hbody, length_slice, ChunkSpan.need] at hneed
  have hwhole : body = slice object (cipherOffset i b.chunkSize)
      (cipherOffset i b.chunkSize + plainLen i b.plaintextSize b.chunkSize + TAG) := by
    rw [hbody, ← hcEnd, ← hcStart]
    congr 1
    omega
  have hbodyLen : body.length = plainLen i b.plaintextSize b.chunkSize + TAG := by
    rw [hwhole, length_slice, ← hcEnd, ← hcStart]
    omega
  have hcut : cutChunk b sp body i = body := by
    rw [cutChunk, hcStart, Nat.sub_self, Nat.zero_add]
    conv_rhs => rw [← slice_zero_length body, hbodyLen]
  -- it opens to the plaintext that is returned
  have hopen : ∀ pt, decryptChunk C key (unhex b.noncePrefix) b.id i b.chunkCount
      (cutChunk b sp body i) = .ok pt →
      C.aead.encrypt key (unhex b.noncePrefix ++ uint32be i) (aad b.id i b.chunkCount) pt = body ∧
        pt.length = plainLen i b.plaintextSize b.chunkSize := by
    intro pt hpt
    obtain ⟨-, hdec⟩ := decryptChunk_ok hpt
    rw [hcut] at hdec
    have henc := hlaw.encrypt_of_decrypt _ _ _ _ _ hdec
    have hlen := hlaw.length_encrypt key (unhex b.noncePrefix ++ uint32be i)
      (aad b.id i b.chunkCount) pt
    rw [henc, hbodyLen] at hlen
    exact ⟨henc, by omega⟩
  have hloop := hsteps.loop
  rw [hfirst, hlast, Nat.add_sub_cancel_left, List.range'_one, Int.toNat_natCast, Int.toNat_natCast,
    show ((min b.plaintextSize (i * b.chunkSize + b.chunkSize) : Nat) - (i * b.chunkSize : Nat) :
      Int).toNat = min b.plaintextSize (i * b.chunkSize + b.chunkSize) - i * b.chunkSize by omega]
    at hloop
  obtain ⟨henc, hlen⟩ := hopen plain (decryptLoop_one (fun pt hpt => by
    rw [(hopen pt hpt).2]
    omega) rfl hloop)
  refine ⟨hlen, henc.trans hwhole, ?_⟩
  have htotal := hsteps.total
  rw [checkTotal, hrange, partialContent, Option.getD_some, slashNumber?_append,
    Option.bind_some] at htotal
  cases hdouble : toDouble object.length with
  | none => exact .inl rfl
  | some total =>
    rw [hdouble] at htotal
    exact .inr (not_not.mp (refuseIf_eq_ok.mp htotal))

/-- A full read chunk by chunk: where it gives the source, the object has the ciphertext
of each chunk in its place. -/
theorem Stored.readWindows_chunks (hlaw : C.aead.Lawful TAG) (h : Stored C K G dek id a object w)
    {n : Nat} (hn : ∀ i < n, i * a.chunkSize < a.plaintextSize) :
    ∀ first, first ≤ n → ∀ reads, readWindows C (fun _ => w.readEnv K a.tenantId id) o
        a.plaintextSize a.chunkSize ((List.range' first (n - first)).map (· * a.chunkSize)) =
          .ok reads →
      reads.flatMap (·.plain) = (List.range' first (n - first)).flatMap (tile a.chunkSize G) →
      ∀ i, first ≤ i → i < n →
        slice object (cipherOffset i a.chunkSize)
            (cipherOffset i a.chunkSize + plainLen i a.plaintextSize a.chunkSize + TAG) =
          cipherChunk C dek a G i ∧
        (toDouble object.length = none ∨ toDouble object.length = toDouble a.ciphertextSize) := by
  intro first hfirst
  induction hk : n - first generalizing first with
  | zero =>
    intro reads _ _ i hlow hhigh
    omega
  | succ k ih =>
    intro reads hreads hplain i hlow hhigh
    rw [List.range'_succ, List.map_cons, readWindows] at hreads
    obtain ⟨r, hr, hreads⟩ := bind_eq_ok.mp hreads
    obtain ⟨rest, hrest, hreads⟩ := bind_eq_ok.mp hreads
    cases hreads
    obtain ⟨hlen, henc, htotal⟩ := h.readRange_chunk hlaw (hn first (by omega)) hr
    rw [List.range'_succ, List.flatMap_cons, List.flatMap_cons] at hplain
    have htile : r.plain.length = (tile a.chunkSize G first).length := by
      rw [hlen, length_tile, h.opens.describes.size, plainLen]
    obtain ⟨hhead, htail⟩ := List.append_inj hplain htile
    by_cases hi : i = first
    · subst hi
      rw [← henc, hhead]
      exact ⟨rfl, htotal⟩
    · exact ih (first + 1) (by omega) (by omega) rest hrest htail i (by omega) hhigh

/-- Only the ciphertext of the source is read back as the source. -/
theorem Stored.object_eq (hlaw : C.aead.Lawful TAG) (h : Stored C K G dek id a object w)
    (hsize : 0 < a.plaintextSize) (hcipher : a.ciphertextSize < 2 ^ 53)
    (hobject : object.length + object.length < doubleLimit) {r : ReadAllResult}
    (hr : readAll C (w.readEnv K a.tenantId id) (fun _ => w.readEnv K a.tenantId id) o 1 = .ok r)
    (hplain : r.plain = G) : object = cipherObject C dek a G := by
  have hrow := h.opens.describes
  have hc := hrow.chunkSize_pos
  have hcount : a.chunkCount = (a.plaintextSize + a.chunkSize - 1) / a.chunkSize := by
    rw [hrow.count, chunkCount]
    exact Nat.max_eq_right (Nat.div_pos (by omega) hc)
  have hn : ∀ i < a.chunkCount, i * a.chunkSize < a.plaintextSize := by
    intro i hi
    rw [hcount] at hi
    have := (Nat.le_div_iff_mul_le hc).mp (Nat.succ_le_of_lt hi)
    rw [Nat.succ_mul] at this
    omega
  have hcover : G.length ≤ a.chunkCount * a.chunkSize := by
    rw [hrow.count, hrow.size]
    exact le_chunkCount_mul hc
  -- the reads of the windows, which are the chunks
  unfold readAll at hr
  rw [show (w.readEnv K a.tenantId id).session = .ok () from rfl, ok_bind, h.asset, ok_bind] at hr
  dsimp only at hr
  rw [Nat.one_mul, windowStarts, ← hcount, List.range_eq_range'] at hr
  obtain ⟨reads, hreads, hr⟩ := bind_eq_ok.mp hr
  obtain ⟨-, -, hr⟩ := bind_eq_ok.mp hr
  obtain ⟨-, -, hr⟩ := bind_eq_ok.mp hr
  cases hr
  have hchunks := h.readWindows_chunks hlaw hn 0 (Nat.zero_le _) reads (by rwa [Nat.sub_zero]) (by
    rw [Nat.sub_zero, ← List.range_eq_range', flatMap_tile_range hcover]
    exact hplain)
  have hstart : ∀ i < a.chunkCount, blockStart (cipherChunk C dek a G) i =
      cipherOffset i a.chunkSize := fun i hi =>
    blockStart_cipherChunk hlaw.toInverts hc hrow.size (hrow.count ▸ hi)
  have hblocks := slice_eq_blocks (f := cipherChunk C dek a G) (l := object) (n := a.chunkCount)
    fun i hi => by
      rw [blockStart_succ, length_cipherChunk_eq hlaw.toInverts hrow.size, hstart i hi,
        ← Nat.add_assoc]
      exact (hchunks i (Nat.zero_le i) hi).1
  have hlen : object.length = a.ciphertextSize := by
    refine eq_of_toDouble hcipher hobject (hchunks 0 (Nat.zero_le 0) ?_).2
    rw [hrow.count]
    exact chunkCount_pos _ _
  have hstop : blockStart (cipherChunk C dek a G) a.chunkCount = object.length := by
    rw [hlen, hrow.ciphertext]
    exact length_cipherObject hlaw.toInverts hc hrow.size hrow.count
  rw [hstop, slice_zero_length] at hblocks
  exact hblocks

end Read

end SupabaseLab.ClientKeyed
