/-
  ClientKeyed/ReadBack.lean --- what a ranged read returns.

  The chunk loop is taken once, for any notion of which byte is the true one at
  a plaintext position (`truth`).  It fills the output buffer from left to
  right: before chunk `i`, every position below `i * chunkSize` holds its true
  byte.  An honest store (the truth is the uploaded file) and a malicious one
  (the truth is what the data key sealed) differ only in why a chunk that
  decrypts is the true chunk.
-/
import SupabaseLab.ClientKeyed.Read

set_option autoImplicit false

namespace SupabaseLab.ClientKeyed

open Library

/-! ## The output buffer -/

theorem setAt_ok {buf src out : Bytes} {off : Nat} (h : setAt buf src off = .ok out) :
    out.length = buf.length ∧
      ∀ j, out[j]? = if off ≤ j ∧ j < off + src.length then src[j - off]? else buf[j]? := by
  unfold setAt at h
  split at h
  · cases h
  · rename_i hfit
    cases h
    have hoff : (buf.take off).length = off := by
      rw [List.length_take]
      omega
    refine ⟨?_, ?_⟩
    · simp only [List.length_append, List.length_take, List.length_drop]
      omega
    · intro j
      by_cases hlow : j < off
      · rw [if_neg (by omega), List.append_assoc, List.getElem?_append_left (by omega),
          List.getElem?_take_of_lt hlow]
      · rw [List.append_assoc, List.getElem?_append_right (by omega), hoff]
        by_cases hin : j < off + src.length
        · rw [if_pos ⟨by omega, hin⟩, List.getElem?_append_left (by omega)]
        · rw [if_neg (by omega), List.getElem?_append_right (by omega), List.getElem?_drop]
          congr 1
          omega

theorem setAt_isOk (buf src : Bytes) (off : Nat) (h : off + src.length ≤ buf.length) :
    ∃ out, setAt buf src off = .ok out :=
  ⟨_, if_neg (by omega)⟩

/-! ## The chunk loop -/

section Loop

variable {C : Crypto} {a : AssetRow} {o : ReadOpts} {key : Bytes} {hashes : List ChunkHash}
  {sp : ChunkSpan} {body : Bytes} {start endExcl : Nat}

/-- One chunk of the loop, when it returns normally. -/
theorem decryptLoop_cons_ok {i : Nat} {rest : List Nat} {plain out : Bytes}
    (h : decryptLoop C a o key hashes sp body start endExcl (i :: rest) plain = .ok out) :
    ∃ pt next,
      checkHash C o hashes i (cutChunk a sp body i) = .ok () ∧
      decryptChunk C key (unhex a.noncePrefix) a.id i a.chunkCount (cutChunk a sp body i) =
        .ok pt ∧
      setAt plain
          (slice pt (max start (i * a.chunkSize) - i * a.chunkSize)
            (min endExcl (i * a.chunkSize + pt.length) - i * a.chunkSize))
          (max start (i * a.chunkSize) - start) = .ok next ∧
      decryptLoop C a o key hashes sp body start endExcl rest next = .ok out := by
  rw [decryptLoop] at h
  obtain ⟨_, hhash, h⟩ := bind_eq_ok.mp h
  obtain ⟨pt, hdec, h⟩ := bind_eq_ok.mp h
  obtain ⟨next, hset, h⟩ := bind_eq_ok.mp h
  exact ⟨pt, next, hhash, hdec, hset, h⟩

/-- **The loop is right when its chunks are.**  If every chunk that decrypts has
the length of its place and true bytes, a normal return has a true buffer. -/
theorem decryptLoop_true (truth : Nat → Option UInt8) {first last : Nat}
    (hend : endExcl ≤ a.plaintextSize) (hlast : endExcl ≤ (last + 1) * a.chunkSize)
    (hchunk : ∀ i pt,
      decryptChunk C key (unhex a.noncePrefix) a.id i a.chunkCount (cutChunk a sp body i) =
        .ok pt → first ≤ i → i ≤ last →
      pt.length = plainLen i a.plaintextSize a.chunkSize ∧
        ∀ k, k < pt.length → pt[k]? = truth (i * a.chunkSize + k)) :
    ∀ (n i : Nat) (plain out : Bytes), first ≤ i → i + n = last + 1 →
      plain.length = endExcl - start →
      (∀ j, start + j < endExcl → start + j < i * a.chunkSize → plain[j]? = truth (start + j)) →
      decryptLoop C a o key hashes sp body start endExcl (List.range' i n) plain = .ok out →
      out.length = endExcl - start ∧ ∀ j, start + j < endExcl → out[j]? = truth (start + j) := by
  intro n
  induction n with
  | zero =>
    intro i plain out _ hi hlen hplain h
    cases h
    have hpos : i = last + 1 := by omega
    subst hpos
    exact ⟨hlen, fun j hj => hplain j hj (by omega)⟩
  | succ n ih =>
    intro i plain out hfirst hi hlen hplain h
    rw [List.range'_succ] at h
    obtain ⟨pt, next, _, hdec, hset, hrest⟩ := decryptLoop_cons_ok h
    obtain ⟨hptlen, hpt⟩ := hchunk i pt hdec hfirst (by omega)
    obtain ⟨hnextlen, hnext⟩ := setAt_ok hset
    refine ih (i + 1) next out (by omega) (by omega) (by omega) ?_ hrest
    -- positions of chunk `i` are set now, earlier ones are left alone
    intro j hj hjnext
    rw [Nat.succ_mul] at hjnext
    rw [hnext j]
    rw [plainLen] at hptlen
    by_cases hold : start + j < i * a.chunkSize
    · rw [if_neg (by omega)]
      exact hplain j hj hold
    · rw [if_pos (by simp only [length_slice]; omega), getElem?_slice, if_pos (by omega)]
      have hpos : max start (i * a.chunkSize) - i * a.chunkSize +
          (j - (max start (i * a.chunkSize) - start)) = start + j - i * a.chunkSize := by omega
      rw [hpos, hpt _ (by omega)]
      congr 1
      omega

/-- The loop returns normally when every chunk passes its checks. -/
theorem decryptLoop_isOk {first last : Nat}
    (hle : start ≤ endExcl) (hlast : last * a.chunkSize ≤ endExcl)
    (hchunk : ∀ i, first ≤ i → i ≤ last → ∃ pt,
      checkHash C o hashes i (cutChunk a sp body i) = .ok () ∧
      decryptChunk C key (unhex a.noncePrefix) a.id i a.chunkCount (cutChunk a sp body i) =
        .ok pt) :
    ∀ (n i : Nat) (plain : Bytes), first ≤ i → i + n = last + 1 →
      plain.length = endExcl - start →
      ∃ out, decryptLoop C a o key hashes sp body start endExcl (List.range' i n) plain =
        .ok out := by
  intro n
  induction n with
  | zero => intro i plain _ _ _; exact ⟨plain, rfl⟩
  | succ n ih =>
    intro i plain hfirst hi hlen
    obtain ⟨pt, hhash, hdec⟩ := hchunk i hfirst (by omega)
    have hstart : i * a.chunkSize ≤ endExcl :=
      Nat.le_trans (Nat.mul_le_mul_right _ (by omega)) hlast
    obtain ⟨next, hset⟩ := setAt_isOk plain
      (slice pt (max start (i * a.chunkSize) - i * a.chunkSize)
        (min endExcl (i * a.chunkSize + pt.length) - i * a.chunkSize))
      (max start (i * a.chunkSize) - start)
      (by simp only [length_slice]; omega)
    obtain ⟨out, hout⟩ := ih (i + 1) next (by omega) (by omega) (by rw [(setAt_ok hset).1, hlen])
    refine ⟨out, ?_⟩
    rw [List.range'_succ, decryptLoop]
    simp only [hhash, hdec, hset, ok_bind]
    exact hout

end Loop

/-! ## The steps of a read -/

/-- The steps of a read that returned normally. -/
structure ReadSteps (C : Crypto) (env : ReadEnv) (start endExcl : Int) (o : ReadOpts)
    (a : AssetRow) (dek : Bytes) (sp : ChunkSpan) (got : Fetched) (hashes : List ChunkHash)
    (body plain : Bytes) : Prop where
  session : env.session = .ok ()
  asset : env.asset = .ok a
  complete : a.uploadState = "complete"
  unwrapDek : env.unwrapDek = .ok dek
  span : span start endExcl a.plaintextSize a.chunkSize = .ok sp
  fetch : fetchCipher o.path env.access env.get sp.cStart sp.cEnd = .ok got
  catalogue : (if o.verifyHashes then env.chunkHashes sp.first sp.last else .ok []) = .ok hashes
  window : takeWindow a sp got = .ok body
  total : checkTotal a got = .ok ()
  need : sp.need ≤ body.length
  key : importDek dek = .ok dek
  loop : decryptLoop C a o dek hashes sp body start.toNat endExcl.toNat
    (List.range' sp.first (sp.last + 1 - sp.first)) (List.replicate (endExcl - start).toNat 0) =
      .ok plain
  log : (if o.log then env.logAccess else .ok ()) = .ok ()

theorem importDek_ok {raw key : Bytes} (h : importDek raw = .ok key) : key = raw := by
  unfold importDek at h
  split at h <;> cases h
  rfl

/-- A read returns normally exactly when every step of it does. -/
theorem readRange_eq_ok {C : Crypto} {env : ReadEnv} {start endExcl : Int} {o : ReadOpts}
    {r : ReadResult} : readRange C env start endExcl o = .ok r ↔
      ∃ a dek sp got hashes body plain,
        ReadSteps C env start endExcl o a dek sp got hashes body plain ∧
        r = { plain := plain
              transferred := got.bytes.length
              cipherNeeded := sp.need
              chunks := sp.last - sp.first + 1
              status := got.status
              cacheStatus := got.cacheStatus } := by
  constructor
  · intro h
    rw [readRange] at h
    obtain ⟨_, hsession, h⟩ := bind_eq_ok.mp h
    obtain ⟨a, hasset, h⟩ := bind_eq_ok.mp h
    obtain ⟨_, hstate, h⟩ := bind_eq_ok.mp h
    obtain ⟨dek, hdek, h⟩ := bind_eq_ok.mp h
    obtain ⟨sp, hspan, h⟩ := bind_eq_ok.mp h
    obtain ⟨got, hfetch, h⟩ := bind_eq_ok.mp h
    obtain ⟨hashes, hhashes, h⟩ := bind_eq_ok.mp h
    obtain ⟨body, hwindow, h⟩ := bind_eq_ok.mp h
    obtain ⟨_, htotal, h⟩ := bind_eq_ok.mp h
    obtain ⟨_, hneed, h⟩ := bind_eq_ok.mp h
    obtain ⟨key, hkey, h⟩ := bind_eq_ok.mp h
    obtain ⟨plain, hloop, h⟩ := bind_eq_ok.mp h
    obtain ⟨_, hlog, h⟩ := bind_eq_ok.mp h
    cases h
    cases importDek_ok hkey
    exact ⟨a, dek, sp, got, hashes, body, plain,
      { session := hsession
        asset := hasset
        complete := not_not.mp (refuseIf_eq_ok.mp hstate)
        unwrapDek := hdek
        span := hspan
        fetch := mapError_eq_ok.mp hfetch
        catalogue := hhashes
        window := hwindow
        total := htotal
        need := Nat.not_lt.mp (refuseIf_eq_ok.mp hneed)
        key := hkey
        loop := hloop
        log := hlog }, rfl⟩
  · rintro ⟨a, dek, sp, got, hashes, body, plain, h, rfl⟩
    rw [readRange]
    simp only [h.session, h.asset, h.unwrapDek, h.span, mapError_eq_ok.mpr h.fetch, h.catalogue,
      h.window, h.total, h.key, h.loop, h.log, ok_bind,
      refuseIf_of_not (not_not.mpr h.complete), refuseIf_of_not (Nat.not_lt.mpr h.need)]
    rfl

/-! ## The covering chunks -/

/-- Plaintext position `j` lies in chunk `i`. -/
def InChunk (a : AssetRow) (i j : Nat) : Prop :=
  i * a.chunkSize ≤ j ∧ j < i * a.chunkSize + plainLen i a.plaintextSize a.chunkSize

section Cover

variable {a : AssetRow} {start endExcl : Nat}

theorem InChunk.eq_div {i j : Nat} (h : InChunk a i j) : i = j / a.chunkSize := by
  obtain ⟨hlow, hhigh⟩ := h
  rw [plainLen] at hhigh
  have hc : 0 < a.chunkSize := by omega
  apply Nat.le_antisymm
  · exact (Nat.le_div_iff_mul_le hc).mpr hlow
  · rw [← Nat.lt_succ_iff, Nat.div_lt_iff_lt_mul hc, Nat.succ_mul]
    omega

/-- **`span` is exact**: its chunks are the ones with a byte of the range. -/
theorem span_exact (hc : 0 < a.chunkSize) (hlt : start < endExcl)
    (hle : endExcl ≤ a.plaintextSize) (i : Nat) :
    (start / a.chunkSize ≤ i ∧ i ≤ (endExcl - 1) / a.chunkSize) ↔
      ∃ j, start ≤ j ∧ j < endExcl ∧ InChunk a i j := by
  constructor
  · rintro ⟨hfirst, hlast⟩
    have hstart : start < (i + 1) * a.chunkSize :=
      (Nat.div_lt_iff_lt_mul hc).mp (Nat.lt_succ_of_le hfirst)
    have hstop : i * a.chunkSize ≤ endExcl - 1 := (Nat.le_div_iff_mul_le hc).mp hlast
    rw [Nat.succ_mul] at hstart
    refine ⟨max start (i * a.chunkSize), by omega, by omega, ?_⟩
    rw [InChunk, plainLen]
    omega
  · rintro ⟨j, hstart, hstop, hin⟩
    rw [hin.eq_div]
    exact ⟨Nat.div_le_div_right hstart, Nat.div_le_div_right (by omega)⟩

/-- What `span` answers: chunk `first` holds `start`, chunk `last` ends the
range, and the byte range runs from the start of one to the end of the other. -/
structure ChunkSpan.Covers (sp : ChunkSpan) (a : AssetRow) (start endExcl : Nat) : Prop where
  exact : ∀ i, (sp.first ≤ i ∧ i ≤ sp.last) ↔ ∃ j, start ≤ j ∧ j < endExcl ∧ InChunk a i j
  first_le_start : sp.first * a.chunkSize ≤ start
  first_le_last : sp.first ≤ sp.last
  last_lt_end : sp.last * a.chunkSize < endExcl
  end_le : endExcl ≤ (sp.last + 1) * a.chunkSize
  cStart_eq : sp.cStart = cipherOffset sp.first a.chunkSize
  cEnd_eq : sp.cEnd + 1 =
    cipherOffset sp.last a.chunkSize + plainLen sp.last a.plaintextSize a.chunkSize + TAG

theorem span_covers {sp : ChunkSpan} (hc : 0 < a.chunkSize)
    (hspan : span start endExcl a.plaintextSize a.chunkSize = .ok sp) :
    sp.Covers a start endExcl := by
  obtain ⟨_, hlt, hle, hfirst, hlast, hcStart, hcEnd⟩ := span_ok hspan
  rw [Int.toNat_natCast] at hfirst hlast
  have hlast_lt : (endExcl - 1) / a.chunkSize * a.chunkSize ≤ endExcl - 1 :=
    Nat.div_mul_le_self _ _
  have hend_lt : endExcl - 1 < ((endExcl - 1) / a.chunkSize + 1) * a.chunkSize :=
    (Nat.div_lt_iff_lt_mul hc).mp (Nat.lt_succ_self _)
  refine
    { exact := ?_
      first_le_start := by rw [hfirst]; exact Nat.div_mul_le_self _ _
      first_le_last := by rw [hfirst, hlast]; exact Nat.div_le_div_right (by omega)
      last_lt_end := by rw [hlast]; omega
      end_le := by rw [hlast]; omega
      cStart_eq := hcStart
      cEnd_eq := by rw [hcEnd, TAG]; omega }
  intro i
  rw [hfirst, hlast]
  exact span_exact hc (by omega) (by omega) i

theorem ChunkSpan.Covers.last_lt {sp : ChunkSpan} (h : sp.Covers a start endExcl)
    (hc : 0 < a.chunkSize) (hle : endExcl ≤ a.plaintextSize) :
    sp.last < chunkCount a.plaintextSize a.chunkSize :=
  (lt_chunkCount_iff hc).mpr (.inr (Nat.lt_of_lt_of_le h.last_lt_end hle))

theorem ChunkSpan.Covers.cStart_le {sp : ChunkSpan} (h : sp.Covers a start endExcl) :
    sp.cStart ≤ sp.cEnd := by
  have hoff : cipherOffset sp.first a.chunkSize ≤ cipherOffset sp.last a.chunkSize :=
    Nat.mul_le_mul_right _ h.first_le_last
  have := h.cStart_eq
  have := h.cEnd_eq
  rw [TAG] at this
  omega

end Cover

/-! ## An honest store -/

/-- The row describes the source `src`, as `createAsset` writes it. -/
structure AssetRow.Describes (a : AssetRow) (src : Bytes) : Prop where
  size : src.length = a.plaintextSize
  chunkSize_pos : 0 < a.chunkSize
  count : a.chunkCount = ClientKeyed.chunkCount a.plaintextSize a.chunkSize
  ciphertext : a.ciphertextSize = cipherSize a.plaintextSize a.chunkSize

/-- The answer of a store that has `object` and honours the range. -/
def partialContent (object : Bytes) (cStart cEnd : Nat) : HttpAnswer where
  status := 206
  body := slice object cStart (cEnd + 1)
  contentRange := some (s!"bytes {cStart}-{cEnd}" ++ "/" ++ toString object.length)
  cfCacheStatus := none
  errorCode := ""

/-- The answer of a store that ignores the range. -/
def wholeContent (object : Bytes) : HttpAnswer where
  status := 200
  body := object
  contentRange := none
  cfCacheStatus := none
  errorCode := ""

/-- The environment of a read of a finished upload: the row, its key, the object
and the hashes that were written, and a store that answers in one of its two
ways. -/
structure ReadEnv.Serves (env : ReadEnv) (a : AssetRow) (dek : Bytes) (enc : EncryptedRange) :
    Prop where
  session : env.session = .ok ()
  asset : env.asset = .ok a
  unwrapDek : env.unwrapDek = .ok dek
  access : env.access = .ok ()
  get : ∀ s e, s ≤ e → e < enc.bytes.length →
    env.get s e = .answered (partialContent enc.bytes s e) ∨
      env.get s e = .answered (wholeContent enc.bytes)
  chunkHashes : ∀ first last, env.chunkHashes first last =
    .ok (enc.hashes.filter fun x => first ≤ x.idx ∧ x.idx ≤ last)
  logAccess : env.logAccess = .ok ()

/-- An environment in which all goes well. -/
def ReadEnv.honest (a : AssetRow) (dek : Bytes) (enc : EncryptedRange) : ReadEnv where
  session := .ok ()
  asset := .ok a
  unwrapDek := .ok dek
  access := .ok ()
  get cStart cEnd := .answered (partialContent enc.bytes cStart cEnd)
  chunkHashes first last := .ok (enc.hashes.filter fun x => first ≤ x.idx ∧ x.idx ≤ last)
  logAccess := .ok ()

theorem ReadEnv.honest_serves (a : AssetRow) (dek : Bytes) (enc : EncryptedRange) :
    (ReadEnv.honest a dek enc).Serves a dek enc where
  session := rfl
  asset := rfl
  unwrapDek := rfl
  access := rfl
  get _ _ _ _ := .inl rfl
  chunkHashes _ _ := rfl
  logAccess := rfl

section Honest

variable {C : Crypto} {a : AssetRow} {o : ReadOpts} {env : ReadEnv} {dek src : Bytes}
  {enc : EncryptedRange} {start endExcl : Nat}

/-- Either client takes an answer of 200 or 206 as it is. -/
theorem fetchCipher_answered (path : ReadPath) {access : Except Thrown Unit}
    {get : Nat → Nat → GetAnswer} {cStart cEnd : Nat} {h : HttpAnswer} (haccess : access = .ok ())
    (hget : get cStart cEnd = .answered h) (hstatus : h.status = 200 ∨ h.status = 206) :
    ∃ got, fetchCipher path access get cStart cEnd = .ok got ∧ got.bytes = h.body ∧
      got.status = h.status ∧ got.contentRange = h.contentRange.getD "" := by
  have hhttp : ¬ (h.status ≠ 206 ∧ h.status ≠ 200) := by omega
  have hs3 : ¬ 300 ≤ h.status := by omega
  subst haccess
  cases path with
  | s3 =>
      refine ⟨⟨h.body, h.status, h.contentRange.getD "", ""⟩, ?_, rfl, rfl, rfl⟩
      rw [fetchCipher, ok_bind, hget]
      exact if_neg hs3
  | s3Presigned | signedUrl | authenticated =>
      refine ⟨⟨h.body, h.status, h.contentRange.getD "", h.cfCacheStatus.getD ""⟩, ?_, rfl, rfl,
        rfl⟩
      simp only [fetchCipher, ok_bind, hget]
      exact if_neg hhttp

/-- A body that is the window itself, or the whole object, gives the window. -/
theorem takeWindow_serves {object : Bytes} {sp : ChunkSpan} {got : Fetched}
    (hle : sp.cStart ≤ sp.cEnd) (hend : sp.cEnd < object.length)
    (hlen : a.ciphertextSize = object.length)
    (hgot : got.status = 206 ∧ got.bytes = slice object sp.cStart (sp.cEnd + 1) ∨
      got.status = 200 ∧ got.bytes = object) :
    takeWindow a sp got = .ok (slice object sp.cStart (sp.cEnd + 1)) := by
  rw [takeWindow]
  rcases hgot with ⟨hstatus, hbytes⟩ | ⟨hstatus, hbytes⟩
  · rw [if_neg (by omega), hbytes]
    rfl
  · by_cases hneed : object.length = sp.need
    · -- the window is the whole object
      rw [ChunkSpan.need] at hneed
      have hstart : sp.cStart = 0 := by omega
      have hstop : sp.cEnd + 1 = object.length := by omega
      rw [if_neg (by rw [hbytes, ChunkSpan.need]; omega), hstart, hstop, slice_zero_length, hbytes]
      rfl
    · rw [if_pos ⟨hstatus, by rwa [hbytes]⟩, refuseIf_of_not (by rw [hbytes]; omega), ok_bind,
        hbytes]
      rfl

/-- A store that names its own length passes the total check. -/
theorem checkTotal_serves {object : Bytes} {got : Fetched}
    (hlen : a.ciphertextSize = object.length) (front : String)
    (hrange : got.contentRange = "" ∨ got.contentRange = front ++ "/" ++ toString object.length) :
    checkTotal a got = .ok () := by
  rw [checkTotal]
  rcases hrange with h | h
  · rw [h]
    rfl
  · rw [h, slashNumber?_append, hlen]
    cases hdouble : toDouble object.length with
    | none => simp [hdouble]
    | some total => simp [hdouble, refuseIf]

/-- Both answers of an honest store give the read its window. -/
theorem fetchCipher_serves (hserve : env.Serves a dek enc) {sp : ChunkSpan}
    (hle : sp.cStart ≤ sp.cEnd) (hend : sp.cEnd < enc.bytes.length)
    (hlen : a.ciphertextSize = enc.bytes.length) :
    ∃ got, fetchCipher o.path env.access env.get sp.cStart sp.cEnd = .ok got ∧
      takeWindow a sp got = .ok (slice enc.bytes sp.cStart (sp.cEnd + 1)) ∧
      checkTotal a got = .ok () := by
  rcases hserve.get sp.cStart sp.cEnd hle hend with hget | hget
  · obtain ⟨got, hfetch, hbytes, hstatus, hrange⟩ :=
      fetchCipher_answered o.path hserve.access hget (.inr rfl)
    exact ⟨got, hfetch, takeWindow_serves hle hend hlen (.inl ⟨hstatus, hbytes⟩),
      checkTotal_serves hlen _ (.inr hrange)⟩
  · obtain ⟨got, hfetch, hbytes, hstatus, hrange⟩ :=
      fetchCipher_answered o.path hserve.access hget (.inl rfl)
    exact ⟨got, hfetch, takeWindow_serves hle hend hlen (.inr ⟨hstatus, hbytes⟩),
      checkTotal_serves hlen "" (.inl hrange)⟩

/-- A chunk end inside the range does not pass the range's end. -/
theorem cipherOffset_le_of_le {i last : Nat} (hc : 0 < a.chunkSize) (hle : i ≤ last)
    (hlast : last < chunkCount a.plaintextSize a.chunkSize) :
    cipherOffset i a.chunkSize + plainLen i a.plaintextSize a.chunkSize + TAG ≤
      cipherOffset last a.chunkSize + plainLen last a.plaintextSize a.chunkSize + TAG := by
  rcases Nat.eq_or_lt_of_le hle with rfl | hlt
  · exact Nat.le_refl _
  · have hfull : plainLen i a.plaintextSize a.chunkSize = a.chunkSize :=
      plainLen_of_succ_lt hc (by omega)
    calc cipherOffset i a.chunkSize + plainLen i a.plaintextSize a.chunkSize + TAG
        = cipherOffset (i + 1) a.chunkSize := by
          rw [hfull, cipherOffset, cipherOffset, Nat.succ_mul]
          omega
      _ ≤ cipherOffset last a.chunkSize := Nat.mul_le_mul_right _ hlt
      _ ≤ _ := by omega

/-- Chunk `i`, cut out of the window, is chunk `i` of the object. -/
theorem cutChunk_cipherObject (hlaw : C.aead.Inverts TAG) (hrow : a.Describes src)
    {sp : ChunkSpan} {i : Nat} (hstart : sp.cStart = cipherOffset sp.first a.chunkSize)
    (hend : sp.cEnd + 1 =
      cipherOffset sp.last a.chunkSize + plainLen sp.last a.plaintextSize a.chunkSize + TAG)
    (hfirst : sp.first ≤ i) (hlast : i ≤ sp.last) (hcount : sp.last < a.chunkCount) :
    cutChunk a sp (slice (cipherObject C dek a src) sp.cStart (sp.cEnd + 1)) i =
      cipherChunk C dek a src i := by
  have hoff : sp.cStart + (cipherOffset i a.chunkSize - sp.cStart) = cipherOffset i a.chunkSize := by
    rw [hstart]
    exact Nat.add_sub_cancel' (Nat.mul_le_mul_right _ hfirst)
  have hstop := cipherOffset_le_of_le hrow.chunkSize_pos hlast (by rw [← hrow.count]; exact hcount)
  have hone : slice (cipherObject C dek a src) (cipherOffset i a.chunkSize)
        (cipherOffset i a.chunkSize + plainLen i a.plaintextSize a.chunkSize + TAG) =
      (List.range' i (i + 1 - i)).flatMap (cipherChunk C dek a src) :=
    slice_cipherObject hlaw hrow.chunkSize_pos hrow.size hrow.count (Nat.le_refl i) (by omega)
  rw [Nat.add_sub_cancel_left, List.range'_one, List.flatMap_singleton] at hone
  rw [cutChunk, slice_slice, hoff, ← hone]
  congr 1
  omega

/-- The entry for `i` is found when every entry for `i` says the same. -/
theorem hashOf_eq {hashes : List ChunkHash} {i : Nat} {h : String} (hmem : ⟨i, h⟩ ∈ hashes)
    (hsame : ∀ x ∈ hashes, x.idx = i → x.h = h) : hashOf hashes i = some h := by
  rw [hashOf, Option.map_eq_some_iff]
  have hsome : (hashes.reverse.find? fun x => x.idx = i).isSome := by
    rw [List.find?_isSome]
    exact ⟨⟨i, h⟩, List.mem_reverse.mpr hmem, by simp⟩
  obtain ⟨x, hx⟩ := Option.isSome_iff_exists.mp hsome
  have hidx : x.idx = i := by simpa using List.find?_some hx
  exact ⟨x, hx, hsame x (List.mem_reverse.mp (List.mem_of_find?_eq_some hx)) hidx⟩

/-- The hashes written with a chunk let it pass. -/
theorem checkHash_cipherRange {first last i n : Nat} (hfirst : first ≤ i) (hlast : i ≤ last)
    (hi : i < n) :
    checkHash C o
      ((cipherRange C dek a src 0 n).hashes.filter fun x => first ≤ x.idx ∧ x.idx ≤ last) i
      (cipherChunk C dek a src i) = .ok () := by
  have hfound : hashOf
      ((cipherRange C dek a src 0 n).hashes.filter fun x => first ≤ x.idx ∧ x.idx ≤ last) i =
      some (C.sha256Hex (cipherChunk C dek a src i)) := by
    apply hashOf_eq
    · rw [List.mem_filter, cipherRange, List.mem_map]
      exact ⟨⟨i, by rw [List.mem_range'_1]; omega, rfl⟩, by simp [hfirst, hlast]⟩
    · intro x hx hidx
      obtain ⟨k, _, rfl⟩ := List.mem_map.mp (List.mem_filter.mp hx).1
      cases hidx
      rfl
  rw [checkHash, hfound]
  split
  · simp [refuseIf, C.sha256Hex_ne_empty]
  · rfl

/-- A window that ends with chunk `last` ends inside the object. -/
theorem cEnd_lt_ciphertextSize (hrow : a.Describes src) {sp : ChunkSpan}
    (hcover : sp.Covers a start endExcl) (hle : endExcl ≤ a.plaintextSize) :
    sp.cEnd < a.ciphertextSize := by
  have hlast := hcover.last_lt hrow.chunkSize_pos hle
  have hlt := Nat.lt_of_lt_of_le hcover.last_lt_end hle
  have hend := hcover.cEnd_eq
  rw [cipherOffset, plainLen, TAG, Nat.mul_add] at hend
  rw [hrow.ciphertext, cipherSize, TAG]
  omega

theorem decryptChunk_cipherChunk (hlaw : C.aead.Inverts TAG)
    (hnonce : (unhex a.noncePrefix).length = 8) (i : Nat) :
    decryptChunk C dek (unhex a.noncePrefix) a.id i a.chunkCount (cipherChunk C dek a src i) =
      .ok (tile a.chunkSize src i) :=
  decryptChunk_eq hnonce (hlaw.decrypt_encrypt _ _ _ _)

/-- A normal return of the uploader's encryption is the whole ciphertext. -/
theorem encryptRange_ok (hrow : a.Describes src)
    (henc : encryptRange C dek a src 0 (a.chunkCount - 1) = .ok enc) :
    (unhex a.noncePrefix).length = 8 ∧ enc = cipherRange C dek a src 0 a.chunkCount := by
  have hpos : 0 < a.chunkCount := by
    rw [hrow.count]
    exact chunkCount_pos _ _
  have hlast : a.chunkCount - 1 + 1 - 0 = a.chunkCount := by omega
  have hnonce : (unhex a.noncePrefix).length = 8 := by
    rw [encryptRange, hlast, ← Nat.succ_pred_eq_of_pos hpos, List.range'_succ, encryptLoop] at henc
    obtain ⟨iv, hiv, _⟩ := bind_eq_ok.mp henc
    exact (nonce_ok hiv).1
  have heq : encryptRange C dek a src 0 (a.chunkCount - 1) =
      .ok (cipherRange C dek a src 0 (a.chunkCount - 1 + 1 - 0)) :=
    encryptRange_eq hnonce hrow.size 0 (a.chunkCount - 1)
  rw [hlast, henc] at heq
  exact ⟨hnonce, Except.ok.inj heq⟩

/-- The check of every covering chunk passes, with the catalogue asked or not. -/
theorem checks_serve (hserve : env.Serves a dek enc)
    (henc : enc = cipherRange C dek a src 0 a.chunkCount) {sp : ChunkSpan}
    (hcount : sp.last < a.chunkCount) :
    ∃ hashes, (if o.verifyHashes then env.chunkHashes sp.first sp.last else .ok []) = .ok hashes ∧
      ∀ i, sp.first ≤ i → i ≤ sp.last →
        checkHash C o hashes i (cipherChunk C dek a src i) = .ok () := by
  subst henc
  by_cases hverify : o.verifyHashes
  · refine ⟨_, by rw [if_pos hverify, hserve.chunkHashes], ?_⟩
    intro i hfirst hlast
    exact checkHash_cipherRange hfirst hlast (by omega)
  · refine ⟨[], if_neg hverify, ?_⟩
    intro i _ _
    rw [checkHash, if_neg hverify]

/-- The loop over the window of an honest store gives the range of the source. -/
theorem decryptLoop_serves (hlaw : C.aead.Inverts TAG) (hrow : a.Describes src)
    (hnonce : (unhex a.noncePrefix).length = 8) {sp : ChunkSpan} {hashes : List ChunkHash}
    {body : Bytes} (hcover : sp.Covers a start endExcl) (hle : endExcl ≤ a.plaintextSize)
    (hlt : start < endExcl)
    (hcut : ∀ i, sp.first ≤ i → i ≤ sp.last → cutChunk a sp body i = cipherChunk C dek a src i)
    (hchecks : ∀ i, sp.first ≤ i → i ≤ sp.last →
      checkHash C o hashes i (cipherChunk C dek a src i) = .ok ()) :
    decryptLoop C a o dek hashes sp body start endExcl
        (List.range' sp.first (sp.last + 1 - sp.first)) (List.replicate (endExcl - start) 0) =
      .ok (slice src start endExcl) := by
  have hdec : ∀ i, sp.first ≤ i → i ≤ sp.last →
      decryptChunk C dek (unhex a.noncePrefix) a.id i a.chunkCount (cutChunk a sp body i) =
        .ok (tile a.chunkSize src i) := by
    intro i hfirst hlast
    rw [hcut i hfirst hlast]
    exact decryptChunk_cipherChunk hlaw hnonce i
  have hsteps : sp.first + (sp.last + 1 - sp.first) = sp.last + 1 := by
    have := hcover.first_le_last
    omega
  obtain ⟨out, hout⟩ : ∃ out, decryptLoop C a o dek hashes sp body start endExcl
      (List.range' sp.first (sp.last + 1 - sp.first)) (List.replicate (endExcl - start) 0) =
        .ok out := decryptLoop_isOk (Nat.le_of_lt hlt) (Nat.le_of_lt hcover.last_lt_end)
    (fun i hfirst hlast =>
      ⟨_, by rw [hcut i hfirst hlast]; exact hchecks i hfirst hlast, hdec i hfirst hlast⟩)
    (sp.last + 1 - sp.first) sp.first (List.replicate (endExcl - start) 0) (Nat.le_refl _) hsteps
    List.length_replicate
  obtain ⟨houtlen, htrue⟩ := decryptLoop_true (fun j => src[j]?) hle hcover.end_le
    (fun i pt hpt hfirst hlast => by
      rw [hdec i hfirst hlast] at hpt
      cases hpt
      refine ⟨by rw [length_tile, plainLen, hrow.size], fun k hk => getElem?_tile ?_⟩
      rw [length_tile] at hk
      omega)
    (sp.last + 1 - sp.first) sp.first _ out (Nat.le_refl _) hsteps List.length_replicate
    (fun j hj hlow => by have := hcover.first_le_start; omega) hout
  rw [hout]
  congr 1
  apply List.ext_getElem?
  intro j
  rw [getElem?_slice]
  by_cases hj : start + j < endExcl
  · rw [if_pos hj, htrue j hj]
  · rw [if_neg hj, List.getElem?_eq_none (by omega)]

/-- **A ranged read undoes the upload.**  Every range of a finished upload is
covered by exactly the chunks `span` names, the one ranged GET fetches exactly
the bytes of those chunks, the loop cuts them at the joints the uploader made,
and the value returned is the range of the source. -/
theorem readRange_undoes_upload (hlaw : C.aead.Inverts TAG) (hrow : a.Describes src)
    (hstate : a.uploadState = "complete") (hdek : dek.length = 32)
    (henc : encryptRange C dek a src 0 (a.chunkCount - 1) = .ok enc)
    (hserve : env.Serves a dek enc) (hlt : start < endExcl) (hle : endExcl ≤ src.length) :
    ∃ sp got body r,
      span start endExcl a.plaintextSize a.chunkSize = .ok sp ∧
      (∀ i, (sp.first ≤ i ∧ i ≤ sp.last) ↔ ∃ j, start ≤ j ∧ j < endExcl ∧ InChunk a i j) ∧
      fetchCipher o.path env.access env.get sp.cStart sp.cEnd = .ok got ∧
      takeWindow a sp got = .ok body ∧
      sp.cEnd < enc.bytes.length ∧ body = slice enc.bytes sp.cStart (sp.cEnd + 1) ∧
      body = (List.range' sp.first (sp.last + 1 - sp.first)).flatMap (cutChunk a sp body) ∧
      (∀ i, sp.first ≤ i → i ≤ sp.last →
        encryptChunk C dek (unhex a.noncePrefix) a.id i a.chunkCount (tile a.chunkSize src i) =
            .ok (cutChunk a sp body i) ∧
          (cutChunk a sp body i).length = plainLen i a.plaintextSize a.chunkSize + TAG) ∧
      readRange C env start endExcl o = .ok r ∧ r.plain = slice src start endExcl := by
  obtain ⟨hnonce, henc⟩ := encryptRange_ok hrow henc
  have hc := hrow.chunkSize_pos
  have hobject : enc.bytes = cipherObject C dek a src := by
    rw [henc, cipherRange, cipherObject, List.range_eq_range']
  rw [hrow.size] at hle
  -- the request: a window that lies in the object
  obtain ⟨sp, hspan⟩ : ∃ sp, span start endExcl a.plaintextSize a.chunkSize = .ok sp :=
    ⟨_, span_eq hlt hle⟩
  have hcover := span_covers hc hspan
  have hcount : sp.last < a.chunkCount := by
    rw [hrow.count]
    exact hcover.last_lt hc hle
  have hlen : enc.bytes.length = a.ciphertextSize := by
    rw [hobject, hrow.ciphertext]
    exact length_cipherObject hlaw hc hrow.size hrow.count
  have hin : sp.cEnd < enc.bytes.length := by
    rw [hlen]
    exact cEnd_lt_ciphertextSize hrow hcover hle
  -- the answer: joined chunks, cut at their joints
  obtain ⟨got, hfetch, htake, htotal⟩ :=
    fetchCipher_serves (o := o) hserve hcover.cStart_le hin hlen.symm
  have hcut : ∀ i, sp.first ≤ i → i ≤ sp.last →
      cutChunk a sp (slice enc.bytes sp.cStart (sp.cEnd + 1)) i = cipherChunk C dek a src i := by
    intro i hfirst hlast
    rw [hobject]
    exact cutChunk_cipherObject hlaw hrow hcover.cStart_eq hcover.cEnd_eq hfirst hlast hcount
  have hwindow : slice enc.bytes sp.cStart (sp.cEnd + 1) =
      (List.range' sp.first (sp.last + 1 - sp.first)).flatMap (cipherChunk C dek a src) := by
    rw [hobject, hcover.cStart_eq, hcover.cEnd_eq]
    exact slice_cipherObject hlaw hc hrow.size hrow.count hcover.first_le_last hcount
  obtain ⟨hashes, hhashes, hchecks⟩ := checks_serve (o := o) hserve henc hcount
  have hloop := decryptLoop_serves hlaw hrow hnonce hcover hle hlt hcut hchecks
  refine ⟨sp, got, _, _, hspan, hcover.exact, hfetch, htake, hin, rfl, ?_, ?_,
    readRange_eq_ok.mpr ⟨a, dek, sp, got, hashes, _, _,
      { session := hserve.session
        asset := hserve.asset
        complete := hstate
        unwrapDek := hserve.unwrapDek
        span := hspan
        fetch := hfetch
        catalogue := hhashes
        window := htake
        total := htotal
        need := ?_
        key := ?_
        loop := ?_
        log := ?_ }, rfl⟩, rfl⟩
  · calc slice enc.bytes sp.cStart (sp.cEnd + 1)
        = (List.range' sp.first (sp.last + 1 - sp.first)).flatMap (cipherChunk C dek a src) :=
          hwindow
      _ = _ := List.flatMap_congr fun i hi => by
          obtain ⟨hfirst, hlast⟩ := List.mem_range'_1.mp hi
          exact (hcut i hfirst (by omega)).symm
  · intro i hfirst hlast
    rw [hcut i hfirst hlast, encryptChunk, nonce_eq hnonce]
    exact ⟨rfl, length_cipherChunk_eq hlaw hrow.size i⟩
  · rw [length_slice_of_le hin, ChunkSpan.need]
    have := hcover.cStart_le
    omega
  · rw [importDek, if_pos (by rw [hdek]; decide)]
  · have hbuf : ((endExcl : Int) - (start : Int)).toNat = endExcl - start := by omega
    rw [Int.toNat_natCast, Int.toNat_natCast, hbuf]
    exact hloop
  · rw [hserve.logAccess, ite_self]

end Honest

/-- A transparent stand-in for the platform: nothing is hidden, everything is
bound. -/
def plainCrypto : Crypto where
  aead := Aead.checksum
  sha256 u := (u ++ List.replicate 32 0).take 32
  length_sha256 u := by simp
  md5Hex := some hex

/-- Five bytes in chunks of two. -/
def fiveByteRow : AssetRow where
  id := "a1"
  recordId := "r1"
  tenantId := "t1"
  objectKey := "t1/a1/data"
  plaintextSize := 5
  chunkSize := 2
  chunkCount := 3
  ciphertextSize := 53
  cipher := CIPHER
  keyId := "keysvc:v1:t1"
  wrappedDek := ""
  noncePrefix := hex [1, 2, 3, 4, 5, 6, 7, 8]
  plaintextSha256 := none
  uploadState := "complete"
  uploadMethod := some "s3-multipart"
  s3UploadId := none
  tusUrl := none

theorem fiveByteRow_describes : fiveByteRow.Describes [10, 20, 30, 40, 50] where
  size := rfl
  chunkSize_pos := by decide
  count := by decide
  ciphertext := by decide

/-- Bytes 1, 2, 3 of five straddle two chunks. -/
theorem readRange_undoes_upload_fiveBytes :
    ∃ r, readRange plainCrypto
        (ReadEnv.honest fiveByteRow (List.replicate 32 7)
          (cipherRange plainCrypto (List.replicate 32 7) fiveByteRow [10, 20, 30, 40, 50] 0 3))
        1 4 { path := .signedUrl } = .ok r ∧ r.plain = [20, 30, 40] := by
  obtain ⟨_, _, _, r, _, _, _, _, _, _, _, _, hread, hplain⟩ :=
    readRange_undoes_upload (o := { path := .signedUrl }) Aead.checksum_lawful.toInverts
      fiveByteRow_describes rfl (List.length_replicate)
      (show encryptRange plainCrypto (List.replicate 32 7) fiveByteRow [10, 20, 30, 40, 50] 0 2 = _
        from encryptRange_eq (by rw [fiveByteRow, unhex_hex]; rfl) rfl 0 2)
      (ReadEnv.honest_serves _ _ _) (show 1 < 4 by decide) (by decide)
  exact ⟨r, hread, hplain⟩

end SupabaseLab.ClientKeyed
