/-
  ClientKeyed/Ciphertext.lean --- asset rows, and the ciphertext of a source.

  Source: client/src/catalogue.ts (`AssetRow`), the checks of `app.assets` in
  supabase/migrations/20261012000001_catalogue.sql, and `encryptRange` of
  client/src/upload.ts.

  `encryptRange` is what the uploader runs.  `cipherChunk` and `cipherObject`
  name what it writes: chunk `i` of the ciphertext, and all of it.  A record of
  the sealings made stands beside the bytes, because encrypting a chunk again
  is an event even when the bytes come out the same.
-/
import SupabaseLab.ClientKeyed.Envelope

set_option autoImplicit false

namespace SupabaseLab.ClientKeyed

open Library

/-! ## Asset rows -/

/-- `AssetRow`, as the Data API returns it. -/
structure AssetRow where
  id : String
  recordId : String
  tenantId : String
  objectKey : String
  plaintextSize : Nat
  chunkSize : Nat
  chunkCount : Nat
  ciphertextSize : Nat
  cipher : String
  keyId : String
  wrappedDek : String
  noncePrefix : String
  plaintextSha256 : Option String
  uploadState : String
  uploadMethod : Option String
  s3UploadId : Option String
  tusUrl : Option String
  deriving DecidableEq, Repr

/-- The largest value of an `integer` column. -/
def int4Max : Nat := 2147483647

/-- The largest value of a `bigint` column. -/
def int8Max : Nat := 9223372036854775807

/-- What the column types and check constraints of `app.assets` let in: sizes in
range, a positive chunk size, and the key shape, cipher, state and method the
constraints list. -/
def AssetRow.Checked (a : AssetRow) : Prop :=
  a.plaintextSize ≤ int8Max ∧ 0 < a.chunkSize ∧ a.chunkSize ≤ int4Max ∧
    a.chunkCount ≤ int4Max ∧ a.ciphertextSize ≤ int8Max ∧ a.cipher = CIPHER ∧
    a.uploadState ∈ ["pending", "uploading", "complete", "failed"] ∧
    (∀ m ∈ a.uploadMethod, m ∈ ["s3-multipart", "tus"]) ∧
    a.objectKey = a.tenantId ++ "/" ++ a.id ++ "/data"

instance (a : AssetRow) : Decidable a.Checked :=
  inferInstanceAs (Decidable (_ ∧ _ ∧ _ ∧ _ ∧ _ ∧ _ ∧ _ ∧ _ ∧ _))

theorem AssetRow.Checked.chunkSize_pos {a : AssetRow} (h : a.Checked) : 0 < a.chunkSize := h.2.1

theorem AssetRow.Checked.chunkCount_lt {a : AssetRow} (h : a.Checked) : a.chunkCount < 2 ^ 32 := by
  have := h.2.2.2.1
  rw [int4Max] at this
  omega

/-! ## What the uploader encrypts -/

/-- One entry of `hashes`: a chunk index and its ciphertext SHA-256. -/
structure ChunkHash where
  idx : Nat
  h : String
  deriving DecidableEq, Repr

/-- What `encryptRange` gives back, and the sealings it made. -/
structure EncryptedRange where
  bytes : Bytes
  hashes : List ChunkHash
  sealed : List Sealing
  deriving DecidableEq, Repr

/-- The chunk loop of `encryptRange`, over the plaintext of chunks `first`, .... -/
def encryptLoop (C : Crypto) (key : Bytes) (a : AssetRow) (plain : Bytes) (first : Nat) :
    List Nat → Except Thrown EncryptedRange
  | [] => .ok { bytes := [], hashes := [], sealed := [] }
  | i :: rest => do
      let off := (i - first) * a.chunkSize
      let part := slice plain off (off + plainLen i a.plaintextSize a.chunkSize)
      let iv ← nonce (unhex a.noncePrefix) i
      let ct ← encryptChunk C key (unhex a.noncePrefix) a.id i a.chunkCount part
      let out ← encryptLoop C key a plain first rest
      return {
        bytes := ct ++ out.bytes
        hashes := { idx := i, h := C.sha256Hex ct } :: out.hashes
        sealed := { key := key, nonce := iv, aad := aad a.id i a.chunkCount, plain := part } ::
          out.sealed }

/-- Ciphertext of chunks `first`, ..., `last` plus their hashes. -/
def encryptRange (C : Crypto) (key : Bytes) (a : AssetRow) (src : Bytes) (first last : Nat) :
    Except Thrown EncryptedRange :=
  let plain := slice src (first * a.chunkSize) (min a.plaintextSize ((last + 1) * a.chunkSize))
  encryptLoop C key a plain first (List.range' first (last + 1 - first))

/-- Chunk `i` of the ciphertext of `src`. -/
def cipherChunk (C : Crypto) (key : Bytes) (a : AssetRow) (src : Bytes) (i : Nat) : Bytes :=
  C.aead.encrypt key (unhex a.noncePrefix ++ uint32be i) (aad a.id i a.chunkCount)
    (tile a.chunkSize src i)

/-- The sealing that makes chunk `i`. -/
def chunkSealing (key : Bytes) (a : AssetRow) (src : Bytes) (i : Nat) : Sealing where
  key := key
  nonce := unhex a.noncePrefix ++ uint32be i
  aad := aad a.id i a.chunkCount
  plain := tile a.chunkSize src i

/-- The whole ciphertext of `src`. -/
def cipherObject (C : Crypto) (key : Bytes) (a : AssetRow) (src : Bytes) : Bytes :=
  (List.range a.chunkCount).flatMap (cipherChunk C key a src)

/-- Chunks `first`, ..., `first + n - 1` as `encryptRange` returns them. -/
def cipherRange (C : Crypto) (key : Bytes) (a : AssetRow) (src : Bytes) (first n : Nat) :
    EncryptedRange where
  bytes := (List.range' first n).flatMap (cipherChunk C key a src)
  hashes := (List.range' first n).map fun i => ⟨i, C.sha256Hex (cipherChunk C key a src i)⟩
  sealed := (List.range' first n).map (chunkSealing key a src)

section Encrypt

variable {C : Crypto} {key src : Bytes} {a : AssetRow}

/-- The piece of the window that the loop takes for chunk `i` is tile `i` of the
source. -/
theorem slice_window_eq_tile {first last i : Nat} (hsize : src.length = a.plaintextSize)
    (hfirst : first ≤ i) (hlast : i ≤ last) :
    slice (slice src (first * a.chunkSize) (min a.plaintextSize ((last + 1) * a.chunkSize)))
        ((i - first) * a.chunkSize)
        ((i - first) * a.chunkSize + plainLen i a.plaintextSize a.chunkSize) =
      tile a.chunkSize src i := by
  have hoff : first * a.chunkSize + (i - first) * a.chunkSize = i * a.chunkSize := by
    rw [← Nat.add_mul, Nat.add_sub_cancel' hfirst]
  have hend : (i + 1) * a.chunkSize ≤ (last + 1) * a.chunkSize :=
    Nat.mul_le_mul_right _ (by omega)
  have hsucc : (i + 1) * a.chunkSize = i * a.chunkSize + a.chunkSize := Nat.succ_mul _ _
  rw [slice_slice, hoff, ← Nat.add_assoc, hoff, tile, ← slice_min_length src _ ((i + 1) * _), hsize,
    plainLen]
  by_cases hin : i * a.chunkSize ≤ a.plaintextSize
  · congr 1
    omega
  · rw [slice_eq_nil (by omega), slice_eq_nil (by omega)]

theorem encryptLoop_eq {first last : Nat} (hnonce : (unhex a.noncePrefix).length = 8)
    (hsize : src.length = a.plaintextSize) :
    ∀ (n i : Nat), first ≤ i → i + n ≤ last + 1 →
      encryptLoop C key a
          (slice src (first * a.chunkSize) (min a.plaintextSize ((last + 1) * a.chunkSize)))
          first (List.range' i n) = .ok (cipherRange C key a src i n) := by
  intro n
  induction n with
  | zero => intro i _ _; rfl
  | succ n ih =>
    intro i hfirst hlast
    have htile : slice (slice src (first * a.chunkSize)
          (min a.plaintextSize ((last + 1) * a.chunkSize))) ((i - first) * a.chunkSize)
          ((i - first) * a.chunkSize + plainLen i a.plaintextSize a.chunkSize) =
        tile a.chunkSize src i := slice_window_eq_tile hsize hfirst (by omega)
    rw [List.range'_succ, encryptLoop]
    simp only [htile, encryptChunk, nonce_eq hnonce, ih (i + 1) (by omega) (by omega)]
    rfl

/-- With a well-formed prefix `encryptRange` returns exactly its chunks. -/
theorem encryptRange_eq (hnonce : (unhex a.noncePrefix).length = 8)
    (hsize : src.length = a.plaintextSize) (first last : Nat) :
    encryptRange C key a src first last =
      .ok (cipherRange C key a src first (last + 1 - first)) := by
  by_cases h : first ≤ last + 1
  · exact encryptLoop_eq hnonce hsize (last + 1 - first) first (Nat.le_refl _) (by omega)
  · rw [encryptRange, Nat.sub_eq_zero_of_le (by omega)]
    rfl

end Encrypt

/-! ## The stored object -/

section Object

variable {C : Crypto} {key src : Bytes} {a : AssetRow}

theorem length_cipherChunk (hlaw : C.aead.Inverts TAG) (i : Nat) :
    (cipherChunk C key a src i).length = (tile a.chunkSize src i).length + TAG :=
  hlaw.length_encrypt _ _ _ _

theorem length_cipherChunk_eq (hlaw : C.aead.Inverts TAG) (hsize : src.length = a.plaintextSize)
    (i : Nat) :
    (cipherChunk C key a src i).length = plainLen i a.plaintextSize a.chunkSize + TAG := by
  rw [length_cipherChunk hlaw, length_tile, hsize, plainLen]

/-- Chunk `i` starts at `cipherOffset i`: every chunk before the last is full. -/
theorem blockStart_cipherChunk (hlaw : C.aead.Inverts TAG) (hc : 0 < a.chunkSize)
    (hsize : src.length = a.plaintextSize) {i : Nat}
    (hi : i < chunkCount a.plaintextSize a.chunkSize) :
    blockStart (cipherChunk C key a src) i = cipherOffset i a.chunkSize := by
  apply blockStart_of_width
  intro j hj
  rw [length_cipherChunk_eq hlaw hsize, plainLen_of_succ_lt hc (by omega)]

/-- The bytes of chunks `first`, ..., `last` in the stored object. -/
theorem slice_cipherObject (hlaw : C.aead.Inverts TAG) (hc : 0 < a.chunkSize)
    (hsize : src.length = a.plaintextSize)
    (hcount : a.chunkCount = chunkCount a.plaintextSize a.chunkSize) {first last : Nat}
    (hle : first ≤ last) (hlast : last < a.chunkCount) :
    slice (cipherObject C key a src) (cipherOffset first a.chunkSize)
        (cipherOffset last a.chunkSize + plainLen last a.plaintextSize a.chunkSize + TAG) =
      (List.range' first (last + 1 - first)).flatMap (cipherChunk C key a src) := by
  have hstop : blockStart (cipherChunk C key a src) (first + (last + 1 - first)) =
      cipherOffset last a.chunkSize + plainLen last a.plaintextSize a.chunkSize + TAG := by
    rw [show first + (last + 1 - first) = last + 1 by omega, blockStart_succ,
      blockStart_cipherChunk hlaw hc hsize (by omega), length_cipherChunk_eq hlaw hsize]
    omega
  have hstart : blockStart (cipherChunk C key a src) first = cipherOffset first a.chunkSize :=
    blockStart_cipherChunk hlaw hc hsize (by omega)
  rw [← hstart, ← hstop, cipherObject]
  exact slice_blocks _ (by omega)

/-- The object is as long as the catalogue says. -/
theorem length_cipherObject (hlaw : C.aead.Inverts TAG) (hc : 0 < a.chunkSize)
    (hsize : src.length = a.plaintextSize)
    (hcount : a.chunkCount = chunkCount a.plaintextSize a.chunkSize) :
    (cipherObject C key a src).length = cipherSize a.plaintextSize a.chunkSize := by
  have htiles : ∀ n, ((List.range n).flatMap (cipherChunk C key a src)).length =
      ((List.range n).flatMap (tile a.chunkSize src)).length + n * TAG := by
    intro n
    induction n with
    | zero => simp
    | succ n ih =>
      rw [List.range_succ, List.flatMap_append, List.flatMap_append, List.length_append,
        List.length_append, ih, List.flatMap_singleton, List.flatMap_singleton,
        length_cipherChunk hlaw, Nat.succ_mul]
      omega
  have hcover : src.length ≤ a.chunkCount * a.chunkSize := by
    rw [hcount, hsize]
    exact le_chunkCount_mul hc
  rw [cipherObject, htiles, flatMap_tile_range hcover, cipherSize, hsize, hcount]

end Object

end SupabaseLab.ClientKeyed
