/-
  ClientKeyed/Envelope.lean --- chunked envelope encryption.

  Source: experiments/client-keyed-objects/client/src/envelope.ts and errors.ts.

      DEK     random 256-bit key per asset, wrapped by the key service
      chunk   `CHUNK` bytes of plaintext; ciphertext chunk = plaintext + `TAG`
      nonce   nonce_prefix (8 bytes per asset) || uint32be(chunk index)
      AAD     utf8(asset_id) || uint32be(chunk index) || uint32be(chunk count)

  Sizes and offsets are `Nat`.  The source divides in floating point, but a
  file is shorter than `2^53` bytes, and there rounding a quotient never carries
  it across an integer, so `Math.ceil` and `Math.floor` of it are exact.

  AES-GCM, SHA-256 and MD5 are the platform's (`Crypto`), not the client's.
-/
import SupabaseLab.Library.Aead

set_option autoImplicit false

namespace SupabaseLab.ClientKeyed

open Library

/-! ## Failures (errors.ts) -/

/-- `CkErrorCode`: callers branch on the code, never on the message. -/
inductive CkErrorCode where
  | unknownTenant
  | authError
  | keyServiceUnavailable
  | keyServiceDenied
  | keyServiceError
  | catalogueError
  | storageError
  | chunkHashMismatch
  | chunkAuthFailed
  | truncatedObject
  | rangeNotHonoured
  | integrityError
  deriving DecidableEq, Repr

/-- A value in the `detail` record of a failure. -/
inductive DetailValue where
  | num (n : Nat)
  | text (s : String)
  deriving DecidableEq, Repr

/-- `CkError`. -/
structure CkError where
  code : CkErrorCode
  message : String
  detail : List (String × DetailValue) := []
  deriving DecidableEq, Repr

/-- What a call can throw: a typed failure or one of the language's own. -/
inductive Thrown where
  | ck (e : CkError)
  | rangeError (message : String)
  | error (message : String)
  deriving DecidableEq, Repr

/-! ## Layout -/

def CHUNK : Nat := 8 * 1024 * 1024

def TAG : Nat := 16

def CIPHER : String := "aes-256-gcm"

def chunkCount (plainSize chunk : Nat) : Nat := max 1 ((plainSize + chunk - 1) / chunk)

def cipherSize (plainSize chunk : Nat) : Nat := plainSize + chunkCount plainSize chunk * TAG

/-- Ciphertext offset of chunk `i`. -/
def cipherOffset (i chunk : Nat) : Nat := i * (chunk + TAG)

/-- Plaintext length of chunk `i`. -/
def plainLen (i plainSize chunk : Nat) : Nat := min chunk (plainSize - i * chunk)

structure ChunkSpan where
  first : Nat
  last : Nat
  /-- Inclusive ciphertext byte range covering chunks `first`, ..., `last`. -/
  cStart : Nat
  cEnd : Nat
  deriving DecidableEq, Repr

/-- Plaintext `[start, endExcl)` to the covering chunks and the ciphertext byte
range to fetch. -/
def span (start endExcl : Int) (plainSize chunk : Nat) : Except Thrown ChunkSpan :=
  if start < 0 ∨ (plainSize : Int) < endExcl ∨ endExcl ≤ start then
    .error (.rangeError s!"bad range {start}-{endExcl} of {plainSize}")
  else
    let first := start.toNat / chunk
    let last := (endExcl.toNat - 1) / chunk
    .ok
      { first := first
        last := last
        cStart := cipherOffset first chunk
        cEnd := cipherOffset last chunk + plainLen last plainSize chunk + TAG - 1 }

theorem span_ok {start endExcl : Int} {plainSize chunk : Nat} {sp : ChunkSpan}
    (h : span start endExcl plainSize chunk = .ok sp) :
    0 ≤ start ∧ start < endExcl ∧ endExcl ≤ plainSize ∧
      sp.first = start.toNat / chunk ∧ sp.last = (endExcl.toNat - 1) / chunk ∧
      sp.cStart = cipherOffset sp.first chunk ∧
      sp.cEnd = cipherOffset sp.last chunk + plainLen sp.last plainSize chunk + TAG - 1 := by
  unfold span at h
  split at h
  · cases h
  · rename_i hrange
    cases h
    exact ⟨by omega, by omega, by omega, rfl, rfl, rfl, rfl⟩

theorem span_eq {start endExcl plainSize chunk : Nat} (hlt : start < endExcl)
    (hle : endExcl ≤ plainSize) :
    span start endExcl plainSize chunk =
      .ok
        { first := start / chunk
          last := (endExcl - 1) / chunk
          cStart := cipherOffset (start / chunk) chunk
          cEnd := cipherOffset ((endExcl - 1) / chunk) chunk +
            plainLen ((endExcl - 1) / chunk) plainSize chunk + TAG - 1 } := by
  unfold span
  rw [if_neg (by omega)]
  simp

/-- Chunk `i` exists exactly when it is the first one or starts inside the
plaintext. -/
theorem lt_chunkCount_iff {i plainSize chunk : Nat} (hc : 0 < chunk) :
    i < chunkCount plainSize chunk ↔ i = 0 ∨ i * chunk < plainSize := by
  have hdiv : i + 1 ≤ (plainSize + chunk - 1) / chunk ↔ i * chunk < plainSize := by
    rw [Nat.le_div_iff_mul_le hc, Nat.succ_mul]
    omega
  rw [chunkCount, lt_max_iff, Nat.lt_one_iff, ← hdiv]
  rfl

theorem chunkCount_pos (plainSize chunk : Nat) : 0 < chunkCount plainSize chunk :=
  Nat.lt_of_lt_of_le Nat.one_pos (Nat.le_max_left _ _)

/-- The chunks cover the plaintext. -/
theorem le_chunkCount_mul {plainSize chunk : Nat} (hc : 0 < chunk) :
    plainSize ≤ chunkCount plainSize chunk * chunk := by
  have hnot := (lt_chunkCount_iff hc).not.mp (Nat.lt_irrefl (chunkCount plainSize chunk))
  omega

/-- Every chunk but the last is full. -/
theorem plainLen_of_succ_lt {i plainSize chunk : Nat} (hc : 0 < chunk)
    (hi : i + 1 < chunkCount plainSize chunk) : plainLen i plainSize chunk = chunk := by
  have hlt : (i + 1) * chunk < plainSize := by
    rcases (lt_chunkCount_iff hc).mp hi with h | h
    · omega
    · exact h
  rw [Nat.succ_mul] at hlt
  rw [plainLen]
  omega

/-! ## Keys, nonces and associated data -/

/-- The platform's cryptography. -/
structure Crypto where
  aead : Aead
  sha256 : Bytes → Bytes
  length_sha256 : ∀ u, (sha256 u).length = 32
  /-- MD5 is there in the command-line build and missing in the browser's. -/
  md5Hex : Option (Bytes → String)

/-- `hex`. -/
def hex (u : Bytes) : String := String.ofList (u.flatMap hexByte)

/-- `sha256Hex`. -/
def Crypto.sha256Hex (C : Crypto) (u : Bytes) : String := hex (C.sha256 u)

/-- `unhex`. -/
def unhex (s : String) : Bytes := parseHexPairs (utf16 s.toList)

@[simp] theorem unhex_hex (u : Bytes) : unhex (hex u) = u := by
  rw [unhex, hex, String.toList_ofList, parseHexPairs_flatMap_hexByte]

/-- A digest prints to a nonempty text, which is what `!want` tests for. -/
theorem Crypto.sha256Hex_ne_empty (C : Crypto) (u : Bytes) : C.sha256Hex u ≠ "" := by
  intro h
  have hbytes : C.sha256 u = [] := by
    calc C.sha256 u = unhex (C.sha256Hex u) := (unhex_hex _).symm
      _ = [] := by rw [h]; rfl
  have hlen := C.length_sha256 u
  rw [hbytes] at hlen
  cases hlen

def nonce (noncePrefix : Bytes) (idx : Nat) : Except Thrown Bytes :=
  if noncePrefix.length ≠ 8 then .error (.error "nonce prefix must be 8 bytes")
  else .ok (noncePrefix ++ uint32be idx)

def aad (assetId : String) (idx count : Nat) : Bytes :=
  utf8 assetId ++ uint32be idx ++ uint32be count

theorem nonce_ok {noncePrefix iv : Bytes} {idx : Nat} (h : nonce noncePrefix idx = .ok iv) :
    noncePrefix.length = 8 ∧ iv = noncePrefix ++ uint32be idx := by
  unfold nonce at h
  split at h
  · cases h
  · rename_i hlen
    cases h
    exact ⟨not_not.mp hlen, rfl⟩

theorem nonce_eq {noncePrefix : Bytes} (h : noncePrefix.length = 8) (idx : Nat) :
    nonce noncePrefix idx = .ok (noncePrefix ++ uint32be idx) := by
  rw [nonce, if_neg (not_not.mpr h)]

/-- A nonce determines the prefix and the chunk index. -/
theorem nonce_injective {p q iv : Bytes} {i j : Nat} (hi : i < 2 ^ 32) (hj : j < 2 ^ 32)
    (hp : nonce p i = .ok iv) (hq : nonce q j = .ok iv) : p = q ∧ i = j := by
  obtain ⟨hplen, hpiv⟩ := nonce_ok hp
  obtain ⟨hqlen, hqiv⟩ := nonce_ok hq
  have hboth : p ++ uint32be i = q ++ uint32be j := hpiv.symm.trans hqiv
  obtain ⟨hpq, hij⟩ := List.append_inj hboth (hplen.trans hqlen.symm)
  exact ⟨hpq, uint32be_injective hi hj hij⟩

/-- The associated data determines the asset, the position and the count. -/
theorem aad_injective {id id' : String} {i i' n n' : Nat} (hi : i < 2 ^ 32) (hi' : i' < 2 ^ 32)
    (hn : n < 2 ^ 32) (hn' : n' < 2 ^ 32) (h : aad id i n = aad id' i' n') :
    id = id' ∧ i = i' ∧ n = n' := by
  obtain ⟨hfront, hcount⟩ := List.append_inj' h rfl
  obtain ⟨hid, hidx⟩ := List.append_inj' hfront rfl
  exact ⟨utf8_injective hid, uint32be_injective hi hi' hidx, uint32be_injective hn hn' hcount⟩

def encryptChunk (C : Crypto) (key noncePrefix : Bytes) (assetId : String) (idx count : Nat)
    (plain : Bytes) : Except Thrown Bytes := do
  let iv ← nonce noncePrefix idx
  return C.aead.encrypt key iv (aad assetId idx count) plain

/-- Every failure inside, the nonce's included, is reported as `ChunkAuthFailed`. -/
def decryptChunk (C : Crypto) (key noncePrefix : Bytes) (assetId : String) (idx count : Nat)
    (ct : Bytes) : Except Thrown Bytes :=
  let failed : Except Thrown Bytes := .error (.ck
    { code := .chunkAuthFailed
      message := s!"chunk {idx} of {count} did not authenticate"
      detail := [("idx", .num idx)] })
  match nonce noncePrefix idx with
  | .error _ => failed
  | .ok iv =>
      match C.aead.decrypt key iv (aad assetId idx count) ct with
      | none => failed
      | some pt => .ok pt

theorem decryptChunk_ok {C : Crypto} {key noncePrefix ct pt : Bytes} {assetId : String}
    {idx count : Nat} (h : decryptChunk C key noncePrefix assetId idx count ct = .ok pt) :
    noncePrefix.length = 8 ∧
      C.aead.decrypt key (noncePrefix ++ uint32be idx) (aad assetId idx count) ct = some pt := by
  unfold decryptChunk at h
  cases hn : nonce noncePrefix idx with
  | error e => simp [hn] at h
  | ok iv =>
      obtain ⟨hlen, hiv⟩ := nonce_ok hn
      cases hd : C.aead.decrypt key iv (aad assetId idx count) ct with
      | none => simp [hn, hd] at h
      | some pt' =>
          have hpt : pt' = pt := by simpa [hn, hd] using h
          exact ⟨hlen, by rw [← hiv, ← hpt]; exact hd⟩

theorem decryptChunk_eq {C : Crypto} {key noncePrefix ct pt : Bytes} {assetId : String}
    {idx count : Nat} (hlen : noncePrefix.length = 8)
    (h : C.aead.decrypt key (noncePrefix ++ uint32be idx) (aad assetId idx count) ct = some pt) :
    decryptChunk C key noncePrefix assetId idx count ct = .ok pt := by
  simp [decryptChunk, nonce_eq hlen, h]

end SupabaseLab.ClientKeyed
