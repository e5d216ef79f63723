/-
  ClientKeyed/Tamper.lean --- a read of a store that may answer anything.

  Nothing is assumed of the store: not the body, the status or the
  Content-Range.  Nothing is assumed of the chunk hashes either.  What is left
  is the associated data: a ciphertext opens only in the place it was sealed
  for, so a chunk that was moved, cut or replaced stops the read.
-/
import SupabaseLab.ClientKeyed.ReadBack

set_option autoImplicit false

namespace SupabaseLab.ClientKeyed

open Library

/-! ## What a data key has sealed -/

/-- The arguments of one `encryptChunk` call, the key apart. -/
structure ChunkCall where
  noncePrefix : Bytes
  assetId : String
  idx : Nat
  count : Nat
  plain : Bytes
  deriving DecidableEq, Repr

/-- Index and count fit the four bytes that carry them. -/
def ChunkCall.Fits (c : ChunkCall) : Prop := c.idx < 2 ^ 32 ∧ c.count < 2 ^ 32

instance (c : ChunkCall) : Decidable c.Fits := inferInstanceAs (Decidable (_ ∧ _))

/-- One of the calls made the sealing `s`. -/
def SealedBy (key : Bytes) (calls : List ChunkCall) (s : Sealing) : Prop :=
  ∃ c ∈ calls, s.key = key ∧ nonce c.noncePrefix c.idx = .ok s.nonce ∧
    s.aad = aad c.assetId c.idx c.count ∧ s.plain = c.plain

/-- The byte at plaintext position `j` when chunk `i` was sealed from `truth i`. -/
def trueByte (truth : Nat → Bytes) (chunk j : Nat) : Option UInt8 :=
  (truth (j / chunk))[j % chunk]?

theorem trueByte_chunk (truth : Nat → Bytes) {chunk k : Nat} (i : Nat) (hk : k < chunk) :
    trueByte truth chunk (i * chunk + k) = (truth i)[k]? := by
  rw [trueByte, Nat.mul_comm, Nat.mul_add_div (by omega), Nat.mul_add_mod, Nat.div_eq_of_lt hk,
    Nat.mod_eq_of_lt hk, Nat.add_zero]

/-! ## The read -/

section Tamper

variable {C : Crypto} {a : AssetRow} {dek : Bytes} {calls : List ChunkCall}

/-- A chunk opens only to what was sealed for its place. -/
theorem decryptChunk_sealed (hideal : C.aead.Ideal TAG dek (SealedBy dek calls))
    (hfits : ∀ c ∈ calls, c.Fits) {noncePrefix ct pt : Bytes} {assetId : String} {i count : Nat}
    (hi : i < 2 ^ 32) (hcount : count < 2 ^ 32)
    (h : decryptChunk C dek noncePrefix assetId i count ct = .ok pt) :
    ct.length = pt.length + TAG ∧
      ∃ c ∈ calls, c.noncePrefix = noncePrefix ∧ c.assetId = assetId ∧ c.idx = i ∧
        c.count = count ∧ c.plain = pt := by
  obtain ⟨hnonce, hdec⟩ := decryptChunk_ok h
  obtain ⟨c, hc, _, hiv, haad, hplain⟩ := hideal.sealed_of_decrypt _ _ _ _ hdec
  obtain ⟨hidx, hcnt⟩ := hfits c hc
  obtain ⟨hpre, _⟩ := nonce_injective hidx hi hiv (nonce_eq hnonce i)
  obtain ⟨hid, hplace, htotal⟩ := aad_injective hidx hi hcnt hcount haad.symm
  exact ⟨hideal.length_decrypt _ _ _ _ hdec, c, hc, hpre, hid, hplace, htotal, hplain.symm⟩

/-- The piece cut for a covering chunk is whole when the body is long enough. -/
theorem length_cutChunk {sp : ChunkSpan} {body : Bytes} {start endExcl i : Nat}
    (hc : 0 < a.chunkSize) (hcover : sp.Covers a start endExcl) (hle : endExcl ≤ a.plaintextSize)
    (hneed : sp.need ≤ body.length) (hfirst : sp.first ≤ i) (hlast : i ≤ sp.last) :
    (cutChunk a sp body i).length = plainLen i a.plaintextSize a.chunkSize + TAG := by
  have hstop := cipherOffset_le_of_le hc hlast (hcover.last_lt hc hle)
  have hstart : cipherOffset sp.first a.chunkSize ≤ cipherOffset i a.chunkSize :=
    Nat.mul_le_mul_right _ hfirst
  have hcStart := hcover.cStart_eq
  have hcEnd := hcover.cEnd_eq
  rw [ChunkSpan.need] at hneed
  rw [cutChunk, length_slice_of_le (by omega)]
  omega

/-- **Tampering fails closed.**  Let the data key have sealed at most the
plaintext `truth i` for chunk `i` of the asset.  Whatever the store answers, a
read that returns gives the true bytes of the range it was asked for; the
nonce and the associated data name one asset, one index and one count. -/
theorem readRange_fails_closed (hchecked : a.Checked)
    (hideal : C.aead.Ideal TAG dek (SealedBy dek calls)) (hfits : ∀ c ∈ calls, c.Fits)
    (truth : Nat → Bytes) (hone : ∀ c ∈ calls, c.assetId = a.id → c.plain = truth c.idx)
    (env : ReadEnv) (hasset : ∀ b, env.asset = .ok b → b = a)
    (hdek : ∀ k, env.unwrapDek = .ok k → k = dek) (start endExcl : Int)
    (hidx : endExcl ≤ (a.chunkSize * 2 ^ 32 : Nat)) (o : ReadOpts) :
    (∀ p q iv id id' i i' n n', i < 2 ^ 32 → i' < 2 ^ 32 → n < 2 ^ 32 → n' < 2 ^ 32 →
      nonce p i = .ok iv → nonce q i' = .ok iv → aad id i n = aad id' i' n' →
        id = id' ∧ i = i' ∧ n = n') ∧
    ∀ r, readRange C env start endExcl o = .ok r →
      0 ≤ start ∧ start < endExcl ∧ endExcl ≤ a.plaintextSize ∧
        r.plain.map some =
          (List.range' start.toNat (endExcl - start).toNat).map (trueByte truth a.chunkSize) := by
  refine ⟨fun p q iv id id' i i' n n' hi hi' hn hn' _ _ haad =>
    aad_injective hi hi' hn hn' haad, ?_⟩
  intro r hr
  obtain ⟨b, key, sp, got, hashes, body, plain, h, rfl⟩ := readRange_eq_ok.mp hr
  cases hasset b h.asset
  cases hdek key h.unwrapDek
  have hc := hchecked.chunkSize_pos
  obtain ⟨hstart, hlt, hle, _⟩ := span_ok h.span
  -- the range, in natural numbers
  obtain ⟨s, rfl⟩ := Int.eq_ofNat_of_zero_le hstart
  obtain ⟨e, rfl⟩ := Int.eq_ofNat_of_zero_le (show 0 ≤ endExcl by omega)
  have hcover := span_covers hc h.span
  have hle' : e ≤ a.plaintextSize := by omega
  have hlast : sp.last < 2 ^ 32 := by
    have hend := hcover.last_lt_end
    have hidx' : e ≤ a.chunkSize * 2 ^ 32 := Int.ofNat_le.mp hidx
    rw [Nat.mul_comm] at hidx'
    exact Nat.lt_of_mul_lt_mul_right (Nat.lt_of_lt_of_le hend hidx')
  -- a chunk that opens is the true chunk of its place
  have hchunk : ∀ i pt,
      decryptChunk C dek (unhex a.noncePrefix) a.id i a.chunkCount (cutChunk a sp body i) =
        .ok pt → sp.first ≤ i → i ≤ sp.last →
      pt.length = plainLen i a.plaintextSize a.chunkSize ∧
        ∀ k, k < pt.length → pt[k]? = trueByte truth a.chunkSize (i * a.chunkSize + k) := by
    intro i pt hpt hi hi'
    obtain ⟨hlen, c, hcall, _, hid, hci, _, rfl⟩ :=
      decryptChunk_sealed hideal hfits (Nat.lt_of_le_of_lt hi' hlast) hchecked.chunkCount_lt hpt
    have hwhole := length_cutChunk hc hcover hle' h.need hi hi'
    have hptlen : c.plain.length = plainLen i a.plaintextSize a.chunkSize := by omega
    refine ⟨hptlen, fun k hk => ?_⟩
    have hkc : k < a.chunkSize := by
      rw [hptlen, plainLen] at hk
      omega
    rw [trueByte_chunk truth i hkc, hone c hcall hid, hci]
  have hsteps : sp.first + (sp.last + 1 - sp.first) = sp.last + 1 := by
    have := hcover.first_le_last
    omega
  have hbuf : ((e : Int) - (s : Int)).toNat = e - s := by omega
  have hloop := h.loop
  rw [Int.toNat_natCast, Int.toNat_natCast, hbuf] at hloop
  obtain ⟨hlen, htrue⟩ := decryptLoop_true (trueByte truth a.chunkSize) hle' hcover.end_le hchunk
    (sp.last + 1 - sp.first) sp.first _ plain (Nat.le_refl _) hsteps List.length_replicate
    (fun j hj hlow => by have := hcover.first_le_start; omega) hloop
  refine ⟨hstart, hlt, hle, ?_⟩
  show plain.map some = _
  rw [Int.toNat_natCast, hbuf]
  apply List.ext_getElem?
  intro j
  rw [List.getElem?_map, List.getElem?_map]
  by_cases hj : s + j < e
  · have hbyte := htrue j hj
    rw [List.getElem?_eq_getElem (by omega)] at hbyte ⊢
    rw [List.getElem?_range' (by omega), Nat.one_mul, Option.map_some, Option.map_some, hbyte]
  · rw [List.getElem?_eq_none (by omega), List.getElem?_eq_none (by rw [List.length_range']; omega)]
    rfl

end Tamper

/-- The calls that encrypted the five bytes. -/
def fiveByteCalls : List ChunkCall :=
  [[10, 20], [30, 40], [50]].zipIdx.map fun (part, i) =>
    { noncePrefix := [1, 2, 3, 4, 5, 6, 7, 8], assetId := "a1", idx := i, count := 3, plain := part }

def ChunkCall.sealing (key : Bytes) (c : ChunkCall) : Sealing where
  key := key
  nonce := c.noncePrefix ++ uint32be c.idx
  aad := aad c.assetId c.idx c.count
  plain := c.plain

theorem fiveByteCalls_ideal (key : Bytes) :
    (Aead.checksum.restrict (fiveByteCalls.map (·.sealing key))).Ideal TAG key
      (SealedBy key fiveByteCalls) := by
  have h := Aead.restrict_ideal Aead.checksum_lawful.toInverts
    (fiveByteCalls.map (·.sealing key)) key
  refine ⟨h.length_decrypt, fun n ad c p hdec => ?_⟩
  obtain ⟨call, hcall, heq⟩ := List.mem_map.mp (h.sealed_of_decrypt n ad c p hdec)
  have hprefixes : ∀ call ∈ fiveByteCalls, call.noncePrefix.length = 8 := by decide
  cases heq
  exact ⟨call, hcall, rfl, nonce_eq (hprefixes call hcall) _, rfl, rfl⟩

/-- The five bytes as they are read back, over a cipher that opens what was sealed
and nothing else. -/
def fiveByteRead : Except Thrown ReadResult :=
  readRange
    { plainCrypto with
      aead := Aead.checksum.restrict (fiveByteCalls.map (·.sealing (List.replicate 32 7))) }
    (ReadEnv.honest fiveByteRow (List.replicate 32 7)
      (cipherRange plainCrypto (List.replicate 32 7) fiveByteRow [10, 20, 30, 40, 50] 0 3))
    1 4 { verifyHashes := false }

theorem readRange_fails_closed_fiveBytes :
    ∃ r, fiveByteRead = .ok r ∧ r.plain = [20, 30, 40] := by
  have hreturns : fiveByteRead.toOption.isSome = true := by decide +kernel
  obtain ⟨r, hr⟩ : ∃ r, fiveByteRead = .ok r := by
    cases hread : fiveByteRead with
    | ok r => exact ⟨r, rfl⟩
    | error e =>
      rw [hread] at hreturns
      cases hreturns
  obtain ⟨_, _, _, htrue⟩ :=
    (readRange_fails_closed (a := fiveByteRow) (by decide)
      (fiveByteCalls_ideal (List.replicate 32 7)) (by decide)
      (fun i => tile 2 [10, 20, 30, 40, 50] i) (by decide) _
      (fun b hb => (Except.ok.inj hb).symm) (fun k hk => (Except.ok.inj hk).symm) 1 4
      (by simp [fiveByteRow]) { verifyHashes := false }).2 r hr
  exact ⟨r, hr, List.map_injective_iff.mpr (Option.some_injective _) htrue⟩

end SupabaseLab.ClientKeyed
