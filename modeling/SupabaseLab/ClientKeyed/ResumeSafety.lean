/-
  ClientKeyed/ResumeSafety.lean --- when a resume leaves what can be read back.

  Source: `runParts` and `resume` of client/src/upload.ts, `readAll` of
  client/src/read.ts.

  A resume takes the stored parts as they are: it compares the size of its source
  with the catalogue, not its bytes, and it cuts parts by its own part size.  The
  asset it completes is read back exactly when the parts it kept are, end to end,
  the bytes it would have derived itself.
-/
import SupabaseLab.ClientKeyed.CrashResume
import SupabaseLab.ClientKeyed.ReadWorld

set_option autoImplicit false

namespace SupabaseLab.ClientKeyed

open Library Process

/-! ## Kept parts -/

/-- The parts that a resume with `k` chunks to a part takes as they are stored. -/
def keptParts (row : AssetRow) (k : Nat) (P : KeyMap Nat Bytes) : List Nat :=
  (List.range' 1 (partCount row k)).filter fun n => (P.get? n).isSome

/-- End to end the kept parts are the bytes that the resume would derive for them. -/
def PartsFit (C : Crypto) (dek : Bytes) (row : AssetRow) (src : Bytes) (k : Nat)
    (P : KeyMap Nat Bytes) : Prop :=
  (keptParts row k P).flatMap (fun n => (P.get? n).getD []) =
    (keptParts row k P).flatMap fun n => partBytes C dek row src k (n - 1)

instance (C : Crypto) (dek : Bytes) (row : AssetRow) (src : Bytes) (k : Nat) (P : KeyMap Nat Bytes) :
    Decidable (PartsFit C dek row src k P) :=
  inferInstanceAs (Decidable (_ = _))

/-- Parts stored by calls with any sources and any part sizes. -/
structure LooseParts (K : Platform) (F dek : Bytes) (row : AssetRow) (P : KeyMap Nat Bytes) : Prop where
  opens : Opens K F row dek
  gapless : Gapless P
  bounded : ∀ n b, P.get? n = some b → b.length ≤ row.ciphertextSize

section Parts

variable {C : Crypto} {K : Platform} {F dek src : Bytes} {row : AssetRow} {k p : Nat}
  {P parts : KeyMap Nat Bytes}

/-- The parts stored are the first ones, so those kept are too. -/
theorem keptParts_eq {m : Nat} (hm : ∀ n, (P.get? n).isSome = true ↔ 1 ≤ n ∧ n ≤ m) :
    keptParts row k P = List.range' 1 (min m (partCount row k)) := by
  have hsplit : List.range' 1 (partCount row k) = List.range' 1 (min m (partCount row k)) ++
      List.range' (1 + min m (partCount row k)) (partCount row k - min m (partCount row k)) := by
    rw [List.range'_append_1]
    congr 1
    omega
  have hkept : ∀ n ∈ List.range' 1 (min m (partCount row k)), (P.get? n).isSome = true := by
    intro n hn
    obtain ⟨hlow, hhigh⟩ := List.mem_range'_1.mp hn
    exact (hm n).mpr ⟨hlow, by omega⟩
  have hleft : ∀ n ∈ List.range' (1 + min m (partCount row k))
      (partCount row k - min m (partCount row k)), ¬ (P.get? n).isSome = true := by
    intro n hn hsome
    obtain ⟨hlow, hhigh⟩ := List.mem_range'_1.mp hn
    obtain ⟨-, hle⟩ := (hm n).mp hsome
    omega
  rw [keptParts, hsplit, List.filter_append, List.filter_eq_self.mpr hkept,
    List.filter_eq_nil_iff.mpr hleft, List.append_nil]

/-- What is joined is the ciphertext of the source exactly when the kept parts fit. -/
theorem joinedParts_eq_iff (hcount : 0 < row.chunkCount) (hk : 0 < k) (hgapless : Gapless P) :
    joinedParts C dek row src k P = cipherObject C dek row src ↔ PartsFit C dek row src k P := by
  obtain ⟨m, hm⟩ := hgapless
  have hobject : cipherObject C dek row src =
      (List.range' 1 (partCount row k)).flatMap fun n => partBytes C dek row src k (n - 1) := by
    rw [← flatMap_partBytes_partCount hcount hk, List.range'_eq_map_range, List.flatMap_map]
    refine List.flatMap_congr fun n _ => ?_
    rw [Nat.add_sub_cancel_left]
  have hsplit : List.range' 1 (partCount row k) = keptParts row k P ++
      List.range' (1 + min m (partCount row k)) (partCount row k - min m (partCount row k)) := by
    rw [keptParts_eq hm, List.range'_append_1]
    congr 1
    omega
  have hkept : (keptParts row k P).flatMap (finalPart C dek row src k P) =
      (keptParts row k P).flatMap fun n => (P.get? n).getD [] := by
    refine List.flatMap_congr fun n hn => ?_
    obtain ⟨b, hb⟩ := Option.isSome_iff_exists.mp (List.mem_filter.mp hn).2
    rw [finalPart, hb]
    rfl
  have hderived : (List.range' (1 + min m (partCount row k))
      (partCount row k - min m (partCount row k))).flatMap (finalPart C dek row src k P) =
      (List.range' (1 + min m (partCount row k))
        (partCount row k - min m (partCount row k))).flatMap
          fun n => partBytes C dek row src k (n - 1) := by
    refine List.flatMap_congr fun n hn => ?_
    have hnone : P.get? n = none := by
      rw [← Option.isNone_iff_eq_none, ← Option.isSome_eq_false_iff, Bool.eq_false_iff]
      intro hsome
      obtain ⟨hlow, hhigh⟩ := List.mem_range'_1.mp hn
      obtain ⟨-, hle⟩ := (hm n).mp hsome
      omega
    rw [finalPart, hnone, Option.getD_none]
  rw [joinedParts, hobject, hsplit, List.flatMap_append, List.flatMap_append, hkept, hderived,
    List.append_left_inj, PartsFit]

theorem Gapless.storedAfter (h : Gapless P)
    (hparts : ∀ n, parts.get? n = storedAfter C dek row src k P p n) : Gapless parts := by
  obtain ⟨m, hm⟩ := h
  refine ⟨max m p, fun n => ?_⟩
  rw [hparts n, ClientKeyed.storedAfter]
  by_cases hp : 1 ≤ n ∧ n ≤ p
  · rw [if_pos hp]
    exact ⟨fun _ => ⟨hp.1, by omega⟩, fun _ => rfl⟩
  · rw [if_neg hp, hm n]
    omega

/-- No part is longer than the ciphertext. -/
theorem length_partBytes_le (hlaw : C.aead.Inverts TAG) (hrow : row.Describes src) (hk : 0 < k)
    (hp : p < partCount row k) : (partBytes C dek row src k p).length ≤ row.ciphertextSize := by
  have hcount : 0 < row.chunkCount := by
    rw [hrow.count]
    exact chunkCount_pos _ _
  have hlength : (cipherObject C dek row src).length = row.ciphertextSize := by
    rw [hrow.ciphertext]
    exact length_cipherObject hlaw hrow.chunkSize_pos hrow.size hrow.count
  rw [← hlength, ← flatMap_partBytes_partCount hcount hk, List.length_flatMap]
  exact List.le_sum_of_mem (List.mem_map.mpr ⟨p, List.mem_range.mpr hp, rfl⟩)

theorem Opens.resized (h : Opens K F row dek) (hsize : src.length = F.length) :
    Opens K src row dek :=
  ⟨⟨hsize.trans h.describes.size, h.describes.chunkSize_pos, h.describes.count,
    h.describes.ciphertext⟩, h.noncePrefix, h.keyLength, h.wrapped⟩

/-- A part loop over a source of the right size leaves such parts. -/
theorem keeps_looseParts (hlaw : C.aead.Inverts TAG) (hk : 0 < k) (hsize : src.length = F.length) :
    Keeps C dek src k (LooseParts K F dek) := by
  intro row P parts p hloose hp hparts
  refine ⟨hloose.opens, hloose.gapless.storedAfter hparts, fun n b hget => ?_⟩
  rw [hparts n, storedAfter] at hget
  by_cases hin : 1 ≤ n ∧ n ≤ p
  · rw [if_pos hin] at hget
    cases hstored : P.get? n with
    | some b' =>
      rw [hstored] at hget
      cases hget
      exact hloose.bounded n _ hstored
    | none =>
      rw [hstored] at hget
      cases hget
      exact length_partBytes_le hlaw (hloose.opens.resized hsize).describes hk (by omega)
  · rw [if_neg hin] at hget
    exact hloose.bounded n b hget

end Parts

/-! ## Safe outcomes -/

/-- The asset is complete, and a full read that checks the hashes returns `src`. -/
def ReadsBack (C : Crypto) (K : Platform) (id : String) (src : Bytes) (w : World) : Prop :=
  ∃ row, w.assets.get? id = some row ∧ row.uploadState = "complete" ∧
    ∀ (o : ReadOpts) (windowChunks : Nat), o.verifyHashes = true → 0 < windowChunks →
      ∃ r, readAll C (w.readEnv K row.tenantId id) (fun _ => w.readEnv K row.tenantId id) o
        windowChunks = .ok r ∧ r.plain = src

/-- The asset is not complete. -/
def NotComplete (id : String) (w : World) : Prop :=
  ∀ row, w.assets.get? id = some row → row.uploadState ≠ "complete"

/-- A resume from `src` that returned has made the asset readable as `src`; one that threw
has not made it complete. -/
def SafeOutcome (C : Crypto) (K : Platform) (id : String) (src : Bytes)
    (outcome : Except (Stop Thrown) UploadResult × World) : Prop :=
  match outcome with
  | (.ok _, w) => ReadsBack C K id src w
  | (.error (.threw _), w) => NotComplete id w
  | (.error .crashed, _) => True

/-- The asset is not complete, and the kept parts of a multipart upload in progress are
those of the source. -/
def SourceFits (C : Crypto) (dek : Bytes) (id : String) (src : Bytes) (k : Nat) (w : World) : Prop :=
  ∀ row ∈ w.assets.get? id, row.uploadState ≠ "complete" ∧
    ∀ up ∈ row.s3UploadId.bind w.uploads.get?, up.key = row.objectKey →
      src = [] ∨ PartsFit C dek row src k up.parts

instance (C : Crypto) (dek : Bytes) (id : String) (src : Bytes) (k : Nat) (w : World) :
    Decidable (SourceFits C dek id src k w) :=
  inferInstanceAs (Decidable (∀ row ∈ w.assets.get? id, _ ∧ ∀ up ∈ row.s3UploadId.bind _, _))

section Outcome

variable {C : Crypto} {K : Platform} {draw : Draw} {o : UploadOpts} {w₀ w v : World} {src dek F : Bytes}
  {row : AssetRow} {u id : String} {k : Nat} {P : KeyMap Nat Bytes}

/-- What is stored once a resume from `src` has completed the upload. -/
theorem Completed.readable (hrow : HasUpload K draw o w₀ row u w) (hsize : src.length = o.source.length)
    (h : Completed K C draw.dek row src k u P w v) :
    Stored C K src draw.dek (newRow K draw o).id (completedRow C src row)
      (joinedParts C draw.dek row src k P) (completeRow C (newRow K draw o).id src v) := by
  obtain ⟨hget, -⟩ := h.stage (Q := fun _ _ => True) hrow
  have hopens : Opens K src (completedRow C src row) draw.dek :=
    (hrow.opens.resized hsize).of_core rfl
  rw [completeRow_eq (hrow.of_assets h.assets).get] at hget ⊢
  refine ⟨hget, rfl, hopens, fun i hi => ?_, rfl, h.object⟩
  refine (h.hashes _).trans ?_
  rw [if_pos ⟨hrow.id.symm, hi⟩]
  rfl

/-- An empty source is read back, whatever is stored. -/
theorem Stored.readAll_nil {object : Bytes} {a : AssetRow} (h : Stored C K [] dek id a object w)
    (ropts : ReadOpts) (windowChunks : Nat) :
    ∃ r, readAll C (w.readEnv K a.tenantId id) (fun _ => w.readEnv K a.tenantId id) ropts
      windowChunks = .ok r ∧ r.plain = [] := by
  have hzero : a.plaintextSize = 0 := h.opens.describes.size.symm
  have hstarts : windowStarts a.plaintextSize (windowChunks * a.chunkSize) = [] := by
    rw [windowStarts, hzero]
    by_cases hstep : windowChunks * a.chunkSize = 0
    · rw [hstep]
      rfl
    · rw [Nat.div_eq_of_lt (by omega)]
      rfl
  refine ⟨⟨C.sha256Hex [], 0, []⟩, ?_, rfl⟩
  unfold readAll
  rw [show (w.readEnv K a.tenantId id).session = .ok () from rfl, ok_bind, h.asset, ok_bind]
  dsimp only
  rw [hstarts, readWindows, ok_bind, show (w.readEnv K a.tenantId id).logAccess = .ok () from rfl,
    ok_bind, List.flatMap_nil, refuseIf_of_not (not_not.mpr h.plaintext.symm), ok_bind]
  rfl

theorem partCount_le (hk : 0 < k) (hcount : 0 < row.chunkCount) : partCount row k ≤ row.chunkCount := by
  refine Nat.div_le_of_le_mul ?_
  have hle : k + row.chunkCount ≤ k * row.chunkCount + 1 := by
    obtain ⟨k, rfl⟩ := Nat.exists_eq_add_of_le hk
    rw [Nat.add_mul, Nat.one_mul]
    have := Nat.le_mul_of_pos_right k hcount
    omega
  omega

/-- The joined parts are no longer than as many ciphertexts as there are parts. -/
theorem length_joinedParts_le (hlaw : C.aead.Inverts TAG) (hk : 0 < k)
    (hsize : src.length = F.length) (h : LooseParts K F dek row P) :
    (joinedParts C dek row src k P).length ≤ row.ciphertextSize * row.ciphertextSize := by
  have hrow := (h.opens.resized hsize).describes
  have hcount : 0 < row.chunkCount := by
    rw [hrow.count]
    exact chunkCount_pos _ _
  have hfinal : ∀ l ∈ (List.range' 1 (partCount row k)).map fun n =>
      (finalPart C dek row src k P n).length, l ≤ row.ciphertextSize := by
    intro l hl
    obtain ⟨n, hn, rfl⟩ := List.mem_map.mp hl
    obtain ⟨hlow, hhigh⟩ := List.mem_range'_1.mp hn
    rw [finalPart]
    cases hstored : P.get? n with
    | some b => exact h.bounded n b hstored
    | none => exact length_partBytes_le hlaw hrow hk (by omega)
  have hparts : partCount row k ≤ row.ciphertextSize := by
    have hchunks : row.chunkCount ≤ row.chunkCount * TAG :=
      Nat.le_mul_of_pos_right _ (by decide)
    refine Nat.le_trans (partCount_le hk hcount) ?_
    rw [hrow.ciphertext, cipherSize, ← hrow.count]
    omega
  rw [joinedParts, List.length_flatMap]
  calc _ ≤ _ • row.ciphertextSize := List.sum_le_card_nsmul _ _ hfinal
    _ = partCount row k * row.ciphertextSize := by
        rw [List.length_map, List.length_range', smul_eq_mul]
    _ ≤ _ := Nat.mul_le_mul_right _ hparts

theorem square_add_square_lt {n m : Nat} (hn : n < 2 ^ 53) (hm : m ≤ n * n) : m + m < doubleLimit := by
  have hsquare : n * n ≤ 2 ^ 53 * 2 ^ 53 := Nat.mul_le_mul (Nat.le_of_lt hn) (Nat.le_of_lt hn)
  have hlimit : 2 ^ 108 ≤ doubleLimit := two_pow_le_doubleLimit (by decide)
  have hsum : 2 ^ 53 * 2 ^ 53 + 2 ^ 53 * 2 ^ 53 < 2 ^ 108 := by decide
  omega

/-- The asset that a resume completes is read back exactly when the parts it kept fit. -/
theorem Completed.readsBack_iff (hlaw : C.aead.Lawful TAG) (hk : 0 < k)
    (hcipher : cipherSize o.source.length CHUNK < 2 ^ 53) (hrow : HasUpload K draw o w₀ row u w)
    (hsize : src.length = o.source.length) (hloose : LooseParts K o.source draw.dek row P)
    (h : Completed K C draw.dek row src k u P w v) :
    ReadsBack C K (newRow K draw o).id src (completeRow C (newRow K draw o).id src v) ↔
      src = [] ∨ PartsFit C draw.dek row src k P := by
  have hstored := h.readable hrow hsize
  have hcount : 0 < row.chunkCount := by
    rw [hrow.opens.describes.count]
    exact chunkCount_pos _ _
  constructor
  · rintro ⟨row', hget, -, hreads⟩
    rw [hstored.row] at hget
    cases hget
    by_cases hnil : src = []
    · exact .inl hnil
    · refine .inr ((joinedParts_eq_iff hcount hk hloose.gapless).mp ?_)
      obtain ⟨r, hr, hplain⟩ := hreads {} 1 rfl Nat.one_pos
      have hciphertext : row.ciphertextSize = cipherSize o.source.length CHUNK := by
        obtain ⟨-, -, -, -, -, hcipher', -, -⟩ := core_fields hrow.core
        exact hcipher'
      have hpos : 0 < row.plaintextSize := by
        rw [← hrow.opens.describes.size, ← hsize]
        exact List.length_pos_of_ne_nil hnil
      have hobject := hstored.object_eq hlaw hpos (hciphertext ▸ hcipher)
        (square_add_square_lt (hciphertext ▸ hcipher)
          (length_joinedParts_le hlaw.toInverts hk hsize hloose)) hr hplain
      exact hobject
  · rintro (rfl | hfit)
    · exact ⟨_, hstored.row, rfl, fun ropts windowChunks _ _ => hstored.readAll_nil ropts windowChunks⟩
    · have hobject := (joinedParts_eq_iff hcount hk hloose.gapless).mpr hfit
      rw [hobject] at hstored
      exact ⟨_, hstored.row, rfl, fun _ _ _ hwindow => hstored.readAll_returns hlaw.toInverts hwindow⟩

end Outcome

/-! ## Resumes from any source -/

/-- A resume of the upload `o`, from any source and with any part size. -/
inductive Call.Resumes (K : Platform) (draw : Draw) (o : UploadOpts) : Call → Prop
  | intro (exposesEtag : Bool) (script : Script) (events : List TusEvent) (tenantId : String)
      (src : Bytes) (partChunks : Option Nat) (hk : 0 < partChunks.getD 8) :
      Call.Resumes K draw o
        (.resume exposesEtag script events tenantId (newRow K draw o).id src partChunks)

section Runs

variable {ck : Ck} {C : Crypto} {K : Platform} {script : Script} {events : List TusEvent} {draw : Draw}
  {o : UploadOpts} {w₀ w : World} {src : Bytes} {partChunks : Option Nat} {tenantId id : String}
  {row : AssetRow} {E : Stop Thrown → World → Prop}

/-- A source of another size is refused before anything is done. -/
theorem resume_otherSize {Q : UploadResult → World → Prop} (hrow : w.assets.get? id = some row)
    (hsize : row.plaintextSize ≠ src.length) (hE : ∀ stop, E stop w) :
    Ensures (· = w) (resume ck K script events tenantId id src partChunks) Q E := by
  have hget : w.getAsset id = (.ok row, w) := by
    unfold World.getAsset
    rw [hrow]
  unfold resume
  refine Ensures.bind (Q := fun _ => (· = w)) (Ensures.request (fun s _ hs _ => hs) (fun s e hs he => ?_)
    fun _ s hs stop => ?_) fun _ => ?_
  · cases he
  · rw [hs]
    exact ⟨hE stop, hE stop⟩
  refine Ensures.bind (Q := fun a s => a = row ∧ s = w) (Ensures.request (fun s a hs hok => ?_)
    (fun s e hs he => ?_) fun _ s hs stop => ?_) fun a => Ensures.assume fun ha => ?_
  · rw [hs, hget] at hok ⊢
    exact ⟨(Except.ok.inj hok).symm, rfl⟩
  · rw [hs, hget] at he
    cases he
  · rw [hs, hget]
    exact ⟨hE stop, hE stop⟩
  subst ha
  rw [if_pos hsize]
  exact Ensures.fail fun s hs => hs ▸ hE _

theorem Stage.row_of_get {Q : AssetRow → KeyMap Nat Bytes → Prop} (h : Stage K draw o w₀ Q w)
    (hget : w.assets.get? (newRow K draw o).id = some row) : HasRow K draw o w₀ row w := by
  have hsame : ∀ row', HasRow K draw o w₀ row' w → HasRow K draw o w₀ row w := by
    intro row' hrow
    have := hrow.get
    rw [hget] at this
    cases this
    exact hrow
  cases h with
  | absent hnone =>
    rw [hget] at hnone
    cases hnone
  | unnamed row' hrow huid => exact hsame row' hrow
  | uploading row' u P hrow hlive hparts => exact hsame row' hrow.toHasRow
  | ended row' u hrow hgone => exact hsame row' hrow.toHasRow

theorem Stage.resumes_loose (hlaw : C.aead.Inverts TAG) (hmethod : o.method = .s3Multipart)
    {resumes : List Call} (hresumes : ∀ call ∈ resumes, call.Resumes K draw o)
    (h : Stage K draw o w₀ (LooseParts K o.source draw.dek) w) :
    Stage K draw o w₀ (LooseParts K o.source draw.dek)
      (resumes.foldl (fun w call => call.run C K w) w) := by
  induction resumes generalizing w with
  | nil => exact h
  | cons call resumes ih =>
    refine ih (fun c hc => hresumes c (List.mem_cons_of_mem _ hc)) ?_
    obtain ⟨exposesEtag, script, events, tenantId, src, partChunks, hk⟩ :=
      hresumes call List.mem_cons_self
    by_cases hsize : src.length = o.source.length
    · have hrun := @Stage.resume ⟨C, exposesEtag⟩ K script events draw o w₀ w
        (fun _ => Stage K draw o w₀ (LooseParts K o.source draw.dek)) _ hmethod src partChunks hk hsize
        (fun _ _ => LooseParts.gapless) (keeps_looseParts hlaw hk hsize) tenantId (fun _ _ hv _ => hv)
        (fun _ _ hv _ => hv) h
      exact Ensures.leaves (hrun.post fun _ _ hw => hw.1) rfl
    · -- the world stays as it is
      have hkept : Ensures (· = w) (ClientKeyed.resume ⟨C, exposesEtag⟩ K script events tenantId
          (newRow K draw o).id src partChunks) (fun _ => (· = w)) fun _ => (· = w) := by
        cases hget : w.assets.get? (newRow K draw o).id with
        | none =>
          refine resume_refused (fun a ha => ?_) fun _ => rfl
          rw [hget] at ha
          cases ha
        | some row =>
          refine resume_otherSize hget (fun heq => hsize ?_) fun _ => rfl
          rw [← heq, (h.row_of_get hget).opens.describes.size]
      have hsame := Ensures.leaves hkept rfl
      change Stage K draw o w₀ _ (ClientKeyed.resume ⟨C, exposesEtag⟩ K script events tenantId
        (newRow K draw o).id src partChunks w).2
      rw [hsame]
      exact h

theorem IsFirstParts.loose (hlaw : C.aead.Inverts TAG) (hk : 0 < o.k) (hrow : HasRow K draw o w₀ row w)
    {P : KeyMap Nat Bytes} {m : Nat} (h : IsFirstParts C draw.dek row o.source o.k P m) :
    LooseParts K o.source draw.dek row P := by
  refine ⟨hrow.opens, ⟨m, h.stored⟩, fun n b hget => ?_⟩
  rw [h.2 n] at hget
  by_cases hin : 1 ≤ n ∧ n ≤ m
  · rw [if_pos hin] at hget
    cases hget
    have := h.1
    exact length_partBytes_le hlaw hrow.opens.describes hk (by omega)
  · rw [if_neg hin] at hget
    cases hget

/-- Where an upload and resumes from any sources have come to. -/
theorem Stage.afterCalls (hlaw : C.aead.Inverts TAG) (hmethod : o.method = .s3Multipart) (hk : 0 < o.k)
    (hnew : w₀.assets.has (newRow K draw o).id = false) (exposesEtag : Bool) (script : Script)
    (events : List TusEvent) {resumes : List Call} (hresumes : ∀ call ∈ resumes, call.Resumes K draw o) :
    Stage K draw o w₀ (LooseParts K o.source draw.dek)
      (ClientKeyed.afterCalls C K (.upload exposesEtag script events draw o) resumes w₀) := by
  refine Stage.resumes_loose hlaw hmethod hresumes ?_
  cases Stage.upload (C := C) hmethod hk hnew exposesEtag script events with
  | absent hget => exact .absent hget
  | unnamed row hrow huid => exact .unnamed row hrow huid
  | uploading row u P hrow hlive hparts =>
    obtain ⟨m, hfirst⟩ := hparts
    exact .uploading row u P hrow hlive (hfirst.loose hlaw hk hrow.toHasRow)
  | ended row u hrow hgone => exact .ended row u hrow hgone

/-- Where the parts fit, a resume is safe whatever becomes of its requests before the asset
is marked complete. -/
theorem resume_safe (hlaw : ck.crypto.aead.Lawful TAG) (hmethod : o.method = .s3Multipart)
    (hcipher : cipherSize o.source.length CHUNK < 2 ^ 53) (hsize : src.length = o.source.length)
    (hk : 0 < partChunks.getD 8) (h : Stage K draw o w₀ (LooseParts K o.source draw.dek) w)
    (hfits : SourceFits ck.crypto draw.dek (newRow K draw o).id src (partChunks.getD 8) w)
    (hsettled : Settled script) :
    SafeOutcome ck.crypto K (newRow K draw o).id src
      (resume ck K script events tenantId (newRow K draw o).id src partChunks w) := by
  have hopen : NotComplete (newRow K draw o).id w := fun row hget => (hfits row hget).1
  have hkept : ∀ v (stop : Stop Thrown), Stage K draw o w₀ (LooseParts K o.source draw.dek) v →
      v.assets = w.assets → ∀ e, stop = .threw e → NotComplete (newRow K draw o).id v := by
    intro v stop _ hv e _
    unfold NotComplete
    rw [hv]
    exact hopen
  have hmarked : ∀ v (stop : Stop Thrown), Stage K draw o w₀ (LooseParts K o.source draw.dek) v →
      stop = .crashed ∨ ¬ Settled script →
        ∀ e, stop = .threw e → NotComplete (newRow K draw o).id v := by
    rintro v stop _ (rfl | hunsettled) e he
    · cases he
    · exact absurd hsettled hunsettled
  have hrun := @Stage.resume ck K script events draw o w₀ w
    (fun stop v => ∀ e, stop = .threw e → NotComplete (newRow K draw o).id v) _ hmethod src partChunks
    hk hsize (fun _ _ => LooseParts.gapless) (keeps_looseParts hlaw.toInverts hk hsize) tenantId hkept
    hmarked h
  unfold SafeOutcome
  rcases hresult : resume ck K script events tenantId (newRow K draw o).id src partChunks w with
    ⟨(e | _) | r, w'⟩
  · exact hrun.stopped rfl hresult e rfl
  · trivial
  · obtain ⟨-, row, u, P, v, hrow, hlive, hparts, hcompleted, rfl⟩ := hrun.returned rfl hresult
    refine (hcompleted.readsBack_iff hlaw hk hcipher hrow hsize hparts).mpr ?_
    refine (hfits row hrow.get).2 ⟨row.objectKey, P⟩ ?_ rfl
    rw [hrow.uploadId]
    exact hlive

/-- The first request of a resume is refused. -/
def refusingScript : Script := fun r =>
  if r = .session then .refused (.error "no session") else .answered

theorem settled_of_answered (hpatch : script .patchComplete = .answered)
    (hcount : script .chunkRowCount = .answered) : Settled script := by
  unfold Settled
  rw [hpatch, hcount]
  refine ⟨?_, ?_, ?_⟩
  · intro e h
    cases h
  · intro e h
    cases h
  · intro e h
    cases h

/-- Where the parts do not fit, some resume is not safe: one that is refused at once if the
asset is complete, and else one whose requests are all answered. -/
theorem fits_of_safe (hlaw : C.aead.Lawful TAG) (hmethod : o.method = .s3Multipart)
    (hcipher : cipherSize o.source.length CHUNK < 2 ^ 53) (hsize : src.length = o.source.length)
    (hk : 0 < partChunks.getD 8) (h : Stage K draw o w₀ (LooseParts K o.source draw.dek) w)
    (hsafe : ∀ script tenantId, Settled script → SafeOutcome C K (newRow K draw o).id src
      (resume ⟨C, true⟩ K script [] tenantId (newRow K draw o).id src partChunks w)) :
    SourceFits C draw.dek (newRow K draw o).id src (partChunks.getD 8) w := by
  intro row hget
  refine ⟨hsafe refusingScript o.tenantId (settled_of_answered rfl rfl) row hget, fun up hup hkey => ?_⟩
  obtain ⟨u, huid, hlive⟩ := Option.bind_eq_some_iff.mp hup
  have hrow := h.row_of_get hget
  cases h with
  | absent hnone =>
    rw [hrow.get] at hnone
    cases hnone
  | unnamed row' hrow' huid' =>
    have := hrow'.get.symm.trans hrow.get
    cases this
    rw [huid'] at huid
    cases huid
  | ended row' u' hrow' hgone =>
    have := hrow'.get.symm.trans hrow.get
    cases this
    rw [hrow'.uploadId] at huid
    cases huid
    rw [hgone] at hlive
    cases hlive
  | uploading row' u' P hrow' hlive' hparts =>
    have := hrow'.get.symm.trans hrow.get
    cases this
    rw [hrow'.uploadId] at huid
    cases huid
    rw [hlive'] at hlive
    cases hlive
    have hcalm : ¬ ∃ r : Request, Fate.answered ≠ (.answered : Fate Thrown) := fun ⟨_, hr⟩ => hr rfl
    have hrun : Ensures (· = w)
        (resume ⟨C, true⟩ K (fun _ => .answered) [] row.tenantId (newRow K draw o).id src partChunks)
        (fun _ w' => ∃ v, Completed K C draw.dek row src (partChunks.getD 8) u P w v ∧
          w' = completeRow C (newRow K draw o).id src v) fun _ _ => False :=
      resume_spec (hrow'.live hmethod hlive' hparts.gapless) (hsize.trans hrow.opens.describes.size) hk
        (fun hstop => (hstop.elim hcalm fun hne => hne rfl).elim) (fun hne => absurd hne hcalm)
        fun hne => absurd hne hcalm
    obtain ⟨r, w', hresult, v, hcompleted, rfl⟩ := hrun.returns rfl
    have hread := hsafe (fun _ => .answered) row.tenantId (settled_of_answered rfl rfl)
    rw [hresult] at hread
    exact (hcompleted.readsBack_iff hlaw hk hcipher hrow' hsize hparts).mp hread

/-- After an upload that stopped anywhere, and resumes from any sources: all resumes from `src`
that settle are safe exactly when the parts they keep fit the source. -/
theorem resume_safe_iff (hlaw : C.aead.Lawful TAG) (hmethod : o.method = .s3Multipart) (hk : 0 < o.k)
    (hnew : w₀.assets.has (newRow K draw o).id = false)
    (hcipher : cipherSize o.source.length CHUNK < 2 ^ 53) (exposesEtag : Bool) (script : Script)
    (events : List TusEvent) (resumes : List Call) (hresumes : ∀ call ∈ resumes, call.Resumes K draw o)
    (src : Bytes) (hsize : src.length = o.source.length) (partChunks : Option Nat)
    (hparts : 0 < partChunks.getD 8) :
    (∀ (exposesEtag' : Bool) (script' : Script) (events' : List TusEvent) (tenantId : String),
        Settled script' →
          SafeOutcome C K (newRow K draw o).id src
            (resume ⟨C, exposesEtag'⟩ K script' events' tenantId (newRow K draw o).id src partChunks
              (afterCalls C K (.upload exposesEtag script events draw o) resumes w₀))) ↔
      SourceFits C draw.dek (newRow K draw o).id src (partChunks.getD 8)
        (afterCalls C K (.upload exposesEtag script events draw o) resumes w₀) := by
  have hstage := Stage.afterCalls hlaw.toInverts hmethod hk hnew exposesEtag script events hresumes
  constructor
  · intro hsafe
    exact fits_of_safe hlaw hmethod hcipher hsize hparts hstage fun script' tenantId hsettled =>
      hsafe true script' [] tenantId hsettled
  · intro hfits exposesEtag' script' events' tenantId hsettled
    exact @resume_safe ⟨C, exposesEtag'⟩ K script' events' draw o w₀ _ src partChunks tenantId hlaw
      hmethod hcipher hsize hparts hstage hfits hsettled

end Runs

/-- Three bytes, continued from the same three bytes after a crash before the completion. -/
theorem resume_safe_threeByte : SafeOutcome plainCrypto plainPlatform "a1" [1, 2, 3]
    (resume ⟨plainCrypto, true⟩ plainPlatform (fun _ => .answered) [] "t1" "a1" [1, 2, 3] none
      (runCalls plainCrypto plainPlatform threeByteCalls)) :=
  (@resume_safe_iff plainCrypto plainPlatform threeByteDraw threeByteOpts .empty
    Aead.checksum_lawful rfl (by decide) (show World.empty.assets.has "a1" = false from rfl)
    (by decide) true dyingScript [] [] (fun _ hcall => by cases hcall) [1, 2, 3] rfl none
    (by decide)).mpr (show SourceFits plainCrypto threeByteDraw.dek "a1" [1, 2, 3] 8
      (runCalls plainCrypto plainPlatform threeByteCalls) by decide +kernel)
    true (fun _ => .answered) [] "t1" (settled_of_answered rfl rfl)

/-- Continued from three other bytes the asset is marked complete, and cannot be read. -/
theorem resume_unsafe : ¬ SafeOutcome plainCrypto plainPlatform "a1" [1, 2, 4]
    (resume ⟨plainCrypto, true⟩ plainPlatform (fun _ => .answered) [] "t1" "a1" [1, 2, 4] none
      (runCalls plainCrypto plainPlatform threeByteCalls)) := by
  intro hsafe
  have hreturns : (resume ⟨plainCrypto, true⟩ plainPlatform (fun _ => .answered) [] "t1" "a1" [1, 2, 4]
      none (runCalls plainCrypto plainPlatform threeByteCalls)).1.toOption.isSome = true := by
    decide +kernel
  have htenant : ((resume ⟨plainCrypto, true⟩ plainPlatform (fun _ => .answered) [] "t1" "a1" [1, 2, 4]
      none (runCalls plainCrypto plainPlatform threeByteCalls)).2.assets.get? "a1").map
        (·.tenantId) = some "t1" := by
    decide +kernel
  have hread : ∀ w, w = (resume ⟨plainCrypto, true⟩ plainPlatform (fun _ => .answered) [] "t1" "a1"
      [1, 2, 4] none (runCalls plainCrypto plainPlatform threeByteCalls)).2 →
      (readAll plainCrypto (w.readEnv plainPlatform "t1" "a1")
        (fun _ => w.readEnv plainPlatform "t1" "a1") {} 1).toOption.isSome = false := by
    rintro w rfl
    decide +kernel
  cases hresult : resume ⟨plainCrypto, true⟩ plainPlatform (fun _ => .answered) [] "t1" "a1" [1, 2, 4]
      none (runCalls plainCrypto plainPlatform threeByteCalls) with
  | mk result w =>
    rw [hresult] at hsafe hreturns htenant hread
    cases result with
    | error stop => cases hreturns
    | ok r =>
      obtain ⟨row, hget, -, hreads⟩ := hsafe
      rw [hget] at htenant
      obtain ⟨all, hall, -⟩ := hreads {} 1 rfl Nat.one_pos
      have hnone := hread w rfl
      rw [show "t1" = row.tenantId from (Option.some.inj htenant).symm, hall] at hnone
      cases hnone

end SupabaseLab.ClientKeyed
