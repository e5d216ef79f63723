/-
  ClientKeyed/CrashResume.lean --- a crashed and resumed upload is an upload.

  Source: `upload`, `resume`, `runParts` and `finish` of client/src/upload.ts.

  What an upload with crashes has come to is one of four stages, and a call takes
  a stage to a stage.  Only in one of them does a resume return, and there the
  parts stored so far are the first parts of the ciphertext.
-/
import SupabaseLab.ClientKeyed.Resume

set_option autoImplicit false

namespace SupabaseLab.ClientKeyed

open Library Process

/-! ## Stages -/

/-- The upload of `o` from the world `w₀` got as far as its row. -/
structure HasRow (K : Platform) (draw : Draw) (o : UploadOpts) (w₀ : World) (row : AssetRow)
    (w : World) : Prop where
  inserted : (w₀.insertAsset (newRow K draw o)).1 = .ok ()
  get : w.assets.get? (newRow K draw o).id = some row
  core : row.core = (newRow K draw o).core

/-- And its row names its multipart upload. -/
structure HasUpload (K : Platform) (draw : Draw) (o : UploadOpts) (w₀ : World) (row : AssetRow)
    (u : String) (w : World) : Prop extends HasRow K draw o w₀ row w where
  named : K.uploadId w₀.created = some u
  nonempty : u ≠ ""
  uploadId : row.s3UploadId = some u

/-- The chunks in one part, of this upload and of its resumes. -/
def UploadOpts.k (o : UploadOpts) : Nat := o.partChunks.getD 8

/-- The first `m` parts of the ciphertext, by number. -/
def IsFirstParts (C : Crypto) (dek : Bytes) (a : AssetRow) (F : Bytes) (k : Nat)
    (P : KeyMap Nat Bytes) (m : Nat) : Prop :=
  m ≤ partCount a k ∧
    ∀ n, P.get? n = if 1 ≤ n ∧ n ≤ m then some (partBytes C dek a F k (n - 1)) else none

/-- What an upload has come to; `Q` says what is known of the parts stored so far. -/
inductive Stage (K : Platform) (draw : Draw) (o : UploadOpts) (w₀ : World)
    (Q : AssetRow → KeyMap Nat Bytes → Prop) (w : World) : Prop where
  | absent (hget : w.assets.get? (newRow K draw o).id = none)
  | unnamed (row : AssetRow) (hrow : HasRow K draw o w₀ row w) (huid : row.s3UploadId = none)
  | uploading (row : AssetRow) (u : String) (P : KeyMap Nat Bytes)
      (hrow : HasUpload K draw o w₀ row u w)
      (hlive : w.uploads.get? u = some ⟨row.objectKey, P⟩) (hparts : Q row P)
  | ended (row : AssetRow) (u : String) (hrow : HasUpload K draw o w₀ row u w)
      (hgone : w.uploads.get? u = none)

/-- The parts are numbered from 1 without a gap. -/
def Gapless (P : KeyMap Nat Bytes) : Prop :=
  ∃ m, ∀ n, (P.get? n).isSome = true ↔ 1 ≤ n ∧ n ≤ m

/-- `Q` stays true while a part loop over `src`, with parts of `k` chunks, goes on. -/
def Keeps (C : Crypto) (dek src : Bytes) (k : Nat) (Q : AssetRow → KeyMap Nat Bytes → Prop) : Prop :=
  ∀ row P parts p, Q row P → p ≤ partCount row k →
    (∀ n, parts.get? n = storedAfter C dek row src k P p n) → Q row parts

/-- The parts stored are the first parts of the ciphertext. -/
def FirstParts (C : Crypto) (draw : Draw) (o : UploadOpts) (row : AssetRow) (P : KeyMap Nat Bytes) :
    Prop :=
  ∃ m, IsFirstParts C draw.dek row o.source o.k P m

section Stages

variable {C : Crypto} {K : Platform} {draw : Draw} {o : UploadOpts} {w₀ w v : World}
  {row : AssetRow} {u : String} {F dek : Bytes} {k m p : Nat} {P : KeyMap Nat Bytes} {a : AssetRow}

theorem HasRow.opens (h : HasRow K draw o w₀ row w) : Opens K o.source row draw.dek :=
  (Opens.newRow draw o).of_core h.core.symm

theorem HasRow.id (h : HasRow K draw o w₀ row w) : row.id = (newRow K draw o).id :=
  (core_fields h.core).1

theorem HasRow.of_assets (h : HasRow K draw o w₀ row w) (hassets : v.assets = w.assets) :
    HasRow K draw o w₀ row v := by
  refine ⟨h.inserted, ?_, h.core⟩
  rw [hassets]
  exact h.get

theorem HasUpload.of_assets (h : HasUpload K draw o w₀ row u w) (hassets : v.assets = w.assets) :
    HasUpload K draw o w₀ row u v :=
  ⟨h.toHasRow.of_assets hassets, h.named, h.nonempty, h.uploadId⟩

/-- What is stored some turns on. -/
theorem IsFirstParts.storedAfter (h : IsFirstParts C dek a F k P m) (hp : p ≤ partCount a k)
    {parts : KeyMap Nat Bytes} (hparts : ∀ n, parts.get? n = storedAfter C dek a F k P p n) :
    IsFirstParts C dek a F k parts (max m p) := by
  refine ⟨Nat.max_le.mpr ⟨h.1, hp⟩, fun n => ?_⟩
  rw [hparts n, ClientKeyed.storedAfter, h.2 n]
  by_cases hp : 1 ≤ n ∧ n ≤ p
  · have hmax : 1 ≤ n ∧ n ≤ max m p := ⟨hp.1, by omega⟩
    rw [if_pos hp, if_pos hmax]
    split
    · rfl
    · rfl
  · rw [if_neg hp]
    by_cases hm : 1 ≤ n ∧ n ≤ m
    · have hmax : 1 ≤ n ∧ n ≤ max m p := ⟨hm.1, by omega⟩
      rw [if_pos hm, if_pos hmax]
    · have hmax : ¬ (1 ≤ n ∧ n ≤ max m p) := by omega
      rw [if_neg hm, if_neg hmax]

/-- The other parts are derived from the same source. -/
theorem IsFirstParts.finalPart (h : IsFirstParts C dek a F k P m) (n : Nat) :
    finalPart C dek a F k P n = partBytes C dek a F k (n - 1) := by
  rw [ClientKeyed.finalPart, h.2 n]
  split
  · rfl
  · rfl

theorem IsFirstParts.stored (h : IsFirstParts C dek a F k P m) (n : Nat) :
    (P.get? n).isSome = true ↔ 1 ≤ n ∧ n ≤ m := by
  rw [h.2 n]
  split
  · rename_i hin
    exact ⟨fun _ => hin, fun _ => rfl⟩
  · rename_i hout
    exact ⟨fun hsome => (by cases hsome), fun hin => absurd hin hout⟩

theorem IsFirstParts.joinedParts (h : IsFirstParts C dek a F k P m) (hcount : 0 < a.chunkCount)
    (hk : 0 < k) : joinedParts C dek a F k P = cipherObject C dek a F := by
  rw [ClientKeyed.joinedParts, ← flatMap_partBytes_partCount hcount hk, List.range_eq_range',
    List.range'_eq_map_range, List.flatMap_map, List.range'_eq_map_range, List.flatMap_map]
  refine List.flatMap_congr fun n _ => ?_
  rw [h.finalPart]
  congr 1
  omega

theorem keeps_firstParts : Keeps C draw.dek o.source o.k (FirstParts C draw o) := by
  rintro row P parts p ⟨m, hfirst⟩ hp hparts
  exact ⟨max m p, hfirst.storedAfter hp hparts⟩

theorem FirstParts.gapless (h : FirstParts C draw o row P) : Gapless P := by
  obtain ⟨m, hfirst⟩ := h
  exact ⟨m, hfirst.stored⟩

theorem Interrupted.assets {src : Bytes} (h : Interrupted K C dek a src k u P w v) :
    v.assets = w.assets := by
  obtain ⟨p, -, hprogress⟩ | hcompleted := h
  · exact hprogress.assets
  · exact hcompleted.assets

/-- Wherever the part loop stops, the upload is in a stage. -/
theorem Interrupted.stage {Q : AssetRow → KeyMap Nat Bytes → Prop} {src : Bytes}
    (hrow : HasUpload K draw o w₀ row u w) (hkeeps : Keeps C draw.dek src k Q) (hparts : Q row P)
    (h : Interrupted K C draw.dek row src k u P w v) : Stage K draw o w₀ Q v := by
  obtain ⟨p, hp, hprogress⟩ | hcompleted := h
  · obtain ⟨parts, hlive, hstored⟩ := hprogress.upload
    exact .uploading row u parts (hrow.of_assets hprogress.assets) hlive
      (hkeeps row P parts p hparts hp hstored)
  · exact .ended row u (hrow.of_assets hcompleted.assets) hcompleted.ended

theorem Stage.mono {Q Q' : AssetRow → KeyMap Nat Bytes → Prop} (hQ : ∀ row P, Q row P → Q' row P)
    (h : Stage K draw o w₀ Q w) : Stage K draw o w₀ Q' w := by
  cases h with
  | absent hget => exact .absent hget
  | unnamed row hrow huid => exact .unnamed row hrow huid
  | uploading row u P hrow hlive hparts => exact .uploading row u P hrow hlive (hQ row P hparts)
  | ended row u hrow hgone => exact .ended row u hrow hgone

/-! ## The end of the upload -/

/-- The asset is complete: its row says so, its object is the ciphertext of the source,
and the catalogue has one row for each chunk, with its hash. -/
structure Finished (C : Crypto) (K : Platform) (draw : Draw) (o : UploadOpts) (w : World) : Prop where
  row : ∃ row, w.assets.get? (newRow K draw o).id = some row ∧
    row.core = (newRow K draw o).core ∧ row.uploadState = "complete"
  object : w.objects.get? (newRow K draw o).objectKey =
    some (cipherObject C draw.dek (newRow K draw o) o.source)
  hashes : ∀ i < (newRow K draw o).chunkCount,
    (w.chunks.entries.filter fun e => e.1 = ((newRow K draw o).id, i)) =
      [(((newRow K draw o).id, i),
        C.sha256Hex (cipherChunk C draw.dek (newRow K draw o) o.source i))]

theorem partBytes_of_core {b : AssetRow} (hcore : a.core = b.core) :
    partBytes C dek a F k = partBytes C dek b F k := by
  obtain ⟨-, -, -, -, hcount, -, -, -⟩ := core_fields hcore
  funext p
  rw [partBytes, partBytes, cipherRange, cipherRange, partLength, partLength,
    cipherChunk_of_core hcore, hcount]

theorem core_objectKey {b : AssetRow} (hcore : a.core = b.core) : a.objectKey = b.objectKey := by
  injection hcore

/-- The row of the asset once it is marked complete. -/
def completedRow (C : Crypto) (src : Bytes) (row : AssetRow) : AssetRow :=
  { row with uploadState := "complete", plaintextSha256 := some (C.sha256Hex src) }

theorem completeRow_eq {id : String} {src : Bytes} (hget : v.assets.get? id = some row) :
    completeRow C id src v = { v with assets := v.assets.set id (completedRow C src row) } := by
  unfold completeRow World.patchAsset
  rw [hget]
  rfl

/-- After the completion the multipart upload is over. -/
theorem Completed.stage {Q : AssetRow → KeyMap Nat Bytes → Prop} {src : Bytes}
    (hrow : HasUpload K draw o w₀ row u w) (h : Completed K C draw.dek row src k u P w v) :
    (completeRow C (newRow K draw o).id src v).assets.get? (newRow K draw o).id =
        some (completedRow C src row) ∧
      Stage K draw o w₀ Q (completeRow C (newRow K draw o).id src v) := by
  have hget := KeyMap.get?_set_self v.assets (newRow K draw o).id (completedRow C src row)
  rw [completeRow_eq (hrow.of_assets h.assets).get]
  exact ⟨hget, .ended _ u ⟨⟨hrow.inserted, hget, hrow.core⟩, hrow.named, hrow.nonempty,
    hrow.uploadId⟩ h.ended⟩

/-- The completion of the upload is recorded, and its object is the ciphertext. -/
theorem Completed.finished (hrow : HasUpload K draw o w₀ row u w) (hk : 0 < o.k)
    (hparts : IsFirstParts C draw.dek row o.source o.k P m)
    (h : Completed K C draw.dek row o.source o.k u P w v) :
    Finished C K draw o (completeRow C (newRow K draw o).id o.source v) ∧
      (completeRow C (newRow K draw o).id o.source v).completions = w.completions ++
        [⟨u, (List.range' 1 (partCount (newRow K draw o) o.k)).map fun n =>
          (n, K.etag (partBytes C draw.dek (newRow K draw o) o.source o.k (n - 1)))⟩] := by
  obtain ⟨-, -, -, -, hcount, -, -, -⟩ := core_fields hrow.core
  have hpos : 0 < row.chunkCount := by
    rw [hrow.opens.describes.count]
    exact chunkCount_pos _ _
  obtain ⟨hget, -⟩ := h.stage (Q := fun _ _ => True) hrow
  rw [completeRow_eq (hrow.of_assets h.assets).get] at hget ⊢
  refine ⟨⟨⟨_, hget, hrow.core, rfl⟩, ?_, fun i hi => ?_⟩, ?_⟩
  · rw [← core_objectKey hrow.core, ← cipherObject_of_core hrow.core,
      ← hparts.joinedParts hpos hk]
    exact h.object
  · refine KeyMap.filter_entries ((h.hashes _).trans ?_)
    rw [← hcount] at hi
    rw [if_pos ⟨hrow.id.symm, hi⟩, cipherChunk_of_core hrow.core]
  · rw [h.completions, partCount, partCount, hcount]
    congr 4
    funext n
    rw [hparts.finalPart, partBytes_of_core hrow.core]

end Stages

/-! ## The calls -/

section Calls

variable {ck : Ck} {K : Platform} {script : Script} {events : List TusEvent} {draw : Draw}
  {o : UploadOpts} {w₀ w : World} {E : Stop Thrown → World → Prop}

theorem emptyParts (C : Crypto) (dek : Bytes) (a : AssetRow) (F : Bytes) (k : Nat) :
    IsFirstParts C dek a F k .empty 0 :=
  ⟨Nat.zero_le _, fun n => (if_neg (by omega)).symm⟩

/-- The world with the row of the new asset. -/
def insertedRow (K : Platform) (draw : Draw) (o : UploadOpts) (w : World) : World :=
  { w with assets := w.assets.set (newRow K draw o).id (newRow K draw o) }

theorem insertAsset_world {row : AssetRow} (h : (w.insertAsset row).1 = .ok ()) :
    (w.insertAsset row).2 = { w with assets := w.assets.set row.id row } := by
  unfold World.insertAsset at h ⊢
  split
  · rfl
  · rename_i hnot
    rw [if_neg hnot] at h
    cases h

theorem insertAsset_error {row : AssetRow} {e : Thrown} (h : (w.insertAsset row).1 = .error e) :
    (w.insertAsset row).2 = w := by
  unfold World.insertAsset at h ⊢
  split
  · rename_i hin
    rw [if_pos hin] at h
    cases h
  · rfl

/-- The first two requests: a row, or nothing. -/
theorem createAsset_spec
    (hbefore : (∃ r, script r ≠ .answered) ∨ (w₀.insertAsset (newRow K draw o)).1 ≠ .ok () →
      ∀ stop, E stop w₀)
    (hafter : (w₀.insertAsset (newRow K draw o)).1 = .ok () → (∃ r, script r ≠ .answered) →
      ∀ stop, E stop (insertedRow K draw o w₀)) :
    Ensures (· = w₀) (createAsset K script draw o)
      (fun r w => (w₀.insertAsset (newRow K draw o)).1 = .ok () ∧
        r = (newRow K draw o, (draw.dek : Bytes)) ∧ w = insertedRow K draw o w₀) E := by
  unfold createAsset
  refine Ensures.bind (Q := fun wrapped w => wrapped = K.wrap o.tenantId draw.dek ∧ w = w₀)
    (Ensures.request (fun w wrapped hw hok => ⟨(Except.ok.inj hok).symm, hw⟩)
      (fun w e hw he => by cases he) fun hne w hw stop => ?_)
    fun wrapped => Ensures.assume fun hwrapped => ?_
  · rw [hw]
    exact ⟨hbefore (.inl ⟨_, hne⟩) stop, hbefore (.inl ⟨_, hne⟩) stop⟩
  subst hwrapped
  refine Ensures.bind (Q := fun _ w => (w₀.insertAsset (newRow K draw o)).1 = .ok () ∧
      w = insertedRow K draw o w₀)
    (Ensures.request (fun w u hw hok => ?_) (fun w e hw he => ?_) fun hne w hw stop => ?_)
    fun _ => Ensures.pure fun w hw => ⟨hw.1, rfl, hw.2⟩
  · subst hw
    exact ⟨hok, insertAsset_world hok⟩
  · subst hw
    refine (insertAsset_error he).symm ▸ hbefore (.inr fun hok => ?_) _
    change (w.insertAsset (newRow K draw o)).1 = _ at he
    rw [hok] at he
    cases he
  · subst hw
    refine ⟨hbefore (.inl ⟨_, hne⟩) stop, ?_⟩
    change E stop (w.insertAsset (newRow K draw o)).2
    cases hinsert : (w.insertAsset (newRow K draw o)).1 with
    | ok u =>
      rw [insertAsset_world hinsert]
      exact hafter hinsert ⟨_, hne⟩ stop
    | error e =>
      rw [insertAsset_error hinsert]
      exact hbefore (.inl ⟨_, hne⟩) stop

theorem createMultipartUpload_eq (K : Platform) (key : String) (w : World) :
    ∃ w', w.createMultipartUpload K key = (.ok (K.uploadId w.created), w') ∧
      w'.assets = w.assets ∧
      ∀ u, K.uploadId w.created = some u → w'.uploads.get? u = some ⟨key, .empty⟩ := by
  unfold World.createMultipartUpload
  cases K.uploadId w.created with
  | none => exact ⟨_, rfl, rfl, fun u hu => by cases hu⟩
  | some u =>
    refine ⟨_, rfl, rfl, fun u' hu => ?_⟩
    cases hu
    exact KeyMap.get?_set_self _ _ _

theorem noEtag_eq {u : String} (h : noEtag (some u) = true) : u = "" := by
  unfold noEtag at h
  obtain hnone | hempty := (Bool.or_eq_true _ _).mp h
  · cases of_decide_eq_true hnone
  · exact Option.some.inj (of_decide_eq_true hempty)

theorem exists_of_noEtag {c : Option String} (h : ¬ noEtag c = true) : ∃ u, c = some u ∧ u ≠ "" := by
  cases c with
  | none => exact absurd rfl h
  | some u =>
    refine ⟨u, rfl, fun hu => h ?_⟩
    rw [hu]
    rfl

/-- An upload leaves a stage wherever it stops; it stops only when a request is not
answered, the catalogue refuses the row or the endpoint names no upload. -/
theorem upload_spec (hmethod : o.method = .s3Multipart) (hk : 0 < o.k)
    (hnew : w₀.assets.has (newRow K draw o).id = false)
    (hE : (∃ r, script r ≠ .answered) ∨ (w₀.insertAsset (newRow K draw o)).1 ≠ .ok () ∨
        (∀ u, K.uploadId w₀.created = some u → u = "") →
      ∀ w, Stage K draw o w₀ (FirstParts ck.crypto draw o) w → ∀ stop, E stop w) :
    Ensures (· = w₀) (upload ck K script events draw o)
      (fun _ w => Stage K draw o w₀ (FirstParts ck.crypto draw o) w ∧
        Finished ck.crypto K draw o w) E := by
  have hstart : Stage K draw o w₀ (FirstParts ck.crypto draw o) w₀ := by
    refine .absent ?_
    rw [KeyMap.has_eq, Option.isSome_eq_false_iff, Option.isNone_iff_eq_none] at hnew
    exact hnew
  unfold upload
  refine Ensures.bind (Q := fun _ => (· = w₀)) (Ensures.request (fun s _ hs _ => hs) (fun s e hs he => ?_)
    fun hne s hs stop => ?_) fun _ => ?_
  · cases he
  · rw [hs]
    exact ⟨hE (.inl ⟨_, hne⟩) _ hstart stop, hE (.inl ⟨_, hne⟩) _ hstart stop⟩
  have hrow : (w₀.insertAsset (newRow K draw o)).1 = .ok () → ∀ w, w.assets = (insertedRow K draw o w₀).assets →
      HasRow K draw o w₀ (newRow K draw o) w := by
    intro hok w hw
    refine ⟨hok, ?_, rfl⟩
    rw [hw]
    exact KeyMap.get?_set_self _ _ _
  refine Ensures.bind (createAsset_spec (fun h => ?_) fun hok hne => ?_) fun r => ?_
  · exact fun stop => hE (h.imp_right .inl) _ hstart stop
  · exact fun stop => hE (.inl hne) _ (.unnamed _ (hrow hok _ rfl) rfl) stop
  refine Ensures.assume fun hok => Ensures.assume fun hr => ?_
  subst hr
  rw [hmethod]
  dsimp only
  obtain ⟨w₂, hcreate, hassets, hlive⟩ := createMultipartUpload_eq K (newRow K draw o).objectKey
    (insertedRow K draw o w₀)
  have hstage₂ : Stage K draw o w₀ (FirstParts ck.crypto draw o) w₂ := .unnamed _ (hrow hok w₂ hassets) rfl
  refine Ensures.bind (Q := fun c s => c = K.uploadId w₀.created ∧ s = w₂)
    (Ensures.request (fun s c hs hc => ?_) (fun s e hs he => ?_) fun hne s hs stop => ?_)
    fun c => Ensures.assume fun hc => ?_
  · subst hs
    dsimp only at hc ⊢
    rw [hcreate] at hc ⊢
    exact ⟨(Except.ok.inj hc).symm, rfl⟩
  · subst hs
    dsimp only at he
    rw [hcreate] at he
    cases he
  · subst hs
    dsimp only
    rw [hcreate]
    exact ⟨hE (.inl ⟨_, hne⟩) _ (.unnamed _ (hrow hok _ rfl) rfl) stop,
      hE (.inl ⟨_, hne⟩) _ hstage₂ stop⟩
  by_cases hnamed : noEtag c = true
  · rw [if_pos hnamed]
    refine Ensures.fail fun s hs => hs ▸ hE (.inr (.inr fun u hu => ?_)) _ hstage₂ _
    rw [hc, hu] at hnamed
    exact noEtag_eq hnamed
  rw [if_neg hnamed]
  obtain ⟨u, hu, hnonempty⟩ := exists_of_noEtag hnamed
  subst hu
  -- the row gets the name of the upload
  let a : AssetRow := { newRow K draw o with s3UploadId := some u }
  let w₃ : World := { w₂ with assets := w₂.assets.set a.id a }
  have hpatch : (w₂.patchAsset (newRow K draw o).id fun r => { r with s3UploadId := some u }) =
      (.ok (), w₃) := by
    unfold World.patchAsset
    rw [(hrow hok w₂ hassets).get]
  have hupload₃ : HasUpload K draw o w₀ a u w₃ :=
    ⟨⟨hok, KeyMap.get?_set_self _ _ _, rfl⟩, hc.symm, hnonempty, rfl⟩
  have hlive₃ : w₃.uploads.get? u = some ⟨a.objectKey, .empty⟩ := hlive u hc.symm
  have hparts := emptyParts ck.crypto draw.dek a o.source o.k
  refine Ensures.bind (Q := fun _ s => s = w₃)
    (Ensures.request (fun s _ hs _ => ?_) (fun s e hs he => ?_) fun hne s hs stop => ?_)
    fun _ => ?_
  · subst hs
    rw [hpatch]
  · subst hs
    rw [hpatch] at he
    cases he
  · subst hs
    rw [hpatch]
    exact ⟨hE (.inl ⟨_, hne⟩) _ hstage₂ stop,
      hE (.inl ⟨_, hne⟩) _ (.uploading a u .empty hupload₃ hlive₃ ⟨0, hparts⟩) stop⟩
  have hready : Ready K a o.source o.k u .empty .empty w₃ :=
    Live.ready ⟨hupload₃.get, rfl, hupload₃.opens,
      congrArg (fun m : UploadMethod => some m.text) hmethod, rfl, hlive₃, 0, hparts.stored⟩ rfl hk
      (lists_foldl_listing K ⟨a.objectKey, .empty⟩)
  refine Ensures.bind (runParts_spec (E := E) hready draw.dek.2 fun hne v hv stop =>
    hE (.inl hne) v (hv.stage hupload₃ keeps_firstParts ⟨0, hparts⟩) stop) fun r v hv => ?_
  obtain ⟨-, hstage⟩ := hv.stage hupload₃
  obtain ⟨hfinished, -⟩ := hv.finished hupload₃ hk hparts
  refine (finish_spec (fun hne stop => hE (.inl hne) v ?_ stop) fun hne stop _ =>
    hE (.inl hne) _ hstage stop).post (fun _ w' hw' => ?_) v rfl
  · exact Interrupted.stage hupload₃ keeps_firstParts ⟨0, hparts⟩ (.inr hv)
  · rw [hw']
    exact ⟨hstage, hfinished⟩

/-- What a resume that returns has done since `w`: it sent one completion, with the parts
1, 2, ... in order, each with its ETag, and the asset is complete. -/
structure Resumed (C : Crypto) (K : Platform) (draw : Draw) (o : UploadOpts) (w w' : World) : Prop where
  completion : ∃ u, w'.completions = w.completions ++
    [⟨u, (List.range' 1 (partCount (newRow K draw o) o.k)).map fun n =>
      (n, K.etag (partBytes C draw.dek (newRow K draw o) o.source o.k (n - 1)))⟩]
  finished : Finished C K draw o w'

theorem HasRow.method {row : AssetRow} (hmethod : o.method = .s3Multipart)
    (h : HasRow K draw o w₀ row w) : row.uploadMethod = some "s3-multipart" := by
  have hrow : row.uploadMethod = (newRow K draw o).uploadMethod := by
    injection h.core
  rw [hrow]
  exact congrArg (fun m : UploadMethod => some m.text) hmethod

theorem HasUpload.live {row : AssetRow} {u : String} {P : KeyMap Nat Bytes}
    (hmethod : o.method = .s3Multipart) (h : HasUpload K draw o w₀ row u w)
    (hlive : w.uploads.get? u = some ⟨row.objectKey, P⟩) (hparts : Gapless P) :
    Live K o.source draw.dek (newRow K draw o).id row u P w :=
  ⟨h.get, h.id, h.opens, h.toHasRow.method hmethod, h.uploadId, hlive, hparts⟩

/-- What a resume from `src` that returns has found and done. -/
def Returned (C : Crypto) (K : Platform) (draw : Draw) (o : UploadOpts) (w₀ : World) (src : Bytes)
    (k : Nat) (Q : AssetRow → KeyMap Nat Bytes → Prop) (w w' : World) : Prop :=
  ∃ row u P v, HasUpload K draw o w₀ row u w ∧ w.uploads.get? u = some ⟨row.objectKey, P⟩ ∧
    Q row P ∧ Completed K C draw.dek row src k u P w v ∧
    w' = completeRow C (newRow K draw o).id src v

/-- A resume takes a stage to a stage, and returns from one of them only.  Where it
stops, the rows are as they were, or the asset is marked complete. -/
theorem Stage.resume {Q : AssetRow → KeyMap Nat Bytes → Prop} (hmethod : o.method = .s3Multipart)
    {src : Bytes} {partChunks : Option Nat} (hk : 0 < partChunks.getD 8)
    (hsize : src.length = o.source.length) (hgapless : ∀ row P, Q row P → Gapless P)
    (hkeeps : Keeps ck.crypto draw.dek src (partChunks.getD 8) Q) {tenantId : String}
    (hkept : ∀ v stop, Stage K draw o w₀ Q v → v.assets = w.assets → E stop v)
    (hmarked : ∀ v stop, Stage K draw o w₀ Q v → stop = .crashed ∨ ¬ Settled script → E stop v)
    (h : Stage K draw o w₀ Q w) :
    Ensures (· = w) (resume ck K script events tenantId (newRow K draw o).id src partChunks)
      (fun _ w' => Stage K draw o w₀ Q w' ∧
        Returned ck.crypto K draw o w₀ src (partChunks.getD 8) Q w w') E := by
  have hstop : ∀ stop, E stop w := fun stop => hkept w stop h rfl
  have hrefused : ∀ row, HasRow K draw o w₀ row w →
      (∃ e, w.upload? row.s3UploadId row.objectKey = .error e) →
      ∀ a, w.assets.get? (newRow K draw o).id = some a → (∃ F dek, Opens K F a dek) ∧
        src.length = a.plaintextSize ∧ a.uploadMethod = some "s3-multipart" ∧
        ∃ e, w.upload? a.s3UploadId a.objectKey = .error e := by
    intro row hrow hup a ha
    rw [hrow.get] at ha
    cases ha
    exact ⟨⟨_, _, hrow.opens⟩, hsize.trans hrow.opens.describes.size, hrow.method hmethod, hup⟩
  cases h with
  | absent hget =>
    refine resume_refused (fun a ha => ?_) hstop
    rw [hget] at ha
    cases ha
  | unnamed row hrow huid =>
    refine resume_refused (hrefused row hrow ⟨noUploadId, ?_⟩) hstop
    rw [huid]
    rfl
  | ended row u hrow hgone =>
    refine resume_refused (hrefused row hrow.toHasRow ⟨noSuchUpload, ?_⟩) hstop
    unfold World.upload?
    rw [hrow.uploadId]
    dsimp only
    rw [hgone]
  | uploading row u P hrow hlive hparts =>
    refine (resume_spec (hrow.live hmethod hlive (hgapless row P hparts))
      (hsize.trans hrow.opens.describes.size) hk
      (fun _ => hstop) (fun _ v hv stop => hkept v stop (hv.stage hrow hkeeps hparts) hv.assets)
      fun _ v hv stop hafter => hmarked _ stop (hv.stage hrow).2 hafter).post fun _ w' hw' => ?_
    obtain ⟨v, hv, rfl⟩ := hw'
    exact ⟨(hv.stage hrow).2, row, u, P, v, hrow, hlive, hparts, hv, rfl⟩

theorem Returned.resumed {C : Crypto} {w' : World} (hk : 0 < o.k)
    (h : Returned C K draw o w₀ o.source o.k (FirstParts C draw o) w w') :
    Resumed C K draw o w w' := by
  obtain ⟨row, u, P, v, hrow, -, ⟨m, hfirst⟩, hv, rfl⟩ := h
  obtain ⟨hfinished, hcompletions⟩ := hv.finished hrow hk hfirst
  exact ⟨⟨u, hcompletions⟩, hfinished⟩

end Calls

/-! ## Crashes and resumes -/

section Runs

variable {C : Crypto} {K : Platform} {draw : Draw} {o : UploadOpts} {w₀ w : World}

/-- A resume of the upload `o`, from its source and with its part size. -/
inductive Call.Continues (K : Platform) (draw : Draw) (o : UploadOpts) : Call → Prop
  | intro (exposesEtag : Bool) (script : Script) (events : List TusEvent) (tenantId : String)
      (partChunks : Option Nat) (hparts : partChunks.getD 8 = o.k) :
      Call.Continues K draw o
        (.resume exposesEtag script events tenantId (newRow K draw o).id o.source partChunks)

/-- The world after an upload and the resumes that follow it. -/
def afterCalls (C : Crypto) (K : Platform) (first : Call) (resumes : List Call) (w₀ : World) : World :=
  resumes.foldl (fun w call => call.run C K w) (first.run C K w₀)

theorem Stage.upload (hmethod : o.method = .s3Multipart) (hk : 0 < o.k)
    (hnew : w₀.assets.has (newRow K draw o).id = false) (exposesEtag : Bool) (script : Script)
    (events : List TusEvent) :
    Stage K draw o w₀ (FirstParts C draw o)
      (Call.run C K (.upload exposesEtag script events draw o) w₀) := by
  have hrun : Ensures (· = w₀) (ClientKeyed.upload ⟨C, exposesEtag⟩ K script events draw o)
      (fun _ w => Stage K draw o w₀ (FirstParts C draw o) w ∧ Finished C K draw o w)
      fun _ => Stage K draw o w₀ (FirstParts C draw o) :=
    upload_spec hmethod hk hnew fun _ _ hw _ => hw
  exact Ensures.leaves (hrun.post fun _ _ hw => hw.1) rfl

theorem Stage.resumes (hmethod : o.method = .s3Multipart) (hk : 0 < o.k) {resumes : List Call}
    (hresumes : ∀ call ∈ resumes, call.Continues K draw o)
    (h : Stage K draw o w₀ (FirstParts C draw o) w) :
    Stage K draw o w₀ (FirstParts C draw o) (resumes.foldl (fun w call => call.run C K w) w) := by
  induction resumes generalizing w with
  | nil => exact h
  | cons call resumes ih =>
    refine ih (fun c hc => hresumes c (List.mem_cons_of_mem _ hc)) ?_
    obtain ⟨exposesEtag, script, events, tenantId, partChunks, hparts⟩ :=
      hresumes call List.mem_cons_self
    have hrun := @Stage.resume ⟨C, exposesEtag⟩ K script events draw o w₀ w
      (fun _ => Stage K draw o w₀ (FirstParts C draw o)) _ hmethod o.source partChunks (hparts ▸ hk) rfl
      (fun _ _ => FirstParts.gapless) (hparts ▸ keeps_firstParts) tenantId (fun _ _ hv _ => hv)
      (fun _ _ hv _ => hv) h
    exact Ensures.leaves (hrun.post fun _ _ hw => hw.1) rfl

/-- An upload in which every request is answered returns, if one with crashes got as
far as naming its multipart upload. -/
theorem HasUpload.upload_returns {row : AssetRow} {u : String} (h : HasUpload K draw o w₀ row u w)
    (hmethod : o.method = .s3Multipart) (hk : 0 < o.k)
    (hnew : w₀.assets.has (newRow K draw o).id = false) (exposesEtag : Bool) :
    ∃ r v, ClientKeyed.upload ⟨C, exposesEtag⟩ K (fun _ => .answered) [] draw o w₀ = (.ok r, v) ∧
      Finished C K draw o v := by
  have hcalm : ¬ ((∃ r : Request, Fate.answered ≠ (.answered : Fate Thrown)) ∨
      (w₀.insertAsset (newRow K draw o)).1 ≠ .ok () ∨
      ∀ u, K.uploadId w₀.created = some u → u = "") := by
    rintro (⟨_, hr⟩ | hrefused | hunnamed)
    · exact hr rfl
    · exact hrefused h.inserted
    · exact h.nonempty (hunnamed u h.named)
  have hrun : Ensures (· = w₀)
      (ClientKeyed.upload ⟨C, exposesEtag⟩ K (fun _ => .answered) [] draw o)
      (fun _ w => Stage K draw o w₀ (FirstParts C draw o) w ∧ Finished C K draw o w)
      fun _ _ => False :=
    upload_spec hmethod hk hnew fun hstop => absurd hstop hcalm
  obtain ⟨r, v, hv, -, hfinished⟩ := hrun.returns rfl
  exact ⟨r, v, hv, hfinished⟩

theorem Finished.chunk (h : Finished C K draw o w) {i : Nat} (hi : i < (newRow K draw o).chunkCount) :
    w.chunks.get? ((newRow K draw o).id, i) =
      some (C.sha256Hex (cipherChunk C draw.dek (newRow K draw o) o.source i)) := by
  have hmem : (((newRow K draw o).id, i),
      C.sha256Hex (cipherChunk C draw.dek (newRow K draw o) o.source i)) ∈
        w.chunks.entries.filter fun e => e.1 = ((newRow K draw o).id, i) := by
    rw [h.hashes i hi]
    exact List.mem_cons_self
  exact KeyMap.mem_entries.mp (List.mem_of_mem_filter hmem)

/-- Whatever crashed: a resume that returns sent one completion of all the parts in
order, the catalogue has one row for each chunk, and an upload without a crash
returns and leaves the same object and the same rows. -/
theorem crash_and_resume (hmethod : o.method = .s3Multipart) (hk : 0 < o.k)
    (hnew : w₀.assets.has (newRow K draw o).id = false) (exposesEtag : Bool) (script : Script)
    (events : List TusEvent) (resumes : List Call)
    (hresumes : ∀ call ∈ resumes, call.Continues K draw o) (ck : Ck) (hck : ck.crypto = C)
    (script' : Script) (events' : List TusEvent) (tenantId : String) (partChunks : Option Nat)
    (hparts : partChunks.getD 8 = o.k) (r : UploadResult) (w' : World)
    (hreturns : resume ck K script' events' tenantId (newRow K draw o).id o.source partChunks
      (afterCalls C K (.upload exposesEtag script events draw o) resumes w₀) = (.ok r, w')) :
    Resumed C K draw o (afterCalls C K (.upload exposesEtag script events draw o) resumes w₀) w' ∧
      ∃ r₀ v, ClientKeyed.upload ck K (fun _ => .answered) [] draw o w₀ = (.ok r₀, v) ∧
        v.objects.get? (newRow K draw o).objectKey = w'.objects.get? (newRow K draw o).objectKey ∧
        ∀ i < (newRow K draw o).chunkCount,
          v.chunks.get? ((newRow K draw o).id, i) = w'.chunks.get? ((newRow K draw o).id, i) := by
  subst hck
  have hstage := (Stage.upload (C := ck.crypto) hmethod hk hnew exposesEtag script events).resumes
    hmethod hk hresumes
  obtain ⟨-, hreturned⟩ := (hstage.resume (E := fun _ _ => True) hmethod (hparts ▸ hk) rfl
    (fun _ _ => FirstParts.gapless) (hparts ▸ keeps_firstParts) (fun _ _ _ _ => trivial)
    fun _ _ _ _ => trivial).returned rfl hreturns
  rw [hparts] at hreturned
  have hresumed := hreturned.resumed hk
  obtain ⟨row, u, -, -, hupload, -⟩ := hreturned
  obtain ⟨r₀, v, hv, hfinished⟩ := hupload.upload_returns hmethod hk hnew ck.exposesEtag
  refine ⟨hresumed, r₀, v, hv, ?_, fun i hi => ?_⟩
  · rw [hfinished.object, hresumed.finished.object]
  · rw [hfinished.chunk hi, hresumed.finished.chunk hi]

end Runs

/-- Three bytes, continued after a crash before the completion. -/
theorem crash_and_resume_threeByte :
    ∃ r w', resume ⟨plainCrypto, true⟩ plainPlatform (fun _ => .answered) [] "t1" "a1" [1, 2, 3] none
        (runCalls plainCrypto plainPlatform threeByteCalls) = (.ok r, w') ∧
      Resumed plainCrypto plainPlatform threeByteDraw threeByteOpts
        (runCalls plainCrypto plainPlatform threeByteCalls) w' := by
  have hok : (resume ⟨plainCrypto, true⟩ plainPlatform (fun _ => .answered) [] "t1" "a1" [1, 2, 3] none
      (runCalls plainCrypto plainPlatform threeByteCalls)).1.toOption.isSome = true := by
    decide +kernel
  cases hrun : resume ⟨plainCrypto, true⟩ plainPlatform (fun _ => .answered) [] "t1" "a1" [1, 2, 3] none
      (runCalls plainCrypto plainPlatform threeByteCalls) with
  | mk result w' =>
    rw [hrun] at hok
    cases result with
    | error stop => cases hok
    | ok r =>
      exact ⟨r, w', rfl, (crash_and_resume rfl (by decide)
        (show World.empty.assets.has "a1" = false from rfl) true dyingScript [] []
        (fun _ hcall => by cases hcall) ⟨plainCrypto, true⟩ rfl (fun _ => .answered) [] "t1" none rfl r
        w' hrun).1⟩

end SupabaseLab.ClientKeyed
