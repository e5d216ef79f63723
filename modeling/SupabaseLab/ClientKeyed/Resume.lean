/-
  ClientKeyed/Resume.lean --- a resume over the parts an earlier call stored.

  Source: `finish`, `upload` and `resume` of client/src/upload.ts, the S3 transport.

  `resume_spec` is for any source of the right size and any part size: what comes
  out is the parts that were stored with the others derived from that source.  From
  it, an upload that crashes, and is resumed from the same source with the same part
  size until a resume returns, leaves what an upload without a crash would have.
-/
import SupabaseLab.ClientKeyed.History

set_option autoImplicit false

namespace SupabaseLab.ClientKeyed

open Library Process

/-! ## The end of a call -/

section Finish

variable {ck : Ck} {K : Platform} {script : Script} {a : AssetRow} {src : Bytes} {w : World}
  {E : Stop Thrown → World → Prop}

/-- The world with the asset marked complete. -/
def completeRow (C : Crypto) (id : String) (src : Bytes) (w : World) : World :=
  (w.patchAsset id fun row =>
    { row with uploadState := "complete", plaintextSha256 := some (C.sha256Hex src) }).2

/-- Nothing that comes after the asset was marked complete throws. -/
def Settled (script : Script) : Prop :=
  (∀ e, script .patchComplete ≠ .lost e) ∧
    (∀ e, script .chunkRowCount ≠ .refused e) ∧ ∀ e, script .chunkRowCount ≠ .lost e

theorem patchAsset_ok (id : String) (patch : AssetRow → AssetRow) (w : World) :
    (w.patchAsset id patch).1 = .ok () := by
  unfold World.patchAsset
  split
  · rfl
  · rfl

/-- The asset is marked complete, and then its rows are counted. -/
theorem finish_spec {parts : Option PartsResult} {tusOffset : Option (Option Nat)}
    (hbefore : (∃ r, script r ≠ .answered) → ∀ stop, E stop w)
    (hafter : (∃ r, script r ≠ .answered) → ∀ stop, stop = .crashed ∨ ¬ Settled script →
      E stop (completeRow ck.crypto a.id src w)) :
    Ensures (· = w) (finish ck script a src parts tusOffset)
      (fun _ w' => w' = completeRow ck.crypto a.id src w) E := by
  unfold finish
  refine Ensures.bind (Q := fun _ w' => w' = completeRow ck.crypto a.id src w) ?_ fun _ => ?_
  · rintro s rfl
    have hok := patchAsset_ok a.id (fun row =>
      { row with uploadState := "complete", plaintextSha256 := some (ck.crypto.sha256Hex src) }) s
    unfold request
    cases hfate : script .patchComplete with
    | answered =>
      dsimp only
      rw [hok]
      rfl
    | refused e => exact hbefore ⟨_, by rw [hfate]; exact fun h => by cases h⟩ _
    | lost e =>
      exact hafter ⟨_, by rw [hfate]; exact fun h => by cases h⟩ _ (.inr fun h => h.1 e hfate)
    | crashedBefore => exact hbefore ⟨_, by rw [hfate]; exact fun h => by cases h⟩ _
    | crashedAfter => exact hafter ⟨_, by rw [hfate]; exact fun h => by cases h⟩ _ (.inl rfl)
  · refine Ensures.bind (Q := fun _ w' => w' = completeRow ck.crypto a.id src w) ?_
      fun _ => Ensures.pure fun _ hw => hw
    rintro s rfl
    unfold request
    cases hfate : script .chunkRowCount with
    | answered => rfl
    | refused e =>
      exact hafter ⟨_, by rw [hfate]; exact fun h => by cases h⟩ _ (.inr fun h => h.2.1 e hfate)
    | lost e =>
      exact hafter ⟨_, by rw [hfate]; exact fun h => by cases h⟩ _ (.inr fun h => h.2.2 e hfate)
    | crashedBefore => exact hafter ⟨_, by rw [hfate]; exact fun h => by cases h⟩ _ (.inl rfl)
    | crashedAfter => exact hafter ⟨_, by rw [hfate]; exact fun h => by cases h⟩ _ (.inl rfl)

end Finish

/-! ## A resume -/

/-- The asset of a resume: its row, and the multipart upload with the parts `P`,
numbered without a gap. -/
structure Live (K : Platform) (F dek : Bytes) (id : String) (a : AssetRow) (u : String)
    (P : KeyMap Nat Bytes) (w : World) : Prop where
  row : w.assets.get? id = some a
  id : a.id = id
  opens : Opens K F a dek
  method : a.uploadMethod = some "s3-multipart"
  uploadId : a.s3UploadId = some u
  upload : w.uploads.get? u = some ⟨a.objectKey, P⟩
  stored : ∃ m, ∀ n, (P.get? n).isSome = true ↔ 1 ≤ n ∧ n ≤ m

section Resume

variable {ck : Ck} {K : Platform} {script : Script} {events : List TusEvent} {F G dek : Bytes}
  {id u tenantId : String} {a : AssetRow} {P : KeyMap Nat Bytes} {partChunks : Option Nat} {w : World}
  {E : Stop Thrown → World → Prop}

theorem World.upload?_eq (huid : a.s3UploadId = some u) (hlive : w.uploads.get? u = some ⟨a.objectKey, P⟩) :
    w.upload? a.s3UploadId a.objectKey = .ok (u, ⟨a.objectKey, P⟩) := by
  unfold World.upload?
  rw [huid]
  dsimp only
  rw [hlive]
  exact if_pos rfl

/-- The requests before the parts, of a resume that is not refused at once. -/
theorem resume_start {Q : UploadResult → World → Prop} (hrow : w.assets.get? id = some a)
    (hopens : Opens K F a dek) (hsize : G.length = a.plaintextSize)
    (hmethod : a.uploadMethod = some "s3-multipart")
    (hearly : (∃ r, script r ≠ .answered) ∨ tenantId ≠ a.tenantId → ∀ stop, E stop w)
    (hrest : Ensures (· = w)
      (do
        let uploaded ← listParts K script false a
        let r ← runParts ck K script a dek G (partChunks.getD 8) uploaded
        finish ck script a G (some r) none) Q E) :
    Ensures (· = w) (resume ck K script events tenantId id G partChunks) Q E := by
  unfold resume
  refine Ensures.bind (Q := fun _ => (· = w)) (Ensures.request (fun s _ hs _ => hs) (fun s e hs he => ?_)
    fun hne s hs stop => ?_) fun _ => ?_
  · cases he
  · rw [hs]
    exact ⟨hearly (.inl ⟨_, hne⟩) stop, hearly (.inl ⟨_, hne⟩) stop⟩
  have hget : w.getAsset id = (.ok a, w) := by
    unfold World.getAsset
    rw [hrow]
  refine Ensures.bind (Q := fun a' s => a' = a ∧ s = w) (Ensures.request (fun s a' hs hok => ?_)
    (fun s e hs he => ?_) fun hne s hs stop => ?_) fun a' => Ensures.assume fun ha => ?_
  · rw [hs, hget] at hok ⊢
    exact ⟨(Except.ok.inj hok).symm, rfl⟩
  · rw [hs, hget] at he
    cases he
  · rw [hs, hget]
    exact ⟨hearly (.inl ⟨_, hne⟩) stop, hearly (.inl ⟨_, hne⟩) stop⟩
  subst ha
  rw [if_neg (not_not.mpr hsize.symm)]
  refine Ensures.bind (Q := fun dek' s => dek' = dek ∧ s = w) (Ensures.request
    (fun s dek' hs hok => ⟨(hopens.eq_of_unwrap hok).2, hs⟩) (fun s e hs he => ?_)
    fun hne s hs stop => ?_) fun dek' => Ensures.assume fun hdek => ?_
  · rw [hs]
    refine hearly (.inr fun ht => ?_) _
    rw [ht, hopens.unwrap] at he
    cases he
  · rw [hs]
    exact ⟨hearly (.inl ⟨_, hne⟩) stop, hearly (.inl ⟨_, hne⟩) stop⟩
  subst hdek
  rw [if_pos hmethod]
  exact hrest

/-- A resume that finds no row, or no upload in progress, throws and changes nothing. -/
theorem resume_refused {Q : UploadResult → World → Prop}
    (hover : ∀ a, w.assets.get? id = some a → (∃ F dek, Opens K F a dek) ∧
      G.length = a.plaintextSize ∧ a.uploadMethod = some "s3-multipart" ∧
      ∃ e, w.upload? a.s3UploadId a.objectKey = .error e) (hE : ∀ stop, E stop w) :
    Ensures (· = w) (resume ck K script events tenantId id G partChunks) Q E := by
  cases hrow : w.assets.get? id with
  | none =>
    have hget : ∃ e, w.getAsset id = (.error e, w) := by
      unfold World.getAsset
      rw [hrow]
      exact ⟨_, rfl⟩
    obtain ⟨e, hget⟩ := hget
    unfold resume
    refine Ensures.bind (Q := fun _ => (· = w)) (Ensures.request (fun s _ hs _ => hs) (fun s e hs _ => ?_)
      fun _ s hs stop => ?_) fun _ => ?_
    · rw [hs]
      exact hE _
    · rw [hs]
      exact ⟨hE _, hE _⟩
    refine Ensures.bind (Q := fun _ _ => False) (Ensures.request (fun s a' hs hok => ?_)
      (fun s e hs _ => ?_) fun _ s hs stop => ?_) fun _ s hs => hs.elim
    · rw [hs, hget] at hok
      cases hok
    · rw [hs, hget]
      exact hE _
    · rw [hs, hget]
      exact ⟨hE _, hE _⟩
  | some a =>
    obtain ⟨⟨F, dek, hopens⟩, hsize, hmethod, e, hup⟩ := hover a hrow
    refine resume_start hrow hopens hsize hmethod (fun _ stop => hE stop) ?_
    exact Ensures.bind (Q := fun _ _ => False) (listParts_none hup hE) fun _ s hs => hs.elim

theorem Live.ready (h : Live K F dek id a u P w) (hsize : G.length = a.plaintextSize) {k : Nat}
    (hk : 0 < k) {uploaded : KeyMap Nat String} (hlisted : Lists K ⟨a.objectKey, P⟩ uploaded) :
    Ready K a G k u P uploaded w where
  row := by
    rw [KeyMap.has_eq, h.id, h.row]
    rfl
  uploadId := h.uploadId
  noncePrefix := h.opens.noncePrefix
  size := hsize
  count := by
    rw [h.opens.describes.count]
    exact chunkCount_pos _ _
  partChunks := hk
  live := h.upload
  listed := hlisted
  stored := h.stored

/-- A resume over stored parts, from any source of the right size, with parts of any
size: it completes the upload and marks the asset, or stops somewhere on the way. -/
theorem resume_spec (h : Live K F dek id a u P w) (hsize : G.length = a.plaintextSize)
    (hk : 0 < partChunks.getD 8)
    (hearly : (∃ r, script r ≠ .answered) ∨ tenantId ≠ a.tenantId → ∀ stop, E stop w)
    (hloop : (∃ r, script r ≠ .answered) → ∀ v,
      Interrupted K ck.crypto dek a G (partChunks.getD 8) u P w v → ∀ stop, E stop v)
    (hfinal : (∃ r, script r ≠ .answered) → ∀ v,
      Completed K ck.crypto dek a G (partChunks.getD 8) u P w v →
        ∀ stop, stop = .crashed ∨ ¬ Settled script → E stop (completeRow ck.crypto id G v)) :
    Ensures (· = w) (resume ck K script events tenantId id G partChunks)
      (fun _ w' => ∃ v, Completed K ck.crypto dek a G (partChunks.getD 8) u P w v ∧
        w' = completeRow ck.crypto id G v) E := by
  refine resume_start h.row h.opens hsize h.method hearly ?_
  refine Ensures.bind (Q := fun uploaded s => Lists K ⟨a.objectKey, P⟩ uploaded ∧ s = w)
    (Ensures.mono (listParts_spec (E := E) (World.upload?_eq h.uploadId h.upload) fun hne stop => ?_)
      (fun _ hs => hs) (fun _ _ hs => ⟨hs.2, hs.1⟩) fun _ _ he => he)
    fun uploaded => Ensures.assume fun hlisted => ?_
  · obtain ⟨m, hm⟩ := hne
    exact hearly (.inl ⟨_, hm⟩) stop
  refine Ensures.bind (runParts_spec (h.ready hsize hk hlisted) h.opens.keyLength hloop)
    fun r v hv => ?_
  refine (finish_spec (fun hne => hloop hne v (.inr hv)) fun hne => ?_).post
    (fun _ w' hw' => ⟨v, hv, ?_⟩) v rfl
  · rw [h.id]
    exact hfinal hne v hv
  · rw [hw', h.id]

end Resume

end SupabaseLab.ClientKeyed
