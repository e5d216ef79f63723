/-
  ClientKeyed/Parts.lean --- what the part loop of an upload or a resume does.

  `runParts` is described once for any parts already stored: the parts it finds
  are taken as they are, the others are derived from the source it was given, and
  the completion joins them by number.  `runParts_spec` says what holds when it
  returns and what holds wherever it stops, so the crash points need no cases of
  their own afterwards.
-/
import SupabaseLab.ClientKeyed.Listing

set_option autoImplicit false

namespace SupabaseLab.ClientKeyed

open Library Process

/-! ## The parts of a source -/

section PartBytes

variable {C : Crypto} {key src : Bytes} {a : AssetRow} {k : Nat}

/-- The number of chunks in part `p`, counted from 0. -/
def partLength (a : AssetRow) (k p : Nat) : Nat :=
  min (a.chunkCount - 1) (p * k + k - 1) + 1 - p * k

/-- Part `p` of the ciphertext, counted from 0. -/
def partBytes (C : Crypto) (key : Bytes) (a : AssetRow) (src : Bytes) (k p : Nat) : Bytes :=
  (cipherRange C key a src (p * k) (partLength a k p)).bytes

/-- Parts are laid end to end: part `p` starts where the chunks before it stop. -/
theorem range'_partLength (hcount : 0 < a.chunkCount) (hk : 0 < k) (p : Nat) :
    List.range (min a.chunkCount (p * k)) ++ List.range' (p * k) (partLength a k p) =
      List.range (min a.chunkCount ((p + 1) * k)) := by
  have hsucc : (p + 1) * k = p * k + k := Nat.succ_mul p k
  rw [List.range_eq_range', List.range_eq_range', partLength]
  by_cases hin : p * k ≤ a.chunkCount
  · have hmin : min a.chunkCount (p * k) = p * k := Nat.min_eq_right hin
    have hlen : min a.chunkCount ((p + 1) * k) =
        p * k + (min (a.chunkCount - 1) (p * k + k - 1) + 1 - p * k) := by omega
    rw [hmin, hlen, ← List.range'_append, Nat.one_mul, Nat.zero_add]
  · have hpast : min (a.chunkCount - 1) (p * k + k - 1) + 1 - p * k = 0 := by omega
    have hmin : min a.chunkCount (p * k) = a.chunkCount := by omega
    have hmin' : min a.chunkCount ((p + 1) * k) = a.chunkCount := by omega
    rw [hpast, hmin, hmin', List.range'_zero, List.append_nil]

theorem flatMap_partBytes (hcount : 0 < a.chunkCount) (hk : 0 < k) (n : Nat) :
    (List.range n).flatMap (partBytes C key a src k) =
      (List.range (min a.chunkCount (n * k))).flatMap (cipherChunk C key a src) := by
  induction n with
  | zero => simp
  | succ n ih =>
    rw [List.range_succ, List.flatMap_append, List.flatMap_singleton, ih, ← range'_partLength hcount
      hk n, List.flatMap_append]
    rfl

theorem chunkCount_le_partCount_mul (hk : 0 < k) : a.chunkCount ≤ partCount a k * k := by
  rw [partCount]
  have hdiv := Nat.div_add_mod (a.chunkCount + k - 1) k
  have hmod := Nat.mod_lt (a.chunkCount + k - 1) hk
  rw [Nat.mul_comm] at hdiv
  omega

theorem partCount_pos (hcount : 0 < a.chunkCount) (hk : 0 < k) : 0 < partCount a k :=
  Nat.div_pos (by omega) hk

/-- All the parts of a source are its ciphertext. -/
theorem flatMap_partBytes_partCount (hcount : 0 < a.chunkCount) (hk : 0 < k) :
    (List.range (partCount a k)).flatMap (partBytes C key a src k) = cipherObject C key a src := by
  rw [flatMap_partBytes hcount hk, Nat.min_eq_left (chunkCount_le_partCount_mul hk), cipherObject]

end PartBytes

/-! ## The state of the loop -/

/-- The parts stored when the loop has done `p` turns over the parts `P` it found. -/
def storedAfter (C : Crypto) (key : Bytes) (a : AssetRow) (src : Bytes) (k : Nat)
    (P : KeyMap Nat Bytes) (p n : Nat) : Option Bytes :=
  if 1 ≤ n ∧ n ≤ p then some ((P.get? n).getD (partBytes C key a src k (n - 1))) else P.get? n

/-- What part number `n` is in the end. -/
def finalPart (C : Crypto) (key : Bytes) (a : AssetRow) (src : Bytes) (k : Nat)
    (P : KeyMap Nat Bytes) (n : Nat) : Bytes :=
  (P.get? n).getD (partBytes C key a src k (n - 1))

/-- What the completion joins. -/
def joinedParts (C : Crypto) (key : Bytes) (a : AssetRow) (src : Bytes) (k : Nat)
    (P : KeyMap Nat Bytes) : Bytes :=
  (List.range' 1 (partCount a k)).flatMap (finalPart C key a src k P)

/-- The ETag the loop is shown for part `n`. -/
def shownEtag (ck : Ck) (K : Platform) (key : Bytes) (a : AssetRow) (src : Bytes) (k : Nat)
    (P : KeyMap Nat Bytes) (n : Nat) : Option String :=
  match P.get? n with
  | some b => some (K.etag b)
  | none => if ck.exposesEtag then some (K.etag (partBytes ck.crypto key a src k (n - 1))) else none

/-- What a part loop needs: the row, a live upload with parts `P`, which are
numbered without a gap, and their ETags. -/
structure Ready (K : Platform) (a : AssetRow) (src : Bytes) (k : Nat) (u : String)
    (P : KeyMap Nat Bytes) (uploaded : KeyMap Nat String) (w₀ : World) : Prop where
  row : w₀.assets.has a.id = true
  uploadId : a.s3UploadId = some u
  noncePrefix : (unhex a.noncePrefix).length = 8
  size : src.length = a.plaintextSize
  count : 0 < a.chunkCount
  partChunks : 0 < k
  live : w₀.uploads.get? u = some ⟨a.objectKey, P⟩
  listed : Lists K ⟨a.objectKey, P⟩ uploaded
  stored : ∃ m, ∀ n, (P.get? n).isSome = true ↔ 1 ≤ n ∧ n ≤ m

/-- The upload is in progress, some turns of the loop on. -/
structure InProgress (C : Crypto) (key : Bytes) (a : AssetRow) (src : Bytes) (k : Nat) (u : String)
    (P : KeyMap Nat Bytes) (w₀ : World) (p : Nat) (w : World) : Prop where
  assets : w.assets = w₀.assets
  objects : w.objects = w₀.objects
  completions : w.completions = w₀.completions
  upload : ∃ parts : KeyMap Nat Bytes, w.uploads.get? u = some ⟨a.objectKey, parts⟩ ∧
    ∀ n, parts.get? n = storedAfter C key a src k P p n

/-- The hashes of the chunks below `limit` are those of `src`. -/
def HashesBelow (C : Crypto) (key : Bytes) (a : AssetRow) (src : Bytes) (w₀ : World) (limit : Nat)
    (w : World) : Prop :=
  ∀ e : String × Nat, w.chunks.get? e =
    if e.1 = a.id ∧ e.2 < limit then some (C.sha256Hex (cipherChunk C key a src e.2))
    else w₀.chunks.get? e

/-- The upload is completed: the parts are joined, and the upload is over. -/
structure Completed (K : Platform) (C : Crypto) (key : Bytes) (a : AssetRow) (src : Bytes) (k : Nat)
    (u : String) (P : KeyMap Nat Bytes) (w₀ w : World) : Prop where
  assets : w.assets = w₀.assets
  object : w.objects.get? a.objectKey = some (joinedParts C key a src k P)
  ended : w.uploads.get? u = none
  completions : w.completions = w₀.completions ++
    [⟨u, (List.range' 1 (partCount a k)).map fun n => (n, K.etag (finalPart C key a src k P n))⟩]
  hashes : HashesBelow C key a src w₀ a.chunkCount w

/-- The loop after `p` turns. -/
structure AtPart (ck : Ck) (K : Platform) (key : Bytes) (a : AssetRow) (src : Bytes) (k : Nat)
    (u : String) (P : KeyMap Nat Bytes) (w₀ : World) (p : Nat) (acc : PartsAcc) (w : World) :
    Prop where
  progress : InProgress ck.crypto key a src k u P w₀ p w
  hashes : HashesBelow ck.crypto key a src w₀ (min a.chunkCount (p * k)) w
  keys : acc.etags.keys = List.range' 1 p
  etags : ∀ n, 1 ≤ n → n ≤ p → acc.etags.get? n = some (shownEtag ck K key a src k P n)

/-! ## One turn -/

section Turn

variable {ck : Ck} {K : Platform} {script : Script} {key src : Bytes} {a : AssetRow} {k : Nat}
  {u : String} {P : KeyMap Nat Bytes} {uploaded : KeyMap Nat String} {w₀ w : World} {p : Nat}
  {acc : PartsAcc} {E : Stop Thrown → World → Prop}

theorem InProgress.upload? (h : InProgress ck.crypto key a src k u P w₀ p w)
    (huid : a.s3UploadId = some u) :
    ∃ parts : KeyMap Nat Bytes, w.upload? a.s3UploadId a.objectKey = .ok (u, ⟨a.objectKey, parts⟩) ∧
      ∀ n, parts.get? n = storedAfter ck.crypto key a src k P p n := by
  obtain ⟨parts, hget, hparts⟩ := h.upload
  refine ⟨parts, ?_, hparts⟩
  unfold World.upload?
  rw [huid]
  dsimp only
  rw [hget]
  exact if_pos rfl

theorem upsertChunks_eq (hrow : w.assets.has a.id = true) (hashes : List ChunkHash) :
    w.upsertChunks a.id hashes =
      (.ok (), w.putHashes a.id hashes) := by
  unfold World.upsertChunks
  by_cases hnil : hashes = []
  · rw [if_pos hnil, hnil, World.putHashes, List.map_nil, List.append_nil]
    rfl
  · rw [if_neg hnil, if_pos hrow]

/-- The rows after an upsert of the hashes of the chunks `l`. -/
theorem get?_upsert (l : List Nat) (m : KeyMap (String × Nat) String) (e : String × Nat) :
    ((l.map fun i => (⟨i, ck.crypto.sha256Hex (cipherChunk ck.crypto key a src i)⟩ : ChunkHash)).foldl
        (fun m x => m.set (a.id, x.idx) x.h) m).get? e =
      if e.1 = a.id ∧ e.2 ∈ l then some (ck.crypto.sha256Hex (cipherChunk ck.crypto key a src e.2))
      else m.get? e := by
  induction l generalizing m with
  | nil =>
    rw [if_neg (by simp)]
    rfl
  | cons i l ih =>
    obtain ⟨id, idx⟩ := e
    rw [List.map_cons, List.foldl_cons, ih, KeyMap.get?_set]
    by_cases hid : id = a.id
    · by_cases hidx : idx = i
      · subst hidx
        simp [hid]
      · simp [hid, hidx]
    · simp [hid]

theorem HashesBelow.congr {limit : Nat} {w' : World}
    (h : HashesBelow ck.crypto key a src w₀ limit w) (hchunks : w'.chunks = w.chunks) :
    HashesBelow ck.crypto key a src w₀ limit w' := by
  intro e
  rw [hchunks]
  exact h e

/-- The hashes of one part join those of the parts before it. -/
theorem HashesBelow.upsert (hcount : 0 < a.chunkCount) (hk : 0 < k)
    (h : HashesBelow ck.crypto key a src w₀ (min a.chunkCount (p * k)) w) :
    HashesBelow ck.crypto key a src w₀ (min a.chunkCount ((p + 1) * k))
      (w.putHashes a.id (cipherRange ck.crypto key a src (p * k) (partLength a k p)).hashes) := by
  intro e
  refine (get?_upsert (List.range' (p * k) (partLength a k p)) w.chunks e).trans ?_
  rw [h e]
  have hmem : e.2 < min a.chunkCount ((p + 1) * k) ↔
      e.2 < min a.chunkCount (p * k) ∨ e.2 ∈ List.range' (p * k) (partLength a k p) := by
    rw [← List.mem_range, ← range'_partLength hcount hk p, List.mem_append, List.mem_range]
  by_cases hid : e.1 = a.id
  · by_cases hnew : e.2 ∈ List.range' (p * k) (partLength a k p)
    · rw [if_pos ⟨hid, hnew⟩, if_pos ⟨hid, hmem.mpr (.inr hnew)⟩]
    · rw [if_neg fun hand => hnew hand.2]
      by_cases hold : e.2 < min a.chunkCount (p * k)
      · rw [if_pos ⟨hid, hold⟩, if_pos ⟨hid, hmem.mpr (.inl hold)⟩]
      · rw [if_neg fun hand => hold hand.2, if_neg fun hand => (hmem.mp hand.2).elim hold hnew]
  · rw [if_neg fun hand => hid hand.1, if_neg fun hand => hid hand.1,
      if_neg fun hand => hid hand.1]

/-- Storing part `p + 1` when it is not there yet. -/
theorem storedAfter_send {parts : KeyMap Nat Bytes}
    (hparts : ∀ n, parts.get? n = storedAfter ck.crypto key a src k P p n)
    (hfresh : P.get? (p + 1) = none) (n : Nat) :
    (parts.set (p + 1) (partBytes ck.crypto key a src k p)).get? n =
      storedAfter ck.crypto key a src k P (p + 1) n := by
  rw [KeyMap.get?_set, hparts n, storedAfter, storedAfter]
  by_cases hn : n = p + 1
  · rw [if_pos hn, if_pos (by omega), hn, hfresh]
    rfl
  · rw [if_neg hn]
    by_cases hlow : 1 ≤ n ∧ n ≤ p
    · rw [if_pos hlow, if_pos (by omega)]
    · rw [if_neg hlow, if_neg (by omega)]

/-- Taking part `p + 1` as it is there. -/
theorem storedAfter_take {b : Bytes} (hthere : P.get? (p + 1) = some b) (n : Nat) :
    storedAfter ck.crypto key a src k P p n = storedAfter ck.crypto key a src k P (p + 1) n := by
  rw [storedAfter, storedAfter]
  by_cases hn : n = p + 1
  · rw [if_neg (by omega), if_pos (by omega), hn, hthere]
    rfl
  · by_cases hlow : 1 ≤ n ∧ n ≤ p
    · rw [if_pos hlow, if_pos (by omega)]
    · rw [if_neg hlow, if_neg (by omega)]

/-- The ETags so far, and the one this turn shows. -/
theorem etags_set (hkeys : acc.etags.keys = List.range' 1 p)
    (hetags : ∀ n, 1 ≤ n → n ≤ p → acc.etags.get? n = some (shownEtag ck K key a src k P n))
    {e : Option String} (he : e = shownEtag ck K key a src k P (p + 1)) :
    (acc.etags.set (p + 1) e).keys = List.range' 1 (p + 1) ∧
      ∀ n, 1 ≤ n → n ≤ p + 1 →
        (acc.etags.set (p + 1) e).get? n = some (shownEtag ck K key a src k P n) := by
  have hfresh : p + 1 ∉ acc.etags.keys := by
    rw [hkeys, List.mem_range'_1]
    omega
  refine ⟨?_, fun n hlow hhigh => ?_⟩
  · rw [KeyMap.keys_set_of_not_mem e hfresh, hkeys, List.range'_concat, Nat.one_mul,
      Nat.add_comm 1 p]
  · rw [KeyMap.get?_set]
    by_cases hn : n = p + 1
    · rw [if_pos hn, hn, he]
    · rw [if_neg hn]
      exact hetags n hlow (by omega)

/-- Sending part `p + 1` takes the upload a turn on. -/
theorem InProgress.send (h : InProgress ck.crypto key a src k u P w₀ p w)
    (huid : a.s3UploadId = some u) (hfresh : P.get? (p + 1) = none) :
    ∃ w', w.uploadPart K a.s3UploadId a.objectKey (p + 1) (partBytes ck.crypto key a src k p) =
        (.ok (K.etag (partBytes ck.crypto key a src k p)), w') ∧
      InProgress ck.crypto key a src k u P w₀ (p + 1) w' ∧ w'.chunks = w.chunks := by
  obtain ⟨parts, hup, hparts⟩ := h.upload? huid
  let parts' := parts.set (p + 1) (partBytes ck.crypto key a src k p)
  refine ⟨{ w with uploads := w.uploads.set u ⟨a.objectKey, parts'⟩ }, ?_,
    ⟨h.assets, h.objects, h.completions, parts', KeyMap.get?_set_self _ _ _,
      storedAfter_send hparts hfresh⟩, rfl⟩
  unfold World.uploadPart
  rw [hup]

/-- In turn `p`, when the hashes of its part are in the catalogue. -/
structure Hashed (ck : Ck) (K : Platform) (key : Bytes) (a : AssetRow) (src : Bytes) (k : Nat)
    (u : String) (P : KeyMap Nat Bytes) (w₀ : World) (p : Nat) (acc : PartsAcc) (w : World) :
    Prop where
  progress : InProgress ck.crypto key a src k u P w₀ p w
  hashes : HashesBelow ck.crypto key a src w₀ (min a.chunkCount ((p + 1) * k)) w
  keys : acc.etags.keys = List.range' 1 p
  etags : ∀ n, 1 ≤ n → n ≤ p → acc.etags.get? n = some (shownEtag ck K key a src k P n)

/-- The hashes go to the catalogue. -/
theorem upsert_spec (hready : Ready K a src k u P uploaded w₀)
    (hE : (∃ r, script r ≠ .answered) → ∀ p ≤ partCount a k, ∀ w,
      InProgress ck.crypto key a src k u P w₀ p w → ∀ stop, E stop w)
    (hp : p < partCount a k) :
    Ensures (AtPart ck K key a src k u P w₀ p acc)
      (request (script (.upsertChunks (p + 1))) (World.upsertChunks a.id
        (cipherRange ck.crypto key a src (p * k) (partLength a k p)).hashes))
      (fun _ => Hashed ck K key a src k u P w₀ p acc) E := by
  let hashes := (cipherRange ck.crypto key a src (p * k) (partLength a k p)).hashes
  have hupsert : ∀ w, AtPart ck K key a src k u P w₀ p acc w →
      w.upsertChunks a.id hashes = (.ok (), w.putHashes a.id hashes) := by
    intro w hw
    refine upsertChunks_eq ?_ _
    rw [hw.progress.assets]
    exact hready.row
  have hput : ∀ w, AtPart ck K key a src k u P w₀ p acc w →
      InProgress ck.crypto key a src k u P w₀ p (w.putHashes a.id hashes) := fun w hw =>
    ⟨hw.progress.assets, hw.progress.objects, hw.progress.completions, hw.progress.upload⟩
  refine Ensures.request ?_ ?_ ?_
  · rintro w ⟨⟩ hw _
    rw [hupsert w hw]
    exact ⟨hput w hw, hw.hashes.upsert hready.count hready.partChunks, hw.keys, hw.etags⟩
  · intro w e hw he
    rw [hupsert w hw] at he
    cases he
  · intro hne w hw stop
    rw [hupsert w hw]
    exact ⟨hE ⟨_, hne⟩ p (Nat.le_of_lt hp) w hw.progress stop,
      hE ⟨_, hne⟩ p (Nat.le_of_lt hp) _ (hput w hw) stop⟩

/-- The part is sent, and its ETag comes back. -/
theorem send_spec (hready : Ready K a src k u P uploaded w₀)
    (hE : (∃ r, script r ≠ .answered) → ∀ p ≤ partCount a k, ∀ w,
      InProgress ck.crypto key a src k u P w₀ p w → ∀ stop, E stop w)
    (hp : p < partCount a k) (hfresh : P.get? (p + 1) = none) :
    Ensures (Hashed ck K key a src k u P w₀ p acc)
      (request (script (.uploadPart (p + 1))) fun w =>
        (s3call s!"UploadPart {p + 1}" (w.uploadPart K a.s3UploadId a.objectKey (p + 1)
            (partBytes ck.crypto key a src k p)).1,
          (w.uploadPart K a.s3UploadId a.objectKey (p + 1) (partBytes ck.crypto key a src k p)).2))
      (fun etag w => etag = K.etag (partBytes ck.crypto key a src k p) ∧
        InProgress ck.crypto key a src k u P w₀ (p + 1) w ∧
        HashesBelow ck.crypto key a src w₀ (min a.chunkCount ((p + 1) * k)) w ∧
        acc.etags.keys = List.range' 1 p ∧
        ∀ n, 1 ≤ n → n ≤ p → acc.etags.get? n = some (shownEtag ck K key a src k P n)) E := by
  refine Ensures.request ?_ ?_ ?_
  · intro w etag hw hok
    obtain ⟨w', hsend, hprogress', hchunks⟩ := hw.progress.send (K := K) hready.uploadId hfresh
    dsimp only at hok ⊢
    rw [hsend] at hok ⊢
    cases hok
    exact ⟨rfl, hprogress', hw.hashes.congr hchunks, hw.keys, hw.etags⟩
  · intro w e hw he
    obtain ⟨w', hsend, -, -⟩ := hw.progress.send (K := K) hready.uploadId hfresh
    dsimp only at he
    rw [hsend] at he
    cases he
  · intro hne w hw stop
    obtain ⟨w', hsend, hprogress', -⟩ := hw.progress.send (K := K) hready.uploadId hfresh
    refine ⟨hE ⟨_, hne⟩ p (Nat.le_of_lt hp) w hw.progress stop, ?_⟩
    dsimp only
    rw [hsend]
    exact hE ⟨_, hne⟩ (p + 1) hp w' hprogress' stop

/-- One turn of the part loop. -/
theorem partStep_spec (hready : Ready K a src k u P uploaded w₀)
    (hE : (∃ r, script r ≠ .answered) → ∀ p ≤ partCount a k, ∀ w,
      InProgress ck.crypto key a src k u P w₀ p w → ∀ stop, E stop w)
    (hp : p < partCount a k) :
    Ensures (AtPart ck K key a src k u P w₀ p acc)
      (partStep ck K script a key src k uploaded acc p)
      (AtPart ck K key a src k u P w₀ (p + 1)) E := by
  have henc : encryptRange ck.crypto key a src (p * k) (min (a.chunkCount - 1) (p * k + k - 1)) =
      .ok (cipherRange ck.crypto key a src (p * k) (partLength a k p)) :=
    encryptRange_eq hready.noncePrefix hready.size _ _
  unfold partStep
  dsimp only
  rw [henc]
  refine Ensures.bind (Q := fun enc w =>
    enc = cipherRange ck.crypto key a src (p * k) (partLength a k p) ∧
      AtPart ck K key a src k u P w₀ p acc w)
    (Ensures.ofExcept (fun enc w hok hw => ⟨(Except.ok.inj hok).symm, hw⟩)
      fun e w herror _ => by cases herror) fun enc => Ensures.assume fun henc => ?_
  subst henc
  refine Ensures.bind (Q := fun _ => AtPart ck K key a src k u P w₀ p acc)
    (Ensures.note fun w hw => ⟨⟨hw.progress.assets, hw.progress.objects, hw.progress.completions,
      hw.progress.upload⟩, hw.hashes, hw.keys, hw.etags⟩) fun _ => ?_
  -- the hashes go to the catalogue before the bytes they describe are sent
  refine Ensures.bind (upsert_spec hready hE hp) fun _ => ?_
  -- then the part is there, or is sent
  have hlisted := hready.listed (p + 1)
  rw [if_neg (by omega)] at hlisted
  cases hthere : P.get? (p + 1) with
  | some b =>
    have hup : uploaded.get? (p + 1) = some (K.etag b) := by
      rw [hlisted]
      show (P.get? (p + 1)).map K.etag = _
      rw [hthere]
      rfl
    rw [hup]
    refine Ensures.pure fun w hw => ?_
    obtain ⟨parts, hget, hparts⟩ := hw.progress.upload
    obtain ⟨hkeys', hetags'⟩ := etags_set hw.keys hw.etags (e := some (K.etag b)) (by
      rw [shownEtag, hthere])
    exact ⟨⟨hw.progress.assets, hw.progress.objects, hw.progress.completions, parts, hget,
      fun n => (hparts n).trans (storedAfter_take hthere n)⟩, hw.hashes, hkeys', hetags'⟩
  | none =>
    have hup : uploaded.get? (p + 1) = none := by
      rw [hlisted]
      show (P.get? (p + 1)).map K.etag = _
      rw [hthere]
      rfl
    rw [hup]
    refine Ensures.bind (Q := fun _ => Hashed ck K key a src k u P w₀ p acc)
      (Ensures.note fun w hw => ⟨⟨hw.progress.assets, hw.progress.objects, hw.progress.completions,
        hw.progress.upload⟩, hw.hashes, hw.keys, hw.etags⟩) fun _ => ?_
    refine Ensures.bind (send_spec hready hE hp hthere) fun etag => Ensures.pure fun w hw => ?_
    obtain ⟨rfl, hprogress, hhashes, hkeys, hetags⟩ := hw
    obtain ⟨hkeys', hetags'⟩ := etags_set hkeys hetags
      (e := if ck.exposesEtag then some (K.etag (partBytes ck.crypto key a src k p)) else none)
      (by rw [shownEtag, hthere]; rfl)
    exact ⟨hprogress, hhashes, hkeys', hetags'⟩

end Turn

/-! ## The ETags of all parts -/

section Etags

variable {etags : KeyMap Nat (Option String)} {listed : KeyMap Nat String}

/-- The turn of `fillEtags` for one listed part. -/
def fillEtag (m : KeyMap Nat (Option String)) (e : Nat × String) : KeyMap Nat (Option String) :=
  if noEtag (m.get? e.1).join then m.set e.1 (some e.2) else m

theorem get?_fillEtag_of_ne {m : KeyMap Nat (Option String)} {e : Nat × String} {n : Nat}
    (hn : n ≠ e.1) : (fillEtag m e).get? n = m.get? n := by
  unfold fillEtag
  split
  · exact KeyMap.get?_set_of_ne _ _ hn
  · rfl

theorem keys_fillEtag {m : KeyMap Nat (Option String)} {e : Nat × String} (h : e.1 ∈ m.keys) :
    (fillEtag m e).keys = m.keys := by
  unfold fillEtag
  split
  · exact KeyMap.keys_set_of_mem _ h
  · rfl

theorem get?_foldl_fillEtag_of_not_mem {l : List (Nat × String)} {m : KeyMap Nat (Option String)}
    {n : Nat} (h : n ∉ l.map Prod.fst) : (l.foldl fillEtag m).get? n = m.get? n := by
  induction l generalizing m with
  | nil => rfl
  | cons e l ih =>
    obtain ⟨hne, hrest⟩ := not_or.mp (mt List.mem_cons.mpr h)
    rw [List.foldl_cons, ih hrest, get?_fillEtag_of_ne hne]

theorem get?_foldl_fillEtag {l : List (Nat × String)} (hnodup : (l.map Prod.fst).Nodup)
    {m : KeyMap Nat (Option String)} {n : Nat} {e : String} (h : (n, e) ∈ l) :
    (l.foldl fillEtag m).get? n = if noEtag (m.get? n).join then some (some e) else m.get? n := by
  induction l generalizing m with
  | nil => exact absurd h List.not_mem_nil
  | cons x l ih =>
    obtain ⟨hfresh, hrest⟩ := List.nodup_cons.mp hnodup
    rw [List.foldl_cons]
    rcases List.mem_cons.mp h with rfl | h
    · rw [get?_foldl_fillEtag_of_not_mem hfresh]
      unfold fillEtag
      split
      · exact KeyMap.get?_set_self _ _ _
      · rfl
    · have hne : n ≠ x.1 := by
        rintro rfl
        exact hfresh (List.mem_map.mpr ⟨_, h, rfl⟩)
      rw [ih hrest h, get?_fillEtag_of_ne hne]

theorem keys_foldl_fillEtag {l : List (Nat × String)} {m : KeyMap Nat (Option String)}
    (h : ∀ e ∈ l, e.1 ∈ m.keys) : (l.foldl fillEtag m).keys = m.keys := by
  induction l generalizing m with
  | nil => rfl
  | cons e l ih =>
    have hkeys := keys_fillEtag (h e List.mem_cons_self)
    rw [List.foldl_cons, ih fun x hx => hkeys.symm ▸ h x (List.mem_cons_of_mem _ hx), hkeys]

/-- Listed parts that are all known fill in what was not shown, and add nothing. -/
theorem keys_fillEtags (h : ∀ n e, listed.get? n = some e → n ∈ etags.keys) :
    (fillEtags etags listed).keys = etags.keys :=
  keys_foldl_fillEtag fun x hx => h x.1 x.2 (KeyMap.mem_entries.mp hx)

theorem get?_fillEtags {n : Nat} {e : String} (h : listed.get? n = some e) :
    (fillEtags etags listed).get? n =
      if noEtag (etags.get? n).join then some (some e) else etags.get? n :=
  get?_foldl_fillEtag listed.nodup (KeyMap.mem_entries.mpr h)

/-- The ETags of parts 1 to `n`, as the completion is sent them. -/
theorem sortedParts_eq {n : Nat} {e : Nat → String} (hkeys : etags.keys = List.range' 1 n)
    (hetags : ∀ i, 1 ≤ i → i ≤ n → etags.get? i = some (some (e i))) :
    sortedParts etags = (List.range' 1 n).map fun i => (i, some (e i)) := by
  have hentries : etags.entries = (List.range' 1 n).map fun i => (i, some (e i)) := by
    have hmap := etags.entries_eq fun i v => (i, v.join)
    rw [hkeys] at hmap
    refine Eq.trans (List.map_id _).symm (hmap.trans (List.map_congr_left fun i hi => ?_))
    obtain ⟨hlow, hhigh⟩ := List.mem_range'_1.mp hi
    rw [hetags i hlow (by omega)]
    rfl
  unfold sortedParts
  rw [hentries]
  refine List.mergeSort_of_pairwise (List.pairwise_map.mpr ?_)
  exact List.Pairwise.imp (fun hlt => decide_eq_true (Nat.le_of_lt hlt)) List.pairwise_lt_range'

end Etags

/-! ## The completion -/

section Completion

variable {ck : Ck} {K : Platform} {script : Script} {key src : Bytes} {a : AssetRow} {k : Nat}
  {u : String} {P : KeyMap Nat Bytes} {uploaded listed : KeyMap Nat String} {w₀ w : World}
  {acc : PartsAcc} {E : Stop Thrown → World → Prop}

/-- What the loop leaves where it stops early: the upload some turns on, or already
completed. -/
def Interrupted (K : Platform) (C : Crypto) (key : Bytes) (a : AssetRow) (src : Bytes) (k : Nat)
    (u : String) (P : KeyMap Nat Bytes) (w₀ w : World) : Prop :=
  (∃ p ≤ partCount a k, InProgress C key a src k u P w₀ p w) ∨ Completed K C key a src k u P w₀ w

theorem noEtag_some (b : Bytes) : noEtag (some (K.etag b)) = false := by
  unfold noEtag
  rw [Bool.or_eq_false_iff]
  exact ⟨rfl, decide_eq_false fun h => K.etag_ne b (Option.some.inj h)⟩

theorem shownEtag_eq (n : Nat) :
    shownEtag ck K key a src k P n = none ∧ P.get? n = none ∨
      shownEtag ck K key a src k P n = some (K.etag (finalPart ck.crypto key a src k P n)) := by
  unfold shownEtag finalPart
  cases P.get? n with
  | some b => exact .inr rfl
  | none =>
    dsimp only
    split
    · exact .inr rfl
    · exact .inl ⟨rfl, rfl⟩

theorem storedAfter_eq {p n : Nat} (hlow : 1 ≤ n) (hhigh : n ≤ p) :
    storedAfter ck.crypto key a src k P p n = some (finalPart ck.crypto key a src k P n) :=
  if_pos ⟨hlow, hhigh⟩

/-- Before the first turn. -/
theorem AtPart.init (hready : Ready K a src k u P uploaded w₀) :
    AtPart ck K key a src k u P w₀ 0 {} w₀ where
  progress := ⟨rfl, rfl, rfl, P, hready.live, fun n => (if_neg (by omega)).symm⟩
  hashes e := by
    rw [Nat.zero_mul, Nat.min_zero]
    exact (if_neg fun hand => Nat.not_lt_zero _ hand.2).symm
  keys := rfl
  etags n hlow hhigh := by omega

/-- The ETags that were shown are of all the parts. -/
theorem sortedParts_shown (hat : AtPart ck K key a src k u P w₀ (partCount a k) acc w)
    (hmissing : (acc.etags.entries.any fun e => noEtag e.2) = false) :
    sortedParts acc.etags = (List.range' 1 (partCount a k)).map fun n =>
      (n, some (K.etag (finalPart ck.crypto key a src k P n))) := by
  refine sortedParts_eq hat.keys fun n hlow hhigh => ?_
  have hget := hat.etags n hlow hhigh
  have hshown : noEtag (shownEtag ck K key a src k P n) = false := by
    have hmem := KeyMap.mem_entries.mpr hget
    have hall := List.any_eq_false.mp hmissing _ hmem
    exact Bool.eq_false_iff.mpr hall
  obtain ⟨hnone, -⟩ | hsome := @shownEtag_eq ck K key src a k P n
  · rw [hnone] at hshown
    cases hshown
  · rw [hget, hsome]

/-- Where one was not shown, a part was sent, so the stored parts are these parts and
the listing has the ETag of each. -/
theorem sortedParts_listed (hready : Ready K a src k u P uploaded w₀)
    (hat : AtPart ck K key a src k u P w₀ (partCount a k) acc w)
    (hmissing : (acc.etags.entries.any fun e => noEtag e.2) = true) {parts : KeyMap Nat Bytes}
    (hparts : ∀ n, parts.get? n = storedAfter ck.crypto key a src k P (partCount a k) n)
    (hlisted : Lists K ⟨a.objectKey, parts⟩ listed) :
    sortedParts (fillEtags acc.etags listed) = (List.range' 1 (partCount a k)).map fun n =>
      (n, some (K.etag (finalPart ck.crypto key a src k P n))) := by
  obtain ⟨m, hstored⟩ := hready.stored
  -- a part that was sent was not there
  have hm : m < partCount a k := by
    obtain ⟨⟨n, e⟩, hmem, hnone⟩ := List.any_eq_true.mp hmissing
    have hget := KeyMap.mem_entries.mp hmem
    have hkey : n ∈ acc.etags.keys := KeyMap.mem_keys.mpr (by rw [hget]; rfl)
    rw [hat.keys, List.mem_range'_1] at hkey
    rw [hat.etags n hkey.1 (by omega)] at hget
    cases hget
    obtain ⟨-, hfresh⟩ | hsome := @shownEtag_eq ck K key src a k P n
    · have := (hstored n).not.mp (by rw [hfresh]; decide)
      omega
    · dsimp only at hnone
      rw [hsome, noEtag_some] at hnone
      cases hnone
  have hget : ∀ n, 1 ≤ n → n ≤ partCount a k →
      listed.get? n = some (K.etag (finalPart ck.crypto key a src k P n)) := by
    intro n hlow hhigh
    rw [hlisted n, if_neg (by omega)]
    show (parts.get? n).map K.etag = _
    rw [hparts n, storedAfter_eq hlow hhigh]
    rfl
  have hkeys : (fillEtags acc.etags listed).keys = List.range' 1 (partCount a k) := by
    rw [← hat.keys]
    refine keys_fillEtags fun n e hn => ?_
    rw [hlisted n] at hn
    split at hn
    · cases hn
    · rename_i hpos
      change (parts.get? n).map K.etag = _ at hn
      rw [hparts n, storedAfter] at hn
      rw [hat.keys, List.mem_range'_1]
      split at hn
      · omega
      · obtain ⟨b, hb, -⟩ := Option.map_eq_some_iff.mp hn
        have := (hstored n).mp (by rw [hb]; rfl)
        omega
  refine sortedParts_eq hkeys fun n hlow hhigh => ?_
  rw [get?_fillEtags (hget n hlow hhigh), hat.etags n hlow hhigh, Option.join_some]
  obtain ⟨hnone, -⟩ | hsome := @shownEtag_eq ck K key src a k P n
  · rw [hnone]
    rfl
  · rw [hsome, noEtag_some]
    rfl

/-- The completion with the ETags of all the parts is accepted, and joins them. -/
theorem completeMultipartUpload_eq (hready : Ready K a src k u P uploaded w₀)
    (hprogress : InProgress ck.crypto key a src k u P w₀ (partCount a k) w)
    (hhashes : HashesBelow ck.crypto key a src w₀ a.chunkCount w) :
    ∃ w', w.completeMultipartUpload K a.s3UploadId a.objectKey
        ((List.range' 1 (partCount a k)).map fun n =>
          (n, K.etag (finalPart ck.crypto key a src k P n))) = (.ok (), w') ∧
      Completed K ck.crypto key a src k u P w₀ w' := by
  obtain ⟨parts, hup, hparts⟩ := hprogress.upload? hready.uploadId
  have hpart : ∀ n ∈ List.range' 1 (partCount a k),
      parts.get? n = some (finalPart ck.crypto key a src k P n) := by
    intro n hn
    obtain ⟨hlow, hhigh⟩ := List.mem_range'_1.mp hn
    rw [hparts n, storedAfter_eq hlow (by omega)]
  have haccepts : Upload.Accepts K ⟨a.objectKey, parts⟩
      ((List.range' 1 (partCount a k)).map fun n =>
        (n, K.etag (finalPart ck.crypto key a src k P n))) := by
    have hpos := partCount_pos hready.count hready.partChunks
    refine ⟨?_, ?_, fun e he => ?_⟩
    · intro hnil
      have := congrArg List.length hnil
      rw [List.length_map, List.length_range', List.length_nil] at this
      omega
    · rw [List.map_map]
      exact List.pairwise_map.mpr (List.Pairwise.imp (fun hlt => hlt) List.pairwise_lt_range')
    · obtain ⟨n, hn, rfl⟩ := List.mem_map.mp he
      show (parts.get? n).map K.etag = _
      rw [hpart n hn]
      rfl
  have hjoined : Upload.joined ⟨a.objectKey, parts⟩ (List.map Prod.fst
      ((List.range' 1 (partCount a k)).map fun n =>
        (n, K.etag (finalPart ck.crypto key a src k P n)))) = joinedParts ck.crypto key a src k P := by
    rw [List.map_map, Upload.joined, List.flatMap_map]
    refine List.flatMap_congr fun n hn => ?_
    show (parts.get? n).getD [] = _
    rw [hpart n hn, Option.getD_some]
  unfold World.completeMultipartUpload
  rw [hup]
  dsimp only
  rw [if_pos haccepts]
  refine ⟨_, rfl, hprogress.assets, ?_, ?_, ?_, hhashes.congr rfl⟩
  · rw [hjoined]
    exact KeyMap.get?_set_self _ _ _
  · exact (KeyMap.get?_delete _ _ _).trans (if_pos rfl)
  · rw [hprogress.completions]

/-- The end of `runParts`, once the ETags of all the parts are known. -/
theorem completion_spec (hready : Ready K a src k u P uploaded w₀)
    (hE : (∃ r, script r ≠ .answered) → ∀ w, Interrupted K ck.crypto key a src k u P w₀ w →
      ∀ stop, E stop w) {parts : List (Nat × Option String)} {e : Thrown} {r : PartsResult}
    (hparts : parts = (List.range' 1 (partCount a k)).map fun n =>
      (n, some (K.etag (finalPart ck.crypto key a src k P n)))) :
    Ensures (fun w => InProgress ck.crypto key a src k u P w₀ (partCount a k) w ∧
        HashesBelow ck.crypto key a src w₀ a.chunkCount w)
      (if (parts.any fun e => noEtag e.2) = true then fail e
        else do
          request (script .completeMultipartUpload) fun w =>
            ((s3call "CompleteMultipartUpload" (w.completeMultipartUpload K a.s3UploadId a.objectKey
                (parts.map fun e => (e.1, e.2.getD ""))).1),
              (w.completeMultipartUpload K a.s3UploadId a.objectKey
                (parts.map fun e => (e.1, e.2.getD ""))).2)
          pure r)
      (fun _ => Completed K ck.crypto key a src k u P w₀) E := by
  have hall : (parts.any fun e => noEtag e.2) = false := by
    rw [List.any_eq_false]
    intro e he
    rw [hparts] at he
    obtain ⟨n, -, rfl⟩ := List.mem_map.mp he
    rw [noEtag_some]
    decide
  have hsent : (parts.map fun e => (e.1, e.2.getD "")) = (List.range' 1 (partCount a k)).map fun n =>
      (n, K.etag (finalPart ck.crypto key a src k P n)) := by
    rw [hparts, List.map_map]
    rfl
  rw [hall, hsent, if_neg (by decide)]
  refine Ensures.bind (Q := fun _ => Completed K ck.crypto key a src k u P w₀)
    (Ensures.request (fun w _ hw _ => ?_) (fun w e hw he => ?_) fun hne w hw stop => ?_)
    fun _ => Ensures.pure fun _ hw => hw
  · obtain ⟨w', heq, hcompleted⟩ := completeMultipartUpload_eq hready hw.1 hw.2
    rw [heq]
    exact hcompleted
  · obtain ⟨w', heq, -⟩ := completeMultipartUpload_eq hready hw.1 hw.2
    rw [heq] at he
    cases he
  · obtain ⟨w', heq, hcompleted⟩ := completeMultipartUpload_eq hready hw.1 hw.2
    rw [heq]
    exact ⟨hE ⟨_, hne⟩ w (.inl ⟨_, Nat.le_refl _, hw.1⟩) stop, hE ⟨_, hne⟩ w' (.inr hcompleted) stop⟩

/-- `runParts` completes the upload, or is interrupted; a calm run is not. -/
theorem runParts_spec (hready : Ready K a src k u P uploaded w₀) (hkey : key.length = 32)
    (hE : (∃ r, script r ≠ .answered) → ∀ w, Interrupted K ck.crypto key a src k u P w₀ w →
      ∀ stop, E stop w) :
    Ensures (· = w₀) (runParts ck K script a key src k uploaded)
      (fun _ => Completed K ck.crypto key a src k u P w₀) E := by
  have himport : importDek key = .ok key := if_pos (by rw [hkey]; decide)
  have hprogress : (∃ r, script r ≠ .answered) → ∀ p ≤ partCount a k, ∀ w,
      InProgress ck.crypto key a src k u P w₀ p w → ∀ stop, E stop w :=
    fun hne p hp w hw => hE hne w (.inl ⟨p, hp, hw⟩)
  unfold runParts
  rw [himport]
  refine Ensures.bind (Q := fun key' w => key' = key ∧ w = w₀)
    (Ensures.ofExcept (fun key' w hok hw => ⟨(Except.ok.inj hok).symm, hw⟩)
      fun e w herror _ => by cases herror) fun key' => Ensures.assume fun hkey' => ?_
  subst hkey'
  refine Ensures.bind (Q := fun acc => AtPart ck K key' a src k u P w₀ (partCount a k) acc)
    (Ensures.pre (Ensures.forRange fun p hp acc => partStep_spec hready hprogress hp) ?_)
    fun acc => ?_
  · rintro w rfl
    exact AtPart.init hready
  have hfull : ∀ w, AtPart ck K key' a src k u P w₀ (partCount a k) acc w →
      HashesBelow ck.crypto key' a src w₀ a.chunkCount w := by
    intro w hw
    have hhashes := hw.hashes
    rw [Nat.min_eq_left (chunkCount_le_partCount_mul hready.partChunks)] at hhashes
    exact hhashes
  -- the ETags of all the parts are there, one way or the other
  dsimp only
  cases hmissing : acc.etags.entries.any fun e => noEtag e.2 with
  | false =>
    refine Ensures.bind (Q := fun etags w => sortedParts etags = _ ∧ _)
      (Ensures.pure fun w hw => ⟨sortedParts_shown hw hmissing, hw.progress, hfull w hw⟩)
      fun etags => Ensures.assume fun hsorted => completion_spec hready hE hsorted
  | true =>
    intro w hw
    obtain ⟨parts, hup, hparts⟩ := hw.progress.upload? hready.uploadId
    refine Ensures.bind (Q := fun listed w' => Lists K ⟨a.objectKey, parts⟩ listed ∧ w' = w)
      (Ensures.mono (listParts_spec (E := E) hup fun hne stop => ?_) (fun _ hw' => hw')
        (fun _ _ hw' => ⟨hw'.2, hw'.1⟩) fun _ _ he => he)
      (fun listed => Ensures.assume fun hlisted => ?_) w rfl
    · obtain ⟨m, hm⟩ := hne
      exact hE ⟨_, hm⟩ w (.inl ⟨_, Nat.le_refl _, hw.progress⟩) stop
    · refine Ensures.bind (Q := fun etags w => sortedParts etags = _ ∧ _)
        (Ensures.pure fun w' hw' => ⟨sortedParts_listed hready hw hmissing hparts hlisted, ?_⟩)
        fun etags => Ensures.assume fun hsorted => completion_spec hready hE hsorted
      rw [hw']
      exact ⟨hw.progress, hfull w hw⟩

end Completion

end SupabaseLab.ClientKeyed
