/-
  ClientKeyed/Upload.lean --- uploads and resumes.

  Source: client/src/upload.ts.  Two transports over the same ciphertext:

      s3-multipart  one part = `partChunks` ciphertext chunks; resume = ListParts,
                    re-derive every part, send the missing ones, complete
      tus           the tus library asks for byte ranges of the ciphertext

  The names of the requests (`Request`) are what a script of fates is keyed by;
  no request is made twice in one run of the S3 transport.  The tus library is
  the environment: it is a list of what it calls back with, in its order.
  Progress callbacks and timings decide nothing and are left out; so is the cache
  of unwrapped keys, which answers what the key service answered before.
-/
import SupabaseLab.ClientKeyed.Platform
import SupabaseLab.ClientKeyed.Read

set_option autoImplicit false

namespace SupabaseLab.ClientKeyed

open Library Process

/-! ## Arguments and results -/

/-- The platform the client itself runs on: whether it can read the ETag header
of an answer, which a browser cannot unless the server exposes it. -/
structure Ck where
  crypto : Crypto
  exposesEtag : Bool

inductive UploadMethod where
  | s3Multipart
  | tus
  deriving DecidableEq, Repr

def UploadMethod.text : UploadMethod → String
  | .s3Multipart => "s3-multipart"
  | .tus => "tus"

structure UploadOpts where
  tenantId : String
  recordId : String
  source : Bytes
  method : UploadMethod
  partChunks : Option Nat := none
  assetId : Option String := none
  deriving DecidableEq, Repr

/-- What an upload draws at random. -/
structure Draw where
  dek : { u : Bytes // u.length = 32 }
  noncePrefix : { u : Bytes // u.length = 8 }
  uuid : String

structure UploadResult where
  assetId : String
  objectKey : String
  plaintextSha256 : String
  ciphertextSize : Nat
  parts : Option Nat := none
  partsSkipped : Option Nat := none
  resumedEtagMatches : Option Nat := none
  resumedEtagMismatches : Option Nat := none
  etagSource : Option String := none
  /-- `some none` is `NaN`. -/
  tusOffsetAtResume : Option (Option Nat) := none
  chunkRows : Nat
  deriving DecidableEq, Repr

/-- The requests of a run. -/
inductive Request where
  | session
  | wrapDek
  | insertAsset
  | createMultipartUpload
  | patchUploadId
  | getAsset
  | unwrapDek
  | listParts (again : Bool) (marker : Option Nat)
  | upsertChunks (pn : Nat)
  | uploadPart (pn : Nat)
  | completeMultipartUpload
  | patchComplete
  | chunkRowCount
  deriving DecidableEq, Repr

/-- What becomes of each request of a run. -/
abbrev Script : Type := Request → Fate Thrown

/-! ## Creating the asset -/

def uploadObjectKey (tenant asset : String) : String := tenant ++ "/" ++ asset ++ "/data"

/-- The row `createAsset` inserts. -/
def newRow (K : Platform) (draw : Draw) (o : UploadOpts) : AssetRow where
  id := o.assetId.getD draw.uuid
  recordId := o.recordId
  tenantId := o.tenantId
  objectKey := uploadObjectKey o.tenantId (o.assetId.getD draw.uuid)
  plaintextSize := o.source.length
  chunkSize := CHUNK
  chunkCount := chunkCount o.source.length CHUNK
  ciphertextSize := cipherSize o.source.length CHUNK
  cipher := CIPHER
  keyId := (K.wrap o.tenantId draw.dek).2
  wrappedDek := (K.wrap o.tenantId draw.dek).1
  noncePrefix := hex draw.noncePrefix
  plaintextSha256 := none
  uploadState := "uploading"
  uploadMethod := some o.method.text
  s3UploadId := none
  tusUrl := none

/-- Create the asset: DEK, wrap, catalogue row.  Nothing reaches storage yet. -/
def createAsset (K : Platform) (script : Script) (draw : Draw) (o : UploadOpts) :
    Client (AssetRow × Bytes) := do
  let wrapped ← request (script .wrapDek) fun w => (.ok (K.wrap o.tenantId draw.dek), w)
  let row := { newRow K draw o with keyId := wrapped.2, wrappedDek := wrapped.1 }
  request (script .insertAsset) (World.insertAsset row)
  return (row, draw.dek)

/-! ## S3 -/

/-- `!etag`, of an ETag that may be missing. -/
def noEtag (etag : Option String) : Bool := etag = none || etag = some ""

def listPartsLoop (K : Platform) (script : Script) (again : Bool) (a : AssetRow) :
    Nat → Option Nat → KeyMap Nat String → Client (KeyMap Nat String)
  | 0, _, _ => fail (.error "ListParts did not come to an end")
  | turns + 1, marker, out => do
      let r ← request (script (.listParts again marker)) fun w =>
        let (r, w') := w.listPartsPage K a.s3UploadId a.objectKey marker
        (s3call "ListParts" r, w')
      let out := r.parts.foldl (fun out e => if e.1 ≠ 0 ∧ e.2 ≠ "" then out.set e.1 e.2 else out) out
      if r.isTruncated = false ∨ r.nextPartNumberMarker.getD 0 = 0 then
        return out
      else
        listPartsLoop K script again a turns r.nextPartNumberMarker out

/-- `listParts`.  Each page moves the marker past a stored part, so the loop turns
at most once more than there are parts. -/
def listParts (K : Platform) (script : Script) (again : Bool) (a : AssetRow) :
    Client (KeyMap Nat String) := fun w =>
  let stored := match w.upload? a.s3UploadId a.objectKey with
    | .ok (_, up) => (up.listing K).length
    | .error _ => 0
  listPartsLoop K script again a (stored + 1) none .empty w

/-- The variables of the part loop. -/
structure PartsAcc where
  etags : KeyMap Nat (Option String) := .empty
  skipped : Nat := 0
  matched : Nat := 0
  mismatched : Nat := 0

structure PartsResult where
  parts : Nat
  partsSkipped : Nat
  resumedEtagMatches : Nat
  resumedEtagMismatches : Nat
  etagSource : String
  deriving DecidableEq, Repr

/-- One turn of the part loop: derive the part, put its hashes in the catalogue,
then take the part as stored or send it. -/
def partStep (ck : Ck) (K : Platform) (script : Script) (a : AssetRow) (key src : Bytes)
    (partChunks : Nat) (uploaded : KeyMap Nat String) (acc : PartsAcc) (p : Nat) :
    Client PartsAcc := do
  let first := p * partChunks
  let last := min (a.chunkCount - 1) (first + partChunks - 1)
  let pn := p + 1
  let enc ← ofExcept (encryptRange ck.crypto key a src first last)
  note (World.noteSealed enc.sealed)
  request (script (.upsertChunks pn)) (World.upsertChunks a.id enc.hashes)
  match uploaded.get? pn with
  | some prior =>
      -- the server's part ETag is the MD5 of what it stored
      let same := ck.crypto.md5Hex.map fun md5Hex =>
        String.ofList (prior.toList.filter (· ≠ Char.ofNat 34)) == md5Hex enc.bytes
      return {
        etags := acc.etags.set pn (some prior)
        skipped := acc.skipped + 1
        matched := if same = some true then acc.matched + 1 else acc.matched
        mismatched := if same = some false then acc.mismatched + 1 else acc.mismatched }
  | none => do
      note (World.noteSent a.id (cipherOffset first a.chunkSize) enc.bytes)
      let etag ← request (script (.uploadPart pn)) fun w =>
        let (r, w') := w.uploadPart K a.s3UploadId a.objectKey pn enc.bytes
        (s3call s!"UploadPart {pn}" r, w')
      return { acc with etags := acc.etags.set pn (if ck.exposesEtag then some etag else none) }

/-- ETags that the answers did not show are taken from ListParts. -/
def fillEtags (etags : KeyMap Nat (Option String)) (listed : KeyMap Nat String) :
    KeyMap Nat (Option String) :=
  listed.entries.foldl (fun m e => if noEtag (m.get? e.1).join then m.set e.1 (some e.2) else m) etags

/-- `[...etags.entries()].sort((x, y) => x[0] - y[0])`. -/
def sortedParts (etags : KeyMap Nat (Option String)) : List (Nat × Option String) :=
  etags.entries.mergeSort fun x y => x.1 ≤ y.1

def partCount (a : AssetRow) (partChunks : Nat) : Nat := (a.chunkCount + partChunks - 1) / partChunks

def runParts (ck : Ck) (K : Platform) (script : Script) (a : AssetRow) (dek src : Bytes)
    (partChunks : Nat) (uploaded : KeyMap Nat String) : Client PartsResult := do
  let key ← ofExcept (importDek dek)
  let acc ← (List.range (partCount a partChunks)).foldlM
    (partStep ck K script a key src partChunks uploaded) {}
  let missing := acc.etags.entries.any fun e => noEtag e.2
  let etags ← if missing then do
      let listed ← listParts K script true a
      pure (fillEtags acc.etags listed)
    else pure acc.etags
  let parts := sortedParts etags
  if parts.any fun e => noEtag e.2 then
    fail (storageError "no ETag for some parts, even from ListParts" [])
  else
    request (script .completeMultipartUpload) fun w =>
      let (r, w') := w.completeMultipartUpload K a.s3UploadId a.objectKey
        (parts.map fun e => (e.1, e.2.getD ""))
      (s3call "CompleteMultipartUpload" r, w')
    return {
      parts := partCount a partChunks
      partsSkipped := acc.skipped
      resumedEtagMatches := acc.matched
      resumedEtagMismatches := acc.mismatched
      etagSource := if missing then "list-parts" else "upload-part-header" }

/-! ## TUS -/

/-- What the tus library calls back with, or the end of the process; `fates` are
those of the catalogue requests a slice makes, by chunk.  The library catches
what a callback throws, and may try again. -/
inductive TusEvent where
  | slice (start stop : Nat) (fates : Nat → Fate Thrown)
  | urlAvailable (url : String) (fate : Fate Thrown)
  | headAnswered (offset : Option Nat)
  | failed (message : String) (status : Nat) (body : String)
  | killed

/-- `CipherSource.chunk`: the ciphertext of one chunk, from the cache or made
anew with its hash.  Only the last two chunks stay in the cache. -/
def sourceChunk (ck : Ck) (a : AssetRow) (key src : Bytes) (fates : Nat → Fate Thrown)
    (cache : KeyMap Nat Bytes) (i : Nat) : Client (Except Thrown Bytes × KeyMap Nat Bytes) :=
  match cache.get? i with
  | some hit => return (.ok hit, cache)
  | none =>
      match encryptRange ck.crypto key a src i i with
      | .error e => return (.error e, cache)
      | .ok enc => do
          note (World.noteSealed enc.sealed)
          match ← attempt (request (fates i) (World.upsertChunks a.id enc.hashes)) with
          | .error e => return (.error e, cache)
          | .ok () =>
              let cache := cache.set i enc.bytes
              return (.ok enc.bytes, (cache.keys.filter fun k => k + 1 < i).foldl KeyMap.delete cache)

/-- The loop of `CipherSource.slice`.  Every turn takes a byte at least, so as
many turns as bytes are asked for are enough. -/
def sourceSliceLoop (ck : Ck) (a : AssetRow) (key src : Bytes) (fates : Nat → Fate Thrown)
    (stop : Nat) : Nat → Nat → KeyMap Nat Bytes → Bytes →
      Client (Except Thrown Bytes × KeyMap Nat Bytes)
  | 0, _, cache, out => return (.ok out, cache)
  | turns + 1, pos, cache, out =>
      if pos < stop then do
        let i := pos / (a.chunkSize + TAG)
        match ← sourceChunk ck a key src fates cache i with
        | (.error e, cache) => return (.error e, cache)
        | (.ok c, cache) =>
            let off := pos - cipherOffset i a.chunkSize
            let n := min (c.length - off) (stop - pos)
            sourceSliceLoop ck a key src fates stop turns (pos + n) cache
              (out ++ Library.slice c off (off + n))
      else return (.ok out, cache)

/-- `CipherSource.slice`. -/
def sourceSlice (ck : Ck) (a : AssetRow) (key src : Bytes) (fates : Nat → Fate Thrown)
    (cache : KeyMap Nat Bytes) (start stop : Nat) :
    Client (Except Thrown Bytes × KeyMap Nat Bytes) :=
  let stop := min stop a.ciphertextSize
  sourceSliceLoop ck a key src fates stop (stop - start) start cache []

/-- The variables of `runTus`. -/
structure TusAcc where
  cache : KeyMap Nat Bytes := .empty
  tusUrl : Option String
  offsetAtResume : Option (Option Nat) := none

def tusStep (ck : Ck) (a : AssetRow) (key src : Bytes) (acc : TusAcc) :
    TusEvent → Client TusAcc
  | .slice start stop fates => do
      match ← sourceSlice ck a key src fates acc.cache start stop with
      | (.error _, cache) => return { acc with cache := cache }
      | (.ok bytes, cache) =>
          -- the library may send what it is given at once
          note (World.noteSent a.id start bytes)
          return { acc with cache := cache }
  | .urlAvailable url fate => do
      if url ≠ "" ∧ some url ≠ acc.tusUrl then
        let _ ← attempt (request fate (World.patchAsset a.id fun row => { row with tusUrl := some url }))
        return { acc with tusUrl := some url }
      else return acc
  | .headAnswered offset => return { acc with offsetAtResume := acc.offsetAtResume.or (some offset) }
  | .failed message status body =>
      fail (storageError s!"tus: {cut 200 message}"
        [("status", .num status), ("body", .text (cut 200 body))])
  | .killed => die

/-- `runTus`: the library's callbacks in their order, and then its success. -/
def runTus (ck : Ck) (a : AssetRow) (dek src : Bytes) (events : List TusEvent) :
    Client (Option (Option Nat)) := do
  let key ← ofExcept (importDek dek)
  let acc ← events.foldlM (tusStep ck a key src) { tusUrl := a.tusUrl }
  return acc.offsetAtResume

/-! ## Upload and resume -/

/-- `finish`: mark the asset complete, then report. -/
def finish (ck : Ck) (script : Script) (a : AssetRow) (src : Bytes) (parts : Option PartsResult)
    (tusOffset : Option (Option Nat)) : Client UploadResult := do
  let sha := ck.crypto.sha256Hex src
  request (script .patchComplete) (World.patchAsset a.id fun row =>
    { row with uploadState := "complete", plaintextSha256 := some sha })
  let rows ← request (script .chunkRowCount) (World.chunkRowCount a.id)
  return {
    assetId := a.id
    objectKey := a.objectKey
    plaintextSha256 := sha
    ciphertextSize := a.ciphertextSize
    parts := parts.map (·.parts)
    partsSkipped := parts.map (·.partsSkipped)
    resumedEtagMatches := parts.map (·.resumedEtagMatches)
    resumedEtagMismatches := parts.map (·.resumedEtagMismatches)
    etagSource := parts.map (·.etagSource)
    tusOffsetAtResume := tusOffset
    chunkRows := rows }

def upload (ck : Ck) (K : Platform) (script : Script) (events : List TusEvent) (draw : Draw)
    (o : UploadOpts) : Client UploadResult := do
  request (script .session) fun w => (.ok (), w)
  let (row, dek) ← createAsset K script draw o
  match o.method with
  | .s3Multipart => do
      let c ← request (script .createMultipartUpload) fun w =>
        let (r, w') := w.createMultipartUpload K row.objectKey
        (s3call "CreateMultipartUpload" r, w')
      let row := { row with s3UploadId := c }
      if noEtag row.s3UploadId then
        fail (storageError "CreateMultipartUpload returned no UploadId" [])
      else
        request (script .patchUploadId) (World.patchAsset row.id fun r =>
          { r with s3UploadId := row.s3UploadId })
        let r ← runParts ck K script row dek o.source (o.partChunks.getD 8) .empty
        finish ck script row o.source (some r) none
  | .tus => do
      let offset ← runTus ck row dek o.source events
      finish ck script row o.source none offset

/-- Continue an interrupted upload from a new process, using only the catalogue
row and the server's state. -/
def resume (ck : Ck) (K : Platform) (script : Script) (events : List TusEvent)
    (tenantId assetId : String) (source : Bytes) (partChunks : Option Nat) :
    Client UploadResult := do
  request (script .session) fun w => (.ok (), w)
  let a ← request (script .getAsset) (World.getAsset assetId)
  if a.plaintextSize ≠ source.length then
    fail (.ck
      { code := .integrityError
        message := "source size differs from the catalogue" })
  else
    let dek ← request (script .unwrapDek) fun w => (K.unwrap tenantId a.wrappedDek, w)
    if a.uploadMethod = some "s3-multipart" then
      let uploaded ← listParts K script false a
      let r ← runParts ck K script a dek source (partChunks.getD 8) uploaded
      finish ck script a source (some r) none
    else
      let offset ← runTus ck a dek source events
      finish ck script a source none offset

/-! ## Sequences of calls -/

/-- A call of the client, with what becomes of its requests. -/
inductive Call where
  | upload (exposesEtag : Bool) (script : Script) (events : List TusEvent) (draw : Draw)
      (o : UploadOpts)
  | resume (exposesEtag : Bool) (script : Script) (events : List TusEvent)
      (tenantId assetId : String) (source : Bytes) (partChunks : Option Nat)

def Call.source : Call → Bytes
  | .upload _ _ _ _ o => o.source
  | .resume _ _ _ _ _ source _ => source

/-- The world a call leaves, returned or not. -/
def Call.run (C : Crypto) (K : Platform) (call : Call) (w : World) : World :=
  match call with
  | .upload exposesEtag script events draw o =>
      (ClientKeyed.upload ⟨C, exposesEtag⟩ K script events draw o w).2
  | .resume exposesEtag script events tenantId assetId source partChunks =>
      (ClientKeyed.resume ⟨C, exposesEtag⟩ K script events tenantId assetId source partChunks w).2

def World.empty : World where
  assets := .empty
  chunks := .empty
  uploads := .empty
  objects := .empty
  created := 0
  completions := []
  sealed := []
  journal := []

def runCalls (C : Crypto) (K : Platform) (calls : List Call) : World :=
  calls.foldl (fun w call => call.run C K w) .empty

end SupabaseLab.ClientKeyed
