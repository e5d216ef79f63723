/-
  ClientKeyed/Read.lean --- ranged decrypting reads.

  Source: client/src/read.ts (`httpRange`, `fetchCipher`, `readRange`, `readAll`).

      plaintext [start, end) -> covering chunk indices -> ONE ciphertext Range
      GET -> verify every chunk's SHA-256 against app.asset_chunks -> decrypt
      (AAD binds asset, index, count) -> slice

  The store, the catalogue, the key service and the log are the environment
  (`ReadEnv`): each call has an answer, or a failure that the read passes on.
  Timings, the response headers kept for diagnosis and the `onCipher` callback
  decide nothing and are left out.
-/
import SupabaseLab.Library.Except
import SupabaseLab.Library.JsNumber
import SupabaseLab.ClientKeyed.Ciphertext

set_option autoImplicit false

namespace SupabaseLab.ClientKeyed

open Library

/-! ## The ranged GET -/

inductive ReadPath where
  | s3
  | s3Presigned
  | signedUrl
  | authenticated
  deriving DecidableEq, Repr

def ReadPath.text : ReadPath → String
  | .s3 => "s3"
  | .s3Presigned => "s3-presigned"
  | .signedUrl => "signed-url"
  | .authenticated => "authenticated"

/-- An HTTP answer to the ranged GET; `errorCode` is the code its body names
when it is an error document. -/
structure HttpAnswer where
  status : Nat
  body : Bytes
  contentRange : Option String
  cfCacheStatus : Option String
  errorCode : String
  deriving DecidableEq, Repr

/-- How the GET can end. -/
inductive GetAnswer where
  | unreachable (message : String)
  | bodyFailed (status : Nat) (message : String)
  | answered (a : HttpAnswer)
  deriving DecidableEq, Repr

structure Fetched where
  bytes : Bytes
  status : Nat
  contentRange : String
  cacheStatus : String
  deriving DecidableEq, Repr

def storageError (message : String) (detail : List (String × DetailValue)) : Thrown :=
  .ck { code := .storageError, message := message, detail := detail }

/-- `httpRange`: any status but 200 and 206 is a failure. -/
def httpRange : GetAnswer → Except Thrown Fetched
  | .unreachable message => .error (storageError s!"GET failed: {message}" [])
  | .bodyFailed status message =>
      .error (storageError s!"body read failed: {message}"
        [("status", .num status), ("code", .text "BodyRead")])
  | .answered a =>
      if a.status ≠ 206 ∧ a.status ≠ 200 then
        .error (storageError s!"ranged GET answered {a.status} {a.errorCode}"
          [("status", .num a.status), ("code", .text a.errorCode)])
      else
        .ok
          { bytes := a.body
            status := a.status
            contentRange := a.contentRange.getD ""
            cacheStatus := a.cfCacheStatus.getD "" }

/-- The S3 client behind `s3call`: it throws on every status from 300 on. -/
def s3Range : GetAnswer → Except Thrown Fetched
  | .unreachable message =>
      .error (storageError s!"GetObject: {message}" [("status", .num 0), ("code", .text message)])
  | .bodyFailed status message =>
      .error (storageError s!"GetObject: {message}"
        [("status", .num status), ("code", .text message)])
  | .answered a =>
      if 300 ≤ a.status then
        .error (storageError s!"GetObject: {a.errorCode}"
          [("status", .num a.status), ("code", .text a.errorCode)])
      else
        .ok
          { bytes := a.body
            status := a.status
            contentRange := a.contentRange.getD ""
            cacheStatus := "" }

/-- `fetchCipher`: the signed-url path first asks for a URL, and the
authenticated path for a token; `access` is how that goes. -/
def fetchCipher (path : ReadPath) (access : Except Thrown Unit) (get : Nat → Nat → GetAnswer)
    (cStart cEnd : Nat) : Except Thrown Fetched := do
  access
  match path with
  | .s3 => s3Range (get cStart cEnd)
  | _ => httpRange (get cStart cEnd)

/-! ## One read -/

/-- The answers a read depends on. -/
structure ReadEnv where
  /-- `ck.target` and `ck.session`. -/
  session : Except Thrown Unit
  /-- `assetOf`. -/
  asset : Except Thrown AssetRow
  unwrapDek : Except Thrown Bytes
  access : Except Thrown Unit
  /-- The GET with `Range: bytes=cStart-cEnd`. -/
  get : Nat → Nat → GetAnswer
  chunkHashes : Nat → Nat → Except Thrown (List ChunkHash)
  logAccess : Except Thrown Unit

structure ReadOpts where
  path : ReadPath := .s3
  verifyHashes : Bool := true
  log : Bool := true
  deriving DecidableEq, Repr

structure ReadResult where
  plain : Bytes
  /-- Body bytes received for the ciphertext GET. -/
  transferred : Nat
  /-- Ciphertext bytes the covering chunks occupy. -/
  cipherNeeded : Nat
  chunks : Nat
  status : Nat
  cacheStatus : String
  deriving DecidableEq, Repr

def truncated (message : String) (detail : List (String × DetailValue)) : Thrown :=
  .ck { code := .truncatedObject, message := message, detail := detail }

/-- A range past the stored end means the object is shorter than the catalogue
says. -/
def recodeMissingRange (sp : ChunkSpan) : Thrown → Thrown
  | .ck e =>
      if e.detail.lookup "status" = some (.num 416) ∨
          e.detail.lookup "code" = some (.text "InvalidRange") then
        truncated s!"range {sp.cStart}-{sp.cEnd} not satisfiable" e.detail
      else .ck e
  | t => t

/-- Bytes the covering chunks occupy. -/
def ChunkSpan.need (sp : ChunkSpan) : Nat := sp.cEnd - sp.cStart + 1

/-- Whole object back (Range ignored): take our window out of it. -/
def takeWindow (a : AssetRow) (sp : ChunkSpan) (got : Fetched) : Except Thrown Bytes := do
  if got.status = 200 ∧ got.bytes.length ≠ sp.need then
    refuseIf (got.bytes.length < a.ciphertextSize)
      (truncated s!"200 with {got.bytes.length} of {a.ciphertextSize} bytes"
        [("got", .num got.bytes.length)])
    return slice got.bytes sp.cStart (sp.cEnd + 1)
  else
    return got.bytes

/-- The stored size, where a Content-Range names one that is a finite number,
must be the catalogue's. -/
def checkTotal (a : AssetRow) (got : Fetched) : Except Thrown Unit :=
  match (slashNumber? got.contentRange).bind toDouble with
  | none => .ok ()
  | some total =>
      refuseIf (some total ≠ toDouble a.ciphertextSize)
        (truncated s!"stored object is {total} bytes, catalogue says {a.ciphertextSize}"
          [("stored", .num total), ("expected", .num a.ciphertextSize)])

/-- `crypto.subtle.importKey` for a raw AES key. -/
def importDek (raw : Bytes) : Except Thrown Bytes :=
  if raw.length ∈ [16, 24, 32] then .ok raw
  else .error (.error "AES key data must be 128, 192 or 256 bits")

/-- `TypedArray.set`. -/
def setAt (buf src : Bytes) (off : Nat) : Except Thrown Bytes :=
  if buf.length < off + src.length then .error (.rangeError "offset is out of bounds")
  else .ok (buf.take off ++ src ++ buf.drop (off + src.length))

/-- The ciphertext the loop takes for chunk `i`. -/
def cutChunk (a : AssetRow) (sp : ChunkSpan) (body : Bytes) (i : Nat) : Bytes :=
  let off := cipherOffset i a.chunkSize - sp.cStart
  slice body off (off + plainLen i a.plaintextSize a.chunkSize + TAG)

/-- `new Map(rows)` and `get`: a later row for the same index wins. -/
def hashOf (hashes : List ChunkHash) (i : Nat) : Option String :=
  (hashes.reverse.find? fun x => x.idx = i).map (·.h)

def checkHash (C : Crypto) (o : ReadOpts) (hashes : List ChunkHash) (i : Nat) (ct : Bytes) :
    Except Thrown Unit :=
  if o.verifyHashes then
    match hashOf hashes i with
    | none => .error (.ck
        { code := .chunkHashMismatch
          message := s!"no catalogue hash for chunk {i}"
          detail := [("idx", .num i)] })
    | some want => do
        refuseIf (want = "") (.ck
          { code := .chunkHashMismatch
            message := s!"no catalogue hash for chunk {i}"
            detail := [("idx", .num i)] })
        refuseIf (C.sha256Hex ct ≠ want) (.ck
          { code := .chunkHashMismatch
            message := s!"chunk {i} hash differs from the catalogue"
            detail := [("idx", .num i)] })
  else .ok ()

/-- The chunk loop of `readRange`; `plain` is the output buffer. -/
def decryptLoop (C : Crypto) (a : AssetRow) (o : ReadOpts) (key : Bytes) (hashes : List ChunkHash)
    (sp : ChunkSpan) (body : Bytes) (start endExcl : Nat) :
    List Nat → Bytes → Except Thrown Bytes
  | [], plain => .ok plain
  | i :: rest, plain => do
      let ct := cutChunk a sp body i
      checkHash C o hashes i ct
      let pt ← decryptChunk C key (unhex a.noncePrefix) a.id i a.chunkCount ct
      let pStart := i * a.chunkSize
      let lo := max start pStart
      let hi := min endExcl (pStart + pt.length)
      let plain ← setAt plain (slice pt (lo - pStart) (hi - pStart)) (lo - start)
      decryptLoop C a o key hashes sp body start endExcl rest plain

/-- Decrypt plaintext `[start, endExcl)` of an asset. -/
def readRange (C : Crypto) (env : ReadEnv) (start endExcl : Int) (o : ReadOpts) :
    Except Thrown ReadResult := do
  env.session
  let a ← env.asset
  refuseIf (a.uploadState ≠ "complete")
    (.ck { code := .integrityError, message := s!"asset is {a.uploadState}" })
  let dek ← env.unwrapDek
  let sp ← span start endExcl a.plaintextSize a.chunkSize
  let got ← (fetchCipher o.path env.access env.get sp.cStart sp.cEnd).mapError
    (recodeMissingRange sp)
  let hashes ← (if o.verifyHashes then env.chunkHashes sp.first sp.last else .ok [])
  let body ← takeWindow a sp got
  checkTotal a got
  refuseIf (body.length < sp.need)
    (truncated s!"got {body.length} of {sp.need} ciphertext bytes"
      [("got", .num body.length), ("need", .num sp.need)])
  let key ← importDek dek
  let plain ← decryptLoop C a o key hashes sp body start.toNat endExcl.toNat
    (List.range' sp.first (sp.last + 1 - sp.first))
    (List.replicate (endExcl - start).toNat 0)
  (if o.log then env.logAccess else .ok ())
  return {
    plain := plain
    transferred := got.bytes.length
    cipherNeeded := sp.need
    chunks := sp.last - sp.first + 1
    status := got.status
    cacheStatus := got.cacheStatus }

/-! ## A full read -/

structure ReadAllResult where
  sha256 : String
  transferred : Nat
  /-- What the hash was fed, in order. -/
  plain : Bytes
  deriving DecidableEq, Repr

/-- The window starts `0`, `step`, `2 * step`, ... below `size`. -/
def windowStarts (size step : Nat) : List Nat :=
  (List.range ((size + step - 1) / step)).map (· * step)

/-- The window loop of `readAll`; `window p` answers the read that starts at `p`. -/
def readWindows (C : Crypto) (window : Nat → ReadEnv) (o : ReadOpts) (size step : Nat) :
    List Nat → Except Thrown (List ReadResult)
  | [] => .ok []
  | p :: rest => do
      let r ← readRange C (window p) p (min size (p + step) : Nat) o
      let out ← readWindows C window o size step rest
      return r :: out

/-- Full read in windows of `windowChunks` chunks; checks the plaintext SHA-256
against the catalogue. -/
def readAll (C : Crypto) (env : ReadEnv) (window : Nat → ReadEnv) (o : ReadOpts)
    (windowChunks : Nat) : Except Thrown ReadAllResult := do
  env.session
  let a ← env.asset
  let step := windowChunks * a.chunkSize
  let reads ← readWindows C window { o with log := false } a.plaintextSize step
    (windowStarts a.plaintextSize step)
  let plain := reads.flatMap (·.plain)
  env.logAccess
  refuseIf (some (C.sha256Hex plain) ≠ a.plaintextSha256)
    (.ck
      { code := .integrityError
        message := "plaintext SHA-256 differs from the catalogue"
        detail := [("sha", .text (C.sha256Hex plain)),
          ("expected", .text (a.plaintextSha256.getD "null"))] })
  return {
    sha256 := C.sha256Hex plain
    transferred := (reads.map (·.transferred)).sum
    plain := plain }

end SupabaseLab.ClientKeyed
