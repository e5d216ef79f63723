/-
  ClientKeyed/Platform.lean --- what an upload talks to.

  Source: the calls of client/src/catalogue.ts, keys.ts and s3.ts, with the
  documented behaviour of the services behind them:

      Data API     rows of `app.assets` and `app.asset_chunks`
      S3 endpoint  multipart uploads, their parts by number, and objects
      key service  wraps and unwraps a DEK for a tenant

  A call is a request of a `Process` over the world of these services, so it can
  be answered, refused or lost, and the client can be killed before or after it.
  The retries inside one call (the S3 client's, the token clock skew's) are part
  of the call.  The ghost fields record what a reader of the world could not see:
  what was sealed, which completions the S3 endpoint was sent, and in which order
  hashes were written and bytes of a ciphertext sent.
-/
import SupabaseLab.ClientKeyed.Ciphertext
import SupabaseLab.Library.KeyMap
import SupabaseLab.Library.Process

set_option autoImplicit false

namespace SupabaseLab.ClientKeyed

open Library

/-! ## The services -/

/-- What is relied on of the services.  `wrap` gives the wrapped key and the name
of the key that wrapped it. -/
structure Platform where
  /-- The ETag of a part, as the S3 endpoint prints it. -/
  etag : Bytes → String
  etag_ne : ∀ b, etag b ≠ ""
  /-- What the `n`-th CreateMultipartUpload names the upload. -/
  uploadId : Nat → Option String
  /-- Parts in one page of ListParts. -/
  pageSize : Nat
  pageSize_pos : 0 < pageSize
  wrap : String → Bytes → String × String
  unwrap : String → String → Except Thrown Bytes
  unwrap_wrap : ∀ tenant dek, dek.length = 32 → unwrap tenant (wrap tenant dek).1 = .ok dek
  /-- A key wrapped for one tenant opens for no other. -/
  unwrap_other : ∀ tenant tenant' dek, tenant' ≠ tenant →
    ∀ d, unwrap tenant' (wrap tenant dek).1 ≠ .ok d

/-- A multipart upload in progress. -/
structure Upload where
  key : String
  parts : KeyMap Nat Bytes

/-- A CompleteMultipartUpload request: part numbers and ETags, as sent. -/
structure Completion where
  uploadId : String
  parts : List (Nat × String)
  deriving DecidableEq, Repr

/-- A hash that was written, or bytes that were sent, from a position of the
ciphertext on. -/
inductive Entry where
  | hashed (assetId : String) (idx : Nat) (h : String)
  | sent (assetId : String) (pos : Nat) (bytes : Bytes)
  deriving DecidableEq, Repr

structure World where
  /-- `app.assets`, by id. -/
  assets : KeyMap String AssetRow
  /-- `app.asset_chunks`: the ciphertext SHA-256 by asset and index. -/
  chunks : KeyMap (String × Nat) String
  uploads : KeyMap String Upload
  objects : KeyMap String Bytes
  /-- Multipart uploads created so far. -/
  created : Nat
  completions : List Completion
  sealed : List Sealing
  journal : List Entry

/-- A run of the client, or a part of one. -/
abbrev Client (α : Type) : Type := Process World Thrown α

/-! ## The catalogue -/

def catalogueError (message : String) (detail : List (String × DetailValue)) : Thrown :=
  .ck { code := .catalogueError, message := message, detail := detail }

namespace World

/-- What was sealed is noted; that is no request. -/
def noteSealed (sealed : List Sealing) (w : World) : World :=
  { w with sealed := w.sealed ++ sealed }

/-- `insertAsset`. -/
def insertAsset (row : AssetRow) (w : World) : Except Thrown Unit × World :=
  if row.Checked ∧ w.assets.has row.id = false ∧
      ∀ e ∈ w.assets.entries, e.2.objectKey ≠ row.objectKey then
    (.ok (), { w with assets := w.assets.set row.id row })
  else (.error (catalogueError "POST assets answered 4xx" []), w)

/-- `getAsset`. -/
def getAsset (id : String) (w : World) : Except Thrown AssetRow × World :=
  match w.assets.get? id with
  | some row => (.ok row, w)
  | none => (.error (catalogueError s!"asset {id} not visible" [("status", .num 404)]), w)

/-- `patchAsset`: a PATCH that meets no row changes none. -/
def patchAsset (id : String) (patch : AssetRow → AssetRow) (w : World) :
    Except Thrown Unit × World :=
  match w.assets.get? id with
  | some row => (.ok (), { w with assets := w.assets.set id (patch row) })
  | none => (.ok (), w)

/-- Bytes go on the wire before their request is answered. -/
def noteSent (id : String) (pos : Nat) (bytes : Bytes) (w : World) : World :=
  { w with journal := w.journal ++ [.sent id pos bytes] }

/-- A row of the same asset and index is replaced. -/
def putHashes (id : String) (hashes : List ChunkHash) (w : World) : World :=
  { w with
    chunks := hashes.foldl (fun m x => m.set (id, x.idx) x.h) w.chunks
    journal := w.journal ++ hashes.map fun x => .hashed id x.idx x.h }

/-- `upsertChunks`. -/
def upsertChunks (id : String) (hashes : List ChunkHash) (w : World) : Except Thrown Unit × World :=
  if hashes = [] then (.ok (), w)
  else if w.assets.has id then (.ok (), w.putHashes id hashes)
  else (.error (catalogueError "POST asset_chunks answered 4xx" []), w)

/-- `chunkRowCount`. -/
def chunkRowCount (id : String) (w : World) : Except Thrown Nat × World :=
  (.ok (w.chunks.entries.filter fun e => e.1.1 = id).length, w)

end World

/-! ## The S3 endpoint -/

structure S3Error where
  status : Nat
  code : String
  message : String
  deriving DecidableEq, Repr

/-- `s3call`: every failure is a typed StorageError carrying status and S3 code. -/
def s3call {α : Type} (what : String) (x : Except S3Error α) : Except Thrown α :=
  x.mapError fun e => .ck
    { code := .storageError
      message := s!"{what}: {e.code} {cut 120 e.message}"
      detail := [("status", .num e.status), ("code", .text e.code)] }

/-- The SDK sends nothing without an upload id. -/
def noUploadId : S3Error := ⟨0, "Error", "No value provided for input HTTP label: UploadId."⟩

def noSuchUpload : S3Error := ⟨404, "NoSuchUpload", "The specified upload does not exist."⟩

def invalidPart : S3Error :=
  ⟨400, "InvalidPart", "One or more of the specified parts could not be found."⟩

/-- One page of ListParts. -/
structure PartsPage where
  parts : List (Nat × String)
  isTruncated : Bool
  nextPartNumberMarker : Option Nat
  deriving DecidableEq, Repr

/-- The parts stored, in ascending order of their numbers. -/
def Upload.listing (K : Platform) (up : Upload) : List (Nat × String) :=
  (List.range' 1 (up.parts.keys.foldl max 0)).filterMap fun n =>
    (up.parts.get? n).map fun b => (n, K.etag b)

/-- A completion is accepted when it lists stored parts in ascending order, each
with its ETag. -/
def Upload.Accepts (K : Platform) (up : Upload) (parts : List (Nat × String)) : Prop :=
  parts ≠ [] ∧ (parts.map Prod.fst).Pairwise (· < ·) ∧
    ∀ e ∈ parts, (up.parts.get? e.1).map K.etag = some e.2

instance (K : Platform) (up : Upload) (parts : List (Nat × String)) :
    Decidable (up.Accepts K parts) :=
  inferInstanceAs (Decidable (_ ∧ _ ∧ _))

/-- What a completion joins. -/
def Upload.joined (up : Upload) (numbers : List Nat) : Bytes :=
  numbers.flatMap fun n => (up.parts.get? n).getD []

namespace World

/-- The upload a request names, if it is in progress for that key. -/
def upload? (w : World) (uploadId : Option String) (key : String) : Except S3Error (String × Upload) :=
  match uploadId with
  | none => .error noUploadId
  | some u =>
      match w.uploads.get? u with
      | some up => if up.key = key then .ok (u, up) else .error noSuchUpload
      | none => .error noSuchUpload

def createMultipartUpload (K : Platform) (key : String) (w : World) :
    Except S3Error (Option String) × World :=
  match K.uploadId w.created with
  | some u =>
      (.ok (some u), { w with
        uploads := w.uploads.set u { key := key, parts := .empty }
        created := w.created + 1 })
  | none => (.ok none, { w with created := w.created + 1 })

def uploadPart (K : Platform) (uploadId : Option String) (key : String) (pn : Nat) (body : Bytes)
    (w : World) : Except S3Error String × World :=
  match w.upload? uploadId key with
  | .error e => (.error e, w)
  | .ok (u, up) =>
      (.ok (K.etag body),
        { w with uploads := w.uploads.set u { up with parts := up.parts.set pn body } })

def listPartsPage (K : Platform) (uploadId : Option String) (key : String) (marker : Option Nat)
    (w : World) : Except S3Error PartsPage × World :=
  match w.upload? uploadId key with
  | .error e => (.error e, w)
  | .ok (_, up) =>
      let rest := (up.listing K).filter fun e => marker.getD 0 < e.1
      let page := rest.take K.pageSize
      (.ok
        { parts := page
          isTruncated := K.pageSize < rest.length
          nextPartNumberMarker := page.getLast?.map (·.1) }, w)

/-- The object appears and the upload is over, or nothing happens. -/
def completeMultipartUpload (K : Platform) (uploadId : Option String) (key : String)
    (parts : List (Nat × String)) (w : World) : Except S3Error Unit × World :=
  match w.upload? uploadId key with
  | .error e => (.error e, w)
  | .ok (u, up) =>
      let w := { w with completions := w.completions ++ [⟨u, parts⟩] }
      if up.Accepts K parts then
        (.ok (), { w with
          objects := w.objects.set key (up.joined (parts.map Prod.fst))
          uploads := w.uploads.delete u })
      else (.error invalidPart, w)

end World

/-! ## A platform in the clear -/

theorem hexByte_ne_colon {b : UInt8} {c : Char} (h : c ∈ hexByte b) : c ≠ ':' := by
  have hdigit : ∀ n < 16, Nat.digitChar n ≠ ':' := by decide
  have hb : b.toNat < 256 := b.toNat_lt
  rw [hexByte, List.mem_cons, List.mem_singleton] at h
  obtain rfl | rfl := h
  · exact hdigit _ (by omega)
  · exact hdigit _ (by omega)

/-- Keys are wrapped in nothing but the name of the tenant. -/
def plainWrap (tenant : String) (dek : Bytes) : String := hex dek ++ ":" ++ tenant

def plainUnwrap (tenant wrapped : String) : Except Thrown Bytes :=
  if wrapped.toList.dropWhile (· ≠ ':') = ':' :: tenant.toList then
    .ok (unhex (String.ofList (wrapped.toList.takeWhile (· ≠ ':'))))
  else .error (.error "401")

theorem plainUnwrap_plainWrap (tenant tenant' : String) (dek : Bytes) :
    plainUnwrap tenant' (plainWrap tenant dek) =
      if tenant = tenant' then .ok dek else .error (.error "401") := by
  have hchars : (plainWrap tenant dek).toList = dek.flatMap hexByte ++ ':' :: tenant.toList := by
    rw [plainWrap, hex]
    simp
  have hhex : ∀ c ∈ dek.flatMap hexByte, (decide (c ≠ ':')) = true := by
    intro c hc
    obtain ⟨b, -, hb⟩ := List.mem_flatMap.mp hc
    exact decide_eq_true (hexByte_ne_colon hb)
  have hback : unhex (String.ofList (dek.flatMap hexByte)) = dek := unhex_hex dek
  rw [plainUnwrap, hchars, List.dropWhile_append_of_pos hhex, List.takeWhile_append_of_pos hhex,
    List.dropWhile_cons_of_neg (by decide), List.takeWhile_cons_of_neg (by decide), List.append_nil,
    hback]
  simp only [List.cons.injEq, true_and, String.toList_inj]

/-- A platform that keeps its promises and hides nothing. -/
def plainPlatform : Platform where
  etag b := "\"" ++ hex b ++ "\""
  etag_ne b h := by
    have := congrArg String.toList h
    simp at this
  uploadId n := some (toString n)
  pageSize := 1000
  pageSize_pos := by decide
  wrap tenant dek := (plainWrap tenant dek, "keysvc:v1:" ++ tenant)
  unwrap := plainUnwrap
  unwrap_wrap tenant dek _ := by rw [plainUnwrap_plainWrap, if_pos rfl]
  unwrap_other tenant tenant' dek hne d := by
    rw [plainUnwrap_plainWrap, if_neg (Ne.symm hne)]
    exact fun h => by cases h

end SupabaseLab.ClientKeyed
