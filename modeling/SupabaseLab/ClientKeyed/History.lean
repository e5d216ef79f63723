/-
  ClientKeyed/History.lean --- whole runs of uploads and resumes.

  Source: client/src/upload.ts; the module comment there: a chunk's hash is
  recorded before its bytes are sent, and its own `resume`, which refuses a source
  of another size and looks no further.

  A run is followed together with the origin of every asset it creates.  In runs
  that resume an asset from the source it was created from, no byte is sent before
  its chunk is hashed, and no nonce seals two plaintexts under one key.
-/
import SupabaseLab.ClientKeyed.Journal

set_option autoImplicit false

namespace SupabaseLab.ClientKeyed

open Library Process

/-! ## Origins -/

/-- A world, and what each asset in it was made of. -/
structure History where
  world : World
  origins : KeyMap String Origin

def History.empty : History := ⟨.empty, .empty⟩

/-- Assets that are not there have no origin; any value will do. -/
def History.origin (h : History) (id : String) : Origin := (h.origins.get? id).getD ⟨[], []⟩

/-- The asset an upload means to create, and what of. -/
def Call.creates : Call → Option (String × Origin)
  | .upload _ _ _ draw o => some (o.assetId.getD draw.uuid, ⟨o.source, draw.dek⟩)
  | .resume .. => none

/-- A call; when it created its asset, the origin is recorded. -/
def Call.next (C : Crypto) (K : Platform) (h : History) (call : Call) : History :=
  let w := call.run C K h.world
  match call.creates with
  | some (id, o) =>
      if h.world.assets.has id = false ∧ w.assets.has id = true then ⟨w, h.origins.set id o⟩
      else ⟨w, h.origins⟩
  | none => ⟨w, h.origins⟩

def history (C : Crypto) (K : Platform) (calls : List Call) : History :=
  calls.foldl (Call.next C K) .empty

/-- A resume from a source of the asset's size is from the asset's source. -/
def Call.Alike (h : History) : Call → Prop
  | .upload .. => True
  | .resume _ _ _ _ assetId source _ => ∀ o, h.origins.get? assetId = some o →
      source.length = o.source.length → source = o.source

/-- Every resume of a run is. -/
def ResumedAlike (C : Crypto) (K : Platform) (calls : List Call) : Prop :=
  ∀ earlier call later, calls = earlier ++ call :: later → call.Alike (history C K earlier)

section Runs

variable {C : Crypto} {K : Platform} {calls : List Call} {h : History} {call : Call}

theorem Call.next_world : (call.next C K h).world = call.run C K h.world := by
  unfold Call.next
  dsimp only
  split
  · split
    · rfl
    · rfl
  · rfl

theorem history_world : (history C K calls).world = runCalls C K calls := by
  have hfold : ∀ h : History, (calls.foldl (Call.next C K) h).world =
      calls.foldl (fun w call => call.run C K w) h.world := by
    induction calls with
    | nil => exact fun h => rfl
    | cons call calls ih =>
      intro h
      rw [List.foldl_cons, List.foldl_cons, ih, Call.next_world]
  exact hfold .empty

theorem history_concat : history C K (calls ++ [call]) = call.next C K (history C K calls) := by
  rw [history, List.foldl_append, List.foldl_cons, List.foldl_nil, history]

/-- An origin was recorded before, or is that of this call. -/
theorem Call.next_origins {id : String} {o : Origin}
    (hget : (call.next C K h).origins.get? id = some o) :
    h.origins.get? id = some o ∨ call.creates = some (id, o) := by
  unfold Call.next at hget
  dsimp only at hget
  split at hget
  · rename_i id' o' hcreates
    split at hget
    · rw [KeyMap.get?_set] at hget
      split at hget
      · rename_i hid
        cases hget
        rw [hid]
        exact .inr hcreates
      · exact .inl hget
    · exact .inl hget
  · exact .inl hget

/-- Every origin is that of one of the calls. -/
theorem origin_of_call {id : String} {o : Origin}
    (hget : (history C K calls).origins.get? id = some o) :
    ∃ call ∈ calls, call.creates = some (id, o) := by
  induction calls using List.reverseRecOn with
  | nil => cases hget
  | append_singleton calls call ih =>
    rw [history_concat] at hget
    obtain hold | hnew := Call.next_origins hget
    · obtain ⟨c, hc, hcreates⟩ := ih hold
      exact ⟨c, List.mem_append_left _ hc, hcreates⟩
    · exact ⟨call, List.mem_append_right _ List.mem_cons_self, hnew⟩

theorem ResumedAlike.earlier {earlier later : List Call} (hs : ResumedAlike C K (earlier ++ later)) :
    ResumedAlike C K earlier := by
  intro before call after hsplit
  refine hs before call (after ++ later) ?_
  rw [hsplit, List.append_assoc, List.cons_append]

theorem ResumedAlike.concat (hs : ResumedAlike C K calls) (hcall : call.Alike (history C K calls)) :
    ResumedAlike C K (calls ++ [call]) := by
  intro earlier c later hsplit
  obtain rfl | ⟨later', d, rfl⟩ := List.eq_nil_or_concat later
  · obtain ⟨rfl, hlast⟩ := List.append_inj' hsplit rfl
    obtain ⟨rfl, -⟩ := List.cons.inj hlast
    exact hcall
  · rw [List.concat_eq_append, ← List.cons_append, ← List.append_assoc] at hsplit
    exact hs earlier c later' (List.append_inj' hsplit rfl).1

/-! ## The invariant over runs -/

/-- Origins of assets that are not there play no part. -/
theorem Journaled.of_origins {O O' : String → Origin} {w : World} (hw : Journaled C K O w)
    (heq : ∀ id, w.assets.has id = true → O' id = O id) : Journaled C K O' w := by
  have hthere : ∀ id row, w.assets.get? id = some row → O' id = O id := by
    intro id row hget
    refine heq id ?_
    rw [KeyMap.has_eq, hget]
    rfl
  refine ⟨fun id row hget => ?_, fun id i x hmem => ?_, fun before after id pos bytes hsplit => ?_,
    fun s hs => ?_⟩
  · rw [hthere id row hget]
    exact hw.rows id row hget
  · obtain ⟨hchunk, row, hget, hx⟩ := hw.hashed id i x hmem
    rw [hthere id row hget]
    exact ⟨hchunk, row, hget, hx⟩
  · obtain ⟨row, hget, hbefore⟩ := hw.sent before after id pos bytes hsplit
    rw [hthere id row hget]
    exact ⟨row, hget, hbefore⟩
  · obtain ⟨id, row, i, hget, hi, hsealing⟩ := hw.sealed s hs
    refine ⟨id, row, i, hget, hi, ?_⟩
    rw [hthere id row hget]
    exact hsealing

theorem Journaled.empty {O : String → Origin} : Journaled C K O .empty where
  rows _ _ hget := by cases hget
  hashed _ _ _ hmem := by cases hmem
  sent before after _ _ _ hsplit := by
    have hlen := congrArg List.length hsplit
    rw [List.length_append, List.length_cons] at hlen
    change 0 = _ at hlen
    omega
  sealed _ hs := by cases hs

theorem Journaled.next (hlaw : C.aead.Inverts TAG) (hw : Journaled C K h.origin h.world)
    (hsame : call.Alike h) : Journaled C K (call.next C K h).origin (call.next C K h).world := by
  cases call with
  | resume exposesEtag script events tenantId assetId source partChunks =>
    refine Ensures.leaves (@resume_journaled ⟨C, exposesEtag⟩ K h.origin hlaw script events tenantId
      assetId source partChunks fun hsize => ?_) hw
    unfold History.origin at hsize ⊢
    cases hget : h.origins.get? assetId with
    | none =>
      rw [hget] at hsize
      exact List.eq_nil_of_length_eq_zero hsize
    | some o =>
      rw [hget] at hsize
      exact hsame o hget hsize
  | upload exposesEtag script events draw o =>
    -- the run is followed with the origin this upload would record
    let O : String → Origin := fun id =>
      if h.world.assets.has id = false ∧ id = o.assetId.getD draw.uuid then ⟨o.source, draw.dek⟩
      else h.origin id
    have hO : Journaled C K O h.world := by
      refine hw.of_origins fun id hhas => if_neg fun hand => ?_
      rw [hhas] at hand
      cases hand.1
    have hrun : Journaled C K O (Call.run C K (.upload exposesEtag script events draw o) h.world) :=
      Ensures.leaves (@upload_journaled ⟨C, exposesEtag⟩ K O hlaw script events draw o)
        ⟨hO, fun hnew => if_pos ⟨hnew, rfl⟩⟩
    generalize hw' : Call.run C K (.upload exposesEtag script events draw o) h.world = w' at hrun
    by_cases hcreated : h.world.assets.has (o.assetId.getD draw.uuid) = false ∧
        w'.assets.has (o.assetId.getD draw.uuid) = true
    · have hnext : Call.next C K h (.upload exposesEtag script events draw o) =
          ⟨w', h.origins.set (o.assetId.getD draw.uuid) ⟨o.source, draw.dek⟩⟩ := by
        rw [← hw'] at hcreated ⊢
        exact if_pos hcreated
      rw [hnext]
      refine hrun.of_origins fun id _ => ?_
      show ((h.origins.set (o.assetId.getD draw.uuid) ⟨o.source, draw.dek⟩).get? id).getD ⟨[], []⟩ =
        if h.world.assets.has id = false ∧ id = o.assetId.getD draw.uuid then ⟨o.source, draw.dek⟩
        else h.origin id
      rw [KeyMap.get?_set]
      by_cases hid : id = o.assetId.getD draw.uuid
      · rw [if_pos hid, if_pos ⟨hid ▸ hcreated.1, hid⟩, Option.getD_some]
      · rw [if_neg hid, if_neg fun hand => hid hand.2, History.origin]
    · have hnext : Call.next C K h (.upload exposesEtag script events draw o) = ⟨w', h.origins⟩ := by
        rw [← hw'] at hcreated ⊢
        exact if_neg hcreated
      rw [hnext]
      refine hrun.of_origins fun id hhas => (if_neg fun hand => hcreated ⟨?_, ?_⟩).symm
      · rw [← hand.2]
        exact hand.1
      · rw [← hand.2]
        exact hhas

theorem history_journaled (hlaw : C.aead.Inverts TAG) (hs : ResumedAlike C K calls) :
    Journaled C K (history C K calls).origin (history C K calls).world := by
  induction calls using List.reverseRecOn with
  | nil => exact Journaled.empty
  | append_singleton calls call ih =>
    rw [history_concat]
    exact (ih hs.earlier).next hlaw (hs calls call [] rfl)

/-- An asset that is there has its origin recorded. -/
theorem Journaled.recorded {w : World} (hw : Journaled C K h.origin w) {id : String} {row : AssetRow}
    (hget : w.assets.get? id = some row) : h.origins.get? id = some (h.origin id) := by
  obtain ⟨-, -, hopens⟩ := hw.rows id row hget
  have hlen := hopens.keyLength
  unfold History.origin at hlen ⊢
  cases horigin : h.origins.get? id with
  | none =>
    rw [horigin] at hlen
    cases hlen
  | some o => rfl

/-! ## Hashes before bytes -/

/-- What was sent of an asset are bytes of its ciphertext; and a chunk that one of
these bytes is of has its hash in the catalogue, written before they were sent. -/
def HashedFirst (C : Crypto) (K : Platform) (F : Bytes) (w : World) : Prop :=
  ∀ before after id pos bytes, w.journal = before ++ .sent id pos bytes :: after →
    ∃ row dek, w.assets.get? id = some row ∧ K.unwrap row.tenantId row.wrappedDek = .ok dek ∧
      bytes = slice (cipherObject C dek row F) pos (pos + bytes.length) ∧
      ∀ i, Touches C dek row F pos bytes i →
        .hashed id i (C.sha256Hex (cipherChunk C dek row F i)) ∈ before ∧
          w.chunks.get? (id, i) = some (C.sha256Hex (cipherChunk C dek row F i))

theorem Journaled.hashedFirst {O : String → Origin} {F : Bytes} {w : World} (hw : Journaled C K O w)
    (hF : ∀ id row, w.assets.get? id = some row → (O id).source = F) : HashedFirst C K F w := by
  intro before after id pos bytes hsplit
  obtain ⟨row, hget, hslice, htouched⟩ := hw.sent before after id pos bytes hsplit
  obtain ⟨hid, -, hopens⟩ := hw.rows id row hget
  rw [hF id row hget] at hslice htouched
  refine ⟨row, (O id).dek, hget, hopens.unwrap, hslice, fun i hi => ?_⟩
  have hmem := htouched i hi
  rw [chunkEntry, hid] at hmem
  refine ⟨hmem, (hw.hashed id i _ ?_).1⟩
  rw [hsplit]
  exact List.mem_append_left _ hmem

theorem Call.source_of_creates {id : String} {o : Origin} (hcreates : call.creates = some (id, o)) :
    o.source = call.source := by
  cases call with
  | upload exposesEtag script events draw opts =>
    cases hcreates
    rfl
  | resume => cases hcreates

/-- Whatever calls there were of one source, and wherever they stopped. -/
theorem hash_before_bytes (hlaw : C.aead.Inverts TAG) {F : Bytes} (calls : List Call)
    (hsource : ∀ call ∈ calls, call.source = F) : HashedFirst C K F (runCalls C K calls) := by
  have horigin : ∀ earlier later, calls = earlier ++ later → ∀ id o,
      (history C K earlier).origins.get? id = some o → o.source = F := by
    intro earlier later hsplit id o hget
    obtain ⟨call, hcall, hcreates⟩ := origin_of_call hget
    rw [Call.source_of_creates hcreates]
    refine hsource call ?_
    rw [hsplit]
    exact List.mem_append_left _ hcall
  have hs : ResumedAlike C K calls := by
    intro earlier call later hsplit
    have hcall : call.source = F := by
      refine hsource call ?_
      rw [hsplit]
      exact List.mem_append_right _ List.mem_cons_self
    cases call with
    | upload => trivial
    | resume exposesEtag script events tenantId assetId source partChunks =>
      intro o hget _
      rw [horigin earlier _ hsplit assetId o hget]
      exact hcall
  have hjournaled := history_journaled hlaw hs
  rw [← history_world]
  refine hjournaled.hashedFirst fun id row hget => ?_
  exact horigin calls [] (List.append_nil _).symm id _ (hjournaled.recorded hget)

def threeByteDraw : Draw := ⟨⟨List.replicate 32 7, rfl⟩, ⟨List.replicate 8 1, rfl⟩, "a1"⟩

def threeByteOpts : UploadOpts where
  tenantId := "t1"
  recordId := "r1"
  source := [1, 2, 3]
  method := .s3Multipart

/-- The process dies before it completes the upload. -/
def dyingScript : Script := fun r =>
  if r = .completeMultipartUpload then .crashedBefore else .answered

/-- An upload that dies after its only part. -/
def threeByteCalls : List Call := [.upload true dyingScript [] threeByteDraw threeByteOpts]

theorem hash_before_bytes_threeByte :
    (runCalls plainCrypto plainPlatform threeByteCalls).journal.length = 2 ∧
      HashedFirst plainCrypto plainPlatform [1, 2, 3]
        (runCalls plainCrypto plainPlatform threeByteCalls) := by
  refine ⟨by with_unfolding_all decide, hash_before_bytes Aead.checksum_lawful.toInverts threeByteCalls ?_⟩
  intro call hcall
  rw [List.mem_singleton.mp hcall]
  rfl

/-! ## Nonces -/

/-- One key and one nonce seal one plaintext, with one associated data. -/
def NoReuse (w : World) : Prop :=
  ∀ s ∈ w.sealed, ∀ t ∈ w.sealed, s.key = t.key → s.nonce = t.nonce →
    s.plain = t.plain ∧ s.aad = t.aad

instance (w : World) : Decidable (NoReuse w) := List.decidableBAll _ _

/-- Two calls that are not uploads with one data key. -/
def Call.Apart (c d : Call) : Prop :=
  ∀ x ∈ c.creates, ∀ y ∈ d.creates, x.2.dek ≠ y.2.dek

instance : Std.Symm Call.Apart := ⟨fun _ _ hcd x hx y hy => (hcd y hy x hx).symm⟩

/-- No two uploads of a run draw the same data key. -/
def FreshKeys (calls : List Call) : Prop := calls.Pairwise Call.Apart

theorem FreshKeys.eq_of_dek (hfresh : FreshKeys calls) {c d : Call} (hc : c ∈ calls) (hd : d ∈ calls)
    {x y : String × Origin} (hx : c.creates = some x) (hy : d.creates = some y)
    (hdek : x.2.dek = y.2.dek) : x = y := by
  by_cases hcd : c = d
  · subst hcd
    rw [hx] at hy
    exact Option.some.inj hy
  · exact absurd hdek (List.Pairwise.forall hfresh hc hd hcd x hx y hy)

/-- The nonce of a chunk gives its index. -/
theorem eq_of_nonce {dek F : Bytes} {a : AssetRow} {i j : Nat} (hi : i < 2 ^ 32) (hj : j < 2 ^ 32)
    (hnonce : (chunkSealing dek a F i).nonce = (chunkSealing dek a F j).nonce) : i = j :=
  uint32be_injective hi hj (List.append_cancel_left hnonce)

theorem noReuse_of_journaled (hfresh : FreshKeys calls)
    (hw : Journaled C K (history C K calls).origin (history C K calls).world) :
    NoReuse (history C K calls).world := by
  intro s hs t ht hkey hnonce
  obtain ⟨id, row, i, hget, hi, rfl⟩ := hw.sealed s hs
  obtain ⟨id', row', j, hget', hj, rfl⟩ := hw.sealed t ht
  -- one key, so one upload, so one asset
  obtain ⟨c, hc, hcreates⟩ := origin_of_call (hw.recorded hget)
  obtain ⟨d, hd, hcreates'⟩ := origin_of_call (hw.recorded hget')
  obtain ⟨rfl, -⟩ := Prod.mk.inj (hfresh.eq_of_dek hc hd hcreates hcreates' hkey)
  rw [hget] at hget'
  cases hget'
  obtain ⟨-, hcount, -⟩ := hw.rows id row hget
  rw [eq_of_nonce (Nat.lt_trans hi hcount) (Nat.lt_trans hj hcount) hnonce]
  exact ⟨rfl, rfl⟩

/-- In runs whose uploads draw different keys, and whose resumes are given the source
of the asset or one of another size, no nonce is used twice under one key. -/
theorem nonces_not_reused (hlaw : C.aead.Inverts TAG) (calls : List Call)
    (hfresh : FreshKeys calls) (hs : ResumedAlike C K calls) :
    ∀ earlier later, calls = earlier ++ later → NoReuse (runCalls C K earlier) := by
  intro earlier later hsplit
  subst hsplit
  rw [← history_world]
  exact noReuse_of_journaled (List.pairwise_append.mp hfresh).1
    (history_journaled hlaw hs.earlier)

end Runs

/-- The upload of three bytes, continued from `source`. -/
def continued (source : Bytes) : List Call :=
  threeByteCalls ++ [.resume true (fun _ => .answered) [] "t1" "a1" source none]

theorem freshKeys_continued (source : Bytes) : FreshKeys (continued source) := by
  refine List.Pairwise.cons (fun d hd x _ y hy => ?_) (List.pairwise_singleton _ _)
  rw [List.mem_singleton.mp hd] at hy
  cases hy

theorem resumedAlike_continued :
    ResumedAlike plainCrypto plainPlatform (continued [1, 2, 3]) := by
  refine ResumedAlike.concat (@ResumedAlike.concat plainCrypto plainPlatform [] _ ?_ trivial) fun o hget _ => ?_
  · intro earlier call later hsplit
    cases List.append_eq_nil_iff.mp hsplit.symm
    contradiction
  · obtain ⟨call, hcall, hcreates⟩ := origin_of_call hget
    rw [List.mem_singleton.mp hcall] at hcreates
    cases hcreates
    rfl

theorem nonces_not_reused_continued :
    (runCalls plainCrypto plainPlatform (continued [1, 2, 3])).sealed.length = 2 ∧
      NoReuse (runCalls plainCrypto plainPlatform (continued [1, 2, 3])) :=
  ⟨by decide +kernel, nonces_not_reused Aead.checksum_lawful.toInverts (continued [1, 2, 3])
    (freshKeys_continued _) resumedAlike_continued _ [] (List.append_nil _).symm⟩

/-- Three other bytes are sealed with the nonce of the first three. -/
theorem nonce_reused :
    FreshKeys (continued [1, 2, 4]) ∧
      ¬ NoReuse (runCalls plainCrypto plainPlatform (continued [1, 2, 4])) :=
  ⟨freshKeys_continued _, by decide +kernel⟩

end SupabaseLab.ClientKeyed
