/-
  Catalogue/TenantIsolation.lean --- can a stranger reach a tenant's rows?

  What a statement may touch is said once, by tenants: the tenants its user may
  edit and, for a DELETE of records, the tenants of the assets that go with them.
  A foreign key does not ask whose asset it is, so a record that carries another
  tenant's asset takes it along.
-/
import SupabaseLab.Catalogue.AssetTenants
import SupabaseLab.Catalogue.Storage

set_option autoImplicit false

namespace SupabaseLab.Catalogue

open Library

/-! ## Roles -/

section Roles

variable {db : Db} {uid t : Uuid}

theorem isMember_of_mayEdit (h : mayEdit db uid t = true) : isMember db uid t = true := by
  unfold mayEdit at h
  unfold isMember
  rw [Bool.or_eq_true, decide_eq_true_eq, decide_eq_true_eq] at h
  obtain h | h := h
  · rw [h]
    rfl
  · rw [h]
    rfl

theorem mayEdit_of_isOwner (h : isOwner db uid t = true) : mayEdit db uid t = true := by
  unfold isOwner at h
  unfold mayEdit
  rw [h]
  rfl

/-- Whoever has a membership row is a member. -/
theorem isMember_of_mem {m : Membership} (hm : m ∈ db.memberships) :
    isMember db m.userId m.tenantId = true := by
  unfold isMember myRole
  rw [Option.isSome_map, List.find?_isSome]
  exact ⟨m, hm, by simp⟩

theorem mayEditChunks_iff {a : Uuid} : mayEditChunks db uid a = true ↔
    ∃ t, assetTenant db a = some t ∧ mayEdit db uid t = true := by
  unfold mayEditChunks
  rw [Option.any_eq_true]

theorem mayEditObject_iff {o : StorageObject} (h : mayEditObject db uid o = true) :
    ∃ t, keyTenant o.name = some t ∧ mayEdit db uid t = true := by
  unfold mayEditObject at h
  rw [Bool.and_eq_true, Option.any_eq_true] at h
  exact h.2

/-- An asset's tenant, where ids are unique. -/
theorem assetTenant_iff (hkeys : (db.assets.map Asset.id).Nodup) {x : Uuid} :
    assetTenant db x = some t ↔ ∃ a ∈ db.assets, a.id = x ∧ a.tenantId = t := by
  unfold assetTenant
  rw [Option.map_eq_some_iff]
  constructor
  · rintro ⟨a, hfind, htenant⟩
    have hid := List.find?_some hfind
    rw [decide_eq_true_eq] at hid
    exact ⟨a, List.mem_of_find?_eq_some hfind, hid, htenant⟩
  · rintro ⟨a, ha, hid, htenant⟩
    refine ⟨a, ?_, htenant⟩
    cases hfind : db.assets.find? fun y => y.id = x with
    | none =>
      have hnone := List.find?_eq_none.mp hfind a ha
      rw [decide_eq_true_eq] at hnone
      exact absurd hid hnone
    | some b =>
      have hb := List.find?_some hfind
      rw [decide_eq_true_eq] at hb
      rw [eq_of_key_eq hkeys (List.mem_of_find?_eq_some hfind) ha (hb.trans hid.symm)]

end Roles

/-! ## What an accepted row says of the user -/

section Admitted

variable {db : Db} {uid : Uuid}

theorem admitMembership_owner (m : Membership) (h : admitMembership db uid m = .ok ()) :
    isOwner db uid m.tenantId = true :=
  Bool.not_eq_false _ ▸ refuseIf_eq_ok.mp h

theorem admitRecord_edit (r : Record) (h : admitRecord db uid r = .ok ()) :
    mayEdit db uid r.tenantId = true := by
  obtain ⟨_, hedit, -⟩ := bind_eq_ok.mp h
  exact Bool.not_eq_false _ ▸ refuseIf_eq_ok.mp hedit

/-- The trigger only refuses. -/
theorem admitAsset_untriggered {fires : Bool} {a : Asset} (h : admitAsset db uid fires a = .ok ()) :
    admitAsset db uid false a = .ok () := by
  cases fires with
  | false => exact h
  | true =>
    obtain ⟨_, -, h⟩ := bind_eq_ok.mp h
    exact h

theorem assetChecks_key {a : Asset} (h : assetChecks a = .ok ()) :
    a.objectKey = objectKey a.tenantId a.id := by
  unfold assetChecks at h
  obtain ⟨_, -, h⟩ := bind_eq_ok.mp h
  obtain ⟨_, -, h⟩ := bind_eq_ok.mp h
  obtain ⟨_, -, h⟩ := bind_eq_ok.mp h
  obtain ⟨_, -, h⟩ := bind_eq_ok.mp h
  obtain ⟨_, -, h⟩ := bind_eq_ok.mp h
  obtain ⟨_, -, h⟩ := bind_eq_ok.mp h
  obtain ⟨_, -, h⟩ := bind_eq_ok.mp h
  exact not_not.mp (refuseIf_eq_ok.mp h)

theorem admitAsset_edit {fires : Bool} (a : Asset) (h : admitAsset db uid fires a = .ok ()) :
    mayEdit db uid a.tenantId = true ∧ a.objectKey = objectKey a.tenantId a.id := by
  obtain ⟨_, -, h⟩ := bind_eq_ok.mp (admitAsset_untriggered h)
  obtain ⟨_, hedit, hchecks⟩ := bind_eq_ok.mp h
  exact ⟨Bool.not_eq_false _ ▸ refuseIf_eq_ok.mp hedit, assetChecks_key hchecks⟩

theorem admitChunk_edit (c : AssetChunk) (h : admitChunk db uid c = .ok ()) :
    mayEditChunks db uid c.assetId = true := by
  obtain ⟨_, hedit, -⟩ := bind_eq_ok.mp h
  exact Bool.not_eq_false _ ▸ refuseIf_eq_ok.mp hedit

theorem admitObject_edit (o : StorageObject) (h : admitObject db uid o = .ok ()) :
    mayEditObject db uid o = true :=
  Bool.not_eq_false _ ▸ refuseIf_eq_ok.mp h

end Admitted

/-! ## What a statement touches -/

/-- The primary keys of the catalogue. -/
structure DbKeys (db : Db) : Prop where
  memberships : (db.memberships.map Membership.key).Nodup
  records : (db.records.map Record.id).Nodup
  assets : (db.assets.map Asset.id).Nodup
  chunks : (db.assetChunks.map AssetChunk.key).Nodup

/-- Rows that came or went belong to tenants that `touches` says; membership rows to
tenants that the user owns. -/
structure TouchesOnly (db : Db) (uid : Uuid) (touches : Uuid → Prop) (db' : Db) : Prop where
  tenants : db'.tenants = db.tenants
  memberships : Within (fun m => isOwner db uid m.tenantId = true)
    (fun m => isOwner db uid m.tenantId = true) db.memberships db'.memberships
  records : Within (fun r => touches r.tenantId) (fun r => touches r.tenantId) db.records db'.records
  assets : Within (fun a => touches a.tenantId)
    (fun a => touches a.tenantId ∧ a.objectKey = objectKey a.tenantId a.id) db.assets db'.assets
  chunks : Within (fun c => ∃ t, assetTenant db c.assetId = some t ∧ touches t)
    (fun c => ∃ t, assetTenant db c.assetId = some t ∧ touches t) db.assetChunks db'.assetChunks

/-- The tenant of an asset that goes with a record the user deletes. -/
def Carried (db : Db) (uid : Uuid) (which : Record → Bool) (t : Uuid) : Prop :=
  ∃ r ∈ db.records, mayEdit db uid r.tenantId = true ∧ which r = true ∧
    ∃ a ∈ db.assets, a.recordId = r.id ∧ a.tenantId = t

/-- The tenants whose rows a statement may touch. -/
def Touched (db : Db) (uid : Uuid) (s : Statement) (t : Uuid) : Prop :=
  mayEdit db uid t = true ∨ match s with
    | .deleteRecords which => Carried db uid which t
    | _ => False

section Touches

variable {db db' : Db} {uid : Uuid} {touches : Uuid → Prop}

theorem TouchesOnly.refl : TouchesOnly db uid touches db :=
  ⟨rfl, Within.refl _, Within.refl _, Within.refl _, Within.refl _⟩

theorem TouchesOnly.ofMemberships {rows : List Membership}
    (h : Within (fun m => isOwner db uid m.tenantId = true)
      (fun m => isOwner db uid m.tenantId = true) db.memberships rows) :
    TouchesOnly db uid touches { db with memberships := rows } :=
  ⟨rfl, h, Within.refl _, Within.refl _, Within.refl _⟩

theorem TouchesOnly.ofRecords {rows : List Record}
    (h : Within (fun r => touches r.tenantId) (fun r => touches r.tenantId) db.records rows) :
    TouchesOnly db uid touches { db with records := rows } :=
  ⟨rfl, Within.refl _, h, Within.refl _, Within.refl _⟩

theorem TouchesOnly.ofAssets {rows : List Asset}
    (h : Within (fun a => touches a.tenantId)
      (fun a => touches a.tenantId ∧ a.objectKey = objectKey a.tenantId a.id) db.assets rows) :
    TouchesOnly db uid touches { db with assets := rows } :=
  ⟨rfl, Within.refl _, Within.refl _, h, Within.refl _⟩

theorem TouchesOnly.ofChunks {rows : List AssetChunk}
    (h : Within (fun c => ∃ t, assetTenant db c.assetId = some t ∧ touches t)
      (fun c => ∃ t, assetTenant db c.assetId = some t ∧ touches t) db.assetChunks rows) :
    TouchesOnly db uid touches { db with assetChunks := rows } :=
  ⟨rfl, Within.refl _, Within.refl _, Within.refl _, h⟩

/-- Assets that go take their chunks along, which are of the same tenants. -/
theorem TouchesOnly.deleteAssets (hkeys : DbKeys db) {gone : Asset → Bool}
    (h : ∀ a ∈ db.assets, gone a = true → touches a.tenantId) :
    TouchesOnly db uid touches (db.deleteAssets gone) := by
  refine ⟨rfl, Within.refl _, Within.refl _, within_filter fun a ha hgone => ?_,
    within_filter fun c _ hgone => ?_⟩
  · rw [Bool.not_eq_false'] at hgone
    exact h a ha hgone
  · rw [decide_eq_false_iff_not, not_not] at hgone
    obtain ⟨a, ha, hid⟩ := List.mem_map.mp hgone
    obtain ⟨ha, hgone⟩ := List.mem_filter.mp ha
    exact ⟨a.tenantId, (assetTenant_iff hkeys.assets).mpr ⟨a, ha, hid, rfl⟩, h a ha hgone⟩

theorem TouchesOnly.deleteRecords (hkeys : DbKeys db) {gone : Record → Bool}
    (hrecords : ∀ r ∈ db.records, gone r = true → touches r.tenantId)
    (hassets : ∀ r ∈ db.records, gone r = true → ∀ a ∈ db.assets, a.recordId = r.id →
      touches a.tenantId) : TouchesOnly db uid touches (db.deleteRecords gone) := by
  have hkeys' : DbKeys { db with records := db.records.filter fun r => !gone r } :=
    ⟨hkeys.memberships, hkeys.records.sublist (List.filter_sublist.map _), hkeys.assets, hkeys.chunks⟩
  have hcarried : ∀ a ∈ db.assets, decide (a.recordId ∈ (db.records.filter gone).map (·.id)) = true →
      touches a.tenantId := by
    intro a ha hgone
    obtain ⟨r, hr, hid⟩ := List.mem_map.mp (of_decide_eq_true hgone)
    obtain ⟨hr, hgone⟩ := List.mem_filter.mp hr
    exact hassets r hr hgone a ha hid.symm
  have hcascade : TouchesOnly _ uid touches (db.deleteRecords gone) :=
    TouchesOnly.deleteAssets hkeys' hcarried
  refine ⟨rfl, Within.refl _, within_filter fun r hr hgone => ?_, hcascade.assets, hcascade.chunks⟩
  rw [Bool.not_eq_false'] at hgone
  exact hrecords r hr hgone

/-- What a user may edit, a statement of the user may touch. -/
theorem touched_of_mayEdit {s : Statement} {t : Uuid} (h : mayEdit db uid t = true) :
    Touched db uid s t := .inl h

theorem touched_of_mayEditChunks {s : Statement} {a : Uuid} (h : mayEditChunks db uid a = true) :
    ∃ t, assetTenant db a = some t ∧ Touched db uid s t := by
  obtain ⟨t, ht, hedit⟩ := mayEditChunks_iff.mp h
  exact ⟨t, ht, .inl hedit⟩

/-- An accepted statement touches no tenant but those it may touch. -/
theorem exec_touches (hkeys : DbKeys db) {s : Statement} (hexec : exec db uid s = .ok db') :
    TouchesOnly db uid (Touched db uid s) db' ∧ DbKeys db' := by
  cases s with
  | insertTenants new =>
    obtain ⟨_, _, hexec⟩ := bind_eq_ok.mp hexec
    cases hexec
    exact ⟨.refl, hkeys⟩
  | updateTenants _ | deleteTenants _ | deleteChunks _ =>
    cases hexec
    exact ⟨.refl, hkeys⟩
  | insertMemberships new =>
    obtain ⟨rows, hrows, hexec⟩ := bind_eq_ok.mp hexec
    obtain ⟨_, _, hexec⟩ := bind_eq_ok.mp hexec
    cases hexec
    obtain ⟨hwithin, hnodup⟩ := insertRows_within hkeys.memberships hrows admitMembership_owner
    exact ⟨.ofMemberships hwithin, { hkeys with memberships := hnodup }⟩
  | updateMemberships hits =>
    obtain ⟨rows, hrows, hexec⟩ := bind_eq_ok.mp hexec
    obtain ⟨_, _, hexec⟩ := bind_eq_ok.mp hexec
    cases hexec
    obtain ⟨hwithin, hnodup⟩ := updateRows_within hkeys.memberships hrows (fun _ howner => howner)
      fun _ => admitMembership_owner
    exact ⟨.ofMemberships hwithin, { hkeys with memberships := hnodup }⟩
  | deleteMemberships which =>
    cases hexec
    refine ⟨.ofMemberships (within_filter fun m _ hgone => ?_),
      { hkeys with memberships := hkeys.memberships.sublist (List.filter_sublist.map _) }⟩
    rw [Bool.not_eq_false', Bool.and_eq_true] at hgone
    exact hgone.1
  | insertRecords new =>
    obtain ⟨rows, hrows, hexec⟩ := bind_eq_ok.mp hexec
    obtain ⟨_, _, hexec⟩ := bind_eq_ok.mp hexec
    cases hexec
    obtain ⟨hwithin, hnodup⟩ := insertRows_within hkeys.records hrows
      fun r hadmit => touched_of_mayEdit (admitRecord_edit r hadmit)
    exact ⟨.ofRecords hwithin, { hkeys with records := hnodup }⟩
  | updateRecords hits =>
    obtain ⟨rows, hrows, hexec⟩ := bind_eq_ok.mp hexec
    obtain ⟨_, _, hexec⟩ := bind_eq_ok.mp hexec
    obtain ⟨_, _, hexec⟩ := bind_eq_ok.mp hexec
    cases hexec
    obtain ⟨hwithin, hnodup⟩ := updateRows_within hkeys.records hrows
      (fun _ hedit => touched_of_mayEdit hedit)
      fun _ r hadmit => touched_of_mayEdit (admitRecord_edit r hadmit)
    exact ⟨.ofRecords hwithin, { hkeys with records := hnodup }⟩
  | deleteRecords which =>
    cases hexec
    refine ⟨.deleteRecords hkeys (fun r _ hgone => ?_) (fun r hr hgone a ha hrecord => ?_),
      ⟨hkeys.memberships, hkeys.records.sublist (List.filter_sublist.map _),
        hkeys.assets.sublist (List.filter_sublist.map _),
        hkeys.chunks.sublist (List.filter_sublist.map _)⟩⟩
    · exact .inl (Bool.and_eq_true_iff.mp hgone).1
    · obtain ⟨hedit, hwhich⟩ := Bool.and_eq_true_iff.mp hgone
      exact .inr ⟨r, hr, hedit, hwhich, a, ha, hrecord, rfl⟩
  | insertAssets new =>
    obtain ⟨rows, hrows, hexec⟩ := bind_eq_ok.mp hexec
    obtain ⟨_, _, hexec⟩ := bind_eq_ok.mp hexec
    cases hexec
    obtain ⟨hwithin, hnodup⟩ := insertRows_within hkeys.assets hrows
      fun a hadmit => (admitAsset_edit a hadmit).imp_left touched_of_mayEdit
    exact ⟨.ofAssets hwithin, { hkeys with assets := hnodup }⟩
  | updateAssets hits =>
    obtain ⟨rows, hrows, hexec⟩ := bind_eq_ok.mp hexec
    obtain ⟨_, _, hexec⟩ := bind_eq_ok.mp hexec
    obtain ⟨_, _, hexec⟩ := bind_eq_ok.mp hexec
    cases hexec
    obtain ⟨hwithin, hnodup⟩ := updateRows_within hkeys.assets hrows
      (fun _ hedit => touched_of_mayEdit hedit)
      fun _ a hadmit => (admitAsset_edit a hadmit).imp_left touched_of_mayEdit
    exact ⟨.ofAssets hwithin, { hkeys with assets := hnodup }⟩
  | deleteAssets which =>
    cases hexec
    refine ⟨.deleteAssets hkeys fun a _ hgone => .inl (Bool.and_eq_true_iff.mp hgone).1,
      ⟨hkeys.memberships, hkeys.records, hkeys.assets.sublist (List.filter_sublist.map _),
        hkeys.chunks.sublist (List.filter_sublist.map _)⟩⟩
  | insertChunks new =>
    obtain ⟨rows, hrows, hexec⟩ := bind_eq_ok.mp hexec
    obtain ⟨_, _, hexec⟩ := bind_eq_ok.mp hexec
    cases hexec
    obtain ⟨hwithin, hnodup⟩ := insertRows_within hkeys.chunks hrows
      fun c hadmit => touched_of_mayEditChunks (admitChunk_edit c hadmit)
    exact ⟨.ofChunks hwithin, { hkeys with chunks := hnodup }⟩
  | updateChunks hits =>
    obtain ⟨rows, hrows, hexec⟩ := bind_eq_ok.mp hexec
    obtain ⟨_, _, hexec⟩ := bind_eq_ok.mp hexec
    cases hexec
    obtain ⟨hwithin, hnodup⟩ := updateRows_within hkeys.chunks hrows
      (fun _ hedit => touched_of_mayEditChunks hedit)
      fun _ c hadmit => touched_of_mayEditChunks (admitChunk_edit c hadmit)
    exact ⟨.ofChunks hwithin, { hkeys with chunks := hnodup }⟩
  | upsertMemberships new =>
    obtain ⟨rows, hrows, hexec⟩ := bind_eq_ok.mp hexec
    obtain ⟨_, _, hexec⟩ := bind_eq_ok.mp hexec
    cases hexec
    obtain ⟨hwithin, hnodup⟩ := upsertRows_within hkeys.memberships hrows (fun _ howner => howner)
      admitMembership_owner fun _ => admitMembership_owner
    exact ⟨.ofMemberships hwithin, { hkeys with memberships := hnodup }⟩
  | upsertRecords new =>
    obtain ⟨rows, hrows, hexec⟩ := bind_eq_ok.mp hexec
    obtain ⟨_, _, hexec⟩ := bind_eq_ok.mp hexec
    cases hexec
    obtain ⟨hwithin, hnodup⟩ := upsertRows_within hkeys.records hrows
      (fun _ hedit => touched_of_mayEdit hedit)
      (fun r hadmit => touched_of_mayEdit (admitRecord_edit r hadmit))
      fun _ r hadmit => touched_of_mayEdit (admitRecord_edit r hadmit)
    exact ⟨.ofRecords hwithin, { hkeys with records := hnodup }⟩
  | upsertAssets new =>
    obtain ⟨rows, hrows, hexec⟩ := bind_eq_ok.mp hexec
    obtain ⟨_, _, hexec⟩ := bind_eq_ok.mp hexec
    cases hexec
    obtain ⟨hwithin, hnodup⟩ := upsertRows_within hkeys.assets hrows
      (fun _ hedit => touched_of_mayEdit hedit)
      (fun a hadmit => (admitAsset_edit a hadmit).imp_left touched_of_mayEdit)
      fun _ a hadmit => (admitAsset_edit a hadmit).imp_left touched_of_mayEdit
    exact ⟨.ofAssets hwithin, { hkeys with assets := hnodup }⟩
  | upsertChunks new =>
    obtain ⟨rows, hrows, hexec⟩ := bind_eq_ok.mp hexec
    obtain ⟨_, _, hexec⟩ := bind_eq_ok.mp hexec
    cases hexec
    obtain ⟨hwithin, hnodup⟩ := upsertRows_within hkeys.chunks hrows
      (fun _ hedit => touched_of_mayEditChunks hedit)
      (fun c hadmit => touched_of_mayEditChunks (admitChunk_edit c hadmit))
      fun _ c hadmit => touched_of_mayEditChunks (admitChunk_edit c hadmit)
    exact ⟨.ofChunks hwithin, { hkeys with chunks := hnodup }⟩

theorem execObject_touches {objects objects' : List StorageObject}
    (hkeys : (objects.map StorageObject.key).Nodup) {u : ObjectStatement}
    (hexec : execObject db objects uid u = .ok objects') :
    Within (fun o => mayEditObject db uid o = true) (fun o => mayEditObject db uid o = true) objects
      objects' ∧ (objects'.map StorageObject.key).Nodup := by
  cases u with
  | insert new =>
    exact insertRows_within hkeys hexec admitObject_edit
  | update hits =>
    exact updateRows_within hkeys hexec (fun _ hedit => hedit) fun _ => admitObject_edit
  | delete which =>
    cases hexec
    refine ⟨within_filter fun o _ hgone => ?_, hkeys.sublist (List.filter_sublist.map _)⟩
    rw [Bool.not_eq_false', Bool.and_eq_true] at hgone
    exact hgone.1
  | upsert new =>
    exact upsertRows_within hkeys hexec (fun _ hedit => hedit) admitObject_edit
      fun _ => admitObject_edit

end Touches

/-! ## The two kinds of policies agree -/

theorem slash_not_mem (t : Uuid) : '/' ∉ t.text.toList := by
  intro hmem
  obtain ⟨i, hi⟩ := List.mem_iff_getElem?.mp hmem
  have hall := (Bool.and_eq_true_iff.mp t.wellFormed).2
  have hchar := List.all_eq_true.mp hall ('/', i) (List.mem_zipIdx_iff_getElem?.mpr hi)
  dsimp only at hchar
  split at hchar
  · exact absurd hchar (by decide)
  · exact absurd hchar (by decide)

/-- The storage policies read, from the key of an asset, the asset's tenant. -/
theorem keyTenant_objectKey (t a : Uuid) : keyTenant (objectKey t a) = some t := by
  have hsegment : firstSegment (objectKey t a) = t.text := by
    unfold firstSegment objectKey
    rw [String.toList_append, String.toList_append, String.toList_append, List.append_assoc,
      List.append_assoc, List.takeWhile_append_of_pos]
    · change String.ofList (t.text.toList ++ List.takeWhile _ ('/' :: _)) = t.text
      rw [List.takeWhile_cons_of_neg (by decide), List.append_nil, String.ofList_toList]
    · intro c hc
      rw [decide_eq_true_eq]
      rintro rfl
      exact slash_not_mem t hc
  unfold keyTenant
  rw [dif_pos (hsegment ▸ t.wellFormed)]
  congr 1
  obtain ⟨text, hwell⟩ := t
  congr 1

namespace Deployment

/-! ## A stranger's reads do not depend on the tenant -/

section Reads

variable {s : Deployment} {uid t : Uuid}

theorem myRole_without (h : isMember s.db uid t = false) (x : Uuid) :
    Catalogue.myRole (s.without t).db uid x = Catalogue.myRole s.db uid x := by
  unfold Catalogue.myRole without
  dsimp only
  rw [List.find?_filter]
  congr 1
  refine List.find?_congr fun m hm => ?_
  by_cases hx : m.tenantId = x ∧ m.userId = uid
  · have hne : x ≠ t := by
      intro ht
      have hmember := isMember_of_mem hm
      rw [hx.2, hx.1, ht, h] at hmember
      cases hmember
    simp [hx, hne]
  · simp [hx]

theorem isMember_without (h : isMember s.db uid t = false) (x : Uuid) :
    isMember (s.without t).db uid x = isMember s.db uid x := by
  unfold isMember
  rw [myRole_without h x]

theorem assetTenant_without (hkeys : DbKeys s.db) {x : Uuid}
    (h : Catalogue.assetTenant s.db x ≠ some t) :
    Catalogue.assetTenant (s.without t).db x = Catalogue.assetTenant s.db x := by
  refine Option.ext fun y => ?_
  rw [assetTenant_iff (hkeys.assets.sublist (List.filter_sublist.map _)), assetTenant_iff hkeys.assets]
  constructor
  · rintro ⟨a, ha, hid, htenant⟩
    exact ⟨a, (List.mem_filter.mp ha).1, hid, htenant⟩
  · rintro ⟨a, ha, hid, htenant⟩
    refine ⟨a, List.mem_filter.mpr ⟨ha, decide_eq_true fun ht => h ?_⟩, hid, htenant⟩
    exact (assetTenant_iff hkeys.assets).mpr ⟨a, ha, hid, ht⟩

/-- Rows that nobody sees may as well be away. -/
theorem filter_without {ρ : Type} {l : List ρ} {away : ρ → Prop} [DecidablePred away]
    {see see' : ρ → Bool} (h : ∀ r ∈ l, ¬ away r → see' r = see r)
    (hunseen : ∀ r ∈ l, away r → see r = false) :
    (l.filter fun r => ¬ away r).filter see' = l.filter see := by
  rw [List.filter_filter]
  refine List.filter_congr fun r hr => ?_
  by_cases haway : away r
  · rw [hunseen r hr haway, decide_eq_false (not_not.mpr haway), Bool.and_false]
  · rw [h r hr haway, decide_eq_true haway, Bool.and_true]

theorem view_without (hkeys : DbKeys s.db) (h : isMember s.db uid t = false) :
    (s.without t).view uid = s.view uid := by
  unfold view
  congr 1
  · congr 1
    · exact filter_without (fun x _ _ => isMember_without h x.id) fun x _ hx => hx ▸ h
    · refine filter_without (fun m _ _ => by rw [isMember_without h]) fun m hm hx => ?_
      rw [hx, h, Bool.or_false, decide_eq_false_iff_not]
      rintro rfl
      have hmember := isMember_of_mem hm
      rw [hx, h] at hmember
      cases hmember
    · exact filter_without (fun r _ _ => isMember_without h r.tenantId) fun r _ hx => hx ▸ h
    · exact filter_without (fun a _ _ => isMember_without h a.tenantId) fun a _ hx => hx ▸ h
    · refine filter_without (fun c _ hx => ?_) fun c _ hx => ?_
      · rw [assetTenant_without hkeys hx]
        exact congrArg (fun p => Option.any p _) (funext fun x => isMember_without h x)
      · rw [hx, Option.any_some]
        exact h
  · refine filter_without (fun o _ _ => ?_) fun o _ hx => ?_
    · unfold mayReadObject
      rw [show isMember (s.without t).db uid = isMember s.db uid from
        funext fun x => isMember_without h x]
    · unfold mayReadObject
      rw [hx, Option.any_some, h, Bool.and_false]

/-- Only `asset_tenant` answers a stranger from the tenant's rows. -/
theorem answer_without (hkeys : DbKeys s.db) (h : isMember s.db uid t = false) {r : Read}
    (hr : ∀ a, r = .assetTenant a → Catalogue.assetTenant s.db a ≠ some t) :
    (s.without t).answer uid r = s.answer uid r := by
  cases r with
  | select => exact congrArg Answer.rows (view_without hkeys h)
  | myRole x => exact congrArg Answer.role (myRole_without h x)
  | keyTenant name => rfl
  | assetTenant a => exact congrArg Answer.tenant (assetTenant_without hkeys (hr a rfl))

end Reads

/-! ## What a step keeps -/

/-- The keys of all tables. -/
structure Keys (s : Deployment) : Prop where
  db : DbKeys s.db
  objects : (s.objects.map StorageObject.key).Nodup

theorem Keys.empty : Keys empty :=
  ⟨⟨List.nodup_nil, List.nodup_nil, List.nodup_nil, List.nodup_nil⟩, List.nodup_nil⟩

section Steps

variable {s : Deployment} {uid t : Uuid} {touches : Uuid → Prop} {e : Event}

/-- A tenant that the change of the catalogue does not touch keeps its rows. -/
theorem sameRows_of_touches {db' : Db} (hkeys : DbKeys s.db) (hkeys' : DbKeys db')
    (h : TouchesOnly s.db uid touches db') (hedit : mayEdit s.db uid t = false)
    (htouches : ¬ touches t) : SameRows t s { s with db := db' } := by
  have hassets : ∀ a, a.tenantId = t → (a ∈ db'.assets ↔ a ∈ s.db.assets) := by
    rintro a rfl
    exact h.assets.iff htouches fun hcame => htouches hcame.1
  have htenant : ∀ x, Catalogue.assetTenant db' x = some t ↔ Catalogue.assetTenant s.db x = some t := by
    intro x
    rw [assetTenant_iff hkeys'.assets, assetTenant_iff hkeys.assets]
    constructor
    · rintro ⟨a, ha, hid, ht⟩
      exact ⟨a, (hassets a ht).mp ha, hid, ht⟩
    · rintro ⟨a, ha, hid, ht⟩
      exact ⟨a, (hassets a ht).mpr ha, hid, ht⟩
  refine ⟨fun x _ => ?_, fun m hm => ?_, fun r hr => ?_, hassets, fun c => ?_, fun _ _ => Iff.rfl⟩
  · rw [h.tenants]
  · subst hm
    have hnot : ¬ isOwner s.db uid m.tenantId = true := by
      intro howner
      rw [mayEdit_of_isOwner howner] at hedit
      cases hedit
    exact h.memberships.iff hnot hnot
  · subst hr
    exact h.records.iff htouches htouches
  · rw [htenant]
    refine and_congr_left fun hc => ?_
    have hnot : ¬ ∃ x, Catalogue.assetTenant s.db c.assetId = some x ∧ touches x := by
      rintro ⟨x, hx, hxt⟩
      rw [hc] at hx
      cases hx
      exact htouches hxt
    exact h.chunks.iff hnot hnot

theorem SameRows.refl : SameRows t s s :=
  ⟨fun _ _ => Iff.rfl, fun _ _ => Iff.rfl, fun _ _ => Iff.rfl, fun _ _ => Iff.rfl,
    fun _ => Iff.rfl, fun _ _ => Iff.rfl⟩

/-- What an event may touch, beside the tenants its user may edit. -/
def Carries (s : Deployment) (t : Uuid) : Event → Prop
  | .catalogue (.statement uid (.deleteRecords which)) => Carried s.db uid which t
  | _ => False

/-- How a step may change a deployment. -/
inductive StepTo (s : Deployment) : Event → Deployment → Prop where
  | same (e : Event) : StepTo s e s
  | operator (e : Catalogue.Event) (db' : Db) (hwho : Event.who (.catalogue e) = none)
      (happly : Catalogue.apply s.db e = .ok db') : StepTo s (.catalogue e) { s with db := db' }
  | catalogue (e : Event) (uid : Uuid) (db' : Db) (hwho : e.who = some uid) (hkeys : DbKeys db')
      (htouches : TouchesOnly s.db uid (fun t => mayEdit s.db uid t = true ∨ Carries s t e) db') :
      StepTo s e { s with db := db' }
  | storage (uid : Uuid) (u : ObjectStatement) (objects' : List StorageObject)
      (hwithin : Within (fun o => mayEditObject s.db uid o = true)
        (fun o => mayEditObject s.db uid o = true) s.objects objects')
      (hkeys : (objects'.map StorageObject.key).Nodup) :
      StepTo s (.storage uid u) { s with objects := objects' }

theorem touched_iff_carries {u : Statement} {x : Uuid} :
    Touched s.db uid u x ↔ mayEdit s.db uid x = true ∨ Carries s x (.catalogue (.statement uid u)) := by
  cases u <;> exact Iff.rfl

theorem stepTo_step (hkeys : Keys s) (e : Event) : StepTo s e (s.step e) := by
  cases e with
  | read uid r => exact .same _
  | storage uid u =>
    unfold step
    dsimp only
    split
    · rename_i objects' hexec
      obtain ⟨hwithin, hnodup⟩ := execObject_touches hkeys.objects hexec
      exact .storage uid u objects' hwithin hnodup
    · exact .same _
  | catalogue e =>
    unfold step Catalogue.step
    dsimp only
    split
    · rename_i db' happly
      cases e with
      | statement uid u =>
        obtain ⟨htouches, hkeys'⟩ := exec_touches hkeys.db happly
        refine .catalogue _ uid db' rfl hkeys' ?_
        rw [show Touched s.db uid u = fun x => mayEdit s.db uid x = true ∨
          Carries s x (.catalogue (.statement uid u)) from
            funext fun x => propext touched_iff_carries] at htouches
        exact htouches
      | _ => exact .operator _ db' rfl happly
    · exact .same _

/-- What the operator does leaves the records and everything under them alone. -/
theorem operator_ok {e : Catalogue.Event} {db' : Db} (hkeys : DbKeys s.db)
    (hwho : Event.who (.catalogue e) = none) (happly : Catalogue.apply s.db e = .ok db') :
    DbKeys db' ∧ db'.assets = s.db.assets ∧
      (db'.memberships = s.db.memberships ∨ ∃ m, e = .createMembership m ∧
        db'.memberships = s.db.memberships ++ [m]) := by
  cases e with
  | statement uid u => cases hwho
  | signUp uid | createTenant x =>
    obtain ⟨_, _, happly⟩ := bind_eq_ok.mp happly
    cases happly
    exact ⟨⟨hkeys.memberships, hkeys.records, hkeys.assets, hkeys.chunks⟩, rfl, .inl rfl⟩
  | createMembership m =>
    obtain ⟨_, hfresh, happly⟩ := bind_eq_ok.mp happly
    obtain ⟨_, _, happly⟩ := bind_eq_ok.mp happly
    cases happly
    refine ⟨⟨keys_append hkeys.memberships ?_, hkeys.records, hkeys.assets, hkeys.chunks⟩, rfl,
      .inr ⟨m, rfl, rfl⟩⟩
    exact refuseIf_eq_ok.mp hfresh

theorem Keys.step (hkeys : Keys s) (e : Event) : Keys (s.step e) := by
  have hstep := stepTo_step hkeys e
  generalize s.step e = s' at hstep
  cases hstep with
  | same e => exact hkeys
  | operator e db' hwho happly => exact ⟨(operator_ok hkeys.db hwho happly).1, hkeys.objects⟩
  | catalogue e uid db' hwho hkeys' htouches => exact ⟨hkeys', hkeys.objects⟩
  | storage uid u objects' hwithin hkeys' => exact ⟨hkeys.db, hkeys'⟩

theorem objectKeys_step (hkeys : Keys s)
    (h : ∀ a ∈ s.db.assets, a.objectKey = objectKey a.tenantId a.id) (e : Event) :
    ∀ a ∈ (s.step e).db.assets, a.objectKey = objectKey a.tenantId a.id := by
  have hstep := stepTo_step hkeys e
  generalize s.step e = s' at hstep
  cases hstep with
  | same e => exact h
  | operator e db' hwho happly =>
    intro a ha
    rw [show ({ s with db := db' } : Deployment).db.assets = s.db.assets from
      (operator_ok hkeys.db hwho happly).2.1] at ha
    exact h a ha
  | catalogue e uid db' hwho hkeys' htouches =>
    exact htouches.assets.all h fun a hcame => hcame.2
  | storage uid u objects' hwithin hkeys' => exact h

end Steps

/-! ## Isolation -/

/-- What a step of a run does to tenants, and says of them. -/
structure Isolated (before : List Event) (e : Event) : Prop where
  /-- Membership rows come and go by statements of owners, or by the operator. -/
  ownersOnly : ∀ m, ¬ (m ∈ ((run before).step e).db.memberships ↔ m ∈ (run before).db.memberships) →
    e = .catalogue (.createMembership m) ∨
      ∃ uid, e.who = some uid ∧ isOwner (run before).db uid m.tenantId = true
  /-- Who was never a member of a tenant changes none of its rows. -/
  changes : ∀ uid t, e.who = some uid → wasMember before uid t = false →
    SameRows t (run before) ((run before).step e)
  /-- Who was never a member of a tenant reads what would be read without its rows. -/
  reads : ∀ uid r t, e = .read uid r → wasMember before uid t = false →
    ((run before).without t).answer uid r = (run before).answer uid r
  /-- The storage policies and the catalogue's take an asset for the same tenant's. -/
  agree : ∀ a ∈ ((run before).step e).db.assets, Catalogue.keyTenant a.objectKey = some a.tenantId

/-- Records are deleted, and the tenants of assets asked for, only by users who were
members of the tenant of every asset concerned. -/
def StaysInside (before : List Event) : Event → Prop
  | .catalogue (.statement uid (.deleteRecords which)) =>
      ∀ r ∈ (run before).db.records, mayEdit (run before).db uid r.tenantId = true → which r = true →
        ∀ a ∈ (run before).db.assets, a.recordId = r.id → wasMember before uid a.tenantId = true
  | .read uid (.assetTenant x) =>
      ∀ t, Catalogue.assetTenant (run before).db x = some t → wasMember before uid t = true
  | _ => True

section Runs

variable {before : List Event} {e : Event} {uid t : Uuid}

theorem run_concat (before : List Event) (e : Event) : run (before ++ [e]) = (run before).step e := by
  unfold run
  rw [List.foldl_append]
  rfl

theorem keys_run (events : List Event) : Keys (run events) := by
  induction events using List.reverseRecOn with
  | nil => exact Keys.empty
  | append_singleton before e ih =>
    rw [run_concat]
    exact ih.step e

theorem objectKeys_run (events : List Event) :
    ∀ a ∈ (run events).db.assets, a.objectKey = objectKey a.tenantId a.id := by
  induction events using List.reverseRecOn with
  | nil => exact fun a ha => absurd ha List.not_mem_nil
  | append_singleton before e ih =>
    rw [run_concat]
    exact objectKeys_step (keys_run before) ih e

theorem isMember_of_never (h : wasMember before uid t = false) :
    isMember (run before).db uid t = false := by
  have hall := List.any_eq_false.mp h before ((List.mem_inits _ _).mpr (List.prefix_refl before))
  exact Bool.not_eq_true _ ▸ hall

theorem wasMember_of_isMember (h : isMember (run before).db uid t = true) :
    wasMember before uid t = true :=
  List.any_eq_true.mpr ⟨before, (List.mem_inits _ _).mpr (List.prefix_refl before), h⟩

theorem mayEdit_of_never (h : wasMember before uid t = false) :
    mayEdit (run before).db uid t = false := by
  refine Bool.eq_false_iff.mpr fun hedit => ?_
  have hmember := isMember_of_mayEdit hedit
  rw [isMember_of_never h] at hmember
  cases hmember

theorem StaysInside.not_carries (h : StaysInside before e) (hwho : e.who = some uid)
    (hnever : wasMember before uid t = false) : ¬ Carries (run before) t e := by
  intro hcarries
  unfold Carries at hcarries
  split at hcarries
  · cases hwho
    obtain ⟨r, hr, hedit, hwhich, a, ha, hrecord, rfl⟩ := hcarries
    have hmember := h r hr hedit hwhich a ha hrecord
    rw [hnever] at hmember
    cases hmember
  · exact hcarries

theorem isolated_of_staysInside (h : StaysInside before e) : Isolated before e := by
  have hkeys := keys_run before
  have hstep := stepTo_step hkeys e
  refine ⟨fun m hm => ?_, fun uid t hwho hnever => ?_, fun uid r t he hnever => ?_, fun a ha => ?_⟩
  · generalize (run before).step e = s' at hstep hm
    cases hstep with
    | same e => exact absurd Iff.rfl hm
    | operator e db' hwho happly =>
      obtain ⟨-, -, hsame | ⟨new, rfl, hnew⟩⟩ := operator_ok hkeys.db hwho happly
      · dsimp only at hm
        rw [hsame] at hm
        exact absurd Iff.rfl hm
      · dsimp only at hm
        rw [hnew, List.mem_append, List.mem_singleton] at hm
        have heq : m = new := not_not.mp fun hne => hm (or_iff_left hne)
        exact .inl (by rw [heq])
    | catalogue e uid db' hwho hkeys' htouches =>
      refine .inr ⟨uid, hwho, not_not.mp fun hnot => hm ?_⟩
      exact htouches.memberships.iff hnot hnot
    | storage uid u objects' hwithin hkeys' => exact absurd Iff.rfl hm
  · have hcarries := h.not_carries hwho hnever
    have hedit := mayEdit_of_never hnever
    generalize (run before).step e = s' at hstep
    cases hstep with
    | same e => exact SameRows.refl
    | operator e db' hnone happly =>
      rw [hnone] at hwho
      cases hwho
    | catalogue e uid' db' hwho' hkeys' htouches =>
      rw [hwho] at hwho'
      cases hwho'
      refine sameRows_of_touches hkeys.db hkeys' htouches hedit ?_
      rw [hedit]
      rintro (hfalse | hcarried)
      · cases hfalse
      · exact hcarries hcarried
    | storage uid' u objects' hwithin hkeys' =>
      cases hwho
      refine ⟨fun _ _ => Iff.rfl, fun _ _ => Iff.rfl, fun _ _ => Iff.rfl, fun _ _ => Iff.rfl,
        fun _ => Iff.rfl, fun o ho => ?_⟩
      have hnot : ¬ mayEditObject (run before).db uid o = true := by
        intro hobject
        obtain ⟨x, hx, hxedit⟩ := mayEditObject_iff hobject
        rw [ho] at hx
        cases hx
        rw [hedit] at hxedit
        cases hxedit
      exact hwithin.iff hnot hnot
  · refine answer_without hkeys.db (isMember_of_never hnever) fun a hr ht => ?_
    subst he hr
    have hmember := h t ht
    rw [hnever] at hmember
    cases hmember
  · rw [objectKeys_step hkeys (objectKeys_run before) e a ha]
    exact keyTenant_objectKey a.tenantId a.id

theorem staysInside_of_isolated (h : Isolated before e) : StaysInside before e := by
  unfold StaysInside
  split
  · rename_i uid which
    intro r hr hedit hwhich a ha hrecord
    by_contra hnever
    rw [Bool.not_eq_true] at hnever
    -- the asset goes with its record
    have hsame := (h.changes uid a.tenantId rfl hnever).assets a rfl
    have hgone := (List.mem_filter.mp (hsame.mpr ha)).2
    rw [Bool.not_eq_true', decide_eq_false_iff_not] at hgone
    refine hgone (List.mem_map.mpr ⟨r, List.mem_filter.mpr ⟨hr, ?_⟩, hrecord.symm⟩)
    rw [hedit, hwhich]
    rfl
  · rename_i uid x
    intro t ht
    by_contra hnever
    rw [Bool.not_eq_true] at hnever
    have hsame := Answer.tenant.inj (h.reads uid (.assetTenant x) t rfl hnever)
    rw [ht, assetTenant_iff ((keys_run before).db.assets.sublist (List.filter_sublist.map _))] at hsame
    obtain ⟨a, ha, -, htenant⟩ := hsame
    exact of_decide_eq_true (List.mem_filter.mp ha).2 htenant
  · trivial

/-- As long as assets follow their records, a record carries no tenant's asset to
somebody else. -/
theorem staysInside_of_follow (hfollow : AssetsFollowRecords (run before).db)
    (hasks : ∀ uid x, e ≠ .read uid (.assetTenant x)) : StaysInside before e := by
  unfold StaysInside
  split
  · intro r hr hedit _ a ha hrecord
    obtain ⟨r', hr', hid, htenant⟩ := hfollow a ha
    have hsame : r' = r := eq_of_key_eq (keys_run before).db.records hr' hr (hid.trans hrecord)
    rw [← htenant, hsame]
    exact wasMember_of_isMember (isMember_of_mayEdit hedit)
  · rename_i uid x
    exact absurd rfl (hasks uid x)
  · trivial

end Runs

/-- **Strangers stay outside, as long as no record carries another tenant's asset to
them.**  A run isolates its tenants at every step exactly when no user deletes a
record with an asset of a tenant that the user was never a member of, or asks
`asset_tenant` for one. -/
theorem tenant_isolation (events : List Event) :
    (∀ before e after, events = before ++ e :: after → Isolated before e) ↔
      ∀ before e after, events = before ++ e :: after → StaysInside before e :=
  ⟨fun h before e after hsplit => staysInside_of_isolated (h before e after hsplit),
    fun h before e after hsplit => isolated_of_staysInside (h before e after hsplit)⟩

/-! ## A stranger deletes a record that was moved -/

namespace Stranger

open Moved

def stranger : Uuid := ⟨"ffffffff-ffff-4fff-8fff-ffffffffffff", by decide⟩

/-- An editor of two tenants with an asset in the first, and an editor of the second
alone. -/
def setup : List Event :=
  (Moved.setup ++ [Catalogue.Event.signUp stranger,
    Catalogue.Event.createMembership ⟨second, stranger, .editor⟩]).map .catalogue

/-- The record goes to the second tenant; its asset stays in the first. -/
def moved : List Event := setup ++ [.catalogue (.statement editor move)]

def deleteAll : Event := .catalogue (.statement stranger (.deleteRecords fun _ => true))

end Stranger

open Stranger in
theorem tenants_not_isolated :
    ¬ ∀ events before e after, events = before ++ e :: after → Isolated before e := by
  intro h
  have hsame := (h (moved ++ [deleteAll]) moved deleteAll [] rfl).changes stranger Moved.first rfl
    (by decide)
  have hthere : Moved.asset ∈ (run moved).db.assets := by decide
  have hgone : Moved.asset ∉ ((run moved).step deleteAll).db.assets := by decide
  exact hgone ((hsame.assets Moved.asset rfl).mpr hthere)

open Stranger in
/-- Without the move the same DELETE finds nothing, and the run is isolated. -/
theorem tenant_isolation_unmoved :
    ∀ before e after, setup ++ [deleteAll] = before ++ e :: after → Isolated before e := by
  refine (tenant_isolation (setup ++ [deleteAll])).mpr fun before e after hsplit => ?_
  have hfollow : ∀ n < 11, AssetsFollowRecords (run ((setup ++ [deleteAll]).take n)).db := by
    decide
  have hasks : ∀ x ∈ setup ++ [deleteAll], ∀ uid a, x ≠ .read uid (.assetTenant a) := by
    intro x hx uid a he
    subst he
    obtain hx | hx := List.mem_append.mp hx
    · obtain ⟨c, -, hc⟩ := List.mem_map.mp hx
      cases hc
    · cases List.mem_singleton.mp hx
  have hlen : before.length < 11 := by
    have h := congrArg List.length hsplit
    rw [List.length_append, List.length_append, List.length_cons] at h
    change 10 = _ at h
    omega
  have hbefore : before = (setup ++ [deleteAll]).take before.length := by
    rw [hsplit, List.take_left]
  refine staysInside_of_follow ?_ (hasks e ?_)
  · rw [hbefore]
    exact hfollow _ hlen
  · rw [hsplit]
    exact List.mem_append_right _ List.mem_cons_self

end Deployment

end SupabaseLab.Catalogue
