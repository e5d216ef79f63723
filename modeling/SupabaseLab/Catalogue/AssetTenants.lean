/-
  Catalogue/AssetTenants.lean --- does an asset stay in its record's tenant?

  The trigger looks at a row of `assets` when that row is written.  Nothing looks
  at the assets when a row of `records` is, and an editor of two tenants may move
  a record from one to the other, by an UPDATE or by the update of an upsert.  So the
  law is kept by every statement but these two, and by them exactly when they leave,
  under every id an asset refers to, the asset's tenant.
-/
import SupabaseLab.Catalogue.Schema

set_option autoImplicit false

namespace SupabaseLab.Catalogue

open Library

/-! ## The law -/

/-- Every asset has the tenant of the record it refers to. -/
def AssetsFollowRecords (db : Db) : Prop :=
  ∀ a ∈ db.assets, ∃ r ∈ db.records, r.id = a.recordId ∧ r.tenantId = a.tenantId

instance (db : Db) : Decidable (AssetsFollowRecords db) :=
  inferInstanceAs (Decidable (∀ a ∈ db.assets, ∃ r ∈ db.records,
    r.id = a.recordId ∧ r.tenantId = a.tenantId))

/-- What a statement of `uid` must not do: give a record, under an id that an
asset refers to, another tenant than the asset's. -/
def KeepsTenants (db : Db) (uid : Uuid) : Statement → Prop
  | .updateRecords hits =>
      ∀ p ∈ hits.touching db.records fun r => mayEdit db uid r.tenantId,
        ∀ a ∈ db.assets, a.recordId = p.2.id → p.2.tenantId = a.tenantId
  | .upsertRecords new =>
      ∀ p ∈ new.proposals, ∀ old merged, Conflicts Record.id db.records p old merged →
        ∀ a ∈ db.assets, a.recordId = merged.id → merged.tenantId = a.tenantId
  | _ => True

def Event.KeepsTenants (db : Db) : Event → Prop
  | .statement uid s => Catalogue.KeepsTenants db uid s
  | _ => True

/-- Every event of a run meets the condition in the state it finds. -/
def AllKeepTenants (db : Db) : List Event → Prop
  | [] => True
  | e :: rest => e.KeepsTenants db ∧ AllKeepTenants (step db e) rest

/-- The primary keys the law rests on. -/
structure Keyed (db : Db) : Prop where
  recordKeys : (db.records.map Record.id).Nodup
  assetKeys : (db.assets.map Asset.id).Nodup

/-- `a` has the tenant of the record it refers to. -/
def Asset.Follows (a : Asset) (db : Db) : Prop :=
  ∃ r ∈ db.records, r.id = a.recordId ∧ r.tenantId = a.tenantId

/-! ## What a statement does -/

section Statements

variable {db db' : Db} {uid : Uuid}

/-- The record an asset refers to is the only one of that id. -/
theorem Keyed.tenant_eq (h : Keyed db) {a : Asset} {r : Record} (ha : a.Follows db)
    (hr : r ∈ db.records) (hid : r.id = a.recordId) : r.tenantId = a.tenantId := by
  obtain ⟨s, hs, hsid, htenant⟩ := ha
  rw [eq_of_key_eq h.recordKeys hr hs (hid.trans hsid.symm)]
  exact htenant

/-- An asset that passes the trigger follows its record. -/
theorem assetsCheck_ok {new : Asset} (h : assetsCheck db uid new = .ok ()) : new.Follows db := by
  have hseen := not_not.mp (refuseIf_eq_ok.mp h)
  obtain ⟨r, hfind, htenant⟩ := Option.map_eq_some_iff.mp hseen
  have hmatch := List.find?_some hfind
  simp only [Bool.decide_and, Bool.and_eq_true, decide_eq_true_eq] at hmatch
  exact ⟨r, List.mem_of_find?_eq_some hfind, hmatch.1, htenant⟩

theorem admitAsset_ok {new : Asset} (h : admitAsset db uid true new = .ok ()) :
    new.Follows db := by
  obtain ⟨_, hcheck, -⟩ := bind_eq_ok.mp h
  exact assetsCheck_ok hcheck

theorem exec_insertRecords (h : Keyed db) {new : List Record}
    (hexec : exec db uid (.insertRecords new) = .ok db') :
    db' = { db with records := db.records ++ new } ∧
      ((db.records ++ new).map Record.id).Nodup := by
  obtain ⟨rows, hrows, hexec⟩ := bind_eq_ok.mp hexec
  obtain ⟨_, _, hexec⟩ := bind_eq_ok.mp hexec
  cases hexec
  obtain ⟨rfl, hkeys, -⟩ := insertRows_ok h.recordKeys hrows
  exact ⟨rfl, hkeys⟩

/-- What an accepted UPDATE of `records` leaves; no asset loses its record. -/
theorem exec_updateRecords (h : Keyed db) {hits : Hits Record}
    (hexec : exec db uid (.updateRecords hits) = .ok db') :
    ∃ rows, db' = { db with records := rows } ∧
      Updated Record.id db.records rows
        (hits.touching db.records fun r => mayEdit db uid r.tenantId) ∧
      ∀ a ∈ db.assets, a.recordId ∈ rows.map Record.id := by
  obtain ⟨rows, hrows, hexec⟩ := bind_eq_ok.mp hexec
  obtain ⟨_, _, hexec⟩ := bind_eq_ok.mp hexec
  obtain ⟨_, hrefs, hexec⟩ := bind_eq_ok.mp hexec
  cases hexec
  obtain ⟨hupdated, -⟩ := updateRows_ok h.recordKeys
    (fun p hp => (mem_touching.mp hp).2.1) touching_once hrows
  refine ⟨rows, rfl, hupdated, fun a ha => not_not.mp fun hmissing => ?_⟩
  exact refuseIf_eq_ok.mp hrefs ⟨a, ha, hmissing⟩

theorem exec_upsertRecords (h : Keyed db) {new : Upserts Record.id}
    (hexec : exec db uid (.upsertRecords new) = .ok db') :
    ∃ rows, db' = { db with records := rows } ∧ Upserted Record.id db.records rows new.proposals := by
  obtain ⟨rows, hrows, hexec⟩ := bind_eq_ok.mp hexec
  obtain ⟨_, _, hexec⟩ := bind_eq_ok.mp hexec
  cases hexec
  exact ⟨rows, rfl, (upsertRows_ok h.recordKeys new.once new.keeps hrows).1⟩

theorem exec_insertAssets (h : Keyed db) {new : List Asset}
    (hexec : exec db uid (.insertAssets new) = .ok db') :
    db' = { db with assets := db.assets ++ new } ∧ ((db.assets ++ new).map Asset.id).Nodup ∧
      ∀ a ∈ new, a.Follows db := by
  obtain ⟨rows, hrows, hexec⟩ := bind_eq_ok.mp hexec
  obtain ⟨_, _, hexec⟩ := bind_eq_ok.mp hexec
  cases hexec
  obtain ⟨rfl, hkeys, haccepts⟩ := insertRows_ok h.assetKeys hrows
  exact ⟨rfl, hkeys, fun a ha => admitAsset_ok (haccepts a ha)⟩

/-- What an accepted UPDATE of `assets` leaves.  A new row passed the trigger, or
has the record and the tenant of the old one. -/
theorem exec_updateAssets (h : Keyed db) {hits : AssetHits}
    (hexec : exec db uid (.updateAssets hits) = .ok db') :
    ∃ rows, db' = { db with assets := rows } ∧
      Updated Asset.id db.assets rows
        (hits.touching db.assets fun a => mayEdit db uid a.tenantId) ∧
      ∀ p ∈ hits.touching db.assets fun a => mayEdit db uid a.tenantId,
        p.1 ∈ db.assets ∧ (p.2.Follows db ∨
          (p.2.tenantId = p.1.tenantId ∧ p.2.recordId = p.1.recordId)) := by
  obtain ⟨rows, hrows, hexec⟩ := bind_eq_ok.mp hexec
  obtain ⟨_, _, hexec⟩ := bind_eq_ok.mp hexec
  obtain ⟨_, _, hexec⟩ := bind_eq_ok.mp hexec
  cases hexec
  obtain ⟨hupdated, haccepts⟩ := updateRows_ok h.assetKeys
    (fun p hp => (mem_touching.mp hp).2.1) touching_once hrows
  refine ⟨rows, rfl, hupdated, fun p hp => ?_⟩
  obtain ⟨hpair, hold, -⟩ := mem_touching.mp hp
  refine ⟨hold, ?_⟩
  have haccept := haccepts p hp
  cases hsets : hits.setsTenantOrRecord with
  | true =>
    rw [hsets] at haccept
    exact .inl (admitAsset_ok haccept)
  | false => exact .inr (hits.stays hsets p hpair)

/-- What an accepted upsert of `assets` leaves: each row was there, or passed the trigger, or
has the record and the tenant of one that was there. -/
theorem exec_upsertAssets (h : Keyed db) {new : AssetUpserts}
    (hexec : exec db uid (.upsertAssets new) = .ok db') :
    ∃ rows, db' = { db with assets := rows } ∧ (rows.map Asset.id).Nodup ∧
      ∀ a ∈ rows, a.Follows db ∨
        ∃ old ∈ db.assets, a.tenantId = old.tenantId ∧ a.recordId = old.recordId := by
  obtain ⟨rows, hrows, hexec⟩ := bind_eq_ok.mp hexec
  obtain ⟨_, _, hexec⟩ := bind_eq_ok.mp hexec
  cases hexec
  obtain ⟨hupserted, haccepts, hmerges⟩ := upsertRows_ok h.assetKeys new.once new.keeps hrows
  refine ⟨rows, rfl, hupserted.keys, fun a ha => ?_⟩
  obtain hold | ⟨p, hp, rfl, -⟩ | ⟨p, hp, old, hconflict⟩ := hupserted.origin a ha
  · exact .inr ⟨a, hold, rfl, rfl⟩
  · exact .inl (admitAsset_ok (haccepts p hp))
  · cases hsets : new.setsTenantOrRecord with
    | true =>
      have haccept := (hmerges p hp old a hconflict).2
      rw [hsets] at haccept
      exact .inl (admitAsset_ok haccept)
    | false => exact .inr ⟨old, hconflict.1, new.stays hsets p hp old a hconflict.2.2⟩

/-- What an accepted statement does to the records and the assets. -/
inductive Effect (db : Db) (uid : Uuid) : Statement → Db → Prop
  | quiet (s : Statement) (db' : Db) (hrecords : db'.records = db.records)
      (hassets : db'.assets = db.assets) : Effect db uid s db'
  | recordsAdded (new : List Record) (hkeys : ((db.records ++ new).map Record.id).Nodup) :
      Effect db uid (.insertRecords new) { db with records := db.records ++ new }
  | recordsUpdated (hits : Hits Record) (rows : List Record)
      (hupdated : Updated Record.id db.records rows
        (hits.touching db.records fun r => mayEdit db uid r.tenantId))
      (hrefs : ∀ a ∈ db.assets, a.recordId ∈ rows.map Record.id) :
      Effect db uid (.updateRecords hits) { db with records := rows }
  | recordsDeleted (s : Statement) (gone : Record → Bool) :
      Effect db uid s (db.deleteRecords gone)
  | assetsAdded (new : List Asset) (hkeys : ((db.assets ++ new).map Asset.id).Nodup)
      (hfollow : ∀ a ∈ new, a.Follows db) :
      Effect db uid (.insertAssets new) { db with assets := db.assets ++ new }
  | assetsUpdated (hits : AssetHits) (rows : List Asset)
      (hupdated : Updated Asset.id db.assets rows
        (hits.touching db.assets fun a => mayEdit db uid a.tenantId))
      (hfollow : ∀ p ∈ hits.touching db.assets fun a => mayEdit db uid a.tenantId,
        p.1 ∈ db.assets ∧ (p.2.Follows db ∨
          (p.2.tenantId = p.1.tenantId ∧ p.2.recordId = p.1.recordId))) :
      Effect db uid (.updateAssets hits) { db with assets := rows }
  | assetsDeleted (s : Statement) (gone : Asset → Bool) : Effect db uid s (db.deleteAssets gone)
  | recordsUpserted (new : Upserts Record.id) (rows : List Record)
      (hupserted : Upserted Record.id db.records rows new.proposals) :
      Effect db uid (.upsertRecords new) { db with records := rows }
  | assetsUpserted (new : AssetUpserts) (rows : List Asset) (hkeys : (rows.map Asset.id).Nodup)
      (hfollow : ∀ a ∈ rows, a.Follows db ∨
        ∃ old ∈ db.assets, a.tenantId = old.tenantId ∧ a.recordId = old.recordId) :
      Effect db uid (.upsertAssets new) { db with assets := rows }

theorem exec_effect (h : Keyed db) {s : Statement} (hexec : exec db uid s = .ok db') :
    Effect db uid s db' := by
  cases s with
  | insertRecords new =>
    obtain ⟨rfl, hkeys⟩ := exec_insertRecords h hexec
    exact .recordsAdded new hkeys
  | updateRecords hits =>
    obtain ⟨rows, rfl, hupdated, hrefs⟩ := exec_updateRecords h hexec
    exact .recordsUpdated hits rows hupdated hrefs
  | deleteRecords which =>
    cases hexec
    exact .recordsDeleted _ _
  | insertAssets new =>
    obtain ⟨rfl, hkeys, hfollow⟩ := exec_insertAssets h hexec
    exact .assetsAdded new hkeys hfollow
  | updateAssets hits =>
    obtain ⟨rows, rfl, hupdated, hfollow⟩ := exec_updateAssets h hexec
    exact .assetsUpdated hits rows hupdated hfollow
  | deleteAssets which =>
    cases hexec
    exact .assetsDeleted _ _
  | insertTenants new =>
    obtain ⟨_, _, hexec⟩ := bind_eq_ok.mp hexec
    cases hexec
    exact .quiet _ _ rfl rfl
  | upsertRecords new =>
    obtain ⟨rows, rfl, hupserted⟩ := exec_upsertRecords h hexec
    exact .recordsUpserted new rows hupserted
  | upsertAssets new =>
    obtain ⟨rows, rfl, hkeys, hfollow⟩ := exec_upsertAssets h hexec
    exact .assetsUpserted new rows hkeys hfollow
  | insertMemberships _ | updateMemberships _ | insertChunks _ | updateChunks _
  | upsertMemberships _ | upsertChunks _ =>
    obtain ⟨_, _, hexec⟩ := bind_eq_ok.mp hexec
    obtain ⟨_, _, hexec⟩ := bind_eq_ok.mp hexec
    cases hexec
    exact .quiet _ _ rfl rfl
  | updateTenants _ | deleteTenants _ | deleteMemberships _ | deleteChunks _ =>
    cases hexec
    exact .quiet _ _ rfl rfl

/-! ## What a statement keeps -/

theorem Keyed.of_eq (h : Keyed db) (hrecords : db'.records = db.records)
    (hassets : db'.assets = db.assets) : Keyed db' :=
  ⟨hrecords ▸ h.recordKeys, hassets ▸ h.assetKeys⟩

theorem Keyed.of_effect (h : Keyed db) {s : Statement} (heffect : Effect db uid s db') :
    Keyed db' := by
  cases heffect with
  | quiet s db' hrecords hassets => exact h.of_eq hrecords hassets
  | recordsAdded new hkeys => exact ⟨hkeys, h.assetKeys⟩
  | recordsUpdated hits rows hupdated hrefs => exact ⟨hupdated.keys, h.assetKeys⟩
  | recordsDeleted s gone =>
    exact ⟨h.recordKeys.sublist (List.filter_sublist.map _),
      h.assetKeys.sublist (List.filter_sublist.map _)⟩
  | assetsAdded new hkeys hfollow => exact ⟨h.recordKeys, hkeys⟩
  | assetsUpdated hits rows hupdated hfollow => exact ⟨h.recordKeys, hupdated.keys⟩
  | assetsDeleted s gone => exact ⟨h.recordKeys, h.assetKeys.sublist (List.filter_sublist.map _)⟩
  | recordsUpserted new rows hupserted => exact ⟨hupserted.keys, h.assetKeys⟩
  | assetsUpserted new rows hkeys hfollow => exact ⟨h.recordKeys, hkeys⟩

theorem AssetsFollowRecords.of_eq (h : AssetsFollowRecords db)
    (hrecords : db'.records = db.records) (hassets : db'.assets = db.assets) :
    AssetsFollowRecords db' := by
  intro a ha
  rw [hassets] at ha
  rw [hrecords]
  exact h a ha

/-- An asset goes on following a record that is not deleted. -/
theorem Asset.Follows.deleteRecords {a : Asset} {gone : Record → Bool} (h : a.Follows db)
    (hkept : a.recordId ∉ (db.records.filter gone).map (·.id)) :
    a.Follows (db.deleteRecords gone) := by
  obtain ⟨r, hr, hid, htenant⟩ := h
  refine ⟨r, List.mem_filter.mpr ⟨hr, ?_⟩, hid, htenant⟩
  rw [Bool.not_eq_true', Bool.eq_false_iff]
  intro hgone
  exact hkept (hid ▸ List.mem_map_of_mem (List.mem_filter.mpr ⟨hr, hgone⟩))

theorem AssetsFollowRecords.of_effect (h : AssetsFollowRecords db) (hkeyed : Keyed db)
    {s : Statement} (heffect : Effect db uid s db') (hkeeps : KeepsTenants db uid s) :
    AssetsFollowRecords db' := by
  cases heffect with
  | quiet s db' hrecords hassets => exact h.of_eq hrecords hassets
  | recordsAdded new hkeys =>
    intro a ha
    obtain ⟨r, hr, hid, htenant⟩ := h a ha
    exact ⟨r, List.mem_append_left _ hr, hid, htenant⟩
  | recordsUpdated hits rows hupdated hrefs =>
    intro a ha
    obtain ⟨r, hr, hid⟩ := List.mem_map.mp (hrefs a ha)
    refine ⟨r, hr, hid, ?_⟩
    obtain ⟨hold, -⟩ | ⟨p, hp, rfl⟩ := hupdated.origin r hr
    · exact hkeyed.tenant_eq (h a ha) hold hid
    · exact hkeeps p hp a ha hid.symm
  | recordsDeleted s gone =>
    intro a ha
    obtain ⟨ha, hkept⟩ := List.mem_filter.mp ha
    rw [Bool.not_eq_true', decide_eq_false_iff_not] at hkept
    exact Asset.Follows.deleteRecords (h a ha) hkept
  | assetsAdded new hkeys hfollow =>
    intro a ha
    rcases List.mem_append.mp ha with ha | ha
    · exact h a ha
    · exact hfollow a ha
  | assetsUpdated hits rows hupdated hfollow =>
    intro a ha
    obtain ⟨ha, -⟩ | ⟨p, hp, rfl⟩ := hupdated.origin a ha
    · exact h a ha
    · obtain ⟨hold, hchecked | ⟨htenant, hrecord⟩⟩ := hfollow p hp
      · exact hchecked
      · rw [htenant, hrecord]
        exact h p.1 hold
  | assetsDeleted s gone => exact fun a ha => h a (List.mem_filter.mp ha).1
  | recordsUpserted new rows hupserted =>
    intro a ha
    obtain ⟨r, hr, hid, -⟩ := h a ha
    obtain ⟨r', hr', hid'⟩ := List.mem_map.mp (hupserted.held r hr)
    have hid' : r'.id = a.recordId := hid'.trans hid
    refine ⟨r', hr', hid', ?_⟩
    obtain hold | ⟨p, -, rfl, hfresh⟩ | ⟨p, hp, old, hconflict⟩ := hupserted.origin r' hr'
    · exact hkeyed.tenant_eq (h a ha) hold hid'
    · exact absurd (hid'.trans hid.symm ▸ List.mem_map_of_mem hr) hfresh
    · exact hkeeps p hp old r' hconflict a ha hid'.symm
  | assetsUpserted new rows hkeys hfollow =>
    intro a ha
    obtain hchecked | ⟨old, hold, htenant, hrecord⟩ := hfollow a ha
    · exact hchecked
    · rw [htenant, hrecord]
      exact h old hold

/-- An accepted statement that does not keep the tenants breaks the law. -/
theorem not_follow_of_not_keepsTenants (h : Keyed db) {s : Statement}
    (hexec : exec db uid s = .ok db') (hbreaks : ¬ KeepsTenants db uid s) :
    ¬ AssetsFollowRecords db' := by
  cases s with
  | updateRecords hits =>
    obtain ⟨rows, rfl, hupdated, -⟩ := exec_updateRecords h hexec
    intro hlaw
    refine hbreaks fun p hp a ha hid => ?_
    obtain ⟨r, hr, hrid, htenant⟩ := hlaw a ha
    have hsame : p.2 = r :=
      eq_of_key_eq hupdated.keys (hupdated.written p hp) hr (hid.symm.trans hrid.symm)
    rw [hsame]
    exact htenant
  | upsertRecords new =>
    obtain ⟨rows, rfl, hupserted⟩ := exec_upsertRecords h hexec
    intro hlaw
    refine hbreaks fun p hp old merged hconflict a ha hid => ?_
    obtain ⟨r, hr, hrid, htenant⟩ := hlaw a ha
    have hsame : merged = r := eq_of_key_eq hupserted.keys (hupserted.written p hp old merged hconflict)
      hr (hid.symm.trans hrid.symm)
    rw [hsame]
    exact htenant
  | _ => exact absurd trivial hbreaks

end Statements

/-! ## Runs -/

section Runs

variable {db : Db}

/-- An event does what its statement does, or is quiet. -/
theorem step_cases (h : Keyed db) (e : Event) :
    ((step db e).records = db.records ∧ (step db e).assets = db.assets) ∨
      ∃ uid s, e = .statement uid s ∧ exec db uid s = .ok (step db e) ∧
        Effect db uid s (step db e) := by
  unfold step
  cases happly : apply db e with
  | error refusal => exact .inl ⟨rfl, rfl⟩
  | ok db' =>
    cases e with
    | signUp uid | createTenant t =>
      obtain ⟨_, _, happly⟩ := bind_eq_ok.mp happly
      cases happly
      exact .inl ⟨rfl, rfl⟩
    | createMembership m =>
      obtain ⟨_, _, happly⟩ := bind_eq_ok.mp happly
      obtain ⟨_, _, happly⟩ := bind_eq_ok.mp happly
      cases happly
      exact .inl ⟨rfl, rfl⟩
    | statement uid s => exact .inr ⟨uid, s, rfl, happly, exec_effect h happly⟩

theorem Keyed.step (h : Keyed db) (e : Event) : Keyed (Catalogue.step db e) := by
  obtain ⟨hrecords, hassets⟩ | ⟨uid, s, -, -, heffect⟩ := step_cases h e
  · exact h.of_eq hrecords hassets
  · exact h.of_effect heffect

theorem AssetsFollowRecords.step (h : AssetsFollowRecords db) (hkeyed : Keyed db) {e : Event}
    (hkeeps : e.KeepsTenants db) : AssetsFollowRecords (Catalogue.step db e) := by
  obtain ⟨hrecords, hassets⟩ | ⟨uid, s, rfl, -, heffect⟩ := step_cases hkeyed e
  · exact h.of_eq hrecords hassets
  · exact h.of_effect hkeyed heffect hkeeps

theorem Keyed.empty : Keyed Db.empty := ⟨List.nodup_nil, List.nodup_nil⟩

/-- The primary keys hold throughout every run. -/
theorem Keyed.states (h : Keyed db) (events : List Event) :
    ∀ db' ∈ Catalogue.states db events, Keyed db' := by
  induction events generalizing db with
  | nil =>
    intro db' hdb'
    cases List.mem_singleton.mp hdb'
    exact h
  | cons e rest ih =>
    intro db' hdb'
    rcases List.mem_cons.mp hdb' with rfl | hrest
    · exact h
    · exact ih (h.step e) db' hrest

theorem AssetsFollowRecords.states (h : AssetsFollowRecords db) (hkeyed : Keyed db)
    {events : List Event} (hkeeps : AllKeepTenants db events) :
    ∀ db' ∈ Catalogue.states db events, AssetsFollowRecords db' := by
  induction events generalizing db with
  | nil =>
    intro db' hdb'
    cases List.mem_singleton.mp hdb'
    exact h
  | cons e rest ih =>
    intro db' hdb'
    rcases List.mem_cons.mp hdb' with rfl | hrest
    · exact h
    · exact ih (h.step hkeyed hkeeps.1) (hkeyed.step e) hkeeps.2 db' hrest

end Runs

/-- **An asset belongs to its record's tenant as long as no record is moved away
from it.**  In every run whose updates of `records`, upserts among them, leave each asset's tenant
under the id it refers to, every state keeps the law; and in any reachable state
an accepted statement that does not leave it breaks the law. -/
theorem assets_follow_records (events : List Event) :
    (AllKeepTenants Db.empty events →
      ∀ db ∈ states Db.empty events, AssetsFollowRecords db) ∧
    ∀ db ∈ states Db.empty events, ∀ uid s db', exec db uid s = .ok db' →
      ¬ KeepsTenants db uid s → ¬ AssetsFollowRecords db' := by
  refine ⟨fun hkeeps => ?_, fun db hdb uid s db' hexec hbreaks => ?_⟩
  · have hempty : AssetsFollowRecords Db.empty := fun a ha => absurd ha List.not_mem_nil
    exact hempty.states Keyed.empty hkeeps
  · exact not_follow_of_not_keepsTenants (Keyed.empty.states events db hdb) hexec hbreaks

/-! ## A record moved between two tenants -/

namespace Moved

def first : Uuid := ⟨"aaaaaaaa-aaaa-4aaa-8aaa-aaaaaaaaaaaa", by decide⟩
def second : Uuid := ⟨"bbbbbbbb-bbbb-4bbb-8bbb-bbbbbbbbbbbb", by decide⟩
def editor : Uuid := ⟨"cccccccc-cccc-4ccc-8ccc-cccccccccccc", by decide⟩

def record : Record where
  id := ⟨"dddddddd-dddd-4ddd-8ddd-dddddddddddd", by decide⟩
  tenantId := first
  title := "scan"
  createdBy := some editor
  status := "active"

def asset : Asset where
  id := ⟨"eeeeeeee-eeee-4eee-8eee-eeeeeeeeeeee", by decide⟩
  recordId := record.id
  tenantId := first
  objectKey := "aaaaaaaa-aaaa-4aaa-8aaa-aaaaaaaaaaaa/eeeeeeee-eeee-4eee-8eee-eeeeeeeeeeee/data"
  plaintextSize := 5
  chunkSize := 2
  chunkCount := 3
  ciphertextSize := 53
  cipher := "aes-256-gcm"
  uploadState := "pending"
  uploadMethod := some "s3-multipart"

/-- One editor of two tenants, with a record and an asset in the first. -/
def setup : List Event :=
  [.signUp editor, .createTenant ⟨first, "first", "eu"⟩, .createTenant ⟨second, "second", "eu"⟩,
    .createMembership ⟨first, editor, .editor⟩, .createMembership ⟨second, editor, .editor⟩,
    .statement editor (.insertRecords [record]), .statement editor (.insertAssets [asset])]

def move : Statement :=
  .updateRecords ⟨[(record, { record with tenantId := second })], List.nodup_singleton _⟩

/-- The catalogue after `setup`. -/
def before : Db := setup.foldl step Db.empty

theorem foldl_mem_states (events : List Event) (db : Db) :
    events.foldl step db ∈ states db events := by
  induction events generalizing db with
  | nil => exact List.mem_singleton_self _
  | cons e rest ih => exact List.mem_cons_of_mem _ (ih _)

end Moved

open Moved in
theorem assets_need_not_follow_records :
    ¬ ∀ events, ∀ db ∈ states Db.empty events, AssetsFollowRecords db := by
  intro h
  have hmoved : ¬ AssetsFollowRecords ((setup ++ [Event.statement editor move]).foldl step Db.empty) := by
    decide +kernel
  exact hmoved (h _ _ (foldl_mem_states _ _))

open Moved in
/-- The law holds with the asset there, and the move, which is accepted, ends it. -/
theorem assets_follow_records_moved :
    before.assets = [asset] ∧ AssetsFollowRecords before ∧
      ¬ AssetsFollowRecords { before with records := [{ record with tenantId := second }] } := by
  have hkeeps : AllKeepTenants Db.empty setup :=
    ⟨trivial, trivial, trivial, trivial, trivial, trivial, trivial, trivial⟩
  have hassets : before.assets = [asset] := by decide +kernel
  refine ⟨hassets, (assets_follow_records setup).1 hkeeps _ (foldl_mem_states _ _), ?_⟩
  have hexec : exec before editor move =
      .ok { before with records := [{ record with tenantId := second }] } := by
    decide +kernel
  refine (assets_follow_records setup).2 before (foldl_mem_states _ _) editor move _ hexec ?_
  intro h
  exact absurd (h (record, { record with tenantId := second }) (by decide +kernel) asset
    (by rw [hassets]; exact List.mem_cons_self) rfl) (by decide +kernel)

end SupabaseLab.Catalogue
