/-
  StarterKit/Notify.lean --- one event for each decision.

  Source: `private.notify_purchase_decision` and its trigger, in
  experiments/governed-starter-kit/sql/30-integrations.sql.

  The trigger runs after a statement that names the status, once for each row that
  went from pending to decided.  `net.http_post` puts a row into the queue of the
  same transaction; when it raises, or a secret is missing, the trigger logs a
  warning and returns.
-/
import SupabaseLab.StarterKit.Requests

set_option autoImplicit false

namespace SupabaseLab.StarterKit

open Library

/-! ## The trigger -/

/-- The secrets `webhook_sink_url` and `webhook_sink_secret`. -/
structure Vault where
  url : Option String := none
  secret : Option String := none
  deriving DecidableEq

/-- The `jsonb_build_object` of the trigger; its `event` is a constant. -/
structure DecisionBody where
  eventId : String
  requestId : Uuid
  status : Status
  item : String
  vendor : String
  amount : Amount
  department : Option String
  decidedBy : Option Uuid
  decidedByName : Option String
  decidedAt : Option Int
  decisionNote : Option String
  deriving DecidableEq

/-- A row of `net.http_request_queue`; the secret is its x-webhook-secret. -/
structure Post where
  url : String
  secret : String
  body : DecisionBody
  deriving DecidableEq

def eventIdOf (id : Uuid) (status : Status) : String := id.text ++ ":" ++ status.text

/-- `private.notify_purchase_decision()` on one row: what it queues; `none` when it
logs a warning.  `posts` says whether `net.http_post` goes through. -/
def notifyPurchaseDecision (deps : Departments) (db : AppDb) (vault : Vault) (posts : Uuid → Bool)
    (u : RowUpdate Uuid PurchaseRequest) : Option Post := do
  let url ← vault.url
  let secret ← vault.secret
  if posts u.key then
    some {
      url
      secret
      body := {
        eventId := eventIdOf u.key u.new.status
        requestId := u.key
        status := u.new.status
        item := u.new.item
        vendor := u.new.vendor
        amount := u.new.amount
        department := (deps.rows.find? fun d => d.id = u.new.departmentId).map Department.name
        decidedBy := u.new.decidedBy
        decidedByName :=
          (u.new.decidedBy.bind db.base.profiles.get?).map Profile.displayName
        decidedAt := u.new.decidedAt
        decisionNote := u.new.decisionNote } }
  else none

/-- The rows that `on_purchase_request_decided` fires for. -/
def Effect.fired (effect : Effect) : List (RowUpdate Uuid PurchaseRequest) :=
  if .status ∈ effect.columns then
    effect.updated.filter fun u =>
      u.old.status = .pending && (u.new.status = .approved || u.new.status = .rejected)
  else []

/-! ## Transactions -/

/-- A decision, with what its trigger found. -/
structure Decision where
  id : Uuid
  vault : Vault
  posted : Bool
  deriving DecidableEq

/-- Both secrets were there, and `net.http_post` went through. -/
def Decision.sendable (d : Decision) : Bool :=
  d.vault.url.isSome && d.vault.secret.isSome && d.posted

/-- The tables, all posts that were queued, and the decisions that were made. -/
structure Sender where
  app : AppDb := {}
  queue : List Post := []
  decisions : List Decision := []

/-- A statement, and for which rows `net.http_post` would go through. -/
structure Issued where
  stmt : AppStatement
  posts : Uuid → Bool

def issue (deps : Departments) (vault : Vault) (s : Sender) (i : Issued) : Except SqlError Sender := do
  let effect ← i.stmt.run deps s.app
  return {
    app := effect.db
    queue := s.queue ++
      effect.fired.filterMap (notifyPurchaseDecision deps effect.db vault i.posts)
    decisions := s.decisions ++ effect.fired.map fun u => ⟨u.key, vault, i.posts u.key⟩ }

/-- The statements of a transaction; an error undoes all of them. -/
def transaction (deps : Departments) (vault : Vault) (issued : List Issued) (s : Sender) :
    Except SqlError Sender :=
  issued.foldlM (issue deps vault) s

/-- The same statements, with no trigger. -/
def statements (deps : Departments) (issued : List Issued) (app : AppDb) : Except SqlError AppDb :=
  issued.foldlM (fun app i => do
    let effect ← i.stmt.run deps app
    return effect.db) app

/-! ## One event for each decision -/

/-- The event says what the row says. -/
def DecisionBody.Of (body : DecisionBody) (r : PurchaseRequest) : Prop :=
  body.eventId = eventIdOf body.requestId r.status ∧ body.status = r.status ∧
    body.item = r.item ∧ body.vendor = r.vendor ∧ body.amount = r.amount ∧
    body.decidedBy = r.decidedBy ∧ body.decidedAt = r.decidedAt ∧ body.decisionNote = r.decisionNote

/-- The decisions are those of the decided rows, each once; and the queue holds, in
their order, one event for each that could be sent. -/
structure Booked (s : Sender) : Prop where
  once : (s.decisions.map Decision.id).Nodup
  decided : ∀ id, id ∈ s.decisions.map Decision.id ↔
    ∃ r, s.app.requests.get? id = some r ∧ r.status ≠ .pending
  sent : s.queue.map (fun p => p.body.requestId) =
    (s.decisions.filter Decision.sendable).map Decision.id
  bodies : ∀ p ∈ s.queue, ∃ r, s.app.requests.get? p.body.requestId = some r ∧
    r.status ≠ .pending ∧ p.body.Of r

section Notify

variable {deps : Departments} {vault : Vault} {s s' : Sender} {i : Issued} {effect : Effect}
  {uid : Uuid} {db : AppDb} {posts : Uuid → Bool} {us : List (RowUpdate Uuid PurchaseRequest)}

/-- The rows fired for are the rows that were decided. -/
theorem ByUser.fired (h : ByUser db uid effect) : effect.fired = effect.updated := by
  unfold Effect.fired
  by_cases hempty : effect.updated = []
  · rw [hempty, List.filter_nil, ite_self]
  · rw [if_pos (h.named hempty), List.filter_eq_self]
    intro u hu
    obtain ⟨-, -, hdecided⟩ := h.changes.updated u hu
    rw [Bool.and_eq_true, Bool.or_eq_true, decide_eq_true_eq, decide_eq_true_eq, decide_eq_true_eq]
    exact ⟨hdecided.pending, hdecided.decided⟩

theorem fired_of_no_updates (h : effect.updated = []) : effect.fired = [] := by
  unfold Effect.fired
  rw [h, List.filter_nil, ite_self]

/-- The trigger queues an event exactly for a decision that can be sent. -/
theorem notify_isSome (u : RowUpdate Uuid PurchaseRequest) :
    (notifyPurchaseDecision deps db vault posts u).isSome =
      Decision.sendable ⟨u.key, vault, posts u.key⟩ := by
  obtain ⟨url, secret⟩ := vault
  unfold notifyPurchaseDecision Decision.sendable
  cases url with
  | none => rfl
  | some url =>
    cases secret with
    | none => rfl
    | some secret =>
      cases posts u.key with
      | true => simp
      | false => simp

theorem notify_body {u : RowUpdate Uuid PurchaseRequest} {p : Post}
    (h : notifyPurchaseDecision deps db vault posts u = some p) :
    p.body.requestId = u.key ∧ p.body.Of u.new := by
  unfold notifyPurchaseDecision at h
  obtain ⟨url, -, h⟩ := Option.bind_eq_some_iff.mp h
  obtain ⟨secret, -, h⟩ := Option.bind_eq_some_iff.mp h
  split at h
  · cases h
    exact ⟨rfl, rfl, rfl, rfl, rfl, rfl, rfl, rfl, rfl⟩
  · cases h

theorem notify_sent :
    (us.filterMap (notifyPurchaseDecision deps db vault posts)).map (fun p => p.body.requestId) =
      ((us.map fun u => (⟨u.key, vault, posts u.key⟩ : Decision)).filter Decision.sendable).map
        Decision.id := by
  induction us with
  | nil => rfl
  | cons u us ih =>
    have hsome := @notify_isSome deps vault db posts u
    rw [List.map_cons, List.filter_cons]
    cases hnotify : notifyPurchaseDecision deps db vault posts u with
    | none =>
      rw [hnotify] at hsome
      rw [List.filterMap_cons_none hnotify, ← hsome]
      exact ih
    | some p =>
      rw [hnotify] at hsome
      rw [List.filterMap_cons_some hnotify, ← hsome, List.map_cons, ih, (notify_body hnotify).1]
      rfl

/-- A statement of a user adds its decisions, none of them made before. -/
theorem issue_user (huser : i.stmt.user = some uid) (h : issue deps vault s i = .ok s') :
    ∃ effect, i.stmt.run deps s.app = .ok effect ∧ s'.app = effect.db ∧
      Changes s.app.base uid s.app.requests s'.app.requests effect.updated ∧
      s'.queue = s.queue ++
        effect.updated.filterMap (notifyPurchaseDecision deps effect.db vault i.posts) ∧
      s'.decisions = s.decisions ++ effect.updated.map fun u => ⟨u.key, vault, i.posts u.key⟩ := by
  obtain ⟨effect, hrun, h⟩ := bind_eq_ok.mp h
  cases h
  have hby := run_user huser hrun
  exact ⟨effect, hrun, rfl, hby.changes, by rw [hby.fired], by rw [hby.fired]⟩

/-- A decided row is not updated, so it keeps its event. -/
theorem Changes.decided_kept {base : Db} {uid : Uuid} {before after : KeyMap Uuid PurchaseRequest}
    {us : List (RowUpdate Uuid PurchaseRequest)} (h : Changes base uid before after us) {id : Uuid}
    {r : PurchaseRequest} (hr : before.get? id = some r) (hdecided : r.status ≠ .pending) :
    id ∉ us.map RowUpdate.key ∧ after.get? id = some r := by
  have hid : id ∉ us.map RowUpdate.key := by
    intro hmem
    obtain ⟨u, hu, rfl⟩ := List.mem_map.mp hmem
    obtain ⟨hold, -, hu⟩ := h.updated u hu
    rw [hr] at hold
    cases hold
    exact hdecided hu.pending
  refine ⟨hid, ?_⟩
  obtain hsame | ⟨hnone, -⟩ := h.others id hid
  · rw [hsame, hr]
  · rw [hr] at hnone
    cases hnone

/-- A row that is updated is decided by it. -/
theorem Changes.updated_decided {base : Db} {uid : Uuid}
    {before after : KeyMap Uuid PurchaseRequest} {us : List (RowUpdate Uuid PurchaseRequest)}
    (h : Changes base uid before after us) {u : RowUpdate Uuid PurchaseRequest} (hu : u ∈ us) :
    after.get? u.key = some u.new ∧ u.new.status ≠ .pending := by
  obtain ⟨-, hget, hu⟩ := h.updated u hu
  refine ⟨hget, fun hpending => ?_⟩
  obtain hd | hd := hu.decided
  · rw [hd] at hpending
    cases hpending
  · rw [hd] at hpending
    cases hpending

theorem issue_booked (hs : Booked s) (h : issue deps vault s i = .ok s') : Booked s' := by
  cases huser : i.stmt.user with
  | none =>
    obtain ⟨effect, hrun, h⟩ := bind_eq_ok.mp h
    cases h
    obtain ⟨hsame, hnone⟩ := run_admin huser hrun
    have hfired := fired_of_no_updates hnone
    refine ⟨?_, ?_, ?_, ?_⟩
    · rw [hfired, List.map_nil, List.append_nil]
      exact hs.once
    · rw [hfired, List.map_nil, List.append_nil]
      dsimp only
      rw [hsame]
      exact hs.decided
    · rw [hfired, List.map_nil, List.filterMap_nil, List.append_nil, List.append_nil]
      exact hs.sent
    · rw [hfired, List.filterMap_nil, List.append_nil]
      dsimp only
      rw [hsame]
      exact hs.bodies
  | some uid =>
    obtain ⟨effect, hrun, happ, hchanges, hqueue, hdecisions⟩ := issue_user huser h
    have hids : s'.decisions.map Decision.id =
        s.decisions.map Decision.id ++ effect.updated.map RowUpdate.key := by
      rw [hdecisions, List.map_append, List.map_map]
      rfl
    refine ⟨?_, fun id => ?_, ?_, fun p hp => ?_⟩
    · rw [hids]
      refine List.nodup_append.mpr ⟨hs.once, hchanges.once, fun a ha b hb heq => ?_⟩
      obtain ⟨r, hr, hdecided⟩ := (hs.decided a).mp ha
      exact (hchanges.decided_kept hr hdecided).1 (heq ▸ hb)
    · rw [hids, List.mem_append]
      refine ⟨fun hmem => ?_, fun ⟨r, hr, hdecided⟩ => ?_⟩
      · obtain hold | hmem := hmem
        · obtain ⟨r, hr, hdecided⟩ := (hs.decided id).mp hold
          exact ⟨r, (hchanges.decided_kept hr hdecided).2, hdecided⟩
        · obtain ⟨u, hu, rfl⟩ := List.mem_map.mp hmem
          exact ⟨u.new, hchanges.updated_decided hu⟩
      · by_cases hid : id ∈ effect.updated.map RowUpdate.key
        · exact .inr hid
        · refine .inl ((hs.decided id).mpr ⟨r, ?_, hdecided⟩)
          obtain hsame | ⟨-, r', hr', hsubmitted⟩ := hchanges.others id hid
          · rw [← hsame]
            exact hr
          · rw [hr] at hr'
            cases hr'
            exact absurd hsubmitted.pending hdecided
    · rw [hqueue, hdecisions, List.map_append, List.filter_append, List.map_append, hs.sent,
        notify_sent]
    · rw [hqueue] at hp
      obtain hp | hp := List.mem_append.mp hp
      · obtain ⟨r, hr, hdecided, hof⟩ := hs.bodies p hp
        exact ⟨r, (hchanges.decided_kept hr hdecided).2, hdecided, hof⟩
      · obtain ⟨u, hu, hnotify⟩ := List.mem_filterMap.mp hp
        obtain ⟨hkey, hof⟩ := notify_body hnotify
        obtain ⟨hget, hdecided⟩ := hchanges.updated_decided hu
        rw [← hkey] at hget
        exact ⟨u.new, hget, hdecided, hof⟩

theorem transaction_booked {issued : List Issued} (hs : Booked s)
    (h : transaction deps vault issued s = .ok s') : Booked s' := by
  unfold transaction at h
  induction issued generalizing s with
  | nil =>
    cases h
    exact hs
  | cons i rest ih =>
    rw [List.foldlM_cons] at h
    obtain ⟨mid, hmid, h⟩ := bind_eq_ok.mp h
    exact ih (issue_booked hs hmid) h

/-- The trigger changes nothing about how a transaction ends and what it leaves in
the tables. -/
theorem transaction_app {issued : List Issued} :
    (transaction deps vault issued s).map Sender.app = statements deps issued s.app := by
  unfold transaction statements
  induction issued generalizing s with
  | nil => rfl
  | cons i rest ih =>
    rw [List.foldlM_cons, List.foldlM_cons]
    unfold issue
    cases i.stmt.run deps s.app with
    | error e => rfl
    | ok effect => exact ih

/-- An event id names its request. -/
theorem eventIdOf_injective {id id' : Uuid} {status status' : Status}
    (h : eventIdOf id status = eventIdOf id' status') : id = id' := by
  unfold eventIdOf at h
  have hlist := congrArg String.toList h
  rw [String.toList_append, String.toList_append, String.toList_append, String.toList_append,
    List.append_assoc, List.append_assoc] at hlist
  have hlen : id.text.toList.length = id'.text.toList.length := by
    rw [length_of_isUuid id.wellFormed, length_of_isUuid id'.wellFormed]
  have htext := String.toList_injective (List.append_inj_left hlist hlen)
  obtain ⟨text, hwf⟩ := id
  obtain ⟨text', hwf'⟩ := id'
  cases htext
  rfl

theorem Booked.eventIds (h : Booked s) : (s.queue.map fun p => p.body.eventId).Nodup := by
  have hrequests : (s.queue.map fun p => p.body.requestId).Nodup := by
    rw [h.sent]
    exact h.once.sublist (List.filter_sublist.map _)
  refine List.Nodup.map_on (fun p hp q hq heq => ?_) (List.Nodup.of_map _ hrequests)
  obtain ⟨r, -, -, hp'⟩ := h.bodies p hp
  obtain ⟨r', -, -, hq'⟩ := h.bodies q hq
  rw [hp'.1, hq'.1] at heq
  exact List.inj_on_of_nodup_map hrequests hp hq (eventIdOf_injective heq)

end Notify

end SupabaseLab.StarterKit
