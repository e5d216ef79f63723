/-
  StarterKit/Integrations.lean --- decisions told to another system.

  Source: the receipts and `record_webhook_receipt` of
  experiments/governed-starter-kit/sql/30-integrations.sql, and the handler of
  supabase/functions/webhook-sink/index.ts.

  The sink may be called by anyone, any number of times and at once.  A call runs up
  to its RPC, which is atomic; then the forward and the note on the receipt are
  steps of their own, and other calls and transactions may come between.
-/
import SupabaseLab.Library.Json
import SupabaseLab.StarterKit.Notify

set_option autoImplicit false

namespace SupabaseLab.StarterKit

open Library

/-! ## The event a call brings -/

/-- Whether a value counts as true. -/
def truthy : Json → Bool
  | .null => false
  | .bool b => b
  | .num text => text ≠ "0" && text ≠ "NaN"
  | .str s => s ≠ ""
  | .arr _ => true
  | .obj _ => true

def uuidOf? (s : String) : Option Uuid :=
  if h : isUuid s.toLower then some ⟨s.toLower, h⟩ else none

/-- What `parseEvent` has checked; the three values it leaves alone are as they came. -/
structure SinkEvent where
  eventId : String
  requestId : Uuid
  status : String
  department : String
  item : String
  vendor : String
  amount : Option Json
  decidedByName : Option Json
  decisionNote : Option Json

/-- `typeof e.key === "string"`. -/
def strAt? (fields : List (String × Json)) (key : String) : Option String :=
  match fields.lookup key with
  | some (.str s) => some s
  | _ => none

def parseEvent : Json → Option SinkEvent
  | .obj e => do
      let event ← strAt? e "event"
      if event ≠ "purchase_request.decided" then none
      let eventId ← strAt? e "event_id"
      let requestId ← (strAt? e "request_id").bind uuidOf?
      let status ← strAt? e "status"
      if status ≠ "approved" ∧ status ≠ "rejected" then none
      let department ← strAt? e "department"
      let item ← strAt? e "item"
      let vendor ← strAt? e "vendor"
      return {
        eventId
        requestId
        status
        department
        item
        vendor
        amount := e.lookup "amount"
        decidedByName := e.lookup "decided_by_name"
        decisionNote := e.lookup "decision_note" }
  | _ => none

/-- A part of the text that is there only for a value that counts as true; `none`
when the value cannot be turned into a text. -/
def partOf? (value : Option Json) (text : String → String) : Option String :=
  match value with
  | some v => if truthy v then (v.toText?).map text else some ""
  | none => some ""

/-- `forwardToSlack`, up to its fetch: `none` when it throws before the `try`, and the
text that is posted, unless that cannot be made. -/
def slackText (e : SinkEvent) : Option (Option String) := do
  let who ← partOf? e.decidedByName fun name => " by " ++ name
  let note ← partOf? e.decisionNote fun text => " - \"" ++ text ++ "\""
  return (((e.amount.map Json.toText?).getD (some "undefined")).map fun amount =>
    "Purchase request " ++ e.status ++ who ++ " (" ++ e.department ++ "): " ++ e.item ++ " from " ++
      e.vendor ++ ", " ++ amount ++ note)

/-! ## Receipts -/

/-- A row of `private.webhook_receipts`, without its event id. -/
structure Receipt where
  id : Nat
  requestId : Uuid
  status : String
  department : String
  deliveries : Nat
  forwarded : String
  deriving DecidableEq

/-- The receipts, and the next value of the identity column. -/
structure Receipts where
  rows : KeyMap String Receipt := .empty
  nextId : Nat := 1

/-- `public.record_webhook_receipt`: the receipts after it, with what it returns. -/
def recordWebhookReceipt (e : SinkEvent) (rs : Receipts) : Except SqlError (Receipts × Receipt) :=
  match rs.rows.get? e.eventId with
  | none =>
      let r := ⟨rs.nextId, e.requestId, e.status, e.department, 1, "not configured"⟩
      .ok (⟨rs.rows.set e.eventId r, rs.nextId + 1⟩, r)
  | some old => do
      refuseIf (2 ^ 31 ≤ old.deliveries + 1) .numericOverflow
      let r := { old with deliveries := old.deliveries + 1 }
      return (⟨rs.rows.set e.eventId r, rs.nextId + 1⟩, r)

/-- `public.note_webhook_forward`. -/
def noteWebhookForward (id : Nat) (forwarded : String) (rs : Receipts) : Receipts :=
  match rs.rows.entries.find? fun e => e.2.id = id with
  | some e => { rs with rows := rs.rows.set e.1 { e.2 with forwarded } }
  | none => rs

/-! ## The sink -/

/-- The environment of a call, as it stands when it is read. -/
structure SinkEnv where
  secret : Option String := none
  slack : Option String := none

/-- A request: its body is `none` when it does not parse. -/
structure SinkRequest where
  method : String
  secret : Option String
  length : Nat
  body : Option Json

def maxBody : Nat := 16 * 1024

/-- The handler up to its RPC: the status it refuses with, or the event.  The secrets
are compared by their hashes, which are taken to tell any two texts apart. -/
def accept (env : SinkEnv) (req : SinkRequest) : Except Nat SinkEvent := do
  refuseIf (req.method ≠ "POST") 405
  let expected ← orThrow (env.secret.filter fun s => s ≠ "") 503
  refuseIf (req.secret.getD "" ≠ expected) 401
  refuseIf (maxBody < req.length) 413
  orThrow (req.body.bind parseEvent) 400

/-- A call whose RPC has answered: what it answered, and whether the forward was tried. -/
structure SinkCall where
  event : SinkEvent
  id : Nat
  deliveries : Nat
  forwarding : Bool := false

/-- How the RPC of a call ends: its answer may be lost after the row is written. -/
inductive RpcOutcome where
  | answered
  | lost
  | failed

/-- The two sides.  `accepted` are the event ids of the deliveries that were recorded,
and `forwards` the texts that were posted, each with its event id. -/
structure Integration where
  sender : Sender := {}
  vault : Vault := {}
  receipts : Receipts := {}
  calls : List SinkCall := []
  accepted : List String := []
  forwards : List (String × String) := []

inductive IntegrationEvent where
  /-- A transaction that commits, unless a statement of it fails. -/
  | transaction (issued : List Issued)
  | setVault (vault : Vault)
  /-- A call comes in, and its RPC runs; without an answer the call is over. -/
  | delivery (env : SinkEnv) (req : SinkRequest) (outcome : RpcOutcome)
  /-- A call goes on after its RPC. -/
  | forward (call : Nat) (env : SinkEnv)
  /-- The forward is over, and its outcome is noted. -/
  | note (call : Nat) (outcome : String)

def integrationStep (deps : Departments) (s : Integration) : IntegrationEvent → Option Integration
  | .transaction issued =>
      match StarterKit.transaction deps s.vault issued s.sender with
      | .ok sender => some { s with sender }
      | .error _ => some s
  | .setVault vault => some { s with vault }
  | .delivery env req outcome =>
      match accept env req, outcome with
      | .error _, _ => some s
      | .ok _, .failed => some s
      | .ok e, outcome =>
          match recordWebhookReceipt e s.receipts with
          | .error _ => some s
          | .ok (receipts, r) => some { s with
              receipts
              accepted := s.accepted ++ [e.eventId]
              calls := match outcome with
                | .answered => s.calls ++ [⟨e, r.id, r.deliveries, false⟩]
                | _ => s.calls }
  | .forward call env =>
      match s.calls[call]? with
      | some c =>
          if c.forwarding then none
          else if (env.slack.filter fun url => url ≠ "").isSome ∧ c.deliveries = 1 then
            match slackText c.event with
            | none => some { s with calls := s.calls.eraseIdx call }
            | some text => some { s with
                forwards := s.forwards ++ text.toList.map fun t => (c.event.eventId, t)
                calls := s.calls.set call { c with forwarding := true } }
          else some { s with calls := s.calls.eraseIdx call }
      | none => none
  | .note call outcome =>
      match s.calls[call]? with
      | some c =>
          if c.forwarding then
            some { s with
              receipts := noteWebhookForward c.id outcome s.receipts
              calls := s.calls.eraseIdx call }
          else none
      | none => none

/-! ## Each event is recorded and forwarded once -/

/-- A call that may still forward its event. -/
def SinkCall.untold (c : SinkCall) : Bool := !c.forwarding && c.deliveries = 1

/-- The event ids that were forwarded, or may be. -/
def Integration.told (s : Integration) : List String :=
  (s.calls.filter SinkCall.untold).map (fun c => c.event.eventId) ++ s.forwards.map Prod.fst

/-- There is a receipt for each event id that was accepted, with the number of its
deliveries; and no event id has two calls that forward it. -/
structure Recorded (s : Integration) : Prop where
  counted : ∀ eid r, s.receipts.rows.get? eid = some r → r.deliveries = s.accepted.count eid
  present : ∀ eid, (s.receipts.rows.get? eid).isSome ↔ eid ∈ s.accepted
  once : s.told.Nodup
  known : ∀ eid ∈ s.told, eid ∈ s.accepted

section Sink

variable {deps : Departments} {s s' : Integration} {e : SinkEvent} {rs rs' : Receipts} {r : Receipt}

theorem record_ok (h : recordWebhookReceipt e rs = .ok (rs', r)) :
    rs'.rows = rs.rows.set e.eventId r ∧
      r.deliveries = ((rs.rows.get? e.eventId).map Receipt.deliveries).getD 0 + 1 := by
  unfold recordWebhookReceipt at h
  split at h
  · rename_i hnone
    cases h
    rw [hnone]
    exact ⟨rfl, rfl⟩
  · rename_i old hold
    obtain ⟨_, -, h⟩ := bind_eq_ok.mp h
    cases h
    rw [hold]
    exact ⟨rfl, rfl⟩

/-- A note leaves the receipts and their counts. -/
theorem noteWebhookForward_get? (id : Nat) (forwarded : String) (rs : Receipts) (eid : String) :
    ((noteWebhookForward id forwarded rs).rows.get? eid).map Receipt.deliveries =
      (rs.rows.get? eid).map Receipt.deliveries := by
  unfold noteWebhookForward
  split
  · rename_i e hfind
    have hmem := List.mem_of_find?_eq_some hfind
    have hget : rs.rows.get? e.1 = some e.2 := KeyMap.mem_entries.mp hmem
    dsimp only
    rw [KeyMap.get?_set]
    split
    · rename_i heq
      rw [heq, hget]
      rfl
    · rfl
  · rfl

theorem told_append (c : SinkCall) :
    ({ s with calls := s.calls ++ [c] } : Integration).told =
      (s.calls.filter SinkCall.untold).map (fun c => c.event.eventId) ++
        (if c.untold then [c.event.eventId] else []) ++ s.forwards.map Prod.fst := by
  unfold Integration.told
  rw [List.filter_append, List.map_append]
  cases hc : c.untold with
  | true => rw [List.filter_cons_of_pos hc, if_pos rfl]; rfl
  | false => rw [List.filter_cons_of_neg (by rw [hc]; decide), if_neg (by decide)]; rfl

/-- A delivery counts itself, and only the first of its event may forward it. -/
theorem delivery_recorded (hs : Recorded s) {receipts : Receipts}
    (h : recordWebhookReceipt e s.receipts = .ok (receipts, r)) (outcome : RpcOutcome) :
    Recorded { s with
      receipts
      accepted := s.accepted ++ [e.eventId]
      calls := match outcome with
        | .answered => s.calls ++ [⟨e, r.id, r.deliveries, false⟩]
        | _ => s.calls } := by
  obtain ⟨hrows, hdeliveries⟩ := record_ok h
  have hcount : ((s.receipts.rows.get? e.eventId).map Receipt.deliveries).getD 0 =
      s.accepted.count e.eventId := by
    cases hget : s.receipts.rows.get? e.eventId with
    | some old => exact hs.counted _ _ hget
    | none =>
      refine (List.count_eq_zero.mpr fun hmem => ?_).symm
      have hsome := (hs.present _).mpr hmem
      rw [hget] at hsome
      cases hsome
  have hcounted : ∀ eid r', receipts.rows.get? eid = some r' →
      r'.deliveries = (s.accepted ++ [e.eventId]).count eid := by
    intro eid r' hget
    rw [List.count_append]
    rw [hrows, KeyMap.get?_set] at hget
    split at hget
    · rename_i heq
      cases hget
      rw [heq, List.count_singleton_self, hdeliveries, hcount]
    · rename_i hne
      rw [List.count_singleton, hs.counted eid r' hget, if_neg, Nat.add_zero]
      rw [beq_iff_eq]
      exact fun heq => hne heq.symm
  have hpresent : ∀ eid, (receipts.rows.get? eid).isSome ↔ eid ∈ s.accepted ++ [e.eventId] := by
    intro eid
    rw [hrows, KeyMap.get?_set, List.mem_append, List.mem_singleton]
    split
    · rename_i heq
      exact iff_of_true rfl (.inr heq)
    · rename_i hne
      rw [hs.present eid]
      exact ⟨.inl, fun h => h.resolve_right hne⟩
  have hknown : ∀ eid ∈ s.told, eid ∈ s.accepted ++ [e.eventId] :=
    fun eid heid => List.mem_append_left _ (hs.known eid heid)
  cases outcome with
  | lost => exact ⟨hcounted, hpresent, hs.once, hknown⟩
  | failed => exact ⟨hcounted, hpresent, hs.once, hknown⟩
  | answered =>
    have htold := @told_append { s with receipts, accepted := s.accepted ++ [e.eventId] }
      ⟨e, r.id, r.deliveries, false⟩
    refine ⟨hcounted, hpresent, ?_, ?_⟩
    · refine htold ▸ ?_
      by_cases hfirst : SinkCall.untold ⟨e, r.id, r.deliveries, false⟩
      · -- the first delivery: no earlier call had this event
        have hone : r.deliveries = 1 := by
          unfold SinkCall.untold at hfirst
          rw [Bool.and_eq_true, decide_eq_true_eq] at hfirst
          exact hfirst.2
        have hzero : s.accepted.count e.eventId = 0 := by omega
        have hfresh : e.eventId ∉ s.told := fun hmem =>
          List.count_eq_zero.mp hzero (hs.known _ hmem)
        rw [if_pos hfirst]
        refine (List.Perm.append_right _ List.perm_append_comm).nodup_iff.mpr ?_
        exact List.nodup_cons.mpr ⟨hfresh, hs.once⟩
      · rw [if_neg hfirst, List.append_nil]
        exact hs.once
    · refine htold ▸ ?_
      intro eid heid
      dsimp only at heid ⊢
      rw [List.append_assoc, List.mem_append, List.mem_append] at heid
      obtain hold | hnew | hold := heid
      · exact hknown eid (List.mem_append_left _ hold)
      · split at hnew
        · exact List.mem_append_right _ hnew
        · cases hnew
      · exact hknown eid (List.mem_append_right _ hold)

/-- A step that only takes from `told`, and leaves the receipts, keeps the record. -/
theorem Recorded.of_sublist (hs : Recorded s)
    (hrows : ∀ eid, (s'.receipts.rows.get? eid).map Receipt.deliveries =
      (s.receipts.rows.get? eid).map Receipt.deliveries)
    (haccepted : s'.accepted = s.accepted) (htold : s'.told.Subperm s.told) : Recorded s' := by
  refine ⟨fun eid r hr => ?_, fun eid => ?_, ?_, fun eid heid => ?_⟩
  · have hmap := hrows eid
    rw [hr] at hmap
    obtain ⟨old, hold, heq⟩ := Option.map_eq_some_iff.mp hmap.symm
    rw [haccepted, ← hs.counted eid old hold, heq]
  · rw [haccepted, ← hs.present eid, ← Option.isSome_map, hrows eid, Option.isSome_map]
  · obtain ⟨l, hl, hsub⟩ := htold
    exact hl.nodup_iff.mp (hs.once.sublist hsub)
  · rw [haccepted]
    exact hs.known eid (htold.subset heid)

theorem told_erase (call : Nat) :
    ({ s with calls := s.calls.eraseIdx call } : Integration).told.Subperm s.told :=
  (List.Sublist.append_right
    (((List.eraseIdx_sublist _ _).filter _).map _) _).subperm

/-- The forward of a call takes the event id from the calls to the forwards. -/
theorem told_forward {call : Nat} {c : SinkCall} (hget : s.calls[call]? = some c)
    (huntold : c.untold = true) (text : Option String) :
    ({ s with
      forwards := s.forwards ++ text.toList.map fun t => (c.event.eventId, t)
      calls := s.calls.set call { c with forwarding := true } } : Integration).told.Subperm s.told := by
  obtain ⟨hlt, hc⟩ := List.getElem?_eq_some_iff.mp hget
  have hset : (s.calls.set call { c with forwarding := true }).Perm
      ({ c with forwarding := true } :: s.calls.eraseIdx call) := List.set_perm_cons_eraseIdx hlt _
  have hcalls : (c :: s.calls.eraseIdx call).Perm s.calls := by
    rw [← hc]
    exact List.getElem_cons_eraseIdx_perm hlt
  have hafter := (hset.filter SinkCall.untold).map fun c => c.event.eventId
  rw [List.filter_cons_of_neg (by simp [SinkCall.untold])] at hafter
  have hbefore := (hcalls.filter SinkCall.untold).map fun c => c.event.eventId
  rw [List.filter_cons_of_pos huntold, List.map_cons] at hbefore
  unfold Integration.told
  dsimp only
  rw [List.map_append]
  refine (hafter.append_right _).subperm.trans (List.Subperm.trans ?_ (hbefore.append_right _).subperm)
  rw [List.cons_append]
  cases text with
  | none =>
    rw [Option.toList_none, List.map_nil, List.map_nil, List.append_nil]
    exact (List.sublist_cons_self _ _).subperm
  | some t =>
    rw [Option.toList_some, List.map_singleton, List.map_singleton, ← List.append_assoc]
    exact List.perm_append_singleton _ _ |>.subperm

/-- What an event changes. -/
inductive Moves (deps : Departments) (s : Integration) : IntegrationEvent → Integration → Prop
  | commits {issued : List Issued} {sender : Sender} :
      transaction deps s.vault issued s.sender = .ok sender →
      Moves deps s (.transaction issued) { s with sender }
  | fails {issued : List Issued} {error : SqlError} :
      transaction deps s.vault issued s.sender = .error error → Moves deps s (.transaction issued) s
  | sets (vault : Vault) : Moves deps s (.setVault vault) { s with vault }
  | refuses {env : SinkEnv} {req : SinkRequest} {outcome : RpcOutcome} :
      Moves deps s (.delivery env req outcome) s
  | records {env : SinkEnv} {req : SinkRequest} {outcome : RpcOutcome} {e : SinkEvent}
      {receipts : Receipts} {r : Receipt} :
      recordWebhookReceipt e s.receipts = .ok (receipts, r) →
      Moves deps s (.delivery env req outcome)
        { s with
          receipts
          accepted := s.accepted ++ [e.eventId]
          calls := match outcome with
            | .answered => s.calls ++ [⟨e, r.id, r.deliveries, false⟩]
            | _ => s.calls }
  | ends {call : Nat} {env : SinkEnv} :
      Moves deps s (.forward call env) { s with calls := s.calls.eraseIdx call }
  | tells {call : Nat} {env : SinkEnv} {c : SinkCall} (text : Option String) :
      s.calls[call]? = some c → c.untold = true →
      Moves deps s (.forward call env)
        { s with
          forwards := s.forwards ++ text.toList.map fun t => (c.event.eventId, t)
          calls := s.calls.set call { c with forwarding := true } }
  | notes {call : Nat} {outcome : String} (c : SinkCall) :
      Moves deps s (.note call outcome)
        { s with
          receipts := noteWebhookForward c.id outcome s.receipts
          calls := s.calls.eraseIdx call }

theorem integrationStep_moves {event : IntegrationEvent}
    (hstep : integrationStep deps s event = some s') : Moves deps s event s' := by
  unfold integrationStep at hstep
  cases event with
  | transaction issued =>
    dsimp only at hstep
    split at hstep
    · rename_i sender htransaction
      cases hstep
      exact .commits htransaction
    · rename_i error htransaction
      cases hstep
      exact .fails htransaction
  | setVault vault =>
    cases hstep
    exact .sets vault
  | delivery env req outcome =>
    dsimp only at hstep
    split at hstep
    · cases hstep
      exact .refuses
    · cases hstep
      exact .refuses
    · split at hstep
      · cases hstep
        exact .refuses
      · rename_i hrecord
        cases hstep
        exact .records hrecord
  | forward call env =>
    dsimp only at hstep
    split at hstep
    · rename_i c hget
      split at hstep
      · cases hstep
      · rename_i hopen
        split at hstep
        · rename_i hfirst
          have huntold : c.untold = true := by
            rw [SinkCall.untold, Bool.and_eq_true, Bool.not_eq_true', decide_eq_true_eq]
            exact ⟨Bool.not_eq_true _ ▸ hopen, hfirst.2⟩
          split at hstep
          · cases hstep
            exact .ends
          · rename_i text htext
            cases hstep
            exact .tells text hget huntold
        · cases hstep
          exact .ends
    · cases hstep
  | note call outcome =>
    dsimp only at hstep
    split at hstep
    · rename_i c hget
      split at hstep
      · cases hstep
        exact .notes c
      · cases hstep
    · cases hstep

theorem integrationStep_recorded {event : IntegrationEvent} (hs : Recorded s)
    (hstep : integrationStep deps s event = some s') : Recorded s' := by
  cases integrationStep_moves hstep with
  | commits | sets => exact ⟨hs.counted, hs.present, hs.once, hs.known⟩
  | fails | refuses => exact hs
  | records hrecord => exact delivery_recorded hs hrecord _
  | @ends call env => exact hs.of_sublist (fun _ => rfl) rfl (told_erase call)
  | tells text hget huntold =>
    exact hs.of_sublist (fun _ => rfl) rfl (told_forward hget huntold text)
  | @notes call outcome c =>
    exact hs.of_sublist (noteWebhookForward_get? c.id outcome s.receipts) rfl (told_erase call)

/-- Only a transaction changes the sender. -/
theorem integrationStep_booked {event : IntegrationEvent} (hs : Booked s.sender)
    (hstep : integrationStep deps s event = some s') : Booked s'.sender := by
  cases integrationStep_moves hstep with
  | commits htransaction => exact transaction_booked hs htransaction
  | fails | sets | refuses | records | ends | tells | notes => exact hs

/-- Nothing was decided, and nothing recorded. -/
theorem integration_start : Booked ({} : Integration).sender ∧ Recorded ({} : Integration) := by
  refine ⟨⟨List.nodup_nil, fun id => ?_, rfl, fun p hp => absurd hp List.not_mem_nil⟩,
    ⟨fun eid r hr => ?_, fun eid => ?_, List.nodup_nil, fun eid heid => absurd heid List.not_mem_nil⟩⟩
  · refine ⟨fun hmem => absurd hmem List.not_mem_nil, fun ⟨r, hr, _⟩ => ?_⟩
    cases hr
  · cases hr
  · exact iff_of_false Bool.false_ne_true List.not_mem_nil

/-- Each decision that finds both secrets and a queue has its one event, each event id
its one receipt and at most one forward, and no transaction fares worse for it. -/
theorem decisions_told (deps : Departments) :
    (∀ es s, runEvents (integrationStep deps) {} es = some s →
      Booked s.sender ∧
        (s.sender.queue.map fun p => p.body.eventId).Nodup ∧
        (∀ eid, (s.receipts.rows.get? eid).isSome ↔ eid ∈ s.accepted) ∧
        (∀ eid r, s.receipts.rows.get? eid = some r → r.deliveries = s.accepted.count eid) ∧
        (s.forwards.map Prod.fst).Nodup) ∧
    ∀ s issued s', integrationStep deps s (.transaction issued) = some s' →
      statements deps issued s.sender.app = .ok s'.sender.app ∨
        (∃ e, statements deps issued s.sender.app = .error e) ∧ s' = s := by
  refine ⟨fun es s hrun => ?_, fun s issued s' hstep => ?_⟩
  · obtain ⟨hbooked, hrecorded⟩ := runEvents_invariant
      (I := fun _ s => Booked s.sender ∧ Recorded s) integration_start
      (fun _ _ _ _ _ hm hstep =>
        ⟨integrationStep_booked hm.1 hstep, integrationStep_recorded hm.2 hstep⟩) es s hrun
    refine ⟨hbooked, hbooked.eventIds, hrecorded.present, hrecorded.counted, ?_⟩
    exact (List.nodup_append.mp hrecorded.once).2.1
  · have happ := @transaction_app deps s.vault s.sender issued
    cases integrationStep_moves hstep with
    | commits htransaction =>
      rw [htransaction] at happ
      exact .inl happ.symm
    | @fails _ error htransaction =>
      rw [htransaction] at happ
      exact .inr ⟨⟨error, happ.symm⟩, rfl⟩

end Sink

/-! ### With and without the secrets -/

def issuedAll (posts : Uuid → Bool) (stmts : List AppStatement) : List Issued :=
  stmts.map fun stmt => ⟨stmt, posts⟩

/-- Bob approves while the vault is empty: the decision stands and nothing is queued. -/
theorem decision_untold : ∃ s,
    runEvents (integrationStep oneDepartment) {}
      [.transaction (issuedAll (fun _ => true) laptopApproved)] = some s ∧
    s.sender.app.requests.get? laptopId = some laptop ∧ s.sender.queue = [] := by
  have hrun : (runEvents (integrationStep oneDepartment) {}
      [.transaction (issuedAll (fun _ => true) laptopApproved)]).map
        (fun s => (s.sender.app.requests.get? laptopId, s.sender.queue)) =
      some (some laptop, []) := by decide
  obtain ⟨s, hs, heq⟩ := Option.map_eq_some_iff.mp hrun
  obtain ⟨hlaptop, hqueue⟩ := Prod.mk.inj heq
  exact ⟨s, hs, hlaptop, hqueue⟩

def laptopEvent : Json := .obj
  [("event", .str "purchase_request.decided"),
    ("event_id", .str "44444444-4444-4444-4444-444444444444:approved"),
    ("request_id", .str "44444444-4444-4444-4444-444444444444"),
    ("status", .str "approved"),
    ("item", .str "laptop"),
    ("vendor", .str "shop"),
    ("amount", .num "999"),
    ("department", .str "Finance")]

/-- The event is queued, and it reaches the sink twice. -/
def laptopTold : List IntegrationEvent :=
  [.setVault ⟨some "https://sink", some "s3cret"⟩,
    .transaction (issuedAll (fun _ => true) laptopApproved),
    .delivery ⟨some "s3cret", none⟩ ⟨"POST", some "s3cret", 300, some laptopEvent⟩ .answered,
    .delivery ⟨some "s3cret", none⟩ ⟨"POST", some "s3cret", 300, some laptopEvent⟩ .answered,
    .forward 1 ⟨none, some "https://chat"⟩,
    .forward 0 ⟨none, some "https://chat"⟩,
    .note 0 "slack http 200"]

theorem decisions_told_twice : ∃ s,
    runEvents (integrationStep oneDepartment) {} laptopTold = some s ∧
      s.sender.queue.length = 1 ∧ Booked s.sender ∧
      s.accepted.length = 2 ∧ s.forwards.length = 1 ∧ (s.forwards.map Prod.fst).Nodup ∧
      (∀ s', integrationStep oneDepartment s (.transaction []) = some s' →
        statements oneDepartment [] s.sender.app = .ok s'.sender.app ∨
          (∃ e, statements oneDepartment [] s.sender.app = .error e) ∧ s' = s) := by
  have hrun : (runEvents (integrationStep oneDepartment) {} laptopTold).map
      (fun s => (s.sender.queue.length, s.accepted.length, s.forwards.length)) =
        some (1, 2, 1) := by with_unfolding_all decide
  obtain ⟨s, hs, heq⟩ := Option.map_eq_some_iff.mp hrun
  obtain ⟨hqueue, heq⟩ := Prod.mk.inj heq
  obtain ⟨haccepted, hforwards⟩ := Prod.mk.inj heq
  obtain ⟨hruns, hsteps⟩ := decisions_told oneDepartment
  obtain ⟨hbooked, -, -, -, honce⟩ := hruns _ s hs
  exact ⟨s, hs, hqueue, hbooked, haccepted, hforwards, honce, fun s' hstep => hsteps s [] s' hstep⟩

end SupabaseLab.StarterKit
