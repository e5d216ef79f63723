/-
  S2zWake/Readings.lean --- what a sweep measures.

  Captured values are put into the text of a body, not into its strings.  A sweep
  measures every operation exactly when no value has to be escaped where it is put,
  and nothing else throws: the conversion of a capture or of a status to text, and a
  listing whose projects are no array.
-/
import SupabaseLab.S2zWake.Sweep

set_option autoImplicit false

namespace SupabaseLab.S2zWake

open Library Library.JsonText Library.Template

/-! ## Measured -/

/-- What a placeholder stands for. -/
def valueOf (ref org : Slug) (caps : Captures) (name : JsText) : Option JsText :=
  if name = units "REF" then some ref.text
  else if name = units "ORG" then some org.text
  else caps.get? name

/-- The placeholders of an operation: of its path and of the strings of its body. -/
def placeholders (op : WriteOp) : List JsText :=
  holes op.path ++ (op.body.toList.flatMap fun body => (strings body.json).flatMap holes)

/-- Some placeholder has no captured value. -/
def Unresolved (opts : SweepOpts) (caps : Captures) (op : WriteOp) : Prop :=
  ∃ name ∈ placeholders op, valueOf opts.ref opts.org caps name = none

/-- The body with every placeholder inside its strings replaced by its value. -/
def replacedBody (opts : SweepOpts) (caps : Captures) (body : Body) : JsonText :=
  mapStrings (fill (valueOf opts.ref opts.org caps)) body.json

/-- The request that an operation stands for. -/
def requestOf (opts : SweepOpts) (caps : Captures) (op : WriteOp) : Request :=
  let path := fill (valueOf opts.ref opts.org caps) op.path
  { verb := op.verb
    path := path
    body := op.body.map fun body =>
      { json := replacedBody opts caps body, id := numericId path (replacedBody opts caps body) } }

/-- The reading of an operation, and what is sent for it. -/
structure Measured (opts : SweepOpts) (op : WriteOp) (turn : Turn) : Prop where
  tier : turn.reading.tier = op.tier
  verb : turn.reading.verb = op.verb
  path : turn.reading.path = op.path
  skip : turn.reading.http = .skip ↔ Unresolved opts turn.held op
  unsent : Unresolved opts turn.held op → turn.request = none
  sent : ¬ Unresolved opts turn.held op → turn.request = some (requestOf opts turn.held op)

/-- The sweep returns, with one reading for each selected operation, in order. -/
def Measures (realm : Realm) (opts : SweepOpts) (caps : Captures) (ops : List (WriteOp × Exchange)) :
    Prop :=
  ∃ turns final, sweepOps realm opts caps ops = some (turns, final) ∧
    List.Forall₂ (fun o turn => Measured opts o.1 turn) (ops.filter fun o => selected opts o.1) turns

/-! ## The condition -/

/-- The body can be filled as text: what is put into it needs no escape, no two keys become one,
and it is not one of the values that `mgmt` leaves out. -/
structure Fillable (opts : SweepOpts) (caps : Captures) (body : Body) : Prop where
  plain : PlainlyFilled (valueOf opts.ref opts.org caps) body.json
  distinct : (replacedBody opts caps body).DistinctKeys
  truthy : truthy (replacedBody opts caps body) = true

/-- Every value that is captured has a text. -/
def Textual (realm : Realm) (op : WriteOp) (response : Option Response) : Prop :=
  ∀ json ∈ response.bind Response.json, ∀ capture ∈ op.capture, ∀ c ∈ capture,
    ∀ found : Found realm, dig json c.2 = some found → found = .json .null ∨ found.text?.isSome = true

/-- The listing's `projects`, where it has any, are an array. -/
def Listed (listing : Option Response) : Prop :=
  ∀ members, listing.bind Response.json = some (.obj members) →
    ∀ v, member (units "projects") members = some v → v = .null ∨ ∃ items, v = .arr items

/-- The status that is logged has a text. -/
def Loggable (opts : SweepOpts) (listing : Option Response) : Prop :=
  opts.log = true → ∀ v, projectStatus opts.ref listing = some v → S2zWake.truthy v = true →
    (toText? v).isSome = true

/-- Nothing keeps the operation from being measured. -/
structure Clean (realm : Realm) (opts : SweepOpts) (caps : Captures) (op : WriteOp) (ex : Exchange) :
    Prop where
  body : ∀ body ∈ op.body, Fillable opts caps body
  captures : Textual realm op ex.response
  listing : opts.checkWake = true → Listed ex.listing ∧ Loggable opts ex.listing

/-- Along the run, every selected operation is unresolved or clean with the captures that it finds. -/
inductive CleanRun (realm : Realm) (opts : SweepOpts) :
    Captures → List (WriteOp × Exchange) → Prop
  | nil (caps : Captures) : CleanRun realm opts caps []
  | left {caps : Captures} {op : WriteOp} {ex : Exchange} {rest : List (WriteOp × Exchange)}
      (h : selected opts op = false) (hrest : CleanRun realm opts caps rest) :
      CleanRun realm opts caps ((op, ex) :: rest)
  | skipped {caps : Captures} {op : WriteOp} {ex : Exchange} {rest : List (WriteOp × Exchange)}
      (h : selected opts op = true) (hmissing : Unresolved opts caps op)
      (hrest : CleanRun realm opts caps rest) : CleanRun realm opts caps ((op, ex) :: rest)
  | sent {caps caps' : Captures} {op : WriteOp} {ex : Exchange} {rest : List (WriteOp × Exchange)}
      (h : selected opts op = true) (hresolved : ¬ Unresolved opts caps op)
      (hclean : Clean realm opts caps op ex)
      (hcaptured : captured realm op ex.response caps = some caps')
      (hrest : CleanRun realm opts caps' rest) : CleanRun realm opts caps ((op, ex) :: rest)

/-! ## Placeholders -/

section Placeholders

variable {ref org : Slug} {caps : Captures} {opts : SweepOpts} {op : WriteOp} {s : JsText}

theorem Slug.solid (slug : Slug) : Solid slug.text where
  ne_nil := slug.ne_nil
  inert u hu := by
    have hunit := slug.units u hu
    simp [isSlugUnit, isLowerUnit, isDigitUnit] at hunit
    simp [Inert, isNameUnit, openBrace, closeBrace]
    omega

theorem only_solid {name : String} {slug : Slug} {n x : JsText}
    (h : only name slug.text n = some x) : Solid x := by
  rw [only] at h
  split_ifs at h
  rw [← Option.some.inj h]
  exact slug.solid

/-- The three substitutions in turn are one. -/
theorem resolve_eq (s : JsText) (ref org : Slug) (caps : Captures) :
    resolve s ref org caps = (fill (valueOf ref org caps) s, missing? (valueOf ref org caps) s) := by
  have hboth : ∀ n x, (only "REF" ref.text n).or (only "ORG" org.text n) = some x → Solid x := by
    intro n x h
    rcases Option.or_eq_some_iff.mp h with h | ⟨-, h⟩
    · exact only_solid h
    · exact only_solid h
  have hvalue : (fun n => ((only "REF" ref.text n).or (only "ORG" org.text n)).or (caps.get? n)) =
      valueOf ref org caps := by
    funext n
    simp only [only, valueOf]
    split_ifs <;> rfl
  have hout : fill (only "ORG" org.text) (fill (only "REF" ref.text) s) =
      fill (fun n => (only "REF" ref.text n).or (only "ORG" org.text n)) s :=
    fill_fill (fun n x => only_solid) s
  rw [resolve, hout, fill_fill hboth, missing?_fill hboth, hvalue]

theorem missing?_isSome_iff {value : JsText → Option JsText} :
    (missing? value s).isSome = true ↔ ∃ name ∈ holes s, value name = none := by
  rw [missing?, List.find?_isSome]
  simp

/-- What the sweep looks for first: a placeholder of the path, then one of the body, without a
value. -/
def missingOf (opts : SweepOpts) (caps : Captures) (op : WriteOp) : Option JsText :=
  (missing? (valueOf opts.ref opts.org caps) op.path).or
    (op.body.bind fun body => missing? (valueOf opts.ref opts.org caps) (stringify body.json))

theorem unresolved_iff : Unresolved opts caps op ↔ (missingOf opts caps op).isSome = true := by
  have hbody (body : Body) : (missing? (valueOf opts.ref opts.org caps) (stringify body.json)).isSome =
      true ↔ ∃ name ∈ (strings body.json).flatMap holes, valueOf opts.ref opts.org caps name = none := by
    rw [missing?_isSome_iff, holes_stringify body.numeric]
  rw [missingOf, Option.isSome_or, Bool.or_eq_true, missing?_isSome_iff, Unresolved, placeholders]
  cases hop : op.body with
  | none => simp
  | some body =>
    rw [Option.bind_some, hbody body]
    simp only [Option.toList_some, List.flatMap_singleton, List.mem_append, or_and_right, exists_or]

/-- An operation that misses a value is skipped, and nothing is sent for it. -/
theorem sweepOp_unresolved (realm : Realm) (ex : Exchange) (h : Unresolved opts caps op) :
    ∃ missing, sweepOp realm opts caps op ex =
      some ({ held := caps, request := none, reading := skipped op missing }, caps) := by
  obtain ⟨missing, hmissing⟩ := Option.isSome_iff_exists.mp (unresolved_iff.mp h)
  refine ⟨missing, ?_⟩
  have hfirst : (resolve op.path opts.ref opts.org caps).2.or
      ((op.body.map fun body => resolve (stringify body.json) opts.ref opts.org caps).bind Prod.snd) =
        some missing := by
    rw [← hmissing, missingOf, resolve_eq]
    cases op.body with
    | none => rfl
    | some body => simp [resolve_eq]
  rw [sweepOp, hfirst]

end Placeholders

/-! ## What can throw -/

section Throwing

variable {realm : Realm} {opts : SweepOpts} {caps : Captures} {op : WriteOp} {ex : Exchange}

/-- The value that the filled text of a body is read as, where there is a body. -/
def payloadOf (opts : SweepOpts) (caps : Captures) (op : WriteOp) : Option (Option JsonText) :=
  match op.body with
  | none => some none
  | some body =>
      (read (fill (valueOf opts.ref opts.org caps) (stringify body.json))).map some

/-- The body that is sent is the replaced one exactly when it can be filled as text. -/
theorem payloadOf_iff : (∃ payload, payloadOf opts caps op = some payload ∧
      sentBody (requestOf opts caps op).path payload = (requestOf opts caps op).body) ↔
    ∀ body ∈ op.body, Fillable opts caps body := by
  unfold payloadOf requestOf
  cases op.body with
  | none =>
    constructor
    · intro _ body hbody
      cases hbody
    · intro _
      exact ⟨none, rfl, rfl⟩
  | some body =>
    dsimp only
    constructor
    · rintro ⟨payload, hpayload, hsent⟩ body' hbody'
      obtain rfl : body = body' := Option.some.inj hbody'
      obtain ⟨json, hread, rfl⟩ := Option.map_eq_some_iff.mp hpayload
      rw [sentBody, Option.filter_some] at hsent
      split_ifs at hsent with htruthy
      · rw [Option.map_some, Option.map_some, Option.some.injEq, Payload.mk.injEq] at hsent
        rw [hsent.1] at hread htruthy
        obtain ⟨hplain, hdistinct⟩ := (read_fill_stringify_iff body.numeric).mp hread
        exact ⟨hplain, hdistinct, htruthy⟩
      · cases hsent
    · intro h
      have hbody := h body rfl
      have hread := (read_fill_stringify_iff body.numeric).mpr ⟨hbody.plain, hbody.distinct⟩
      refine ⟨some (replacedBody opts caps body), ?_, ?_⟩
      · rw [hread]
        rfl
      · rw [sentBody, Option.filter_some, if_pos hbody.truthy]
        rfl

theorem captureFrom_isSome_iff (json : JsonText) (capture : List (JsText × JsText)) (caps : Captures) :
    (captureFrom realm json capture caps).isSome = true ↔ ∀ c ∈ capture, ∀ found : Found realm,
      dig json c.2 = some found → found = .json .null ∨ found.text?.isSome = true := by
  induction capture generalizing caps with
  | nil => simp [captureFrom]
  | cons c capture ih =>
    obtain ⟨name, path⟩ := c
    rw [captureFrom, List.forall_mem_cons]
    split
    · next hfound => simp [hfound, ih]
    · next hfound => simp [hfound, ih]
    · next found hnull hfound =>
      cases htext : found.text? with
      | none =>
        have hfails : ¬(found = .json .null ∨ found.text?.isSome = true) := by
          rintro (h | h)
          · exact hnull h
          · simp [htext] at h
        exact iff_of_false (by simp) fun h => hfails (h.1 found hfound)
      | some text =>
        rw [Option.bind_some, ih]
        refine ⟨fun h => ⟨fun found' hfound' => ?_, h⟩, fun h => h.2⟩
        obtain rfl : found = found' := Option.some.inj (hfound.symm.trans hfound')
        exact .inr (by simp [htext])

theorem captured_isSome_iff (caps : Captures) :
    (captured realm op ex.response caps).isSome = true ↔ Textual realm op ex.response := by
  unfold captured Textual
  cases op.capture with
  | none => simp
  | some capture =>
    cases ex.response.bind Response.json with
    | none => simp
    | some json => simp [captureFrom_isSome_iff]

theorem projectStatus_isSome_iff (ref : Slug) {listing : Option Response} :
    (projectStatus ref listing).isSome = true ↔ Listed listing := by
  unfold projectStatus Listed
  split
  · next members hjson =>
    rw [hjson]
    split
    · next hmember => simp [hmember]
    · next hmember => simp [hmember]
    · next items hmember => simp [hmember]
    · next v hnull harr hmember =>
      refine iff_of_false (by simp) fun h => ?_
      rcases h members rfl v hmember with heq | ⟨items, heq⟩
      · exact hnull heq
      · exact harr items heq
  · next hjson =>
    refine iff_of_true rfl fun members h => ?_
    exact absurd h (hjson members)

theorem logged_none : logged opts none = some () := by
  unfold logged
  split <;> rfl

theorem logged_some_iff (opts : SweepOpts) (v : JsonText) : logged opts (some v) = some () ↔
    (opts.log = true → truthy v = true → (toText? v).isSome = true) := by
  unfold logged
  rw [Option.filter_some]
  by_cases htruthy : truthy v = true
  · rw [if_pos htruthy]
    dsimp only
    cases toText? v with
    | none => simp [htruthy]
    | some text => simp
  · rw [if_neg htruthy]
    simp [htruthy]

/-- The wake check and the log line throw nothing. -/
theorem statusAfter_iff : (∃ status, statusAfter opts ex = some status ∧ logged opts status = some ()) ↔
    (opts.checkWake = true → Listed ex.listing ∧ Loggable opts ex.listing) := by
  unfold statusAfter Loggable
  cases hcheck : opts.checkWake with
  | false => exact iff_of_true ⟨none, rfl, logged_none⟩ fun h => by cases h
  | true =>
    rw [if_pos rfl, ← projectStatus_isSome_iff opts.ref]
    cases hstatus : projectStatus opts.ref ex.listing with
    | none => simp
    | some v =>
      have hlogged := logged_some_iff opts v
      constructor
      · rintro ⟨status, heq, h⟩ -
        obtain rfl : some v = status := Option.some.inj heq
        refine ⟨rfl, fun hlog w hw => ?_⟩
        obtain rfl : v = w := Option.some.inj hw
        exact hlogged.mp h hlog
      · intro h
        exact ⟨some v, rfl, hlogged.mpr fun hlog => (h rfl).2 hlog v rfl⟩

end Throwing

/-! ## One operation -/

section Step

variable {realm : Realm} {opts : SweepOpts} {caps caps' : Captures} {op : WriteOp} {ex : Exchange}
  {turn : Turn}

/-- An operation with all its values: what has to succeed, and the turn then. -/
theorem sweepOp_resolved_iff (h : ¬ Unresolved opts caps op) :
    sweepOp realm opts caps op ex = some (turn, caps') ↔ ∃ payload status,
      payloadOf opts caps op = some payload ∧ captured realm op ex.response caps = some caps' ∧
        statusAfter opts ex = some status ∧ logged opts status = some () ∧
        turn =
          { held := caps
            request := some
              { verb := op.verb
                path := (requestOf opts caps op).path
                body := sentBody (requestOf opts caps op).path payload }
            reading := readingOf op ex.response status } := by
  have hmissing : missingOf opts caps op = none := by
    rw [← Option.not_isSome_iff_eq_none, ← unresolved_iff]
    exact h
  have hfirst : (resolve op.path opts.ref opts.org caps).2.or
      ((op.body.map fun body => resolve (stringify body.json) opts.ref opts.org caps).bind Prod.snd) =
        none := by
    rw [← hmissing, missingOf, resolve_eq]
    cases op.body with
    | none => rfl
    | some body => simp [resolve_eq]
  have hpayload : parsedBody (op.body.map fun body =>
      resolve (stringify body.json) opts.ref opts.org caps) = payloadOf opts caps op := by
    rw [payloadOf]
    cases op.body with
    | none => rfl
    | some body => simp [parsedBody, resolve_eq]
  rw [sweepOp, hfirst]
  dsimp only
  rw [hpayload, resolve_eq]
  simp only [Option.bind_eq_bind, Option.bind_eq_some_iff, Option.pure_def, Option.some.injEq,
    Prod.mk.injEq]
  constructor
  · rintro ⟨payload, hpayload, caps₁, hcaptured, status, hstatus, ⟨⟩, hlogged, rfl, rfl⟩
    exact ⟨payload, status, hpayload, hcaptured, hstatus, hlogged, rfl⟩
  · rintro ⟨payload, status, hpayload, hcaptured, hstatus, hlogged, rfl⟩
    exact ⟨payload, hpayload, caps', hcaptured, status, hstatus, (), hlogged, rfl, rfl⟩

/-- An operation with all its values is measured exactly when it is clean. -/
theorem sweepOp_measured_iff (h : ¬ Unresolved opts caps op) :
    (∃ turn caps', sweepOp realm opts caps op ex = some (turn, caps') ∧ Measured opts op turn) ↔
      Clean realm opts caps op ex := by
  constructor
  · rintro ⟨turn, caps', hstep, hmeasured⟩
    obtain ⟨payload, status, hpayload, hcaptured, hstatus, hlogged, rfl⟩ :=
      (sweepOp_resolved_iff h).mp hstep
    have hsent := hmeasured.sent h
    rw [Option.some.injEq, requestOf, Request.mk.injEq] at hsent
    refine ⟨?_, ?_, ?_⟩
    · exact payloadOf_iff.mp ⟨payload, hpayload, hsent.2.2⟩
    · exact (captured_isSome_iff caps).mp (by rw [hcaptured]; rfl)
    · exact statusAfter_iff.mp ⟨status, hstatus, hlogged⟩
  · intro hclean
    obtain ⟨payload, hpayload, hbody⟩ := payloadOf_iff.mpr hclean.body
    obtain ⟨caps', hcaptured⟩ := Option.isSome_iff_exists.mp
      ((captured_isSome_iff caps).mpr hclean.captures)
    obtain ⟨status, hstatus, hlogged⟩ := statusAfter_iff.mpr hclean.listing
    refine ⟨_, caps', (sweepOp_resolved_iff h).mpr
      ⟨payload, status, hpayload, hcaptured, hstatus, hlogged, rfl⟩, rfl, rfl, rfl, ?_, ?_, ?_⟩
    · exact iff_of_false (fun hskip => by cases hskip) h
    · exact fun hmissing => absurd hmissing h
    · exact fun _ => by rw [hbody]; rfl

theorem sweepOp_captures (h : ¬ Unresolved opts caps op)
    (hstep : sweepOp realm opts caps op ex = some (turn, caps')) :
    captured realm op ex.response caps = some caps' := by
  obtain ⟨payload, status, hpayload, hcaptured, hstatus, hlogged, rfl⟩ :=
    (sweepOp_resolved_iff h).mp hstep
  exact hcaptured

/-- A skipped operation is measured. -/
theorem skipped_measured (missing : JsText) (h : Unresolved opts caps op) :
    Measured opts op { held := caps, request := none, reading := skipped op missing } where
  tier := rfl
  verb := rfl
  path := rfl
  skip := iff_of_true rfl h
  unsent _ := rfl
  sent hresolved := absurd h hresolved

end Step

/-! ## The sweep -/

section Run

variable {realm : Realm} {opts : SweepOpts} {caps : Captures} {op : WriteOp} {ex : Exchange}
  {rest : List (WriteOp × Exchange)}

theorem measures_left (h : selected opts op = false) :
    Measures realm opts caps ((op, ex) :: rest) ↔ Measures realm opts caps rest := by
  have hfilter : ((op, ex) :: rest).filter (fun o => selected opts o.1) =
      rest.filter fun o => selected opts o.1 := by simp [h]
  rw [Measures, Measures, hfilter, sweepOps, if_neg (by simp [h])]

/-- The first operation, and the sweep of the others with the captures behind it. -/
theorem measures_cons (h : selected opts op = true) :
    Measures realm opts caps ((op, ex) :: rest) ↔ ∃ turn caps',
      sweepOp realm opts caps op ex = some (turn, caps') ∧ Measured opts op turn ∧
        Measures realm opts caps' rest := by
  have hfilter : ((op, ex) :: rest).filter (fun o => selected opts o.1) =
      (op, ex) :: rest.filter fun o => selected opts o.1 := by simp [h]
  simp only [Measures, hfilter, sweepOps, h, if_true, Option.bind_eq_bind, Option.pure_def]
  constructor
  · rintro ⟨turns, final, hrun, hall⟩
    obtain ⟨⟨turn, caps'⟩, hstep, hrest⟩ := Option.bind_eq_some_iff.mp hrun
    obtain ⟨⟨turns', final'⟩, hturns, heq⟩ := Option.bind_eq_some_iff.mp hrest
    cases heq
    obtain ⟨hfirst, hall⟩ := List.forall₂_cons.mp hall
    exact ⟨turn, caps', hstep, hfirst, turns', _, hturns, hall⟩
  · rintro ⟨turn, caps', hstep, hfirst, turns, final, hturns, hall⟩
    exact ⟨turn :: turns, final, by rw [hstep, Option.bind_some, hturns]; rfl, .cons hfirst hall⟩

/-- A sweep measures every operation exactly when each, with the captures that it finds, is
unresolved or clean. -/
theorem measures_iff (realm : Realm) (opts : SweepOpts) (caps : Captures)
    (ops : List (WriteOp × Exchange)) :
    Measures realm opts caps ops ↔ CleanRun realm opts caps ops := by
  induction ops generalizing caps with
  | nil => exact iff_of_true ⟨[], caps, rfl, .nil⟩ (.nil caps)
  | cons o rest ih =>
    obtain ⟨op, ex⟩ := o
    cases hselected : selected opts op with
    | false =>
      rw [measures_left hselected, ih]
      refine ⟨.left hselected, fun h => ?_⟩
      cases h with
      | left _ hrest => exact hrest
      | skipped h => simp [hselected] at h
      | sent h => simp [hselected] at h
    | true =>
      rw [measures_cons hselected]
      by_cases hmissing : Unresolved opts caps op
      · obtain ⟨missing, hstep⟩ := sweepOp_unresolved realm ex hmissing
        constructor
        · rintro ⟨turn, caps', hturn, -, hrest⟩
          obtain ⟨rfl, rfl⟩ := Prod.mk.inj (Option.some.inj (hstep.symm.trans hturn))
          exact .skipped hselected hmissing ((ih caps).mp hrest)
        · intro h
          cases h with
          | left h => simp [hselected] at h
          | skipped _ _ hrest =>
            exact ⟨_, caps, hstep, skipped_measured missing hmissing, (ih caps).mpr hrest⟩
          | sent _ hresolved => exact absurd hmissing hresolved
      · constructor
        · rintro ⟨turn, caps', hstep, hmeasured, hrest⟩
          exact .sent hselected hmissing
            ((sweepOp_measured_iff hmissing).mp ⟨turn, caps', hstep, hmeasured⟩)
            (sweepOp_captures hmissing hstep) ((ih caps').mp hrest)
        · intro h
          cases h with
          | left h => simp [hselected] at h
          | skipped _ h => exact absurd h hmissing
          | sent _ _ hclean hcaptured hrest =>
            obtain ⟨turn, caps', hstep, hmeasured⟩ := (sweepOp_measured_iff hmissing).mpr hclean
            have hsame := sweepOp_captures hmissing hstep
            rw [hcaptured] at hsame
            cases hsame
            exact ⟨turn, _, hstep, hmeasured, (ih _).mpr hrest⟩

end Run

/-! ## A key with a quote in it -/

/-- A language whose values have nothing beyond their members. -/
def bareRealm : Realm where
  Builtin := Empty
  inherited _ _ := none
  member b _ := b.elim
  text? b := b.elim

def probeOpts : SweepOpts where
  ref := ⟨units "abc", by decide, by decide⟩
  org := ⟨units "acme", by decide, by decide⟩
  checkWake := false
  includeTerminal := false
  log := false

/-- `{ root_key: "{ROOT_KEY}" }` -/
def rootKeyBody : Body where
  json := .obj [(units "root_key", .str (units "\x7bROOT_KEY\x7d"))]
  numeric := by simp [Numeric, NumericMembers]
  distinct := by simp [DistinctKeys, DistinctMembers]

def putRootKey : WriteOp where
  tier := 4
  verb := .put
  path := units "/projects/\x7bREF\x7d/pgsodium"
  body := some rootKeyBody
  capture := none
  terminal := false

/-- A root key `a"b`, put back as it was read: the text of the body is no JSON any more, and the
sweep throws. -/
theorem quoted_key_not_measured : ¬ Measures bareRealm probeOpts [(units "ROOT_KEY", units "a\"b")]
    [(putRootKey, { response := none, listing := none })] := by
  have hthrows : sweepOps bareRealm probeOpts [(units "ROOT_KEY", units "a\"b")]
      [(putRootKey, { response := none, listing := none })] = none := rfl
  rintro ⟨turns, final, hrun, -⟩
  rw [hthrows] at hrun
  cases hrun

end SupabaseLab.S2zWake
