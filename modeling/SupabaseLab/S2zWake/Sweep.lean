/-
  S2zWake/Sweep.lean --- the op runner of the wake sweeps.

  Source: `dig`, `resolve` and `sweepOps` of experiments/s2z-wake/lib/sweep.ts, with
  `WriteOp` of write-ops.ts, `projectStatus` of surface.ts and the body that `mgmt`
  (harness/src/mgmt.ts) sends.

  Every operation comes with what the API answers when it is its turn (`Exchange`).
  A result of `none` is an exception that leaves `sweepOps`: the readings are lost.
  Times, the settle wait and the text of the log lines decide nothing and are left
  out; that a line is logged stays, for its status is turned into text.
  The project's ref and the organization's slug are of lower-case letters, digits and
  hyphens, as the API gives them: `replaceAll` would read a `$` in them as a pattern.
-/
import SupabaseLab.Library.Buffers
import SupabaseLab.Library.JsNumberText
import SupabaseLab.Library.Json
import SupabaseLab.Library.JsonTemplate

set_option autoImplicit false

namespace SupabaseLab.S2zWake

open Library Library.JsonText Library.Template

/-! ## Operations -/

inductive Verb where
  | get
  | post
  | put
  | patch
  | delete
  deriving DecidableEq

/-- A request body: its numbers are numbers, and an object has each of its keys once. -/
structure Body where
  json : JsonText
  numeric : json.Numeric
  distinct : json.DistinctKeys

structure WriteOp where
  tier : Nat
  verb : Verb
  path : JsText
  body : Option Body
  /-- `[captureName, dotted path into the JSON response]` -/
  capture : Option (List (JsText × JsText))
  terminal : Bool

/-- A lower-case letter, a digit or a hyphen. -/
def isSlugUnit (u : Nat) : Bool := isLowerUnit u || isDigitUnit u || u = '-'.toNat

/-- A project ref or an organization slug. -/
structure Slug where
  text : JsText
  ne_nil : text ≠ []
  units : ∀ u ∈ text, isSlugUnit u = true

/-- Captured ids by name. -/
abbrev Captures : Type := JsMap JsText JsText

structure SweepOpts where
  ref : Slug
  org : Slug
  checkWake : Bool
  includeTerminal : Bool
  /-- A `log` is given. -/
  log : Bool

/-- `MgmtResponse`, as far as the sweep reads it. -/
structure Response where
  status : Nat
  text : JsText
  json : Option JsonText

/-- What the API answers on one operation's turn: to the operation, and to the listing of the
organization's projects behind it.  `none` is a call that fails. -/
structure Exchange where
  response : Option Response
  listing : Option Response

/-! ## Placeholders -/

/-- The replacement of `/\{NAME\}/g`, a placeholder of one name. -/
def only (name : String) (x : JsText) : JsText → Option JsText :=
  fun n => if n = units name then some x else none

/-- Substitute `{REF}`, `{ORG}` and captured ids; the first unresolved name. -/
def resolve (s : JsText) (ref org : Slug) (caps : Captures) : JsText × Option JsText :=
  let out := fill (only "ORG" org.text) (fill (only "REF" ref.text) s)
  (fill caps.get? out, missing? caps.get? out)

/-! ## Values of the language -/

/-- `Number(text)`. -/
def numberOf (s : JsText) : Double := Double.ofText ((trimUnits s).map Char.ofNat)

/-- What counts as true in a condition. -/
def truthy : JsonText → Bool
  | .null => false
  | .bool b => b
  | .num digits => numberOf digits ≠ .fin 0
  | .str s => s ≠ []
  | .arr _ | .obj _ => true

mutual

/-- The value that a text stands for. -/
def jsonValue : JsonText → JsonOf JsText
  | .null => .null
  | .bool b => .bool b
  | .num digits => .num (utf16 (numberOf digits).text)
  | .str s => .str s
  | .arr items => .arr (jsonItems items)
  | .obj members => .obj (jsonFields members)

def jsonItems : List JsonText → List (JsonOf JsText)
  | [] => []
  | v :: items => jsonValue v :: jsonItems items

def jsonFields : List (JsText × JsonText) → List (JsText × JsonOf JsText)
  | [] => []
  | (key, v) :: members => (key, jsonValue v) :: jsonFields members

end

/-- `String(value)`. -/
def toText? (v : JsonText) : Option JsText :=
  (jsonValue v).textBy? units (List.intercalate [','.toNat])

/-- What objects and arrays have of the language itself: their prototypes, an array's length. -/
structure Realm where
  Builtin : Type
  /-- What a value has by a name that is no index and no member of it. -/
  inherited : JsonText → JsText → Option Builtin
  member : Builtin → JsText → Option Builtin
  /-- `String(value)`. -/
  text? : Builtin → Option JsText

variable {realm : Realm}

inductive Found (realm : Realm) where
  | json (v : JsonText)
  | builtin (b : realm.Builtin)

def Found.text? : Found realm → Option JsText
  | .json v => toText? v
  | .builtin b => realm.text? b

/-- `/^\d+$/` -/
def isIndex (part : JsText) : Bool := part ≠ [] && part.all isDigitUnit

def indexValue (part : JsText) : Nat := part.foldl (fun n u => 10 * n + (u - 48)) 0

/-- One segment of a dotted path; `none` is `undefined`. -/
def digPart : Found realm → JsText → Option (Found realm)
  | .builtin b, part => (realm.member b part).map .builtin
  | .json v, part =>
      if isIndex part then
        match v with
        | .arr items => items[indexValue part]?.map .json
        | _ => none
      else
        match v with
        | .obj members => match member part members with
          | some w => some (.json w)
          | none => (realm.inherited v part).map .builtin
        | .arr _ => (realm.inherited v part).map .builtin
        | _ => none

/-- Dotted path into a JSON value; numeric segments index arrays. -/
def dig (v : JsonText) (path : JsText) : Option (Found realm) :=
  (path.splitOn '.'.toNat).foldlM digPart (.json v)

/-! ## Requests and readings -/

/-- A body and, where it overwrites the member `id`, the number. -/
structure Payload where
  json : JsonText
  id : Option Double

structure Request where
  verb : Verb
  path : JsText
  body : Option Payload

inductive Http where
  | skip
  | status (n : Nat)
  deriving DecidableEq

/-- `OpReading`. -/
structure OpReading where
  tier : Nat
  verb : Verb
  path : JsText
  http : Http
  bytes : Nat
  bodyHead : JsText
  statusAfter : Option JsonText
  skipReason : Option JsText

/-- An iteration: the captures it begins with, the request it sends, and its reading. -/
structure Turn where
  held : Captures
  request : Option Request
  reading : OpReading

/-- `b === undefined ? undefined : JSON.parse(b.out)` -/
def parsedBody : Option (JsText × Option JsText) → Option (Option JsonText)
  | none => some none
  | some b => (read b.1).map some

/-- `backups/restore` takes a number. -/
def numericId (path : JsText) (json : JsonText) : Option Double :=
  if (units "/backups/restore").isSuffixOf path then
    match json with
    | .obj members => match member (units "id") members with
      | some (.str s) => if (numberOf s).isFinite then some (numberOf s) else none
      | _ => none
    | _ => none
  else none

/-- The body that `mgmt` sends: none for a payload that is not true. -/
def sentBody (path : JsText) (payload : Option JsonText) : Option Payload :=
  (payload.filter truthy).map fun json => { json := json, id := numericId path json }

/-- `replace(/\s+/g, " ")`; `inRun` says that white space is being read. -/
def squeeze (inRun : Bool) : JsText → JsText
  | [] => []
  | u :: s =>
      if isTrimUnit u then
        if inRun then squeeze true s else 32 :: squeeze true s
      else u :: squeeze false s

/-- The captures of one response. -/
def captureFrom (realm : Realm) (json : JsonText) : List (JsText × JsText) → Captures →
    Option Captures
  | [], caps => some caps
  | (name, path) :: rest, caps =>
      match (dig json path : Option (Found realm)) with
      | none | some (.json .null) => captureFrom realm json rest caps
      | some found => found.text?.bind fun text => captureFrom realm json rest (caps.set name text)

/-- The captures after a request. -/
def captured (realm : Realm) (op : WriteOp) (response : Option Response) (caps : Captures) :
    Option Captures :=
  match op.capture, response.bind Response.json with
  | some capture, some json => captureFrom realm json capture caps
  | _, _ => some caps

def err : JsonText := .str (units "ERR")

/-- The status of the project in a listing. -/
def listedStatus (ref : Slug) (items : List JsonText) : JsonText :=
  let found := items.find? fun item => match item with
    | .obj members => match member (units "ref") members with
      | some (.str s) => s = ref.text
      | _ => false
    | _ => false
  match found with
  | some (.obj members) => match member (units "status") members with
    | none | some .null => err
    | some status => status
  | _ => err

/-- `projectStatus`; a `projects` that is no array has no `find`. -/
def projectStatus (ref : Slug) (listing : Option Response) : Option JsonText :=
  match listing.bind Response.json with
  | some (.obj members) => match member (units "projects") members with
    | none | some .null => some err
    | some (.arr items) => some (listedStatus ref items)
    | some _ => none
  | _ => some err

/-- The status after a call, where the wake check asks for it. -/
def statusAfter (opts : SweepOpts) (ex : Exchange) : Option (Option JsonText) :=
  if opts.checkWake then (projectStatus opts.ref ex.listing).map some else some none

/-- The log line: a status that is true becomes part of its text. -/
def logged (opts : SweepOpts) (status : Option JsonText) : Option Unit :=
  if opts.log then
    match status.filter truthy with
    | some v => (toText? v).map fun _ => ()
    | none => some ()
  else some ()

def skipped (op : WriteOp) (missing : JsText) : OpReading where
  tier := op.tier
  verb := op.verb
  path := op.path
  http := .skip
  bytes := 0
  bodyHead := []
  statusAfter := none
  skipReason := some (units "no " ++ missing ++ units " captured")

def readingOf (op : WriteOp) (response : Option Response) (status : Option JsonText) : OpReading where
  tier := op.tier
  verb := op.verb
  path := op.path
  http := .status ((response.map Response.status).getD 0)
  bytes := (response.map fun r => r.text.length).getD 0
  bodyHead := (squeeze false ((response.map Response.text).getD [])).take 160
  statusAfter := status
  skipReason := none

/-! ## The sweep -/

/-- One operation. -/
def sweepOp (realm : Realm) (opts : SweepOpts) (caps : Captures) (op : WriteOp) (ex : Exchange) :
    Option (Turn × Captures) :=
  let p := resolve op.path opts.ref opts.org caps
  let b := op.body.map fun body => resolve (stringify body.json) opts.ref opts.org caps
  match p.2.or (b.bind Prod.snd) with
  | some missing => some ({ held := caps, request := none, reading := skipped op missing }, caps)
  | none => do
      let payload ← parsedBody b
      let request : Request := { verb := op.verb, path := p.1, body := sentBody p.1 payload }
      let caps' ← captured realm op ex.response caps
      let status ← statusAfter opts ex
      logged opts status
      return ({ held := caps, request := some request, reading := readingOf op ex.response status },
        caps')

/-- Terminal operations are left out unless they are asked for. -/
def selected (opts : SweepOpts) (op : WriteOp) : Bool := !op.terminal || opts.includeTerminal

/-- The turns of the selected operations, and the captures at the end. -/
def sweepOps (realm : Realm) (opts : SweepOpts) : Captures → List (WriteOp × Exchange) →
    Option (List Turn × Captures)
  | caps, [] => some ([], caps)
  | caps, (op, ex) :: rest =>
      if selected opts op then do
        let (turn, caps') ← sweepOp realm opts caps op ex
        let (turns, final) ← sweepOps realm opts caps' rest
        return (turn :: turns, final)
      else sweepOps realm opts caps rest

end SupabaseLab.S2zWake
