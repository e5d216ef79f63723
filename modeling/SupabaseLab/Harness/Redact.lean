/-
  Harness/Redact.lean --- what is taken out of an artifact before it is published.

  Source: harness/scripts/publish-evidence.ts, `REF_SHAPE` and `redact`.

  A text is its list of characters, not of code units.  Each rule is an expression with what becomes of
  a match; the rules run one after the other on the whole text.
-/
import SupabaseLab.Library.JsString
import SupabaseLab.Library.Replace

set_option autoImplicit false

namespace SupabaseLab.Harness.Redact

open Library Regex

/-! ## Classes -/

/-- `[0-9a-fA-F]`. -/
def isHex (c : Char) : Bool := c.isDigit || ('a' ≤ c && c ≤ 'f') || ('A' ≤ c && c ≤ 'F')

/-- `[0-9a-fA-F.:]`. -/
def isGuard (c : Char) : Bool := isHex c || c = '.' || c = ':'

/-- `[0-9.]`. -/
def isDotted (c : Char) : Bool := c.isDigit || c = '.'

/-- `[a-z]`, `[a-z0-9-]` and `[0-9a-f]`. -/
def lower : Regex := .char fun c => c.isLower
def slug : Regex := .char fun c => c.isLower || c.isDigit || c = '-'
def lowerHex : Regex := .char fun c => c.isDigit || ('a' ≤ c && c ≤ 'f')

def digit : Regex := .char Char.isDigit
def space : Regex := .char isJsSpace

/-! ## Named texts -/

/-- Account identifiers of no fixed shape, the longest first; `out.split(l).join("<id>")`. -/
def literalRules (literals : List String) (text : List Char) : List Char :=
  ((literals.filter fun x => 6 ≤ (codeUnits x).length).mergeSort fun a b =>
      (codeUnits b).length ≤ (codeUnits a).length).foldl
    (fun out l => replaceAll (.text l) (fun _ => "<id>".toList) out) text

/-- `/^(\d{1,3})\.(\d{1,3})\.(\d{1,3})\.(\d{1,3})$/.exec(a)`. -/
def octets (a : String) : Option (List String) :=
  let parts := a.toList.splitOn '.'
  if parts.length = 4 ∧ ∀ o ∈ parts, o.all Char.isDigit ∧ 1 ≤ o.length ∧ o.length ≤ 3 then
    some (parts.map String.ofList)
  else none

def portGuard (a : String) : CharClass := if ':' ∈ a.toList then isGuard else isDotted

/-- The address with a port behind it. -/
def portPattern (a : String) : Regex :=
  seqs [.behind false [isGuard], .text a, .char (· = ':'), between 1 5 digit,
    .ahead false (.char (portGuard a))]

/-- The address on its own. -/
def addressPattern (a : String) : Regex :=
  seqs [.behind false [isGuard], .text a, .ahead false (.seq (.star (.char isGuard)) (.char isHex))]

/-- The address as an Erlang tuple. -/
def tuplePattern (os : List String) : Regex :=
  .seq (.text "\x7b")
    (.seq (seqs ((os.map Regex.text).intersperse (.seq (.text ",") (.star space)))) (.text "\x7d"))

/-- `sub`. -/
def sub (label : String) (out : List Char) (a : String) : List Char :=
  -- `$1`, the port, is what stands behind the address and its colon
  let out := replaceAll (portPattern a)
    (fun m => label.toList ++ ':' :: m.drop (a.toList.length + 1)) out
  let out := replaceAll (addressPattern a) (fun _ => label.toList) out
  match octets a with
  | some os => replaceAll (tuplePattern os) (fun _ => '\x7b' :: label.toList ++ ['\x7d']) out
  | none => out

def addressRules (vantage other : List String) (text : List Char) : List Char :=
  (other.filter (· ≠ "")).foldl (sub "<addr>")
    ((vantage.filter (· ≠ "")).foldl (sub "<vantage-ip>") text)

/-! ## Shapes -/

/-- A rule: an expression, and what becomes of a match. -/
structure Rule where
  pattern : Regex
  put : List Char → List Char

/-- A rule with one text for every match. -/
def Rule.to (pattern : Regex) (label : String) : Rule := ⟨pattern, fun _ => label.toList⟩

/-- A letter or a digit before the ref is no match, unless it ends a JSON escape. -/
def REF_SHAPE : Regex :=
  seqs [.alt (.behind true [fun c => c ∈ ['n', 'r', 't', 'b', 'f'], (· = '\\')])
      (.behind false [Char.isAlphanum]),
    times 20 lower, .ahead false (.char Char.isAlphanum)]

/-- `h{8}-h{4}-h{4}-h{4}-h{12}`. -/
def uuid (h : Regex) : Regex :=
  seqs [times 8 h, .text "-", times 4 h, .text "-", times 4 h, .text "-", times 4 h, .text "-",
    times 12 h]

def backslashes : Regex := .star (.char (· = '\\'))

def shapeRules : List Rule := [
  .to (seqs [.boundary, .text "db.", times 20 lower, .text ".supabase.co", .boundary])
    "db.<ref>.supabase.co",
  .to (seqs [.boundary, times 20 lower, .text ".supabase.co", .boundary]) "<ref>.supabase.co",
  .to (seqs [.boundary, .text "aws-", digit, .text "-", plus slug, .text ".pooler.supabase.com",
    .boundary]) "<pooler-host>",
  .to (seqs [.boundary, plus slug, .star (.seq (.text ".") (plus slug)), .text ".turso.io", .boundary])
    "<turso-host>",
  .to (seqs [.boundary, plus slug, .text ".", plus slug, .text ".workers.dev", .boundary])
    "<worker-host>",
  .to REF_SHAPE "<ref>",
  .to (seqs [plus (.char fun c => c.isAlphanum || c ∈ ['.', '_', '%', '+', '-']), .text "@",
    plus (.char fun c => c.isAlphanum || c ∈ ['.', '-']), .text ".", atLeast 2 (.char Char.isAlpha)])
    "<email>",
  .to (seqs [.boundary, .text "pat:", plus digit]) "pat:<id>",
  .to (seqs [.boundary, .text "oauth:", uuid lowerHex]) "oauth:<id>",
  -- `$1` is all but the uuid, the last 36 characters
  ⟨seqs [.boundary, .text "error_id", backslashes, .text "\"", .star space, .text ":", .star space,
    backslashes, .text "\"", uuid (.char isHex)],
    fun m => m.take (m.length - 36) ++ "<error-id>".toList⟩,
  .to (seqs [.text "/", alts [.text "Users", .text "home"], .text "/",
    plus (.char fun c => !(c ∈ ['/', '"', '\'', '\\'] || isJsSpace c))]) "~"]

def redactText (text : List Char) (vantage other literals : List String) : List Char :=
  shapeRules.foldl (fun out rule => replaceAll rule.pattern rule.put out)
    (addressRules vantage other (literalRules literals text))

def redact (text : String) (vantage other literals : List String) : String :=
  String.ofList (redactText text.toList vantage other literals)

end SupabaseLab.Harness.Redact
