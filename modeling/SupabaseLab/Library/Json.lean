/-
  Library/Json.lean --- JSON values, as a JavaScript program sees them once parsed.

  Property access and the conversion to text are the two operations a handler
  performs on a body it has not validated.  Both can throw a `TypeError`; the
  result is `none` then.
-/
import Mathlib.Data.List.Basic

set_option autoImplicit false

namespace SupabaseLab.Library

/-- A parsed JSON text, its strings given as `τ`.  A number is kept as the text `String`
makes of it. -/
inductive JsonOf (τ : Type) where
  | null
  | bool (b : Bool)
  | num (text : τ)
  | str (s : τ)
  | arr (items : List (JsonOf τ))
  | obj (fields : List (τ × JsonOf τ))

/-- A value whose strings are read as characters; an object has each of its keys once. -/
abbrev Json := JsonOf String

/-- What every object inherits. -/
def objectPrototype : List String :=
  ["__proto__", "constructor", "toString", "toLocaleString", "valueOf", "hasOwnProperty",
    "isPrototypeOf", "propertyIsEnumerable", "__defineGetter__", "__defineSetter__",
    "__lookupGetter__", "__lookupSetter__"]

namespace JsonOf

variable {τ : Type} [BEq τ] (word : String → τ) (join : List τ → τ)

mutual

/-- `String(value)`, with its own words as `word` writes them: an array is joined with
commas, and an object whose own `toString` hides the built-in one cannot be converted, for
no JSON value is callable. -/
def textBy? : JsonOf τ → Option τ
  | null => some (word "null")
  | bool b => some (word (if b then "true" else "false"))
  | num text => some text
  | str s => some s
  | arr items => (itemTextsBy? items).map join
  | obj fields =>
      if (fields.lookup (word "toString")).isSome then none else some (word "[object Object]")

/-- The texts an array is joined from; `null` counts as the empty text. -/
def itemTextsBy? : List (JsonOf τ) → Option (List τ)
  | [] => some []
  | null :: rest => (itemTextsBy? rest).map (word "" :: ·)
  | item :: rest => (textBy? item).bind fun text => (itemTextsBy? rest).map (text :: ·)

end

end JsonOf

namespace Json

/-- `value.key` for a key that no built-in prototype has: `none` when reading it
throws, `some none` for `undefined`. -/
def get? : Json → String → Option (Option Json)
  | .null, _ => none
  | .obj fields, key => some (fields.lookup key)
  | _, _ => some none

/-- `String(value)`. -/
def toText? (value : Json) : Option String := value.textBy? id (String.intercalate ",")

/-- `String(value.key ?? "")`. -/
def textAt? (value : Json) (key : String) : Option String := do
  match ← value.get? key with
  | none | some .null => return ""
  | some v => v.toText?

@[simp] theorem toText?_str (s : String) : toText? (.str s) = some s := by
  simp [toText?, JsonOf.textBy?]

/-- A field that holds a text is read as that text. -/
theorem textAt?_str {fields : List (String × Json)} {key s : String}
    (h : fields.lookup key = some (.str s)) : textAt? (.obj fields) key = some s := by
  simp [textAt?, get?, h]

end Json

end SupabaseLab.Library
