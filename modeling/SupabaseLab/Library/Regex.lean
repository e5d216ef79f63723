/-
  Library/Regex.lean --- regular expressions as a backtracking matcher reads them.

  A match is a way from one place of a text to a later one.  `ends` lists the
  places where a match may end in the order in which the matcher tries them, so
  its head is the match that is found; greedy repetition and alternatives are that
  order and nothing else.  Assertions look at both sides of a place.

  A text is its list of characters.  Without the `u` flag the language goes by code units
  and reads a character beyond the basic plane as two; here it is one.
-/
import Mathlib

set_option autoImplicit false

namespace SupabaseLab.Library

/-- A place in a text: what stands before it, the nearest character first, and what
stands after it. -/
structure Place where
  before : List Char
  after : List Char
  deriving DecidableEq

/-- One character of a class. -/
abbrev CharClass := Char → Bool

inductive Regex where
  | empty
  | char (class_ : CharClass)
  | seq (r s : Regex)
  | alt (r s : Regex)
  /-- Greedy repetition. -/
  | star (r : Regex)
  /-- `(?=r)`, or `(?!r)` where `wanted` is false. -/
  | ahead (wanted : Bool) (r : Regex)
  /-- A lookbehind over classes, the nearest character first. -/
  | behind (wanted : Bool) (classes : List CharClass)
  /-- `\\b`. -/
  | boundary

/-- `\\w`. -/
def isWordChar (c : Char) : Bool := c.isAlphanum || c = '_'

/-- `\\b` holds where a word character stands on one side only. -/
def atBoundary (p : Place) : Bool := p.before.head?.any isWordChar != p.after.head?.any isWordChar

/-- The characters nearest to a place are of these classes. -/
def standsBehind : List CharClass → List Char → Bool
  | [], _ => true
  | _ :: _, [] => false
  | class_ :: classes, c :: before => class_ c && standsBehind classes before

/-- Greedy repetition; an iteration that takes nothing ends it. -/
def starEnds (step : Place → List Place) : Nat → Place → List Place
  | 0, p => [p]
  | n + 1, p =>
      ((step p).filter fun q => q.after.length < p.after.length).flatMap (starEnds step n) ++ [p]

/-- Where a match that begins at a place may end, in the order of trying. -/
def Regex.ends : Regex → Place → List Place
  | .empty, p => [p]
  | .char class_, p =>
      match p.after with
      | [] => []
      | c :: rest => if class_ c then [⟨c :: p.before, rest⟩] else []
  | .seq r s, p => (r.ends p).flatMap s.ends
  | .alt r s, p => r.ends p ++ s.ends p
  | .star r, p => starEnds r.ends p.after.length p
  | .ahead wanted r, p => if (r.ends p).isEmpty = !wanted then [p] else []
  | .behind wanted classes, p => if standsBehind classes p.before = wanted then [p] else []
  | .boundary, p => if atBoundary p then [p] else []

/-- The expression matches here or further on. -/
def Regex.testFrom (r : Regex) : List Char → List Char → Bool
  | before, [] => !(r.ends ⟨before, []⟩).isEmpty
  | before, c :: rest => !(r.ends ⟨before, c :: rest⟩).isEmpty || r.testFrom (c :: before) rest

/-- `r.test(text)`. -/
def Regex.test (r : Regex) (text : String) : Bool := r.testFrom [] text.toList

/-! ## Spellings -/

namespace Regex

/-- `r?` -/
def opt (r : Regex) : Regex := .alt r .empty

/-- `r+` -/
def plus (r : Regex) : Regex := .seq r (.star r)

/-- One expression after the other. -/
def seqs : List Regex → Regex
  | [] => .empty
  | [r] => r
  | r :: rs => .seq r (seqs rs)

/-- The first expression that matches. -/
def alts : List Regex → Regex
  | [] => .ahead false .empty
  | [r] => r
  | r :: rs => .alt r (alts rs)

/-- One of these characters. -/
def oneOf (chars : String) : Regex := .char fun c => chars.toList.contains c

/-- The letters of a text. -/
def text (s : String) : Regex := seqs (s.toList.map fun c => .char fun d => d = c)

/-- The letters of a text under the flag `i`; only ASCII letters fold. -/
def textI (s : String) : Regex := seqs (s.toList.map fun c => .char fun d => d.toLower = c.toLower)

/-- A word on its own, `\\b…\\b`. -/
def whole (r : Regex) : Regex := seqs [.boundary, r, .boundary]

end Regex

end SupabaseLab.Library
