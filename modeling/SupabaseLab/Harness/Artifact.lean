/-
  Harness/Artifact.lean --- the run artifact and its results.

  Source: harness/src/types.ts.  An artifact is read back from a file, so a
  measurement can also be `null`: that is what a number that is not finite was
  written as.
-/
import SupabaseLab.Library.KeyMap
import SupabaseLab.Library.JsString

set_option autoImplicit false

namespace SupabaseLab.Harness

open Library

inductive Where where
  | runner
  | «local»
  deriving DecidableEq, Repr

def Where.text : Where → String
  | .runner => "runner"
  | .«local» => "local"

inductive Status where
  | pass
  | fail
  | skip
  | info
  deriving DecidableEq, Repr

/-- The value of a measurement. -/
inductive Measurement where
  | number (n : ℚ)
  | text (s : String)
  | null
  deriving DecidableEq, Repr

structure TestResult where
  id : String
  title : String
  status : Status
  detail : Option String := none
  measurements : Option (KeyMap String Measurement) := none
  evidence : Option String := none
  durationMs : Option Nat := none

structure RunArtifact where
  startedAt : String
  finishedAt : String
  vantage : Where
  region : String
  projectRegion : Option String := none
  ref : String
  experiment : Option String := none
  labCommit : Option String := none
  toolVersions : KeyMap String String
  results : List TestResult

end SupabaseLab.Harness
