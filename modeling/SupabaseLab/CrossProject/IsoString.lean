/-
  CrossProject/IsoString.lean --- the milliseconds of a timestamp, and their text.

  Source: `msCursor` of experiments/cross-project-auth/lib/merge.ts, which sends a
  timestamp through `Date.parse` and `toISOString`.

  Only PostgREST's own form is read here, a `T` and an offset with a colon: what
  `Date.parse` makes of the other forms that `tsMicros` accepts is up to the engine, and
  a text with no offset is local time to it.  It drops the digits of a fraction after the
  third.  The text of what is left denotes the start of the millisecond.
-/
import SupabaseLab.CrossProject.Timestamp

set_option autoImplicit false

namespace SupabaseLab.CrossProject

open Library

/-- The form in which PostgREST writes a timestamp. -/
def isPostgrestForm (s : String) : Bool :=
  match exec s.toList with
  | some m => s.toList[10]? = some 'T' && isColonZone (m.zone.getD [])
  | none => false

/-- `Date.parse` of a timestamp as PostgREST writes it, with up to six digits of a fraction. -/
def dateMillis (s : String) : Option Int :=
  if isPostgrestForm s then
    (exec s.toList).bind fun m =>
      (dateParse (m.date ++ 'T' :: (m.time ++ m.zone.getD []))).map fun ms =>
        ms + (Nat.ofDigitChars 10 ((paddedFraction m.fraction).take 3) 0 : Nat)
  else none

/-- A number in three digits. -/
def pad3 (n : Nat) : List Char :=
  [Nat.digitChar (n / 100), Nat.digitChar (n / 10 % 10), Nat.digitChar (n % 10)]

/-- `toISOString` of a date in the years that four digits write. -/
def toISOString (ms : Int) : String :=
  let day := ms / 86400000
  let inDay := (ms % 86400000).toNat
  let year := yearFromDay day
  let inYear := (day - dayFromYear year).toNat
  let month := monthFromDay (isLeap year) inYear
  String.ofList (dateText year month (inYear - monthStart (isLeap year) month + 1) ++
    'T' :: (timeText (inDay / 3600000) (inDay / 60000 % 60) (inDay / 1000 % 60) ++
      '.' :: (pad3 (inDay % 1000) ++ ['Z'])))

section Millis

variable {s : String} {n ms : Int}

/-- Six digits, the first three of them and the rest. -/
theorem paddedFraction_split {ds : List (Fin 10)} (h : ds.length ≤ 6) :
    ∃ first rest : List (Fin 10), rest.length = 3 ∧
      (paddedFraction (fractionCapture ds)).take 3 = digitText first ∧
      paddedFraction (fractionCapture ds) = digitText (first ++ rest) := by
  have hpadded : paddedFraction (fractionCapture ds) =
      digitText (ds ++ List.replicate (6 - ds.length) 0) := by
    have hdigits : (fractionCapture ds).getD [] = digitText ds := by
      cases ds with
      | nil => rfl
      | cons d ds => rfl
    unfold paddedFraction
    dsimp only
    rw [hdigits, digitText, digitText, List.map_append, List.map_replicate, List.length_map]
    rfl
  refine ⟨(ds ++ List.replicate (6 - ds.length) 0).take 3,
    (ds ++ List.replicate (6 - ds.length) 0).drop 3, ?_, ?_, ?_⟩
  · rw [List.length_drop, List.length_append, List.length_replicate]
    omega
  · rw [hpadded, digitText, digitText, List.map_take]
  · rw [hpadded, List.take_append_drop]

theorem digitsValue_append (ds ds' : List (Fin 10)) :
    digitsValue (ds ++ ds') = digitsValue ds * 10 ^ ds'.length + digitsValue ds' := by
  induction ds' using List.reverseRecOn with
  | nil => simp [digitsValue]
  | append_singleton ds' d ih =>
    have hlast : ∀ l : List (Fin 10), digitsValue (l ++ [d]) = 10 * digitsValue l + d.val := by
      intro l
      rw [digitsValue, List.foldl_append]
      rfl
    rw [← List.append_assoc, hlast, hlast, ih, List.length_append, List.length_singleton,
      Nat.pow_succ]
    ring

/-- An offset with a colon is read as it stands. -/
theorem normalizeZone_colon {tz : List Char} (h : isColonZone tz = true) : normalizeZone tz = tz := by
  unfold isColonZone at h
  split at h
  · next s a b c d =>
    have hhour : isHourZone [s, a, b, ':', c, d] = false := rfl
    have hcompact : isCompactZone [s, a, b, ':', c, d] = false := rfl
    rw [normalizeZone, hhour, hcompact]
    rfl
  · cases h

/-- `Date.parse` gives the millisecond that an instant lies in. -/
theorem dateMillis_eq (h : tsMicros s = some n) (hform : isPostgrestForm s = true) :
    dateMillis s = some (n / 1000) := by
  obtain ⟨m, hexec, hparse⟩ := Option.bind_eq_some_iff.mp h
  have hzone : normalizeZone (m.zone.getD ['Z']) = m.zone.getD [] := by
    unfold isPostgrestForm at hform
    rw [hexec] at hform
    have hcolon := (Bool.and_eq_true_iff.mp hform).2
    cases hz : m.zone with
    | none =>
      rw [hz] at hcolon
      cases hcolon
    | some z =>
      rw [hz] at hcolon
      exact normalizeZone_colon hcolon
  rw [hzone] at hparse
  obtain ⟨-, -, ds, -, hlen, -, -, -, -, hfraction, -⟩ := exec_eq_some hexec
  obtain ⟨first, rest, hrest, htake, hpadded⟩ := paddedFraction_split hlen
  obtain ⟨ms, hms, rfl⟩ := Option.map_eq_some_iff.mp hparse
  have hlt := digitsValue_lt rest
  unfold dateMillis
  rw [if_pos hform, hexec, Option.bind_some, hms, Option.map_some, hfraction, htake, hpadded,
    ofDigitChars_digitText, ofDigitChars_digitText]
  have hvalue := digitsValue_append first rest
  unfold digitsValue at hvalue hlt
  rw [hrest] at hvalue hlt
  rw [hvalue]
  refine congrArg some ?_
  push_cast
  omega

/-- The text denotes the start of the millisecond. -/
theorem denotes_toISOString (h : InYears (ms / 86400000)) : Denotes (toISOString ms) (ms * 1000) := by
  obtain ⟨d, hday, hlt, hyear, hmonth, hdate⟩ := exists_dayNumber h
  have hinDay : (ms % 86400000).toNat < 86400000 := by omega
  obtain ⟨k, hk⟩ : ∃ k, k = (ms % 86400000).toNat := ⟨_, rfl⟩
  have hclock : inDay (k / 3600000) (k / 60000 % 60) (k / 1000 % 60) = true := by
    unfold inDay
    simp only [Bool.and_eq_true, Bool.or_eq_true, decide_eq_true_eq]
    omega
  have hten : ∀ i : Nat, i % 10 < 10 := fun i => Nat.mod_lt i (by decide)
  refine ⟨{
    date := d
    year_lt := hlt
    sep := 'T'
    sep_ok := .inl rfl
    hour := k / 3600000
    minute := k / 60000 % 60
    second := k / 1000 % 60
    inDay := hclock
    fraction := [⟨k % 1000 / 100, by omega⟩, ⟨k % 1000 / 10 % 10, hten _⟩, ⟨k % 1000 % 10, hten _⟩]
    fraction_le := Nat.le_of_ble_eq_true rfl
    zone := .utc }, ?_, ?_⟩
  · unfold toISOString Stamp.text
    dsimp only
    rw [String.toList_ofList, ← hyear, ← hmonth, ← hdate, ← hk]
    rfl
  · unfold Stamp.instant Stamp.secondOfDay Stamp.micros Zone.seconds digitsValue
    dsimp only [List.foldl_cons, List.foldl_nil, List.length_cons, List.length_nil]
    rw [hday]
    omega

end Millis

end SupabaseLab.CrossProject
