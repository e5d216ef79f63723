/-
  CrossProject/Timestamp.lean --- timestamps as texts, and the microsecond each one denotes.

  Source: `tsMicros` of experiments/cross-project-auth/lib/merge.ts.

  A stamp is what a timestamp text says: a date, a time of day, up to six digits of a
  fraction and an offset in one of four forms.  `tsMicros` accepts the texts of stamps
  and no others, and gives the instant.
-/
import SupabaseLab.Library.Calendar

set_option autoImplicit false

namespace SupabaseLab.CrossProject

open Library

/-! ## The pattern -/

/-- `\d{4}-\d{2}-\d{2}`. -/
def isDate : List Char → Bool
  | [a, b, c, d, '-', e, f, '-', g, h] => [a, b, c, d, e, f, g, h].all Char.isDigit
  | _ => false

/-- `\d{2}:\d{2}:\d{2}`. -/
def isTime : List Char → Bool
  | [a, b, ':', c, d, ':', e, f] => [a, b, c, d, e, f].all Char.isDigit
  | _ => false

def isSign (c : Char) : Bool := c = '+' || c = '-'

/-- `[+-]\d{2}`. -/
def isHourZone : List Char → Bool
  | [s, a, b] => isSign s && a.isDigit && b.isDigit
  | _ => false

/-- `[+-]\d{4}`. -/
def isCompactZone : List Char → Bool
  | [s, a, b, c, d] => isSign s && [a, b, c, d].all Char.isDigit
  | _ => false

/-- `[+-]\d{2}:\d{2}`. -/
def isColonZone : List Char → Bool
  | [s, a, b, ':', c, d] => isSign s && [a, b, c, d].all Char.isDigit
  | _ => false

def isZone (cs : List Char) : Bool :=
  cs = ['Z'] || isHourZone cs || isCompactZone cs || isColonZone cs

/-- The captures of the pattern of `tsMicros`. -/
structure Captures where
  date : List Char
  time : List Char
  fraction : Option (List Char)
  zone : Option (List Char)

/-- The digits after a point, if there is one, and what comes then. -/
def splitFraction : List Char → Option (List Char) × List Char
  | '.' :: ds => (some (ds.takeWhile Char.isDigit), ds.dropWhile Char.isDigit)
  | cs => (none, cs)

/-- `exec` of the pattern; six digits of a fraction at most, and nothing after the offset. -/
def exec (cs : List Char) : Option Captures :=
  match cs.drop 10 with
  | [] => none
  | sep :: rest =>
      let date := cs.take 10
      let time := rest.take 8
      let (fraction, zone) := splitFraction (rest.drop 8)
      if isDate date && (sep = 'T' || sep = ' ') && isTime time &&
          fraction.all (fun ds => 1 ≤ ds.length && ds.length ≤ 6) && (zone = [] || isZone zone) then
        some ⟨date, time, fraction, if zone = [] then none else some zone⟩
      else none

/-! ## The value -/

/-- The number that the digits from `start` on write. -/
def number (cs : List Char) (start length : Nat) : Nat :=
  Nat.ofDigitChars 10 ((cs.drop start).take length) 0

/-- The seconds of `Z` and of `±HH:mm`. -/
def zoneSeconds (cs : List Char) : Option Int :=
  if cs = ['Z'] then some 0
  else if isColonZone cs then
    let hours := number cs 1 2
    let minutes := number cs 4 2
    if hours < 24 && minutes < 60 then
      some ((if cs.head? = some '-' then -1 else 1) * ((hours * 60 + minutes) * 60 : Nat))
    else none
  else none

def inMonth (year month day : Nat) : Bool :=
  0 < month && month ≤ 12 && 0 < day && day ≤ monthLength year month

/-- The end of a day is `24:00:00`. -/
def inDay (hour minute second : Nat) : Bool :=
  (hour < 24 || (hour = 24 && minute = 0 && second = 0)) && minute < 60 && second < 60

/-- `Date.parse`, of `YYYY-MM-DDTHH:mm:ss` and an offset: milliseconds, `none` for `NaN`. -/
def dateParse (cs : List Char) : Option Int :=
  let date := cs.take 10
  let time := (cs.drop 11).take 8
  if isDate date && cs[10]? = some 'T' && isTime time then
    (zoneSeconds (cs.drop 19)).bind fun offset =>
      if inMonth (number date 0 4) (number date 5 2) (number date 8 2) &&
          inDay (number time 0 2) (number time 3 2) (number time 6 2) then
        some ((makeDay (number date 0 4) (number date 5 2) (number date 8 2) * 86400 +
          (number time 0 2 * 3600 + number time 3 2 * 60 + number time 6 2 : Nat) - offset) * 1000)
      else none
  else none

/-- The offset as `Date.parse` reads it. -/
def normalizeZone (tz : List Char) : List Char :=
  if isHourZone tz then tz ++ [':', '0', '0']
  else if isCompactZone tz then tz.take 3 ++ ':' :: tz.drop 3
  else tz

/-- `(m[3] ?? "").padEnd(6, "0")`. -/
def paddedFraction (fraction : Option (List Char)) : List Char :=
  let ds := fraction.getD []
  ds ++ List.replicate (6 - ds.length) '0'

/-- Microseconds since the epoch; `none` where `tsMicros` throws. -/
def tsMicros (s : String) : Option Int :=
  (exec s.toList).bind fun m =>
    let tz := normalizeZone (m.zone.getD ['Z'])
    (dateParse (m.date ++ 'T' :: (m.time ++ tz))).map fun ms =>
      ms * 1000 + (Nat.ofDigitChars 10 (paddedFraction m.fraction) 0 : Nat)

/-! ## Stamps -/

/-- A text with no offset is in UTC. -/
inductive Zone where
  | unmarked
  | utc
  | hours (negative : Bool) (h : Fin 24)
  | compact (negative : Bool) (h : Fin 24) (m : Fin 60)
  | colon (negative : Bool) (h : Fin 24) (m : Fin 60)
  deriving DecidableEq

/-- A number in two digits. -/
def pad2 (n : Nat) : List Char := [Nat.digitChar (n / 10), Nat.digitChar (n % 10)]

/-- A number in four digits. -/
def pad4 (n : Nat) : List Char := pad2 (n / 100) ++ pad2 (n % 100)

def sign (negative : Bool) : Char := if negative then '-' else '+'

def Zone.text : Zone → List Char
  | .unmarked => []
  | .utc => ['Z']
  | .hours negative h => sign negative :: pad2 h
  | .compact negative h m => sign negative :: (pad2 h ++ pad2 m)
  | .colon negative h m => sign negative :: (pad2 h ++ ':' :: pad2 m)

def signed (negative : Bool) (n : Nat) : Int := if negative then -(n : Int) else n

/-- How many seconds the zone is ahead of UTC. -/
def Zone.seconds : Zone → Int
  | .unmarked | .utc => 0
  | .hours negative h => signed negative (h * 3600)
  | .compact negative h m | .colon negative h m => signed negative (h * 3600 + m * 60)

/-- What a timestamp text says. -/
structure Stamp where
  date : Date
  year_lt : date.year < 10000
  sep : Char
  sep_ok : sep = 'T' ∨ sep = ' '
  hour : Nat
  minute : Nat
  second : Nat
  inDay : inDay hour minute second = true
  fraction : List (Fin 10)
  fraction_le : fraction.length ≤ 6
  zone : Zone

def dateText (year month day : Nat) : List Char := pad4 year ++ '-' :: (pad2 month ++ '-' :: pad2 day)

def timeText (hour minute second : Nat) : List Char :=
  pad2 hour ++ ':' :: (pad2 minute ++ ':' :: pad2 second)

def digitText (ds : List (Fin 10)) : List Char := ds.map fun d => Nat.digitChar d.val

def fractionText : List (Fin 10) → List Char
  | [] => []
  | ds => '.' :: digitText ds

def Stamp.text (t : Stamp) : List Char :=
  dateText t.date.year t.date.month t.date.day ++
    t.sep :: (timeText t.hour t.minute t.second ++ (fractionText t.fraction ++ t.zone.text))

/-- The number the digits write. -/
def digitsValue (ds : List (Fin 10)) : Nat := ds.foldl (fun n d => 10 * n + d.val) 0

/-- The digits are a fraction of a second. -/
def Stamp.micros (t : Stamp) : Nat := digitsValue t.fraction * 10 ^ (6 - t.fraction.length)

def Stamp.secondOfDay (t : Stamp) : Nat := t.hour * 3600 + t.minute * 60 + t.second

/-- Microseconds since the epoch. -/
def Stamp.instant (t : Stamp) : Int :=
  (t.date.dayNumber * 86400 + t.secondOfDay - t.zone.seconds) * 1000000 + t.micros

/-- The text is a timestamp that denotes the instant. -/
def Denotes (s : String) (n : Int) : Prop := ∃ t : Stamp, t.text = s.toList ∧ t.instant = n

/-! ## Digits -/

section Digits

variable {a b : Char} {n : Nat} {cs : List Char}

theorem exists_digit (h : a.isDigit = true) : ∃ n < 10, a = Nat.digitChar n := by
  have hall : ∀ n ∈ List.range 58, (Char.ofNat n).isDigit = true →
      ∃ k < 10, Char.ofNat n = Nat.digitChar k := by decide
  have hlt : a.toNat < 58 := by
    unfold Char.isDigit at h
    rw [Bool.and_eq_true, decide_eq_true_eq, decide_eq_true_eq] at h
    exact Nat.lt_succ_of_le (UInt32.le_iff_toNat_le.mp h.2)
  have hself : Char.ofNat a.toNat = a := Char.ofNat_toNat a
  have hdigit := hall a.toNat (List.mem_range.mpr hlt)
  rw [hself] at hdigit
  exact hdigit h

theorem isDigit_digitChar (h : n < 10) : (Nat.digitChar n).isDigit = true := by
  interval_cases n <;> rfl

theorem exists_pad2 (ha : a.isDigit = true) (hb : b.isDigit = true) :
    ∃ n < 100, [a, b] = pad2 n := by
  obtain ⟨x, hx, rfl⟩ := exists_digit ha
  obtain ⟨y, hy, rfl⟩ := exists_digit hb
  refine ⟨10 * x + y, by omega, ?_⟩
  have hdiv : (10 * x + y) / 10 = x := by omega
  have hmod : (10 * x + y) % 10 = y := by omega
  rw [pad2, hdiv, hmod]

theorem pad2_isDigit (h : n < 100) : (pad2 n).all Char.isDigit = true := by
  simp [pad2, isDigit_digitChar (show n / 10 < 10 by omega),
    isDigit_digitChar (show n % 10 < 10 by omega)]

theorem ofDigitChars_pad2 (h : n < 100) (init : Nat) :
    Nat.ofDigitChars 10 (pad2 n) init = 100 * init + n := by
  rw [pad2, Nat.ofDigitChars_cons_digitChar_of_lt_ten (by omega),
    Nat.ofDigitChars_cons_digitChar_of_lt_ten (by omega), Nat.ofDigitChars_nil]
  omega

theorem exists_digitText (h : ∀ c ∈ cs, c.isDigit = true) : ∃ ds, cs = digitText ds := by
  induction cs with
  | nil => exact ⟨[], rfl⟩
  | cons c cs ih =>
    obtain ⟨hc, hrest⟩ := List.forall_mem_cons.mp h
    obtain ⟨n, hn, rfl⟩ := exists_digit hc
    obtain ⟨ds, rfl⟩ := ih hrest
    exact ⟨⟨n, hn⟩ :: ds, rfl⟩

theorem digitText_isDigit (ds : List (Fin 10)) : ∀ c ∈ digitText ds, c.isDigit = true := by
  intro c hc
  obtain ⟨d, -, rfl⟩ := List.mem_map.mp hc
  exact isDigit_digitChar d.isLt

theorem ofDigitChars_digitText (ds : List (Fin 10)) (init : Nat) :
    Nat.ofDigitChars 10 (digitText ds) init = ds.foldl (fun n d => 10 * n + d.val) init := by
  induction ds generalizing init with
  | nil => exact Nat.ofDigitChars_nil
  | cons d ds ih =>
    rw [digitText, List.map_cons, Nat.ofDigitChars_cons_digitChar_of_lt_ten d.isLt, List.foldl_cons]
    exact ih _

end Digits

/-! ## Dates, times and offsets -/

section Parts

variable {year month day hour minute second : Nat} {cs tail : List Char} {off : Int}

theorem isDate_dateText (hy : year < 10000) (hm : month < 100) (hd : day < 100) :
    isDate (dateText year month day) = true := by
  have hy₁ := pad2_isDigit (n := year / 100) (by omega)
  have hy₂ := pad2_isDigit (n := year % 100) (by omega)
  have hm₁ := pad2_isDigit hm
  have hd₁ := pad2_isDigit hd
  have hall : (pad2 (year / 100) ++ (pad2 (year % 100) ++ (pad2 month ++ pad2 day))).all
      Char.isDigit = true := by
    simp only [List.all_append, hy₁, hy₂, hm₁, hd₁, Bool.and_self]
  exact hall

theorem exists_dateText (h : isDate cs = true) :
    ∃ year month day, year < 10000 ∧ month < 100 ∧ day < 100 ∧ cs = dateText year month day := by
  unfold isDate at h
  split at h
  · next a b c d e f g i =>
    simp only [List.all_cons, List.all_nil, Bool.and_true, Bool.and_eq_true] at h
    obtain ⟨ha, hb, hc, hd, he, hf, hg, hi⟩ := h
    obtain ⟨x, hx, hab⟩ := exists_pad2 ha hb
    obtain ⟨y, hy, hcd⟩ := exists_pad2 hc hd
    obtain ⟨m, hm, hef⟩ := exists_pad2 he hf
    obtain ⟨n, hn, hgi⟩ := exists_pad2 hg hi
    refine ⟨100 * x + y, m, n, by omega, hm, hn, ?_⟩
    have hdiv : (100 * x + y) / 100 = x := by omega
    have hmod : (100 * x + y) % 100 = y := by omega
    rw [dateText, pad4, hdiv, hmod, ← hab, ← hcd, ← hef, ← hgi]
    rfl
  · cases h

theorem isTime_timeText (hh : hour < 100) (hm : minute < 100) (hs : second < 100) :
    isTime (timeText hour minute second) = true := by
  have hh₁ := pad2_isDigit hh
  have hm₁ := pad2_isDigit hm
  have hs₁ := pad2_isDigit hs
  have hall : (pad2 hour ++ (pad2 minute ++ pad2 second)).all Char.isDigit = true := by
    simp only [List.all_append, hh₁, hm₁, hs₁, Bool.and_self]
  exact hall

theorem exists_timeText (h : isTime cs = true) :
    ∃ hour minute second, hour < 100 ∧ minute < 100 ∧ second < 100 ∧
      cs = timeText hour minute second := by
  unfold isTime at h
  split at h
  · next a b c d e f =>
    simp only [List.all_cons, List.all_nil, Bool.and_true, Bool.and_eq_true] at h
    obtain ⟨ha, hb, hc, hd, he, hf⟩ := h
    obtain ⟨x, hx, hab⟩ := exists_pad2 ha hb
    obtain ⟨y, hy, hcd⟩ := exists_pad2 hc hd
    obtain ⟨z, hz, hef⟩ := exists_pad2 he hf
    refine ⟨x, y, z, hx, hy, hz, ?_⟩
    rw [timeText, ← hab, ← hcd, ← hef]
    rfl
  · cases h

@[simp] theorem length_dateText : (dateText year month day).length = 10 := rfl

@[simp] theorem length_timeText : (timeText hour minute second).length = 8 := rfl

theorem number_dateText (hy : year < 10000) (hm : month < 100) (hd : day < 100) :
    number (dateText year month day) 0 4 = year ∧ number (dateText year month day) 5 2 = month ∧
      number (dateText year month day) 8 2 = day := by
  refine ⟨?_, ofDigitChars_pad2 hm 0 |>.trans (by omega), ofDigitChars_pad2 hd 0 |>.trans (by omega)⟩
  have hyear : number (dateText year month day) 0 4 = Nat.ofDigitChars 10 (pad4 year) 0 := rfl
  rw [hyear, pad4, Nat.ofDigitChars_append, ofDigitChars_pad2 (by omega), ofDigitChars_pad2 (by omega)]
  omega

theorem number_timeText (hh : hour < 100) (hm : minute < 100) (hs : second < 100) :
    number (timeText hour minute second) 0 2 = hour ∧
      number (timeText hour minute second) 3 2 = minute ∧
      number (timeText hour minute second) 6 2 = second :=
  ⟨ofDigitChars_pad2 hh 0 |>.trans (by omega), ofDigitChars_pad2 hm 0 |>.trans (by omega),
    ofDigitChars_pad2 hs 0 |>.trans (by omega)⟩

/-- What `Date.parse` makes of a date, a time and an offset. -/
theorem dateParse_text (hy : year < 10000) (hmo : month < 100) (hd : day < 100) (hh : hour < 100)
    (hmi : minute < 100) (hs : second < 100) :
    dateParse (dateText year month day ++ 'T' :: (timeText hour minute second ++ tail)) =
      (zoneSeconds tail).bind fun offset =>
        if inMonth year month day && inDay hour minute second then
          some ((makeDay year month day * 86400 + (hour * 3600 + minute * 60 + second : Nat) - offset) *
            1000)
        else none := by
  obtain ⟨hyear, hmonth, hday⟩ := number_dateText hy hmo hd
  obtain ⟨hhour, hminute, hsecond⟩ := number_timeText hh hmi hs
  have hdate : (dateText year month day ++ 'T' :: (timeText hour minute second ++ tail)).take 10 =
      dateText year month day := List.take_left' length_dateText
  have htime : ((dateText year month day ++ 'T' :: (timeText hour minute second ++ tail)).drop 11).take
      8 = timeText hour minute second := rfl
  have hsep : (dateText year month day ++ 'T' :: (timeText hour minute second ++ tail))[10]? = some 'T' :=
    rfl
  have htail : (dateText year month day ++ 'T' :: (timeText hour minute second ++ tail)).drop 19 =
      tail := rfl
  unfold dateParse
  dsimp only
  rw [hdate, htime, hsep, htail, isDate_dateText hy hmo hd, isTime_timeText hh hmi hs, hyear, hmonth,
    hday, hhour, hminute, hsecond]
  rfl

theorem sign_of_isSign {c : Char} (h : isSign c = true) : ∃ negative, c = sign negative := by
  unfold isSign at h
  rw [Bool.or_eq_true, decide_eq_true_eq, decide_eq_true_eq] at h
  obtain rfl | rfl := h
  · exact ⟨false, rfl⟩
  · exact ⟨true, rfl⟩

theorem isSign_sign (negative : Bool) : isSign (sign negative) = true := by
  cases negative <;> rfl

/-- An offset with a colon, as `Date.parse` reads it. -/
theorem zoneSeconds_colon (negative : Bool) {h m : Nat} (hh : h < 100) (hm : m < 100) :
    zoneSeconds (sign negative :: (pad2 h ++ ':' :: pad2 m)) =
      if h < 24 && m < 60 then some (signed negative (h * 3600 + m * 60)) else none := by
  have hcolon : isColonZone (sign negative :: (pad2 h ++ ':' :: pad2 m)) = true := by
    have hall : (isSign (sign negative) && (pad2 h ++ pad2 m).all Char.isDigit) = true := by
      rw [isSign_sign, List.all_append, pad2_isDigit hh, pad2_isDigit hm]
      rfl
    exact hall
  have hhours : number (sign negative :: (pad2 h ++ ':' :: pad2 m)) 1 2 = h :=
    (ofDigitChars_pad2 hh 0).trans (by omega)
  have hminutes : number (sign negative :: (pad2 h ++ ':' :: pad2 m)) 4 2 = m :=
    (ofDigitChars_pad2 hm 0).trans (by omega)
  have hutc : sign negative :: (pad2 h ++ ':' :: pad2 m) ≠ ['Z'] := by
    intro heq
    cases (List.cons.inj heq).2
  unfold zoneSeconds
  rw [if_neg hutc, if_pos hcolon, hhours, hminutes]
  dsimp only
  have hvalue : (if (sign negative :: (pad2 h ++ ':' :: pad2 m)).head? = some '-' then (-1 : Int) else 1) *
      ((h * 60 + m) * 60 : Nat) = signed negative (h * 3600 + m * 60) := by
    cases negative
    · simp [sign, signed]
      ring
    · simp [sign, signed]
      ring
  rw [hvalue]

theorem isHourZone_text (negative : Bool) {h : Nat} (hh : h < 100) :
    isHourZone (sign negative :: pad2 h) = true := by
  have hall : (isSign (sign negative) && (pad2 h).all Char.isDigit) = true := by
    rw [isSign_sign, pad2_isDigit hh]
    rfl
  simpa [isHourZone, pad2, Bool.and_assoc] using hall

theorem isCompactZone_text (negative : Bool) {h m : Nat} (hh : h < 100) (hm : m < 100) :
    isCompactZone (sign negative :: (pad2 h ++ pad2 m)) = true := by
  have hall : (isSign (sign negative) && (pad2 h ++ pad2 m).all Char.isDigit) = true := by
    rw [isSign_sign, List.all_append, pad2_isDigit hh, pad2_isDigit hm]
    rfl
  exact hall

/-- What `tsMicros` hands over to `Date.parse` for an offset or for none. -/
def zoneArgument (zone : List Char) : List Char :=
  normalizeZone ((if zone = [] then none else some zone).getD ['Z'])

theorem zoneArgument_hours (negative : Bool) {h : Nat} (hh : h < 100) :
    zoneArgument (sign negative :: pad2 h) = sign negative :: (pad2 h ++ ':' :: pad2 0) := by
  unfold zoneArgument normalizeZone
  rw [if_neg (List.cons_ne_nil _ _), Option.getD_some, if_pos (isHourZone_text negative hh)]
  rfl

theorem zoneArgument_compact (negative : Bool) {h m : Nat} (hh : h < 100) (hm : m < 100) :
    zoneArgument (sign negative :: (pad2 h ++ pad2 m)) =
      sign negative :: (pad2 h ++ ':' :: pad2 m) := by
  unfold zoneArgument normalizeZone
  have hhours : isHourZone (sign negative :: (pad2 h ++ pad2 m)) ≠ true := by
    simp [isHourZone, pad2]
  rw [if_neg (List.cons_ne_nil _ _), Option.getD_some, if_neg hhours,
    if_pos (isCompactZone_text negative hh hm)]
  rfl

theorem zoneArgument_colon (negative : Bool) (h m : Nat) :
    zoneArgument (sign negative :: (pad2 h ++ ':' :: pad2 m)) =
      sign negative :: (pad2 h ++ ':' :: pad2 m) := by
  unfold zoneArgument normalizeZone
  rw [if_neg (List.cons_ne_nil _ _), Option.getD_some]
  simp [isHourZone, isCompactZone, pad2]

theorem zoneSeconds_text (z : Zone) : zoneSeconds (zoneArgument z.text) = some z.seconds := by
  cases z with
  | unmarked => rfl
  | utc => rfl
  | hours negative h =>
    have hh : h.val < 100 := by omega
    rw [Zone.text, zoneArgument_hours negative hh, zoneSeconds_colon negative hh (by omega)]
    simp [Zone.seconds, h.isLt]
  | compact negative h m =>
    have hh : h.val < 100 := by omega
    have hm : m.val < 100 := by omega
    rw [Zone.text, zoneArgument_compact negative hh hm, zoneSeconds_colon negative hh hm]
    simp [Zone.seconds, h.isLt, m.isLt]
  | colon negative h m =>
    have hh : h.val < 100 := by omega
    have hm : m.val < 100 := by omega
    rw [Zone.text, zoneArgument_colon, zoneSeconds_colon negative hh hm]
    simp [Zone.seconds, h.isLt, m.isLt]

theorem isZone_text (z : Zone) : z.text = [] ∨ isZone z.text = true := by
  cases z with
  | unmarked => exact .inl rfl
  | utc => exact .inr rfl
  | hours negative h =>
    refine .inr ?_
    unfold isZone Zone.text
    rw [isHourZone_text negative (by omega)]
    simp
  | compact negative h m =>
    refine .inr ?_
    unfold isZone Zone.text
    rw [isCompactZone_text negative (by omega) (by omega)]
    simp
  | colon negative h m =>
    refine .inr ?_
    have hall : (isSign (sign negative) && (pad2 h ++ pad2 m).all Char.isDigit) = true := by
      rw [isSign_sign, List.all_append, pad2_isDigit (by omega), pad2_isDigit (by omega)]
      rfl
    have hcolon : isColonZone (Zone.colon negative h m).text = true := hall
    unfold isZone
    rw [hcolon, Bool.or_true]

/-- The bounds of an offset that `Date.parse` reads. -/
theorem bounds_of_zoneSeconds {negative : Bool} {h m : Nat} (hh : h < 100) (hm : m < 100)
    (hoff : zoneSeconds (sign negative :: (pad2 h ++ ':' :: pad2 m)) = some off) :
    h < 24 ∧ m < 60 := by
  rw [zoneSeconds_colon negative hh hm] at hoff
  split at hoff
  · next hbounds => simpa using hbounds
  · cases hoff

/-- An offset in any of the accepted forms is the text of a zone. -/
theorem exists_zone {zone : List Char} (hzone : zone = [] ∨ isZone zone = true)
    (hoff : zoneSeconds (zoneArgument zone) = some off) : ∃ z : Zone, z.text = zone ∧ z.seconds = off := by
  suffices h : ∃ z : Zone, z.text = zone by
    obtain ⟨z, rfl⟩ := h
    exact ⟨z, rfl, Option.some.inj ((zoneSeconds_text z).symm.trans hoff)⟩
  obtain rfl | hzone := hzone
  · exact ⟨.unmarked, rfl⟩
  unfold isZone at hzone
  simp only [Bool.or_eq_true, decide_eq_true_eq] at hzone
  obtain ((rfl | hhours) | hcompact) | hcolon := hzone
  · exact ⟨.utc, rfl⟩
  · unfold isHourZone at hhours
    split at hhours
    · next s a b =>
      simp only [Bool.and_eq_true] at hhours
      obtain ⟨⟨hs, ha⟩, hb⟩ := hhours
      obtain ⟨negative, rfl⟩ := sign_of_isSign hs
      obtain ⟨h, hh, hab⟩ := exists_pad2 ha hb
      rw [hab, zoneArgument_hours negative hh] at hoff
      obtain ⟨hlt, -⟩ := bounds_of_zoneSeconds hh (by omega) hoff
      exact ⟨.hours negative ⟨h, hlt⟩, congrArg (sign negative :: ·) hab.symm⟩
    · cases hhours
  · unfold isCompactZone at hcompact
    split at hcompact
    · next s a b c d =>
      simp only [List.all_cons, List.all_nil, Bool.and_true, Bool.and_eq_true] at hcompact
      obtain ⟨hs, ha, hb, hc, hd⟩ := hcompact
      obtain ⟨negative, rfl⟩ := sign_of_isSign hs
      obtain ⟨h, hh, hab⟩ := exists_pad2 ha hb
      obtain ⟨m, hm, hcd⟩ := exists_pad2 hc hd
      have htext : sign negative :: (pad2 h ++ pad2 m) = [sign negative, a, b, c, d] := by
        rw [← hab, ← hcd]
        rfl
      rw [← htext, zoneArgument_compact negative hh hm] at hoff
      obtain ⟨hlt, hmlt⟩ := bounds_of_zoneSeconds hh hm hoff
      exact ⟨.compact negative ⟨h, hlt⟩ ⟨m, hmlt⟩, htext⟩
    · cases hcompact
  · unfold isColonZone at hcolon
    split at hcolon
    · next s a b c d =>
      simp only [List.all_cons, List.all_nil, Bool.and_true, Bool.and_eq_true] at hcolon
      obtain ⟨hs, ha, hb, hc, hd⟩ := hcolon
      obtain ⟨negative, rfl⟩ := sign_of_isSign hs
      obtain ⟨h, hh, hab⟩ := exists_pad2 ha hb
      obtain ⟨m, hm, hcd⟩ := exists_pad2 hc hd
      have htext : sign negative :: (pad2 h ++ ':' :: pad2 m) = [sign negative, a, b, ':', c, d] := by
        rw [← hab, ← hcd]
        rfl
      rw [← htext, zoneArgument_colon] at hoff
      obtain ⟨hlt, hmlt⟩ := bounds_of_zoneSeconds hh hm hoff
      exact ⟨.colon negative ⟨h, hlt⟩ ⟨m, hmlt⟩, htext⟩
    · cases hcolon

end Parts

/-! ## Which texts are accepted -/

section Accepted

variable {date time tail zone cs : List Char} {sep : Char} {ds : List (Fin 10)} {s : String} {n : Int}

/-- The capture of a fraction. -/
def fractionCapture (ds : List (Fin 10)) : Option (List Char) :=
  if ds = [] then none else some (digitText ds)

theorem splitFraction_text (z : Zone) :
    splitFraction (fractionText ds ++ z.text) = (fractionCapture ds, z.text) := by
  cases ds with
  | nil =>
    cases z with
    | unmarked => rfl
    | utc => rfl
    | _ negative => cases negative <;> rfl
  | cons d ds =>
    have hdigits := digitText_isDigit (d :: ds)
    have hzone : z.text.takeWhile Char.isDigit = [] ∧ z.text.dropWhile Char.isDigit = z.text := by
      cases z with
      | unmarked => exact ⟨rfl, rfl⟩
      | utc => exact ⟨rfl, rfl⟩
      | _ negative => cases negative <;> exact ⟨rfl, rfl⟩
    have hsplit : splitFraction ('.' :: (digitText (d :: ds) ++ z.text)) =
        (some ((digitText (d :: ds) ++ z.text).takeWhile Char.isDigit),
          (digitText (d :: ds) ++ z.text).dropWhile Char.isDigit) := rfl
    rw [List.takeWhile_append_of_pos hdigits, List.dropWhile_append_of_pos hdigits, hzone.1, hzone.2,
      List.append_nil] at hsplit
    exact hsplit

/-- A fraction of one to six digits, or none. -/
theorem exists_fraction {fraction : Option (List Char)} (h : splitFraction tail = (fraction, zone))
    (hlen : fraction.all (fun ds => 1 ≤ ds.length && ds.length ≤ 6) = true) :
    ∃ ds : List (Fin 10), ds.length ≤ 6 ∧ tail = fractionText ds ++ zone ∧
      fraction = fractionCapture ds := by
  unfold splitFraction at h
  split at h
  · next cs =>
    obtain ⟨rfl, rfl⟩ := Prod.mk.inj h
    have hdigits : ∀ c ∈ cs.takeWhile Char.isDigit, c.isDigit = true := fun c hc =>
      List.mem_takeWhile_imp hc
    obtain ⟨ds, hds⟩ := exists_digitText hdigits
    rw [hds] at hlen
    have hlength : (digitText ds).length = ds.length := List.length_map _
    simp only [Option.all_some, Bool.and_eq_true, decide_eq_true_eq, hlength] at hlen
    refine ⟨ds, hlen.2, ?_, ?_⟩
    · have hcs : cs = digitText ds ++ cs.dropWhile Char.isDigit := by
        rw [← hds, List.takeWhile_append_dropWhile]
      cases ds with
      | nil => exact absurd hlen.1 (by decide)
      | cons d ds => exact congrArg ('.' :: ·) hcs
    · unfold fractionCapture
      rw [if_neg (List.ne_nil_of_length_pos hlen.1), hds]
  · obtain ⟨rfl, rfl⟩ := Prod.mk.inj h
    exact ⟨[], by decide, rfl, rfl⟩

theorem exec_text (hdate : isDate date = true) (hdateLen : date.length = 10)
    (htime : isTime time = true) (htimeLen : time.length = 8) (hsep : sep = 'T' ∨ sep = ' ')
    (hlen : ds.length ≤ 6) (z : Zone) :
    exec (date ++ sep :: (time ++ (fractionText ds ++ z.text))) =
      some ⟨date, time, fractionCapture ds, if z.text = [] then none else some z.text⟩ := by
  have hfraction : (fractionCapture ds).all (fun ds => 1 ≤ ds.length && ds.length ≤ 6) = true := by
    cases ds with
    | nil => rfl
    | cons d ds =>
      have hlength : (digitText (d :: ds)).length = ds.length + 1 := List.length_map _
      rw [List.length_cons] at hlen
      simp [fractionCapture, hlength, hlen]
  have hzone := isZone_text z
  unfold exec
  rw [List.drop_left' hdateLen, List.take_left' hdateLen]
  dsimp only
  rw [List.take_left' htimeLen, List.drop_left' htimeLen, splitFraction_text]
  dsimp only
  rw [hdate, htime, hfraction, if_pos]
  simp [hsep, hzone]

/-- What the pattern matches. -/
theorem exec_eq_some {m : Captures} (h : exec cs = some m) :
    ∃ sep zone ds, (sep = 'T' ∨ sep = ' ') ∧ ds.length ≤ 6 ∧ isDate m.date = true ∧
      isTime m.time = true ∧ (zone = [] ∨ isZone zone = true) ∧
      cs = m.date ++ sep :: (m.time ++ (fractionText ds ++ zone)) ∧
      m.fraction = fractionCapture ds ∧ m.zone = if zone = [] then none else some zone := by
  unfold exec at h
  split at h
  · cases h
  · next sep rest hrest =>
    dsimp only at h
    cases hsplit : splitFraction (rest.drop 8) with
    | mk fraction zone =>
      rw [hsplit] at h
      dsimp only at h
      split at h
      · next hall =>
        cases h
        simp only [Bool.and_eq_true, Bool.or_eq_true, decide_eq_true_eq] at hall
        obtain ⟨⟨⟨⟨hdate, hsep⟩, htime⟩, hlen⟩, hzone⟩ := hall
        obtain ⟨ds, hds, htail, hfraction⟩ := exists_fraction hsplit hlen
        refine ⟨sep, zone, ds, hsep, hds, hdate, htime, hzone, ?_, hfraction, rfl⟩
        rw [← htail, List.take_append_drop, ← hrest, List.take_append_drop]
      · cases h

/-- The padded digits are microseconds. -/
theorem paddedFraction_value (hlen : ds.length ≤ 6) :
    Nat.ofDigitChars 10 (paddedFraction (fractionCapture ds)) 0 =
      digitsValue ds * 10 ^ (6 - ds.length) := by
  have hdigits : (fractionCapture ds).getD [] = digitText ds := by
    cases ds with
    | nil => rfl
    | cons d ds => rfl
  have hlength : (digitText ds).length = ds.length := List.length_map _
  unfold paddedFraction
  dsimp only
  rw [hdigits, hlength, Nat.ofDigitChars_append, Nat.ofDigitChars_replicate_zero,
    ofDigitChars_digitText, Nat.mul_comm]
  rfl

theorem inMonth_date (d : Date) : inMonth d.year d.month d.day = true := by
  unfold inMonth
  simp [d.month_pos, d.month_le, d.day_pos, d.day_le]

theorem inDay_lt {hour minute second : Nat} (h : inDay hour minute second = true) :
    hour < 100 ∧ minute < 100 ∧ second < 100 := by
  unfold inDay at h
  simp only [Bool.and_eq_true, Bool.or_eq_true, decide_eq_true_eq] at h
  omega

theorem Date.month_day_lt (d : Date) : d.month < 100 ∧ d.day < 100 := by
  have hmonth := d.month_le
  have hday := d.day_le
  have hlength : monthLength d.year d.month ≤ 31 := by
    unfold monthLength
    split
    · split <;> omega
    · split <;> omega
  omega

/-- The text of a stamp is accepted, and gives its instant. -/
theorem tsMicros_text (t : Stamp) (h : t.text = s.toList) : tsMicros s = some t.instant := by
  obtain ⟨hmonth, hday⟩ := Date.month_day_lt t.date
  obtain ⟨hhour, hminute, hsecond⟩ := inDay_lt t.inDay
  have hexec := exec_text (isDate_dateText t.year_lt hmonth hday) length_dateText
    (isTime_timeText hhour hminute hsecond) length_timeText t.sep_ok t.fraction_le t.zone
  unfold tsMicros
  rw [← h, Stamp.text, hexec, Option.bind_some]
  dsimp only
  rw [dateParse_text t.year_lt hmonth hday hhour hminute hsecond]
  have hzone := zoneSeconds_text t.zone
  unfold zoneArgument at hzone
  rw [hzone, Option.bind_some, inMonth_date, t.inDay, Bool.and_self, if_pos rfl, Option.map_some,
    paddedFraction_value t.fraction_le, makeDay_eq]
  refine congrArg some ?_
  unfold Stamp.instant Stamp.secondOfDay Stamp.micros
  push_cast
  ring

/-- What is accepted is the text of a stamp. -/
theorem exists_stamp (h : tsMicros s = some n) : ∃ t : Stamp, t.text = s.toList := by
  obtain ⟨m, hexec, hvalue⟩ := Option.bind_eq_some_iff.mp h
  obtain ⟨sep, zone, ds, hsep, hds, hdate, htime, hzone, htext, -, hzoneCapture⟩ := exec_eq_some hexec
  obtain ⟨year, month, day, hy, hmo, hd, hdateText⟩ := exists_dateText hdate
  obtain ⟨hour, minute, second, hh, hmi, hs, htimeText⟩ := exists_timeText htime
  obtain ⟨ms, hms, -⟩ := Option.map_eq_some_iff.mp hvalue
  rw [hdateText, htimeText, dateParse_text hy hmo hd hh hmi hs] at hms
  obtain ⟨off, hoff, hms⟩ := Option.bind_eq_some_iff.mp hms
  rw [hzoneCapture] at hoff
  obtain ⟨z, rfl, -⟩ := exists_zone hzone hoff
  split at hms
  · next hvalid =>
    rw [Bool.and_eq_true] at hvalid
    obtain ⟨hinMonth, hinDay⟩ := hvalid
    unfold inMonth at hinMonth
    simp only [Bool.and_eq_true, decide_eq_true_eq] at hinMonth
    obtain ⟨⟨⟨hmonthPos, hmonthLe⟩, hdayPos⟩, hdayLe⟩ := hinMonth
    refine ⟨⟨⟨year, month, day, hmonthPos, hmonthLe, hdayPos, hdayLe⟩, hy, sep, hsep, hour, minute, second,
      hinDay, ds, hds, z⟩, ?_⟩
    rw [htext, hdateText, htimeText]
    rfl
  · cases hms

/-- `tsMicros` accepts the timestamps and gives the instant each one denotes. -/
theorem tsMicros_eq_some_iff : tsMicros s = some n ↔ Denotes s n := by
  constructor
  · intro h
    obtain ⟨t, htext⟩ := exists_stamp h
    exact ⟨t, htext, Option.some.inj ((tsMicros_text t htext).symm.trans h)⟩
  · rintro ⟨t, htext, rfl⟩
    exact tsMicros_text t htext

end Accepted

/-! ## The characters of a timestamp -/

def isStampChar (c : Char) : Bool := c.isDigit || c ∈ ['-', ':', 'T', ' ', '.', '+', 'Z']

theorem all_isStampChar {cs : List Char} (h : cs.all Char.isDigit = true) :
    cs.all isStampChar = true :=
  List.all_eq_true.mpr fun c hc => by
    unfold isStampChar
    rw [List.all_eq_true.mp h c hc, Bool.true_or]

theorem pad2_isStampChar {n : Nat} (h : n < 100) : (pad2 n).all isStampChar = true :=
  all_isStampChar (pad2_isDigit h)

theorem Zone.text_isStampChar (z : Zone) : z.text.all isStampChar = true := by
  have hsign : ∀ negative, isStampChar (sign negative) = true := by decide
  cases z with
  | unmarked => rfl
  | utc => rfl
  | hours negative h =>
    rw [Zone.text, List.all_cons, hsign, pad2_isStampChar (by omega)]
    rfl
  | compact negative h m =>
    rw [Zone.text, List.all_cons, hsign, List.all_append, pad2_isStampChar (by omega),
      pad2_isStampChar (by omega)]
    rfl
  | colon negative h m =>
    rw [Zone.text, List.all_cons, hsign, List.all_append, List.all_cons, pad2_isStampChar (by omega),
      pad2_isStampChar (by omega)]
    rfl

theorem Stamp.text_isStampChar (t : Stamp) : t.text.all isStampChar = true := by
  obtain ⟨hmonth, hday⟩ := Date.month_day_lt t.date
  obtain ⟨hhour, hminute, hsecond⟩ := inDay_lt t.inDay
  have hyear := t.year_lt
  have hsep : isStampChar t.sep = true := by
    obtain h | h := t.sep_ok <;> rw [h] <;> rfl
  have hfraction : (fractionText t.fraction).all isStampChar = true := by
    cases t.fraction with
    | nil => rfl
    | cons d ds =>
      have hdigits := all_isStampChar (List.all_eq_true.mpr (digitText_isDigit (d :: ds)))
      rw [fractionText, List.all_cons, hdigits]
      · rfl
      · exact List.cons_ne_nil _ _
  have hdash : isStampChar '-' = true := rfl
  have hcolon : isStampChar ':' = true := rfl
  simp only [Stamp.text, dateText, timeText, pad4, List.all_append, List.all_cons, hsep, hfraction, hdash,
    hcolon, t.zone.text_isStampChar, pad2_isStampChar hmonth, pad2_isStampChar hday,
    pad2_isStampChar hhour, pad2_isStampChar hminute, pad2_isStampChar hsecond,
    pad2_isStampChar (show t.date.year / 100 < 100 by omega),
    pad2_isStampChar (show t.date.year % 100 < 100 by omega), Bool.and_self]

/-! ## Order -/

theorem digitsValue_lt (ds : List (Fin 10)) : digitsValue ds < 10 ^ ds.length := by
  induction ds using List.reverseRecOn with
  | nil => decide
  | append_singleton ds d ih =>
    have hd := d.isLt
    unfold digitsValue at ih ⊢
    rw [List.foldl_append, List.length_append, List.length_singleton, Nat.pow_succ]
    simp only [List.foldl_cons, List.foldl_nil]
    omega

theorem Stamp.micros_lt (t : Stamp) : t.micros < 1000000 := by
  have hlen := t.fraction_le
  have hpow : 10 ^ t.fraction.length * 10 ^ (6 - t.fraction.length) = 1000000 := by
    rw [← Nat.pow_add, Nat.add_sub_cancel' hlen]
  calc t.micros < 10 ^ t.fraction.length * 10 ^ (6 - t.fraction.length) :=
        Nat.mul_lt_mul_of_pos_right (digitsValue_lt _) (Nat.pos_of_ne_zero (by positivity))
    _ = 1000000 := hpow

/-- Before the end of the day, stamps of one zone denote instants in the order of the
calendar: by date, then by the time of day, then by the fraction. -/
theorem Stamp.instant_lt_iff (a b : Stamp) (hzone : a.zone.seconds = b.zone.seconds) (ha : a.hour < 24)
    (hb : b.hour < 24) : a.instant < b.instant ↔
      a.date.dayNumber < b.date.dayNumber ∨ a.date.dayNumber = b.date.dayNumber ∧
        (a.secondOfDay < b.secondOfDay ∨ a.secondOfDay = b.secondOfDay ∧ a.micros < b.micros) := by
  have haDay := a.inDay
  have hbDay := b.inDay
  unfold CrossProject.inDay at haDay hbDay
  simp only [Bool.and_eq_true, Bool.or_eq_true, decide_eq_true_eq] at haDay hbDay
  have haSecond : a.secondOfDay < 86400 := by
    unfold secondOfDay
    omega
  have hbSecond : b.secondOfDay < 86400 := by
    unfold secondOfDay
    omega
  have haMicros := a.micros_lt
  have hbMicros := b.micros_lt
  unfold instant
  omega

end SupabaseLab.CrossProject
