/-
  RestorePaths/Pgoutput.lean --- the binary format of a slot, next to its JSON format.

  Source: `parsePgoutput`, `lsnToBig` and `bigToLsn` of experiments/restore-paths/lib/slots.ts,
  against `parseWal2json`.

  The plugins are no part of the sources.  `Pgoutput` is the layout of the messages of
  proto_version 1 and `Wal2jsonLine` says what a line of format 2 with include-lsn holds.  Both
  deliver the same actions, and both parsers read back the transactions they are made of.
-/
import SupabaseLab.Library.BigEndian
import SupabaseLab.Library.Buffers
import SupabaseLab.RestorePaths.Wal2json

set_option autoImplicit false

namespace SupabaseLab.RestorePaths

open Library

/-! ## parsePgoutput -/

/-- `Number.isFinite`: the exponent of a double that is none is all ones. -/
def JsNum.isFinite : JsNum → Bool
  | .int _ => true
  | .other bits => bits / 2 ^ 52 % 2048 ≠ 2047

/-- `Number(text)`; what it makes of a text that is no integer is a parameter. -/
def numberOfText (convert : JsText → JsNum) (text : JsText) : JsNum :=
  match integer? text with
  | some z => rounded z
  | none => convert text

/-- `String.fromCharCode(m[o] ?? 0) === c`. -/
def byteIs (m : Bytes) (o : ℕ) (c : Char) : Bool := (m[o]?.getD 0).toNat = c.toNat

/-- The id of an insert, if it has one; the outer `none` when it throws. -/
def pgInsertedId (convert : JsText → JsNum) (m : Bytes) : Option (Option JsNum) := do
  -- 'I' int32 relid, 'N', int16 ncols, then per column a kind byte
  if byteIs m 5 'N' = false then return none
  let ncols ← readIntBE 2 m 6
  if ncols < 1 then return none
  if byteIs m 8 't' = false then return none
  let len ← readIntBE 4 m 9
  let id := numberOfText convert (readUtf8 (subarray m 13 (13 + len)))
  return if id.isFinite then some id else none

/-- One round of the loop of `parsePgoutput`. -/
def parseMessage (convert : JsText → JsNum) (parsed : Parsed) (m : Bytes) : Option Parsed :=
  if byteIs m 0 'B' then some (parsed.1, some ⟨0, []⟩)
  else
    match parsed.2 with
    | none => some parsed
    | some cur =>
        if byteIs m 0 'I' then
          (pgInsertedId convert m).map fun
            | some id => (parsed.1, some { cur with ids := cur.ids ++ [id] })
            | none => parsed
        else if byteIs m 0 'C' then
          -- 'C' int8 flags, int64 commit lsn, int64 end lsn, int64 ts
          (readUIntBE 8 m 10).map fun endLsn => (parsed.1 ++ [{ cur with endLsn := endLsn }], none)
        else some parsed

/-- `none` when it throws. -/
def parsePgoutput (convert : JsText → JsNum) (msgs : List Bytes) : Option (List DecodedTx) :=
  (msgs.foldlM (parseMessage convert) ([], none)).map Prod.fst

/-! ## What the plugins write -/

/-- An integer as the server writes it, in decimal digits. -/
def decimal (z : ℤ) : JsText :=
  let digits := (Nat.toDigits 10 z.natAbs).map Char.toNat
  if z < 0 then '-'.toNat :: digits else digits

/-- A column of a tuple: its kind byte and its value. -/
inductive PgColumn where
  | null
  | unchanged
  | text (value : Bytes)
  deriving DecidableEq

def PgColumn.bytes : PgColumn → Bytes
  | .null => [110]
  | .unchanged => [117]
  | .text value => 116 :: (bytesBE 4 value.length ++ value)

/-- 'B', int64 final lsn, int64 ts, int32 xid. -/
def beginMessage (finalLsn ts xid : ℕ) : Bytes :=
  66 :: (bytesBE 8 finalLsn ++ bytesBE 8 ts ++ bytesBE 4 xid)

/-- 'I', int32 relid, 'N', int16 ncols, the columns. -/
def insertMessage (relid : ℕ) (columns : List PgColumn) : Bytes :=
  73 :: (bytesBE 4 relid ++ 78 :: (bytesBE 2 columns.length ++ columns.flatMap PgColumn.bytes))

/-- 'C', int8 flags, int64 commit lsn, int64 end lsn, int64 ts. -/
def commitMessage (flags : UInt8) (commitLsn endLsn ts : ℕ) : Bytes :=
  67 :: flags :: (bytesBE 8 commitLsn ++ (bytesBE 8 endLsn ++ bytesBE 8 ts))

/-- The first column of the table. -/
def idColumn (id : ℤ) : PgColumn := .text ((decimal id).map UInt8.ofNat)

/-- A message of proto_version 1. -/
def Pgoutput (m : Bytes) : Action → Prop
  | .begin => ∃ finalLsn ts xid, m = beginMessage finalLsn ts xid
  | .insert id =>
      -- the number of columns is an int16
      ∃ relid others, others.length + 1 < 2 ^ 15 ∧ m = insertMessage relid (idColumn id :: others)
  | .elsewhere =>
      -- a relation, a type or an origin
      ∃ kind rest, kind ∈ ['R', 'Y', 'O'] ∧ m = UInt8.ofNat kind.toNat :: rest
  | .commit endLsn =>
      endLsn < 2 ^ 64 ∧ ∃ flags commitLsn ts, m = commitMessage flags commitLsn endLsn ts

/-- A line of format 2 with include-lsn. -/
def Wal2jsonLine (line : JsText) (a : Action) : Prop :=
  ∃ j, JsonText.parse line = some j ∧
    match a with
    | .insert id =>
        Says j "action" (units "I") ∧ Says j "table" (units "rp_slot_events") ∧
          ∃ before column after,
            j.get? (units "columns") = some (some (.arr (before ++ column :: after))) ∧
            (∀ c ∈ before, ∃ name, Says c "name" name ∧ name ≠ units "id") ∧
            Says column "name" (units "id") ∧
            column.get? (units "value") = some (some (.num (decimal id)))
    | .commit endLsn => Says j "action" (units "C") ∧ Says j "nextlsn" (units (bigToLsn endLsn))
    | a => Describes j a

/-- The actions of a transaction. -/
def WalTx.actions (tx : WalTx) : List Action := .begin :: (tx.ids.map .insert ++ [.commit tx.endLsn])

/-- These transactions, then perhaps one that is not complete; other messages stand anywhere
in between. -/
def Delivers (txs : List WalTx) (actions : List Action) : Prop :=
  ∃ last, actions.filter (· ≠ .elsewhere) = txs.flatMap WalTx.actions ++ last ∧
    (last = [] ∨ ∃ ids : List ℤ, last = .begin :: ids.map .insert)

/-- A transaction as the parsers return it. -/
def WalTx.numbered (tx : WalTx) : DecodedTx := ⟨tx.endLsn, tx.ids.map .int⟩

section Digits

variable {n b : ℕ}

/-! ## Digits -/

theorem toDigits_snoc (hb : 1 < b) (h : b ≤ n) :
    Nat.toDigits b n = Nat.toDigits b (n / b) ++ [Nat.digitChar (n % b)] :=
  Nat.toDigits_of_base_le hb h

theorem mem_toDigits (hb : 1 < b) {c : Char} (h : c ∈ Nat.toDigits b n) :
    ∃ d < b, c = Nat.digitChar d := by
  induction n using Nat.strongRecOn with
  | ind n ih =>
    by_cases hn : n < b
    · rw [Nat.toDigits_of_lt_base hn, List.mem_singleton] at h
      exact ⟨n, hn, h⟩
    · rw [toDigits_snoc hb (Nat.not_lt.mp hn), List.mem_append, List.mem_singleton] at h
      rcases h with h | h
      · exact ih (n / b) (Nat.div_lt_self (by omega) hb) h
      · exact ⟨n % b, Nat.mod_lt _ (by omega), h⟩

theorem utf16_ascii : ∀ {cs : List Char}, (∀ c ∈ cs, c.toNat < 0x10000) → utf16 cs = cs.map Char.toNat
  | [], _ => rfl
  | c :: cs, h => by
    obtain ⟨hc, hcs⟩ := List.forall_mem_cons.mp h
    rw [utf16_cons_of_lt hc, utf16_ascii hcs, List.map_cons]

/-! ### Hexadecimal -/

/-- What there is to know of an upper-case digit. -/
theorem upperDigit {d : ℕ} (h : d < 16) : hexDigit? (Nat.digitChar d).toUpper.toNat = some d ∧
    (Nat.digitChar d).toUpper.toNat < 0x80 ∧ isBlank (Nat.digitChar d).toUpper.toNat = false ∧
    (Nat.digitChar d).toUpper.toNat ≠ '/'.toNat := by
  have hall : ∀ d ∈ List.range 16, hexDigit? (Nat.digitChar d).toUpper.toNat = some d ∧
      (Nat.digitChar d).toUpper.toNat < 0x80 ∧ isBlank (Nat.digitChar d).toUpper.toNat = false ∧
      (Nat.digitChar d).toUpper.toNat ≠ '/'.toNat := by decide
  exact hall d (List.mem_range.mpr h)

/-- The code units of `hexUpper`. -/
def hexUnits (n : ℕ) : JsText := (Nat.toDigits 16 n).map fun c => c.toUpper.toNat

theorem mem_hexUnits {u : ℕ} (h : u ∈ hexUnits n) :
    u < 0x80 ∧ isBlank u = false ∧ u ≠ '/'.toNat := by
  obtain ⟨c, hc, rfl⟩ := List.mem_map.mp h
  obtain ⟨d, hd, rfl⟩ := mem_toDigits (by decide) hc
  exact (upperDigit hd).2

theorem units_hexUpper (n : ℕ) : units (hexUpper n) = hexUnits n := by
  unfold units hexUpper hexUnits
  rw [String.toList_ofList, utf16_ascii, List.map_map]
  · rfl
  · intro c hc
    obtain ⟨c', hc', rfl⟩ := List.mem_map.mp hc
    obtain ⟨d, hd, rfl⟩ := mem_toDigits (by decide) hc'
    have hlt := (upperDigit hd).2.1
    omega

theorem foldlM_hexUnits (n : ℕ) :
    (hexUnits n).foldlM (fun n u => (hexDigit? u).map (16 * n + ·)) 0 = some n := by
  induction n using Nat.strongRecOn with
  | ind n ih =>
    by_cases hn : n < 16
    · simp [hexUnits, Nat.toDigits_of_lt_base hn, (upperDigit hn).1]
    · have hlast : n % 16 < 16 := Nat.mod_lt _ (by decide)
      have hsplit : hexUnits n =
          hexUnits (n / 16) ++ [(Nat.digitChar (n % 16)).toUpper.toNat] := by
        unfold hexUnits
        rw [toDigits_snoc (by decide) (Nat.not_lt.mp hn), List.map_append]
        rfl
      rw [hsplit, List.foldlM_append, ih (n / 16) (by omega)]
      simp [(upperDigit hlast).1, Nat.div_add_mod]

theorem hexValue_hexUnits (n : ℕ) : hexValue (hexUnits n) = some n := by
  have hne : hexUnits n ≠ [] := by simp [hexUnits]
  rw [hexValue, if_neg hne, foldlM_hexUnits]

/-- A text without blanks is left as it is. -/
theorem trim_eq_self {s : JsText} (h : ∀ u ∈ s, isBlank u = false) : trim s = s := by
  have hdrop : ∀ t : JsText, (∀ u ∈ t, isBlank u = false) → t.dropWhile isBlank = t := by
    intro t ht
    cases t with
    | nil => rfl
    | cons u t => exact List.dropWhile_cons_of_neg (Bool.eq_false_iff.mp (ht u List.mem_cons_self))
  rw [trim, hdrop s h, hdrop s.reverse fun u hu => h u (List.mem_reverse.mp hu), List.reverse_reverse]

theorem units_bigToLsn (x : ℕ) : units (bigToLsn x) =
    hexUnits (x / 2 ^ 32) ++ '/'.toNat :: hexUnits (x % 2 ^ 32) := by
  have hsplit : units (bigToLsn x) =
      units (hexUpper (x / 2 ^ 32)) ++ (units "/" ++ units (hexUpper (x % 2 ^ 32))) := by
    unfold bigToLsn units
    rw [String.toList_append, String.toList_append, utf16_append, utf16_append, List.append_assoc]
  rw [hsplit, units_hexUpper, units_hexUpper]
  rfl

/-- What is printed is read back. -/
theorem lsnToBig_bigToLsn (x : ℕ) : lsnToBig (units (bigToLsn x)) = some x := by
  rw [units_bigToLsn]
  generalize hhigh : x / 2 ^ 32 = high
  generalize hlow : x % 2 ^ 32 = low
  have hblank : ∀ u ∈ hexUnits high ++ '/'.toNat :: hexUnits low, isBlank u = false := by
    intro u hu
    rw [List.mem_append, List.mem_cons] at hu
    rcases hu with hu | rfl | hu
    · exact (mem_hexUnits hu).2.1
    · decide
    · exact (mem_hexUnits hu).2.1
  have hslash : ∀ u ∈ hexUnits high, decide (u ≠ '/'.toNat) = true := fun u hu =>
    decide_eq_true (mem_hexUnits hu).2.2
  unfold lsnToBig
  dsimp only
  rw [trim_eq_self hblank, List.dropWhile_append_of_pos hslash, List.takeWhile_append_of_pos hslash]
  simp only [List.dropWhile_cons, List.takeWhile_cons, ne_eq, not_true_eq_false, decide_false,
    Bool.false_eq_true, if_false, List.append_nil, hexValue_hexUnits]
  have hback : high * 2 ^ 32 + low = x := by omega
  exact congrArg some hback

/-! ### Decimal -/

theorem decimalDigit {d : ℕ} (h : d < 10) : JsonText.isDigitUnit (Nat.digitChar d).toNat = true ∧
    (Nat.digitChar d).toNat < 0x80 ∧ (Nat.digitChar d).toNat ≠ '-'.toNat := by
  have hall : ∀ d ∈ List.range 10, JsonText.isDigitUnit (Nat.digitChar d).toNat = true ∧
      (Nat.digitChar d).toNat < 0x80 ∧ (Nat.digitChar d).toNat ≠ '-'.toNat := by decide
  exact hall d (List.mem_range.mpr h)

/-- The digits of a number. -/
def decimalUnits (n : ℕ) : JsText := (Nat.toDigits 10 n).map Char.toNat

theorem mem_decimalUnits {u : ℕ} (h : u ∈ decimalUnits n) :
    JsonText.isDigitUnit u = true ∧ u < 0x80 ∧ u ≠ '-'.toNat := by
  obtain ⟨c, hc, rfl⟩ := List.mem_map.mp h
  obtain ⟨d, hd, rfl⟩ := mem_toDigits (by decide) hc
  exact decimalDigit hd

theorem foldl_decimalUnits (n : ℕ) :
    (decimalUnits n).foldl (fun n u => 10 * n + (u - 48)) 0 = n := by
  unfold decimalUnits
  rw [List.foldl_map]
  exact Nat.ofDigitChars_ten_toDigits

/-- An integer in decimal digits is that integer. -/
theorem integer?_decimal (z : ℤ) : integer? (decimal z) = some z := by
  have hne : decimalUnits z.natAbs ≠ [] := by simp [decimalUnits]
  have hall : (decimalUnits z.natAbs).all JsonText.isDigitUnit = true :=
    List.all_eq_true.mpr fun u hu => (mem_decimalUnits hu).1
  by_cases hz : z < 0
  · have heq : decimal z = '-'.toNat :: decimalUnits z.natAbs := if_pos hz
    have hhead : ('-'.toNat :: decimalUnits z.natAbs).head? = some '-'.toNat := rfl
    rw [heq]
    unfold integer?
    dsimp only
    rw [if_pos hhead, List.tail_cons, if_pos ⟨hne, hall⟩, foldl_decimalUnits, if_pos hhead]
    congr 1
    omega
  · have heq : decimal z = decimalUnits z.natAbs := if_neg hz
    have hhead : (decimalUnits z.natAbs).head? ≠ some '-'.toNat := fun h =>
      (mem_decimalUnits (List.mem_of_mem_head? h)).2.2 rfl
    rw [heq]
    unfold integer?
    dsimp only
    rw [if_neg hhead, if_pos ⟨hne, hall⟩, foldl_decimalUnits, if_neg hhead]
    congr 1
    omega

theorem decimal_lt {z : ℤ} {u : ℕ} (h : u ∈ decimal z) : u < 0x80 := by
  unfold decimal at h
  dsimp only at h
  split at h
  · rcases List.mem_cons.mp h with rfl | h
    · decide
    · exact (mem_decimalUnits h).2.1
  · exact (mem_decimalUnits h).2.1

end Digits

section Messages

variable {convert : JsText → JsNum} {g : Grouped} {m : Bytes} {id : ℤ} {relid : ℕ}
  {others : List PgColumn}

/-! ## Messages -/

theorem byteIs_append {front : Bytes} {o : ℕ} (hfront : front.length = o) (x : UInt8) (rest : Bytes)
    (c : Char) : byteIs (front ++ x :: rest) o c = decide (x.toNat = c.toNat) := by
  subst hfront
  simp [byteIs]

/-- An integer's text comes back as its bytes are read. -/
theorem readUtf8_decimal (id : ℤ) : readUtf8 ((decimal id).map UInt8.ofNat) = decimal id := by
  have hvalue : ∀ u ∈ decimal id, (UInt8.ofNat u).toNat = u := fun u hu => by
    have hlt := decimal_lt hu
    rw [UInt8.toNat_ofNat']
    omega
  have hascii : ∀ b ∈ (decimal id).map UInt8.ofNat, b.toNat < 0x80 := by
    intro b hb
    obtain ⟨u, hu, rfl⟩ := List.mem_map.mp hb
    rw [hvalue u hu]
    exact decimal_lt hu
  have hread := readUtf8_ascii hascii []
  rw [List.append_nil, List.map_map] at hread
  rw [hread]
  calc (decimal id).map (UInt8.toNat ∘ UInt8.ofNat) ++ readUtf8 []
      = (decimal id).map (UInt8.toNat ∘ UInt8.ofNat) := List.append_nil _
    _ = (decimal id).map fun u => u := List.map_congr_left hvalue
    _ = decimal id := List.map_id' _

/-- The text of an id is short. -/
theorem length_decimal (h : id.natAbs < 2 ^ 53) : (decimal id).length ≤ 17 := by
  have hdigits : (Nat.toDigits 10 id.natAbs).length ≤ 16 :=
    (Nat.length_toDigits_le_iff (by decide) (by decide)).mpr (by omega)
  unfold decimal
  dsimp only
  split
  · rw [List.length_cons, List.length_map]
    omega
  · rw [List.length_map]
    omega

theorem subarray_append {front : Bytes} {o : ℕ} (hfront : front.length = o) (middle rest : Bytes) :
    subarray (front ++ (middle ++ rest)) o ((o : ℤ) + middle.length) = middle := by
  subst hfront
  rw [← List.append_assoc]
  unfold subarray
  rw [← Int.natCast_add, fromStart_natCast, fromStart_natCast]
  exact slice_append_middle front middle rest

/-- The offsets of `parsePgoutput` are those of the fields. -/
theorem pgInsertedId_insertMessage (hid : id.natAbs < 2 ^ 53) (hcols : others.length + 1 < 2 ^ 15) :
    pgInsertedId convert (insertMessage relid (idColumn id :: others)) = some (some (.int id)) := by
  generalize htext : (decimal id).map UInt8.ofNat = text
  have hlength : text.length ≤ 17 := by
    rw [← htext, List.length_map]
    exact length_decimal hid
  -- the message, as it is cut at each of its fields
  let ncols := bytesBE 2 (others.length + 1)
  let len := bytesBE 4 text.length
  let rest := others.flatMap PgColumn.bytes
  have hmessage : insertMessage relid (idColumn id :: others) =
      (73 :: bytesBE 4 relid) ++ 78 :: (ncols ++ 116 :: (len ++ (text ++ rest))) := by
    simp [insertMessage, idColumn, PgColumn.bytes, htext, ncols, len, rest]
  have hcount : (73 :: bytesBE 4 relid) ++ 78 :: (ncols ++ 116 :: (len ++ (text ++ rest))) =
      (73 :: bytesBE 4 relid ++ [78]) ++ (ncols ++ 116 :: (len ++ (text ++ rest))) := by simp
  have hkind : (73 :: bytesBE 4 relid) ++ 78 :: (ncols ++ 116 :: (len ++ (text ++ rest))) =
      (73 :: bytesBE 4 relid ++ [78] ++ ncols) ++ 116 :: (len ++ (text ++ rest)) := by simp
  have hlen : (73 :: bytesBE 4 relid) ++ 78 :: (ncols ++ 116 :: (len ++ (text ++ rest))) =
      (73 :: bytesBE 4 relid ++ [78] ++ ncols ++ [116]) ++ (len ++ (text ++ rest)) := by simp
  have hvalue : (73 :: bytesBE 4 relid) ++ 78 :: (ncols ++ 116 :: (len ++ (text ++ rest))) =
      (73 :: bytesBE 4 relid ++ [78] ++ ncols ++ [116] ++ len) ++ (text ++ rest) := by simp
  have hN : byteIs (insertMessage relid (idColumn id :: others)) 5 'N' = true := by
    rw [hmessage, byteIs_append (by simp)]
    rfl
  have hncols : readIntBE 2 (insertMessage relid (idColumn id :: others)) 6 =
      some ((others.length + 1 : ℕ) : ℤ) := by
    rw [hmessage, hcount]
    exact readIntBE_append (by simp) _ (by omega)
  have ht : byteIs (insertMessage relid (idColumn id :: others)) 8 't' = true := by
    rw [hmessage, hkind, byteIs_append (by simp [ncols])]
    rfl
  have hsize : readIntBE 4 (insertMessage relid (idColumn id :: others)) 9 = some (text.length : ℤ) := by
    rw [hmessage, hlen]
    exact readIntBE_append (by simp [ncols]) _ (by omega)
  have hsub : subarray (insertMessage relid (idColumn id :: others)) 13 (13 + (text.length : ℤ)) =
      text := by
    rw [hmessage, hvalue]
    exact subarray_append (o := 13) (by simp [ncols, len]) _ _
  have hnumber : numberOfText convert (readUtf8 text) = .int id := by
    rw [← htext, readUtf8_decimal, numberOfText, integer?_decimal]
    exact rounded_of_lt hid
  simp [pgInsertedId, hN, hncols, ht, hsize, hsub, hnumber, JsNum.isFinite]

/-- Each message is read as its action. -/
theorem parseMessage_pgoutput {a : Action} (h : Pgoutput m a)
    (hid : ∀ id, a = .insert id → id.natAbs < 2 ^ 53) :
    parseMessage convert g.decoded m = some (group g a).decoded := by
  obtain ⟨txs, cur⟩ := g
  cases a with
  | begin =>
    obtain ⟨finalLsn, ts, xid, rfl⟩ := h
    rfl
  | insert id =>
    obtain ⟨relid, others, hcols, rfl⟩ := h
    have hinserted : pgInsertedId convert (insertMessage relid (idColumn id :: others)) =
        some (some (.int id)) :=
      pgInsertedId_insertMessage (hid id rfl) hcols
    have hB : byteIs (insertMessage relid (idColumn id :: others)) 0 'B' = false := rfl
    have hI : byteIs (insertMessage relid (idColumn id :: others)) 0 'I' = true := rfl
    cases cur with
    | none => simp [parseMessage, hB, group, Grouped.decoded]
    | some ids =>
      simp [parseMessage, hB, hI, hinserted, group, Grouped.decoded, rounded_of_lt (hid id rfl)]
  | elsewhere =>
    obtain ⟨kind, rest, hkind, rfl⟩ := h
    have hskip : byteIs (UInt8.ofNat kind.toNat :: rest) 0 'B' = false ∧
        byteIs (UInt8.ofNat kind.toNat :: rest) 0 'I' = false ∧
        byteIs (UInt8.ofNat kind.toNat :: rest) 0 'C' = false := by
      simp only [List.mem_cons, List.not_mem_nil, or_false] at hkind
      rcases hkind with rfl | rfl | rfl <;> exact ⟨rfl, rfl, rfl⟩
    cases cur with
    | none => simp [parseMessage, hskip.1, group, Grouped.decoded]
    | some ids => simp [parseMessage, hskip.1, hskip.2.1, hskip.2.2, group, Grouped.decoded]
  | commit endLsn =>
    obtain ⟨hend, flags, commitLsn, ts, rfl⟩ := h
    have hB : byteIs (commitMessage flags commitLsn endLsn ts) 0 'B' = false := rfl
    have hI : byteIs (commitMessage flags commitLsn endLsn ts) 0 'I' = false := rfl
    have hC : byteIs (commitMessage flags commitLsn endLsn ts) 0 'C' = true := rfl
    have hmod : endLsn % 256 ^ 8 = endLsn := Nat.mod_eq_of_lt (by omega)
    have hread : readUIntBE 8 (commitMessage flags commitLsn endLsn ts) 10 = some endLsn := by
      have hmessage : commitMessage flags commitLsn endLsn ts =
          (67 :: flags :: bytesBE 8 commitLsn) ++ (bytesBE 8 endLsn ++ bytesBE 8 ts) := by
        simp [commitMessage]
      rw [hmessage, readUIntBE_append (by simp), hmod]
    cases cur with
    | none => simp [parseMessage, hB, group, Grouped.decoded]
    | some ids =>
      simp [parseMessage, hB, hI, hC, hread, group, Grouped.decoded, WalTx.decoded]

/-- A line with include-lsn is a line of format 2. -/
theorem Wal2jsonLine.describes {line : JsText} {a : Action} (h : Wal2jsonLine line a) :
    ∃ j, JsonText.parse line = some j ∧ Describes j a := by
  obtain ⟨j, hparse, hj⟩ := h
  refine ⟨j, hparse, ?_⟩
  cases a with
  | begin => exact hj
  | insert id =>
    obtain ⟨haction, htable, before, column, after, hcolumns, hbefore, hname, hvalue⟩ := hj
    exact ⟨haction, htable, before, column, after, decimal id, hcolumns, hbefore, hname, hvalue,
      integer?_decimal id⟩
  | elsewhere => exact hj
  | commit endLsn =>
    refine ⟨hj.1, units (bigToLsn endLsn), hj.2, fun u hu => ?_, lsnToBig_bigToLsn endLsn⟩
    rw [units_bigToLsn, List.mem_append, List.mem_cons] at hu
    rcases hu with hu | rfl | hu
    · exact (mem_hexUnits hu).1
    · decide
    · exact (mem_hexUnits hu).1

end Messages

/-! ## Transactions -/

section Delivered

variable {txs : List WalTx} {actions : List Action}

theorem foldl_inserts (ids more : List ℤ) (x : List WalTx) :
    (more.map Action.insert).foldl group (x, some ids) = (x, some (ids ++ more)) := by
  induction more generalizing ids with
  | nil => simp
  | cons id more ih =>
    rw [List.map_cons, List.foldl_cons, group, Option.map_some, ih, List.append_assoc]
    rfl

theorem foldl_actions (tx : WalTx) (g : Grouped) : tx.actions.foldl group g = (g.1 ++ [tx], none) := by
  rw [WalTx.actions, List.foldl_cons, List.foldl_append, group, foldl_inserts]
  rfl

theorem foldl_flatMap_actions (txs : List WalTx) (x : List WalTx) :
    (txs.flatMap WalTx.actions).foldl group (x, none) = (x ++ txs, none) := by
  induction txs generalizing x with
  | nil => simp
  | cons tx txs ih => rw [List.flatMap_cons, List.foldl_append, foldl_actions, ih, List.append_assoc]; rfl

/-- What is delivered is the transactions. -/
theorem Delivers.transactions_eq (h : Delivers txs actions) : transactions actions = txs := by
  obtain ⟨last, hactions, hlast⟩ := h
  have hopen : ∀ a ∈ last, a.isCommit = false := by
    rcases hlast with rfl | ⟨ids, rfl⟩
    · simp
    · simp [Action.isCommit]
  rw [← transactions_filter, hactions, transactions_open hopen, transactions,
    foldl_flatMap_actions, List.nil_append]

/-- The ids of a transaction are among those that are delivered. -/
theorem Delivers.insert_mem (h : Delivers txs actions) {tx : WalTx} (htx : tx ∈ txs) {id : ℤ}
    (hid : id ∈ tx.ids) : .insert id ∈ actions := by
  obtain ⟨last, hactions, -⟩ := h
  have hmem : Action.insert id ∈ actions.filter (· ≠ .elsewhere) := by
    rw [hactions]
    refine List.mem_append_left _ (List.mem_flatMap.mpr ⟨tx, htx, List.mem_cons_of_mem _ ?_⟩)
    exact List.mem_append_left _ (List.mem_map_of_mem hid)
  exact List.mem_of_mem_filter hmem

/-- Ids below `2^53` are themselves to both parsers. -/
theorem decoded_eq_numbered (hids : ∀ tx ∈ txs, ∀ id ∈ tx.ids, id.natAbs < 2 ^ 53) :
    txs.map WalTx.decoded = txs.map WalTx.numbered := by
  refine List.map_congr_left fun tx htx => ?_
  rw [WalTx.decoded, WalTx.numbered,
    List.map_congr_left fun id hid => rounded_of_lt (hids tx htx id hid)]

end Delivered

/-- Both decoders recover the transactions that were delivered, and print positions that are
read back. -/
theorem decoders_recover (convertText : JsText → JsNum) (convert : JsonText → JsNum)
    (txs : List WalTx) (sent written : List Action) (msgs : List Bytes) (lines : List JsText)
    (hids : ∀ id : ℤ, .insert id ∈ sent → id.natAbs < 2 ^ 53)
    (hsent : Delivers txs sent) (hmsgs : List.Forall₂ Pgoutput msgs sent)
    (hwritten : Delivers txs written) (hlines : List.Forall₂ Wal2jsonLine lines written) :
    parsePgoutput convertText msgs = some (txs.map WalTx.numbered) ∧
      parseWal2json convert lines = some (txs.map WalTx.numbered) ∧
      ∀ x < 2 ^ 64, lsnToBig (units (bigToLsn x)) = some x := by
  have hnumbered := decoded_eq_numbered fun tx htx id hid => hids id (hsent.insert_mem htx hid)
  refine ⟨?_, ?_, fun x _ => lsnToBig_bigToLsn x⟩
  · have hread : List.Forall₂ (fun m a => Pgoutput m a ∧ ∀ id, a = .insert id → id.natAbs < 2 ^ 53)
        msgs sent := by
      have hsmall : ∀ a ∈ sent, ∀ id, a = .insert id → id.natAbs < 2 ^ 53 := by
        rintro a ha id rfl
        exact hids id ha
      have hboth := (List.forall₂_and_left _ _).mpr ⟨hsmall, hmsgs.flip⟩
      exact (hboth.imp fun a m h => And.intro h.2 h.1).flip
    have hfold : msgs.foldlM (parseMessage convertText) ([], none) =
        some (sent.foldl group ([], none)).decoded :=
      foldlM_group (fun m a g h => parseMessage_pgoutput h.1 h.2) hread ([], none)
    rw [parsePgoutput, ← hnumbered, ← hsent.transactions_eq]
    exact congrArg (Option.map Prod.fst) hfold
  · have hline : ∀ line a g, Wal2jsonLine line a →
        parseLine convert (Grouped.decoded g) line = some (group g a).decoded := by
      intro line a g h
      obtain ⟨j, hparse, hj⟩ := Wal2jsonLine.describes h
      exact parseLine_of_describes hparse hj
    have hfold := foldlM_group hline hlines ([], none)
    rw [parseWal2json, ← hnumbered, ← hwritten.transactions_eq]
    exact congrArg (Option.map Prod.fst) hfold

/-- An insert of the row 12 as both plugins deliver it, and the begin of a transaction that is
not complete. -/
theorem decoders_recover_row :
    parsePgoutput (fun _ => .int 0)
        [beginMessage 83969016 0 1214, 82 :: utf8 "rp_slot_events",
          insertMessage 17606 [idColumn 12, .text (utf8 "2026-10-23")],
          commitMessage 0 83969016 83970088 0, beginMessage 83970200 0 1215] =
        some [⟨83970088, [.int 12]⟩] ∧
      parseWal2json (fun _ => .int 0)
        [units "\x7b\"action\":\"B\",\"nextlsn\":\"0/5014828\"\x7d",
          units "\x7b\"action\":\"I\",\"table\":\"rp_slot_events\",\"columns\":[\x7b\"name\":\"id\",\"value\":12\x7d]\x7d",
          units "\x7b\"action\":\"C\",\"nextlsn\":\"0/5014828\"\x7d"] =
        some [⟨83970088, [.int 12]⟩] ∧
      ∀ x < 2 ^ 64, lsnToBig (units (bigToLsn x)) = some x := by
  refine decoders_recover (fun _ => .int 0) (fun _ => .int 0) [⟨83970088, [12]⟩]
    [.begin, .elsewhere, .insert 12, .commit 83970088, .begin] [.begin, .insert 12, .commit 83970088]
    _ _ ?_ ⟨[.begin], rfl, .inr ⟨[], rfl⟩⟩ ?_ ⟨[], rfl, .inl rfl⟩ ?_
  · simp
  · refine .cons ⟨_, _, _, rfl⟩ (.cons ⟨'R', _, by simp, rfl⟩ (.cons ⟨_, _, by simp, rfl⟩
      (.cons ⟨by decide, _, _, _, rfl⟩ (.cons ⟨_, _, _, rfl⟩ .nil))))
  · have hlsn : units (bigToLsn 83970088) = units "0/5014828" := by decide
    let action (a : String) : JsText × JsonText := (units "action", .str (units a))
    let nextlsn : JsText × JsonText := (units "nextlsn", .str (units "0/5014828"))
    let column : JsonText := .obj [(units "name", .str (units "id")), (units "value", .num (units "12"))]
    refine .cons ⟨.obj [action "B", nextlsn], rfl, rfl⟩
      (.cons ⟨.obj [action "I", (units "table", .str (units "rp_slot_events")),
        (units "columns", .arr [column])], rfl, rfl, rfl, [], column, [], rfl, by simp, rfl, rfl⟩
      (.cons ⟨.obj [action "C", nextlsn], rfl, rfl, ?_⟩ .nil))
    rw [hlsn]
    rfl

end SupabaseLab.RestorePaths
