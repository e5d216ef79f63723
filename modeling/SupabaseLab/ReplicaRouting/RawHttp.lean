/-
  ReplicaRouting/RawHttp.lean --- an HTTP response read off a socket.

  Source: `dechunk` and `parseRawHttp` of experiments/replica-routing/lib/rr04.ts.

  The size of a chunk is what `parseInt` makes of its line, and that may be negative: the
  position can stay or move back, and an offset below zero counts from the end of the
  buffer.  Positions are integers; doubles are exact as far as a buffer reaches.
-/
import SupabaseLab.Library.Buffers
import SupabaseLab.Library.JsDouble

set_option autoImplicit false

namespace SupabaseLab.ReplicaRouting

open Library

/-! ## Chunks -/

/-- `"\r\n"`. -/
def crlf : Bytes := [13, 10]

/-- `parseInt(text.split(";")[0]!.trim(), 16)`, where that is finite. -/
def sizeOfText (text : List Nat) : Option Int :=
  (parseIntHex (trimUnits (text.takeWhile (· ≠ 59)))).filter fun n => IsFiniteInteger n

/-- The body of the loop from position `i`: what is pushed, and the next position; `none`
where the loop ends. -/
def turn (b : Bytes) (i : Int) : Option (Bytes × Int) :=
  if i < b.length then
    match indexFrom crlf b i with
    | none => none
    | some eol =>
        match sizeOfText (readUtf8 (subarray b i eol)) with
        | none => none
        | some size =>
            if size = 0 then none
            else some (subarray b (eol + 2) (eol + 2 + size), eol + 2 + size + 2)
  else none

/-- The loop, for so many turns; `none` when it has not ended by then. -/
def dechunkLoop (b : Bytes) : Nat → Int → Bytes → Option Bytes
  | 0, _, _ => none
  | n + 1, i, out =>
      match turn b i with
      | none => some out
      | some (piece, next) => dechunkLoop b n next (out ++ piece)

def dechunk (b : Bytes) (turns : Nat) : Option Bytes := dechunkLoop b turns 0 []

/-! ## Responses -/

structure RawHttp where
  statusLine : List Nat
  status : Double
  headers : List (List Nat × List Nat)
  body : Bytes

/-- `"\r\n\r\n"`. -/
def endOfHead : Bytes := [13, 10, 13, 10]

/-- A code unit as a character; no number has a surrogate in it. -/
def unitChar (u : Nat) : Char := if 0xD800 ≤ u ∧ u < 0xE000 then Char.ofNat 0xFFFD else Char.ofNat u

/-- `Number(statusLine.split(" ")[1] ?? 0) || 0`. -/
def statusOf (statusLine : List Nat) : Double :=
  match (statusLine.splitOn 32)[1]? with
  | none => .fin 0
  | some word =>
      match Double.ofText ((trimUnits word).map unitChar) with
      | .nan => .fin 0
      | status => status

/-- A line of the header; without a colon the name is all of it but the last unit. -/
def headerOf (toLowerCase : List Nat → List Nat) (line : List Nat) : List Nat × List Nat :=
  match indexOf [58] line with
  | some c => (toLowerCase (trimUnits (line.take c)), trimUnits (line.drop (c + 1)))
  | none => (toLowerCase (trimUnits line.dropLast), trimUnits line)

/-- `headers.some(…)`. -/
def isChunked (toLowerCase : List Nat → List Nat) (headers : List (List Nat × List Nat)) : Bool :=
  headers.any fun h =>
    h.1 = utf16 "transfer-encoding".toList && utf16 "chunked".toList <:+: toLowerCase h.2

/-- The lines before the body, and the bytes of the body. -/
def splitHead (raw : Bytes) : Option (List (List Nat) × Bytes) :=
  (indexOf endOfHead raw).map fun stop =>
    (splitPairAt 13 10 (readUtf8 (raw.take stop)), raw.drop (stop + 4))

def headersOf (toLowerCase : List Nat → List Nat) (lines : List (List Nat)) : List (List Nat × List Nat) :=
  (lines.drop 1).map (headerOf toLowerCase)

def responseOf (toLowerCase : List Nat → List Nat) (lines : List (List Nat)) (body : Bytes) : RawHttp where
  statusLine := lines.headD []
  status := statusOf (lines.headD [])
  headers := headersOf toLowerCase lines
  body := body

/-- `parseRawHttp`, where the loop has so many turns. -/
def parseRawHttp (toLowerCase : List Nat → List Nat) (raw : Buffer) (turns : Nat) : Option RawHttp :=
  match splitHead raw.bytes with
  | none => some ⟨readUtf8 (raw.bytes.take 80), .fin 0, [], []⟩
  | some (lines, body) =>
      if isChunked toLowerCase (headersOf toLowerCase lines) then
        (dechunk body turns).map (responseOf toLowerCase lines)
      else some (responseOf toLowerCase lines body)

/-- The call returns this. -/
def Returns (toLowerCase : List Nat → List Nat) (raw : Buffer) (r : RawHttp) : Prop :=
  ∃ turns, parseRawHttp toLowerCase raw turns = some r

/-- The bytes that are read as chunks, if any are. -/
def chunkedBody (toLowerCase : List Nat → List Nat) (raw : Buffer) : Option Bytes :=
  match splitHead raw.bytes with
  | none => none
  | some (lines, body) => if isChunked toLowerCase (headersOf toLowerCase lines) then some body else none

/-! ## The loop -/

section Loop

variable {b piece out out' : Bytes} {i next : Int} {n m : Nat}

theorem dechunkLoop_of_end (h : turn b i = none) : dechunkLoop b (n + 1) i out = some out := by
  rw [dechunkLoop, h]

theorem dechunkLoop_of_turn (h : turn b i = some (piece, next)) :
    dechunkLoop b (n + 1) i out = dechunkLoop b n next (out ++ piece) := by
  rw [dechunkLoop, h]

/-- More turns change nothing once the loop has ended. -/
theorem dechunkLoop_mono (h : dechunkLoop b n i out = some out') (hnm : n ≤ m) :
    dechunkLoop b m i out = some out' := by
  induction n generalizing i out m with
  | zero => cases h
  | succ n ih =>
    obtain ⟨m, rfl⟩ := Nat.exists_eq_succ_of_ne_zero (by omega : m ≠ 0)
    cases hturn : turn b i with
    | none =>
      rw [dechunkLoop_of_end hturn] at h ⊢
      exact h
    | some p =>
      rw [dechunkLoop_of_turn hturn] at h ⊢
      exact ih h (by omega)

/-- A turn that stays where it is stays there for ever. -/
theorem dechunkLoop_stuck (h : turn b i = some (piece, i)) : dechunkLoop b n i out = none := by
  induction n generalizing out with
  | zero => rfl
  | succ n ih => rw [dechunkLoop_of_turn h, ih]

end Loop

section Returning

variable {toLowerCase : List Nat → List Nat} {raw : Buffer} {r r' : RawHttp} {b : Bytes} {n m : Nat}

/-- A response that is not chunked is read at once. -/
theorem parseRawHttp_of_not_chunked (h : chunkedBody toLowerCase raw = none) :
    ∃ r, ∀ turns, parseRawHttp toLowerCase raw turns = some r := by
  unfold chunkedBody at h
  unfold parseRawHttp
  split at h
  · exact ⟨_, fun turns => rfl⟩
  · rename_i lines body _
    split at h
    · cases h
    · rename_i hchunked
      exact ⟨responseOf toLowerCase lines body, fun turns => if_neg hchunked⟩

/-- A chunked response is what its head says, with the body that the loop gives. -/
theorem parseRawHttp_of_chunked (h : chunkedBody toLowerCase raw = some b) : ∃ lines,
    ∀ turns, parseRawHttp toLowerCase raw turns = (dechunk b turns).map (responseOf toLowerCase lines) := by
  unfold chunkedBody at h
  unfold parseRawHttp
  split at h
  · cases h
  · rename_i lines body _
    split at h
    · rename_i hchunked
      cases h
      exact ⟨lines, fun turns => if_pos hchunked⟩
    · cases h

theorem parseRawHttp_mono (h : parseRawHttp toLowerCase raw n = some r) (hnm : n ≤ m) :
    parseRawHttp toLowerCase raw m = some r := by
  cases hbody : chunkedBody toLowerCase raw with
  | none =>
    obtain ⟨r', hr'⟩ := parseRawHttp_of_not_chunked hbody
    rw [hr'] at h ⊢
    exact h
  | some b =>
    obtain ⟨lines, hparse⟩ := parseRawHttp_of_chunked hbody
    rw [hparse] at h ⊢
    obtain ⟨out, hout, hr⟩ := Option.map_eq_some_iff.mp h
    have hmore : dechunk b m = some out := dechunkLoop_mono hout hnm
    rw [hmore, Option.map_some, hr]

/-- A response is read in one way. -/
theorem Returns.unique (h : Returns toLowerCase raw r) (h' : Returns toLowerCase raw r') : r = r' := by
  obtain ⟨n, hn⟩ := h
  obtain ⟨m, hm⟩ := h'
  have hmore := parseRawHttp_mono hn (Nat.le_max_left n m)
  rw [parseRawHttp_mono hm (Nat.le_max_right n m)] at hmore
  exact (Option.some.inj hmore).symm

/-- A chunked response is read when the loop over its body ends. -/
theorem returns_of_dechunk (h : chunkedBody toLowerCase raw = some b) {out : Bytes}
    (hout : dechunk b n = some out) : ∃ r, Returns toLowerCase raw r ∧ r.body = out := by
  obtain ⟨lines, hparse⟩ := parseRawHttp_of_chunked h
  refine ⟨responseOf toLowerCase lines out, ⟨n, ?_⟩, rfl⟩
  rw [hparse, hout, Option.map_some]

end Returning

/-! ## Lines that say the size of a chunk -/

/-- The line that begins at a position. -/
def lineAt (b : Bytes) (i : Nat) : Option Bytes :=
  (indexOf crlf (b.drop i)).map fun length => (b.drop i).take length

/-- The size that a line says. -/
def sizeOf (line : Bytes) : Option Int := sizeOfText (readUtf8 line)

/-- The line says a size so far below zero that what follows the chunk is not behind it. -/
def StepsBack (line : Bytes) : Prop := ∃ size, sizeOf line = some size ∧ size ≤ -(line.length + 4)

/-- The size lines of a body: the first line, and the line behind each chunk. -/
inductive SizeLine (b : Bytes) : Nat → Bytes → Prop
  | first {line : Bytes} (hline : lineAt b 0 = some line) : SizeLine b 0 line
  | behind {i j : Nat} {line line' : Bytes} {size : Int} (h : SizeLine b i line)
      (hsize : sizeOf line = some size) (hne : size ≠ 0)
      (hj : (j : Int) = i + line.length + 2 + size + 2) (hline : lineAt b j = some line') :
      SizeLine b j line'

/-- A position that the loop comes to. -/
inductive Reached (b : Bytes) : Int → Prop
  | start : Reached b 0
  | turn {i next : Int} {piece : Bytes} (h : Reached b i) (hturn : turn b i = some (piece, next)) :
      Reached b next

/-- Every turn of the loop moves on. -/
def Advances (b : Bytes) : Prop :=
  ∀ i piece next, Reached b i → turn b i = some (piece, next) → i < next

section Turns

variable {b line piece : Bytes} {i : Nat} {size next : Int}

theorem lineAt_fits (h : lineAt b i = some line) : i + line.length + 2 ≤ b.length := by
  obtain ⟨n, hn, rfl⟩ := Option.map_eq_some_iff.mp h
  have hfits := indexOf_fits hn
  rw [List.length_drop] at hfits
  have hcrlf : crlf.length = 2 := rfl
  rw [List.length_take, List.length_drop]
  omega

theorem indexFrom_eq (b : Bytes) (i : Nat) : indexFrom crlf b i = (lineAt b i).map fun line => i + line.length := by
  unfold indexFrom lineAt
  rw [fromStart_natCast, Option.map_map]
  dsimp only
  cases h : indexOf crlf (b.drop i) with
  | none => rfl
  | some n =>
    have hfits := indexOf_fits h
    have hn : ((b.drop i).take n).length = n := by
      rw [List.length_take]
      omega
    rw [Option.map_some, Option.map_some, Function.comp_apply, hn]

theorem subarray_line (h : lineAt b i = some line) : subarray b i (i + line.length : Nat) = line := by
  obtain ⟨n, hn, hline⟩ := Option.map_eq_some_iff.mp h
  have hfits := indexOf_fits hn
  have hlength : line.length = n := by
    rw [← hline, List.length_take]
    omega
  unfold subarray slice
  rw [fromStart_natCast, fromStart_natCast, hlength, ← hline, List.take_drop]

/-- **What one turn does**: it reads the line at its position. -/
theorem turn_eq_some_iff : turn b i = some (piece, next) ↔ ∃ line size, lineAt b i = some line ∧
    sizeOf line = some size ∧ size ≠ 0 ∧
    piece = subarray b (i + line.length + 2) (i + line.length + 2 + size) ∧
    next = i + line.length + 2 + size + 2 := by
  unfold turn
  rw [indexFrom_eq]
  cases hline : lineAt b i with
  | none =>
    rw [Option.map_none]
    constructor
    · intro h
      split at h <;> cases h
    · rintro ⟨_, _, ⟨⟩, -⟩
  | some line =>
    have hfits := lineAt_fits hline
    rw [if_pos (by omega), Option.map_some]
    dsimp only
    rw [subarray_line hline]
    show (match sizeOf line with | none => none | some size => _) = _ ↔ _
    cases hsize : sizeOf line with
    | none =>
      constructor
      · intro h
        cases h
      · rintro ⟨_, _, ⟨⟩, hsize', -⟩
        rw [hsize] at hsize'
        cases hsize'
    | some size =>
      dsimp only
      push_cast
      constructor
      · intro h
        split at h
        · cases h
        · rename_i hne
          cases h
          exact ⟨line, size, rfl, hsize, hne, rfl, rfl⟩
      · rintro ⟨_, _, ⟨⟩, hsize', hne, rfl, rfl⟩
        rw [hsize] at hsize'
        cases hsize'
        rw [if_neg hne]

/-! ### Positions -/

/-- Behind a line that does not step back the loop has moved on. -/
theorem lt_next_of_not_stepsBack (hline : lineAt b i = some line) (hback : ¬ StepsBack line)
    (hturn : turn b i = some (piece, next)) : (i : Int) < next := by
  obtain ⟨line', size, hline', hsize, -, -, rfl⟩ := turn_eq_some_iff.mp hturn
  rw [hline] at hline'
  cases hline'
  have hforward : ¬ size ≤ -(line.length + 4) := fun hle => hback ⟨size, hsize, hle⟩
  omega

/-- Where no size line steps back, every position that is reached is that of one. -/
theorem sizeLine_of_reached (hno : ∀ i line, SizeLine b i line → ¬ StepsBack line) (h : Reached b next) :
    ∃ j : Nat, (j : Int) = next ∧ ∀ line, lineAt b j = some line → SizeLine b j line := by
  induction h with
  | start => exact ⟨0, rfl, fun line hline => .first hline⟩
  | turn h hturn ih =>
    obtain ⟨i, rfl, hall⟩ := ih
    obtain ⟨line, size, hat, hsize, hne, -, hnext⟩ := turn_eq_some_iff.mp hturn
    have hsizeLine := hall line hat
    have hlt := lt_next_of_not_stepsBack hat (hno i line hsizeLine) hturn
    obtain ⟨j, hj⟩ := Int.eq_ofNat_of_zero_le ((Int.natCast_nonneg i).trans hlt.le)
    exact ⟨j, hj.symm, fun line' hline' => .behind hsizeLine hsize hne (hj ▸ hnext) hline'⟩

theorem SizeLine.reached (h : SizeLine b i line) : Reached b i ∧ lineAt b i = some line := by
  induction h with
  | first hline => exact ⟨.start, hline⟩
  | behind h hsize hne hj hline ih =>
    obtain ⟨hreached, hat⟩ := ih
    refine ⟨?_, hline⟩
    rw [hj]
    exact .turn hreached (turn_eq_some_iff.mpr ⟨_, _, hat, hsize, hne, rfl, rfl⟩)

theorem advances_iff : Advances b ↔ ∀ i line, SizeLine b i line → ¬ StepsBack line := by
  constructor
  · rintro hadvances i line hline ⟨size, hsize, hback⟩
    obtain ⟨hreached, hat⟩ := hline.reached
    have hne : size ≠ 0 := by omega
    have hlt := hadvances i _ _ hreached (turn_eq_some_iff.mpr ⟨line, size, hat, hsize, hne, rfl, rfl⟩)
    omega
  · intro hno i piece next hreached hturn
    obtain ⟨j, rfl, hall⟩ := sizeLine_of_reached hno hreached
    obtain ⟨line, -, hat, -⟩ := turn_eq_some_iff.mp hturn
    exact lt_next_of_not_stepsBack hat (hno j line (hall line hat)) hturn

/-- The measure is what lies ahead of the position. -/
theorem dechunkLoop_ends (h : Advances b) {n : Nat} {i : Int} (hi : Reached b i)
    (hn : b.length - i ≤ n) (out : Bytes) : ∃ out', dechunkLoop b (n + 1) i out = some out' := by
  induction n generalizing i out with
  | zero =>
    have hturn : turn b i = none := if_neg (by omega)
    exact ⟨out, dechunkLoop_of_end hturn⟩
  | succ n ih =>
    cases hturn : turn b i with
    | none => exact ⟨out, dechunkLoop_of_end hturn⟩
    | some p =>
      obtain ⟨piece, next⟩ := p
      have hlt := h i piece next hi hturn
      rw [dechunkLoop_of_turn hturn]
      exact ih (.turn hi hturn) (by omega) _

end Turns

/-! ## When the reader ends -/

/-- The call returns, and every turn of its loop moves on. -/
def ReadsToItsEnd (toLowerCase : List Nat → List Nat) (raw : Buffer) : Prop :=
  (∃ r, Returns toLowerCase raw r) ∧ ∀ b, chunkedBody toLowerCase raw = some b → Advances b

theorem readsToItsEnd_iff (toLowerCase : List Nat → List Nat) (raw : Buffer) :
    ReadsToItsEnd toLowerCase raw ↔ ∀ b, chunkedBody toLowerCase raw = some b →
      ∀ i line, SizeLine b i line → ¬ StepsBack line := by
  constructor
  · rintro ⟨-, hadvances⟩ b hb
    exact advances_iff.mp (hadvances b hb)
  · intro hno
    refine ⟨?_, fun b hb => advances_iff.mpr (hno b hb)⟩
    cases hbody : chunkedBody toLowerCase raw with
    | none =>
      obtain ⟨r, hr⟩ := parseRawHttp_of_not_chunked hbody
      exact ⟨r, 0, hr 0⟩
    | some b =>
      obtain ⟨out, hout⟩ := dechunkLoop_ends (advances_iff.mpr (hno b hbody)) .start
        (n := b.length) (by omega) []
      obtain ⟨r, hr, -⟩ := returns_of_dechunk hbody hout
      exact ⟨r, hr⟩

/-- The ASCII letters in lower case. -/
def lowerAscii (text : List Nat) : List Nat := text.map fun u => if 65 ≤ u ∧ u ≤ 90 then u + 32 else u

/-- A chunked response whose first size is -6, on a line of two bytes. -/
def minusSix : Buffer where
  bytes := utf8 "HTTP/1.1 200 OK\x0d\x0aTransfer-Encoding: chunked\x0d\x0a\x0d\x0a-6\x0d\x0a"
  bounded := by decide

/-- The loop comes back to the line that it has just read. -/
theorem not_readsToItsEnd_minusSix : ¬ ReadsToItsEnd lowerAscii minusSix ∧
    ¬ ∃ r, Returns lowerAscii minusSix r := by
  have hbody : chunkedBody lowerAscii minusSix = some (utf8 "-6\x0d\x0a") := by decide
  have hturn : turn (utf8 "-6\x0d\x0a") 0 = some ([], 0) := by decide +kernel
  have hnot : ¬ ∃ r, Returns lowerAscii minusSix r := by
    rintro ⟨r, turns, hr⟩
    obtain ⟨lines, hparse⟩ := parseRawHttp_of_chunked hbody
    rw [hparse, dechunk, dechunkLoop_stuck hturn] at hr
    cases hr
  exact ⟨fun h => hnot h.1, hnot⟩

end SupabaseLab.ReplicaRouting
