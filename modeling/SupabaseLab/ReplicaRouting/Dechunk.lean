/-
  ReplicaRouting/Dechunk.lean --- what a chunked response is read as.

  Source: `dechunk` and `parseRawHttp` of experiments/replica-routing/lib/rr04.ts.

  A body is written as chunks, each behind a line with its size.  The reader goes from
  one size line to the next by the sizes alone, so what stands in a chunk does not matter,
  and a response that is cut off gives what had come of the body.
-/
import SupabaseLab.ReplicaRouting.RawHttp

set_option autoImplicit false

namespace SupabaseLab.ReplicaRouting

open Library

/-! ## Chunked encoding -/

/-- Blanks, and an extension behind a semicolon; no line feed is in it. -/
structure IsExtension (ext : Bytes) : Prop where
  shape : ∃ blanks rest, ext = blanks ++ rest ∧ (∀ b ∈ blanks, b = 32 ∨ b = 9) ∧
    (rest = [] ∨ ∃ tail, rest = 59 :: tail)
  oneLine : 10 ∉ ext

/-- A size in hexadecimal digits of either case, with any zeros before it. -/
structure IsSize (digits : Bytes) (n : Nat) : Prop where
  nonempty : digits ≠ []
  digit : ∀ b ∈ digits, isHexUnit b.toNat = true
  value : hexValue (digits.map UInt8.toNat) = n

structure Chunk where
  size : Bytes
  ext : Bytes
  data : Bytes
  nonempty : data ≠ []
  isSize : IsSize size data.length
  isExtension : IsExtension ext

/-- The last chunk is of size 0; its trailer is not read. -/
structure LastChunk where
  size : Bytes
  ext : Bytes
  trailer : Bytes
  isSize : IsSize size 0
  isExtension : IsExtension ext

def Chunk.encode (c : Chunk) : Bytes := c.size ++ c.ext ++ crlf ++ (c.data ++ crlf)

def LastChunk.encode (c : LastChunk) : Bytes := c.size ++ c.ext ++ crlf ++ c.trailer

def encodeChunks (chunks : List Chunk) (last : LastChunk) : Bytes :=
  chunks.flatMap Chunk.encode ++ last.encode

/-- The body that was cut into chunks. -/
def bodyOf (chunks : List Chunk) : Bytes := chunks.flatMap Chunk.data

/-- A header; the name ends at the first colon. -/
structure Header where
  name : Bytes
  value : Bytes
  name_noColon : 58 ∉ name
  name_oneLine : 10 ∉ name
  value_oneLine : 10 ∉ value

def Header.encode (h : Header) : Bytes := h.name ++ 58 :: h.value

/-- `transfer-encoding: …chunked…`, in whatever case. -/
def Header.Announces (toLowerCase : List Nat → List Nat) (h : Header) : Prop :=
  toLowerCase (trimUnits (readUtf8 h.name)) = utf16 "transfer-encoding".toList ∧
    utf16 "chunked".toList <:+: toLowerCase (trimUnits (readUtf8 h.value))

/-- The lines of a head, up to the empty line. -/
def headLines (statusLine : Bytes) (headers : List Header) : Bytes :=
  statusLine ++ headers.flatMap fun h => crlf ++ h.encode

def encodeHead (statusLine : Bytes) (headers : List Header) : Bytes :=
  headLines statusLine headers ++ endOfHead

def encodeResponse (statusLine : Bytes) (headers : List Header) (chunks : List Chunk) (last : LastChunk) :
    Bytes :=
  encodeHead statusLine headers ++ encodeChunks chunks last

section Sizes

variable {digits ext : Bytes} {n : Nat}

/-! ## Size lines -/

theorem IsSize.lt (h : IsSize digits n) : ∀ b ∈ digits, b.toNat < 128 ∧ b.toNat ≠ 59 ∧ b.toNat ≠ 10 := by
  intro b hb
  have := isHexUnit_iff.mp (h.digit b hb)
  omega

/-- A size is read from its line, whatever extension follows it. -/
theorem sizeOf_line (hsize : IsSize digits n) (hext : IsExtension ext) (hn : n < 2 ^ 53) :
    sizeOf (digits ++ ext) = some (n : Int) := by
  obtain ⟨blanks, rest, rfl, hblanks, hrest⟩ := hext.shape
  have hunits : ∀ u ∈ (digits ++ blanks).map UInt8.toNat, u < 128 ∧ u ≠ 59 := by
    intro u hu
    obtain ⟨b, hb, rfl⟩ := List.mem_map.mp hu
    rcases List.mem_append.mp hb with hb | hb
    · exact ⟨(hsize.lt b hb).1, (hsize.lt b hb).2.1⟩
    · rcases hblanks b hb with rfl | rfl <;> decide
  -- what is before the first semicolon: the digits and the blanks
  have hhead : (readUtf8 (digits ++ (blanks ++ rest))).takeWhile (· ≠ 59) =
      digits.map UInt8.toNat ++ blanks.map UInt8.toNat := by
    have hnone : (readUtf8 rest).takeWhile (· ≠ 59) = [] := by
      rcases hrest with rfl | ⟨tail, rfl⟩
      · rfl
      · rw [← List.nil_append (59 :: tail), readUtf8_append_ascii (by decide)]
        rfl
    rw [← List.append_assoc, readUtf8_ascii fun b hb => (hunits _ (List.mem_map_of_mem hb)).1,
      List.takeWhile_append_of_pos fun u hu => decide_eq_true (hunits u hu).2, hnone, List.append_nil,
      List.map_append]
  have hdigit : ∀ u ∈ digits.map UInt8.toNat, isHexUnit u = true := by
    intro u hu
    obtain ⟨b, hb, rfl⟩ := List.mem_map.mp hu
    exact hsize.digit b hb
  have htrim : trimUnits (digits.map UInt8.toNat ++ blanks.map UInt8.toNat) = digits.map UInt8.toNat := by
    refine trimUnits_append (fun u hu => isTrimUnit_of_isHexUnit (hdigit u hu)) fun u hu => ?_
    obtain ⟨b, hb, rfl⟩ := List.mem_map.mp hu
    rcases hblanks b hb with rfl | rfl <;> decide
  have hne : digits.map UInt8.toNat ≠ [] := fun h => hsize.nonempty (List.map_eq_nil_iff.mp h)
  have hfinite : IsFiniteInteger (n : Int) := isFiniteInteger_of_lt_pow hn (by decide)
  unfold sizeOf sizeOfText
  rw [hhead, htrim, parseIntHex_digits hne hdigit, hsize.value, Option.filter_some,
    if_pos (decide_eq_true hfinite)]

theorem line_oneLine (hsize : IsSize digits n) (hext : IsExtension ext) : 10 ∉ digits ++ ext := by
  rw [List.mem_append, not_or]
  exact ⟨fun h => (hsize.lt 10 h).2.2 rfl, hext.oneLine⟩

end Sizes

section Turns

variable {before line rest cut out : Bytes} {n : Nat} {i : Nat} {b : Bytes}

/-! ## Turns -/

theorem lineAt_append (hline : 10 ∉ line) (rest : Bytes) :
    lineAt (before ++ (line ++ (crlf ++ rest))) before.length = some line := by
  have hfound : indexOf crlf (line ++ (crlf ++ rest)) = some line.length :=
    indexOf_pair (by decide) hline
  unfold lineAt
  rw [List.drop_left, hfound, Option.map_some, List.take_left]

/-- A whole size line, and what has come of its chunk. -/
theorem turn_append (before rest : Bytes) (hline : 10 ∉ line) (hsize : sizeOf line = some (n : Int))
    (hn : n ≠ 0) :
    turn (before ++ (line ++ (crlf ++ rest))) before.length =
      some (rest.take n, ((before.length + line.length + 2 + n + 2 : Nat) : Int)) := by
  have hstart : before.length + line.length + 2 = (before ++ (line ++ crlf)).length := by
    rw [List.length_append, List.length_append, Nat.add_assoc]
    rfl
  refine turn_eq_some_iff.mpr ⟨line, n, lineAt_append hline rest, hsize, by exact_mod_cast hn, ?_, by
    push_cast; rfl⟩
  have hpiece : subarray (before ++ (line ++ (crlf ++ rest)))
      ((before.length + line.length + 2 : Nat) : Int)
      ((before.length + line.length + 2 + n : Nat) : Int) = rest.take n := by
    unfold subarray slice
    rw [fromStart_natCast, fromStart_natCast, ← List.take_drop, hstart]
    have hjoin : before ++ (line ++ (crlf ++ rest)) = before ++ (line ++ crlf) ++ rest := by
      simp only [List.append_assoc]
    rw [hjoin, List.drop_left]
  rw [← hpiece]
  push_cast
  rfl

/-- The loop ends where there is no whole size line, and at a size of 0. -/
theorem turn_eq_none (h : ∀ line, lineAt b i = some line → sizeOf line = some 0) : turn b i = none := by
  cases hturn : turn b i with
  | none => rfl
  | some p =>
    obtain ⟨line, size, hline, hsize, hne, -⟩ := turn_eq_some_iff.mp hturn
    rw [h line hline] at hsize
    exact absurd (Option.some.inj hsize).symm hne

theorem lineAt_none (h : 10 ∉ cut) : lineAt (before ++ cut) before.length = none := by
  unfold lineAt
  rw [List.drop_left]
  exact congrArg (Option.map _) (indexOf_pair_none h)

/-! ## Texts that are cut off -/

theorem exists_of_prefix_append {α : Type} {cut a rest : List α} (h : cut <+: a ++ rest)
    (hlength : a.length ≤ cut.length) : ∃ more, cut = a ++ more ∧ more <+: rest := by
  obtain ⟨more, rfl⟩ := List.prefix_of_prefix_length_le (List.prefix_append a rest) h hlength
  exact ⟨more, rfl, (List.prefix_append_right_inj a).mp h⟩

/-- A text is cut off before the end of its first line, or behind it. -/
theorem cut_line (hline : 10 ∉ line) (h : cut <+: line ++ (crlf ++ rest)) :
    (cut.length < line.length + 2 ∧ 10 ∉ cut) ∨ ∃ more, cut = line ++ (crlf ++ more) ∧ more <+: rest := by
  by_cases hlength : line.length + 2 ≤ cut.length
  · refine .inr ?_
    rw [← List.append_assoc] at h
    obtain ⟨more, rfl, hmore⟩ := exists_of_prefix_append h (by rw [List.length_append]; exact hlength)
    exact ⟨more, List.append_assoc _ _ _, hmore⟩
  · refine .inl ⟨Nat.not_le.mp hlength, fun hmem => ?_⟩
    have hjoin : line ++ (crlf ++ rest) = (line ++ [13]) ++ 10 :: rest := by
      simp [crlf]
    rw [hjoin] at h
    have hshort : cut <+: line ++ [13] := by
      refine List.prefix_of_prefix_length_le h (List.prefix_append _ _) ?_
      rw [List.length_append, List.length_singleton]
      omega
    rcases List.mem_append.mp (hshort.subset hmem) with hmem | hmem
    · exact hline hmem
    · exact absurd (List.mem_singleton.mp hmem) (by decide)

end Turns

section Cuts

variable {chunks : List Chunk} {last : LastChunk} {before cut : Bytes}

/-! ## A body that is cut off -/

theorem turn_last (hcut : cut <+: last.encode) : turn (before ++ cut) before.length = none := by
  refine turn_eq_none fun line hline => ?_
  have hsize := sizeOf_line last.isSize last.isExtension (by decide)
  have honeLine := line_oneLine last.isSize last.isExtension
  unfold LastChunk.encode at hcut
  rw [List.append_assoc] at hcut
  rcases cut_line honeLine hcut with ⟨-, hnone⟩ | ⟨more, rfl, -⟩
  · rw [lineAt_none hnone] at hline
    cases hline
  · rw [lineAt_append honeLine more] at hline
    cases hline
    exact hsize

theorem Chunk.encode_eq (c : Chunk) : c.encode = c.size ++ c.ext ++ (crlf ++ (c.data ++ crlf)) := by
  unfold Chunk.encode
  rw [List.append_assoc]

theorem Chunk.data_ne_zero (c : Chunk) : c.data.length ≠ 0 := fun h =>
  c.nonempty (List.length_eq_zero_iff.mp h)

theorem length_crlf : crlf.length = 2 := rfl

theorem length_encode (c : Chunk) :
    c.encode.length = (c.size ++ c.ext).length + 2 + c.data.length + 2 := by
  rw [c.encode_eq]
  simp only [List.length_append, length_crlf]
  omega

/-- A turn over a whole chunk: its data is pushed, and the next position is behind it. -/
theorem dechunkLoop_whole {c : Chunk} (hbound : c.data.length < 2 ^ 53) (before more out : Bytes)
    (n : Nat) : dechunkLoop (before ++ (c.encode ++ more)) (n + 1) before.length out =
      dechunkLoop (before ++ c.encode ++ more) n (before ++ c.encode).length (out ++ c.data) := by
  have hturn := turn_append before (c.data ++ crlf ++ more) (line_oneLine c.isSize c.isExtension)
    (sizeOf_line c.isSize c.isExtension hbound) c.data_ne_zero
  have hbytes : before ++ (c.encode ++ more) =
      before ++ (c.size ++ c.ext ++ (crlf ++ (c.data ++ crlf ++ more))) := by
    simp only [c.encode_eq, List.append_assoc]
  have hnext : (before ++ c.encode).length =
      before.length + (c.size ++ c.ext).length + 2 + c.data.length + 2 := by
    rw [List.length_append, length_encode]
    omega
  rw [hbytes, dechunkLoop_of_turn hturn, ← hbytes, List.append_assoc c.data, List.take_left,
    List.append_assoc before, hnext]

/-- A chunk that is cut off: the loop ends in it, or pushes what has come of its data and
ends behind it. -/
theorem dechunkLoop_short {c : Chunk} (hbound : c.data.length < 2 ^ 53) (hcut : cut <+: c.encode)
    (hshort : cut.length < c.encode.length) (before out : Bytes) (n : Nat) : ∃ got,
      dechunkLoop (before ++ cut) (n + 2) before.length out = some (out ++ got) ∧ got <+: c.data := by
  have hline := line_oneLine c.isSize c.isExtension
  rw [c.encode_eq] at hcut
  rw [length_encode] at hshort
  rcases cut_line hline hcut with ⟨-, hnone⟩ | ⟨more, rfl, hmore⟩
  · -- no whole size line
    refine ⟨[], ?_, List.nil_prefix⟩
    rw [dechunkLoop_of_end, List.append_nil]
    refine turn_eq_none fun line hat => ?_
    rw [lineAt_none hnone] at hat
    cases hat
  · -- the next position is behind the end
    have hturn := turn_append before more hline (sizeOf_line c.isSize c.isExtension hbound) c.data_ne_zero
    refine ⟨more.take c.data.length, ?_, ?_⟩
    · rw [dechunkLoop_of_turn hturn]
      refine dechunkLoop_of_end (if_neg ?_)
      simp only [List.length_append, length_crlf] at hshort ⊢
      omega
    · have htake := List.IsPrefix.take hmore c.data.length
      rwa [List.take_left] at htake

/-- **What the loop gives of a body that is cut off anywhere**: what had come of it, and
all of it once its chunks have come. -/
theorem dechunkLoop_cut (hcut : cut <+: encodeChunks chunks last)
    (hbound : ∀ c ∈ chunks, c.data.length < 2 ^ 53) (before out : Bytes) : ∃ got,
    dechunkLoop (before ++ cut) (chunks.length + 1) before.length out = some (out ++ got) ∧
      got <+: bodyOf chunks ∧ ((chunks.flatMap Chunk.encode).length ≤ cut.length → got = bodyOf chunks) := by
  induction chunks generalizing before out cut with
  | nil =>
    refine ⟨[], ?_, List.nil_prefix, fun _ => rfl⟩
    rw [List.length_nil, dechunkLoop_of_end (turn_last hcut), List.append_nil]
  | cons c chunks ih =>
    have hbody : bodyOf (c :: chunks) = c.data ++ bodyOf chunks := List.flatMap_cons
    have hfirst := hbound c List.mem_cons_self
    unfold encodeChunks at hcut
    rw [List.flatMap_cons, List.append_assoc] at hcut
    rw [hbody, List.flatMap_cons, List.length_append, List.length_cons]
    rcases Nat.lt_or_ge cut.length c.encode.length with hshort | hwhole
    · have hchunk : cut <+: c.encode :=
        List.prefix_of_prefix_length_le hcut (List.prefix_append _ _) hshort.le
      obtain ⟨got, hgot, hprefix⟩ := dechunkLoop_short hfirst hchunk hshort before out chunks.length
      exact ⟨got, hgot, hprefix.trans (List.prefix_append _ _), fun hle => by omega⟩
    · -- the chunk has come: the induction goes on behind it
      obtain ⟨more, rfl, hmore⟩ := exists_of_prefix_append hcut hwhole
      obtain ⟨got, hgot, hprefix, hall⟩ := ih hmore (fun d hd => hbound d (List.mem_cons_of_mem _ hd))
        (before ++ c.encode) (out ++ c.data)
      refine ⟨c.data ++ got, ?_, (List.prefix_append_right_inj c.data).mpr hprefix, fun hle => ?_⟩
      · rw [dechunkLoop_whole hfirst, hgot, List.append_assoc]
      · rw [List.length_append] at hle
        rw [hall (by omega)]

end Cuts

section Heads

variable {toLowerCase : List Nat → List Nat} {line statusLine tail rest cut : Bytes} {headers : List Header}
  {h : Header}

/-! ## Heads -/

theorem Header.encode_oneLine (h : Header) : 10 ∉ h.encode := by
  unfold Header.encode
  rw [List.mem_append, List.mem_cons, not_or, not_or]
  exact ⟨h.name_oneLine, by decide, h.value_oneLine⟩

theorem Header.encode_ne_nil (h : Header) : h.encode ≠ [] :=
  List.append_ne_nil_of_right_ne_nil _ (List.cons_ne_nil _ _)

theorem headLines_cons (statusLine : Bytes) (h : Header) (headers : List Header) :
    headLines statusLine (h :: headers) = statusLine ++ 13 :: 10 :: headLines h.encode headers := by
  simp [headLines, crlf]

/-- No end of the head is found within a line. -/
theorem indexOf_endOfHead_line (hline : 10 ∉ line) :
    indexOf endOfHead (line ++ 13 :: tail) = (indexOf endOfHead (13 :: tail)).map (line.length + ·) := by
  induction line with
  | nil =>
    rw [List.nil_append]
    cases indexOf endOfHead (13 :: tail) with
    | none => rfl
    | some i => exact congrArg some (Nat.zero_add i).symm
  | cons x line ih =>
    have hnot : ¬ endOfHead <+: x :: (line ++ 13 :: tail) := fun hprefix =>
      not_prefix_of_notMem _ (a := 13) (by decide) (List.cons_ne_nil x line) hline
        ((List.prefix_append [13, 10] [13, 10]).trans hprefix)
    rw [List.cons_append, indexOf, if_neg hnot, ih fun hmem => hline (List.mem_cons_of_mem _ hmem),
      Option.map_map]
    refine congrArg (Option.map · _) (funext fun i => ?_)
    rw [Function.comp_apply, List.length_cons]
    omega

/-- Nor at the end of a line that another one follows. -/
theorem indexOf_endOfHead_crlf (hnext : ¬ crlf <+: tail) :
    indexOf endOfHead (13 :: 10 :: tail) = (indexOf endOfHead tail).map (2 + ·) := by
  have hfirst : ¬ endOfHead <+: 13 :: 10 :: tail := fun hprefix =>
    hnext ((List.prefix_append_right_inj crlf).mp hprefix)
  have hsecond : ¬ endOfHead <+: 10 :: tail := fun hprefix =>
    absurd (List.cons_prefix_cons.mp hprefix).1 (by decide)
  rw [indexOf, if_neg hfirst, indexOf, if_neg hsecond, Option.map_map]
  refine congrArg (Option.map · _) (funext fun i => ?_)
  rw [Function.comp_apply]
  omega

/-- **The head ends where its lines do**: the induction is on the headers, each a line
with something on it. -/
theorem indexOf_endOfHead (headers : List Header) (hstatus : 10 ∉ statusLine) (rest : Bytes) :
    indexOf endOfHead (headLines statusLine headers ++ (endOfHead ++ rest)) =
      some (headLines statusLine headers).length := by
  induction headers generalizing statusLine with
  | nil =>
    have hlines : headLines statusLine [] = statusLine := List.append_nil _
    have hhere : indexOf endOfHead (13 :: 10 :: 13 :: 10 :: rest) = some 0 := if_pos ⟨rest, rfl⟩
    rw [hlines]
    show indexOf endOfHead (statusLine ++ 13 :: 10 :: 13 :: 10 :: rest) = _
    rw [indexOf_endOfHead_line hstatus, hhere]
    rfl
  | cons h headers ih =>
    have hnext : ¬ crlf <+: headLines h.encode headers ++ (endOfHead ++ rest) := by
      have hstart : ∃ more, headLines h.encode headers ++ (endOfHead ++ rest) = h.encode ++ 13 :: more := by
        cases headers with
        | nil => exact ⟨_, by simp [headLines, endOfHead]; rfl⟩
        | cons h' headers => exact ⟨_, by rw [headLines_cons, List.append_assoc]; rfl⟩
      obtain ⟨more, hmore⟩ := hstart
      rw [hmore]
      exact not_prefix_of_notMem _ (by decide) h.encode_ne_nil h.encode_oneLine
    rw [headLines_cons, List.append_assoc]
    show indexOf endOfHead (statusLine ++ 13 :: 10 :: (headLines h.encode headers ++ _)) = _
    rw [indexOf_endOfHead_line hstatus, indexOf_endOfHead_crlf hnext, ih h.encode_oneLine, Option.map_some,
      Option.map_some, List.length_append, List.length_cons, List.length_cons]
    congr 1
    omega

theorem splitPairAt_headLines (hstatus : 10 ∉ statusLine) :
    splitPairAt 13 10 (readUtf8 (headLines statusLine headers)) =
      readUtf8 statusLine :: headers.map fun h => readUtf8 h.encode := by
  induction headers generalizing statusLine with
  | nil =>
    have hlines : headLines statusLine [] = statusLine := List.append_nil _
    rw [hlines]
    exact splitPairAt_self (newline_notMem_readUtf8 hstatus)
  | cons h headers ih =>
    have hcr := readUtf8_append_ascii (b := 13) (by decide) statusLine (10 :: headLines h.encode headers)
    have hlf := readUtf8_append_ascii (b := 10) (by decide) [] (headLines h.encode headers)
    rw [List.nil_append] at hlf
    rw [headLines_cons, hcr, hlf]
    show splitPairAt 13 10 (readUtf8 statusLine ++ 13 :: 10 :: _) = _
    rw [splitPairAt_append (by decide) (newline_notMem_readUtf8 hstatus), ih h.encode_oneLine]
    rfl

theorem headerOf_encode (h : Header) : headerOf toLowerCase (readUtf8 h.encode) =
    (toLowerCase (trimUnits (readUtf8 h.name)), trimUnits (readUtf8 h.value)) := by
  have hcolon : 58 ∉ readUtf8 h.name := by
    refine ascii_notMem_readUtf8 (a := ':') ⟨by decide, by decide⟩ fun b hb heq => h.name_noColon ?_
    have hb58 : b = 58 := UInt8.toNat_inj.mp heq
    rwa [hb58] at hb
  have hread := readUtf8_append_ascii (b := 58) (by decide) h.name h.value
  have hfound : indexOf [58] (readUtf8 h.encode) = some (readUtf8 h.name).length := by
    unfold Header.encode
    rw [hread]
    exact indexOf_singleton hcolon
  have hafter : (readUtf8 h.name ++ 58 :: readUtf8 h.value).drop ((readUtf8 h.name).length + 1) =
      readUtf8 h.value := by simp
  unfold headerOf
  rw [hfound]
  dsimp only
  unfold Header.encode
  rw [hread]
  show (toLowerCase (trimUnits ((readUtf8 h.name ++ 58 :: readUtf8 h.value).take _)),
    trimUnits ((readUtf8 h.name ++ 58 :: readUtf8 h.value).drop _)) = _
  rw [List.take_left, hafter]

theorem isChunked_of_announces (hannounced : ∃ h ∈ headers, h.Announces toLowerCase) :
    isChunked toLowerCase (headers.map fun h => headerOf toLowerCase (readUtf8 h.encode)) = true := by
  obtain ⟨h, hmem, hname, hvalue⟩ := hannounced
  refine List.any_eq_true.mpr ⟨_, List.mem_map_of_mem hmem, ?_⟩
  rw [headerOf_encode, Bool.and_eq_true, decide_eq_true_eq, decide_eq_true_eq]
  exact ⟨hname, hvalue⟩

/-- A response whose head has come is read as chunks behind it. -/
theorem chunkedBody_encodeHead {raw : Buffer} (hraw : raw.bytes = encodeHead statusLine headers ++ rest)
    (hstatus : 10 ∉ statusLine) (hannounced : ∃ h ∈ headers, h.Announces toLowerCase) :
    chunkedBody toLowerCase raw = some rest := by
  have hend := indexOf_endOfHead headers hstatus rest
  have hhead : splitHead raw.bytes =
      some (readUtf8 statusLine :: headers.map fun h => readUtf8 h.encode, rest) := by
    have hafter : (headLines statusLine headers ++ (endOfHead ++ rest)).drop
        ((headLines statusLine headers).length + 4) = rest := by
      rw [← List.drop_drop, List.drop_left]
      rfl
    unfold splitHead
    rw [hraw, encodeHead, List.append_assoc, hend, Option.map_some, List.take_left,
      splitPairAt_headLines hstatus, hafter]
  have hchunked := isChunked_of_announces hannounced
  unfold chunkedBody
  rw [hhead]
  refine if_pos ?_
  rw [headersOf, List.drop_one, List.tail_cons, List.map_map]
  exact hchunked

/-- A response that is cut off in its head is read as one without a body. -/
theorem splitHead_cut (hcut : cut <+: encodeHead statusLine headers ++ rest) (hstatus : 10 ∉ statusLine)
    (hshort : cut.length < (encodeHead statusLine headers).length) : splitHead cut = none := by
  unfold splitHead
  cases hfound : indexOf endOfHead cut with
  | none => rfl
  | some i =>
    obtain ⟨later, hlater⟩ := hcut
    have hwhole := indexOf_append later hfound
    have hfits := indexOf_fits hfound
    rw [hlater, encodeHead, List.append_assoc, indexOf_endOfHead headers hstatus] at hwhole
    cases hwhole
    rw [encodeHead, List.length_append] at hshort
    omega

end Heads

/-! ## Responses -/

section Responses

variable {toLowerCase : List Nat → List Nat} {statusLine : Bytes} {headers : List Header}
  {chunks : List Chunk} {last : LastChunk} {raw cut : Buffer}

/-- No chunk is longer than a buffer. -/
theorem length_data_lt (hraw : raw.bytes = encodeResponse statusLine headers chunks last) :
    ∀ c ∈ chunks, c.data.length < 2 ^ 53 := by
  intro c hc
  have hencode : c.data.Sublist c.encode :=
    (List.sublist_append_left c.data crlf).trans (List.sublist_append_right _ _)
  have hchunks : c.encode.Sublist (chunks.flatMap Chunk.encode) := by
    rw [List.flatMap_def]
    exact List.sublist_flatten_of_mem (List.mem_map_of_mem hc)
  have hall : (chunks.flatMap Chunk.encode).Sublist (encodeResponse statusLine headers chunks last) :=
    (List.sublist_append_left _ last.encode).trans (List.sublist_append_right _ _)
  have hle := (hencode.trans (hchunks.trans hall)).length_le
  rw [← hraw] at hle
  exact lt_of_le_of_lt hle raw.bounded

theorem returns_of_cut (hcut : cut.bytes <+: encodeResponse statusLine headers chunks last)
    (hbound : ∀ c ∈ chunks, c.data.length < 2 ^ 53) (hstatus : 10 ∉ statusLine)
    (hannounced : ∃ h ∈ headers, h.Announces toLowerCase) : ∃ r, Returns toLowerCase cut r ∧
      r.body <+: bodyOf chunks ∧
      ((encodeHead statusLine headers).length + (chunks.flatMap Chunk.encode).length ≤ cut.bytes.length →
        r.body = bodyOf chunks) := by
  by_cases hhead : (encodeHead statusLine headers).length ≤ cut.bytes.length
  · obtain ⟨more, hmore, hprefix⟩ := exists_of_prefix_append hcut hhead
    obtain ⟨got, hgot, hbody, hall⟩ := dechunkLoop_cut hprefix hbound [] []
    obtain ⟨r, hr, rfl⟩ := returns_of_dechunk (chunkedBody_encodeHead hmore hstatus hannounced) hgot
    refine ⟨r, hr, hbody, fun hle => hall ?_⟩
    rw [hmore, List.length_append] at hle
    omega
  · have hnone := splitHead_cut hcut hstatus (Nat.not_le.mp hhead)
    refine ⟨⟨readUtf8 (cut.bytes.take 80), .fin 0, [], []⟩, ⟨0, ?_⟩, List.nil_prefix, fun hle => ?_⟩
    · unfold parseRawHttp
      rw [hnone]
    · omega

end Responses

/-- **A chunked response gives the body that was cut into chunks**, and one that is cut off
anywhere gives a beginning of it. -/
theorem parseRawHttp_encodeResponse (toLowerCase : List Nat → List Nat) (statusLine : Bytes)
    (headers : List Header) (chunks : List Chunk) (last : LastChunk) (raw : Buffer)
    (hraw : raw.bytes = encodeResponse statusLine headers chunks last) (hstatus : 10 ∉ statusLine)
    (hannounced : ∃ h ∈ headers, h.Announces toLowerCase) :
    (∃ r, Returns toLowerCase raw r ∧ r.body = bodyOf chunks) ∧
      ∀ cut : Buffer, cut.bytes <+: raw.bytes →
        ∃ r, Returns toLowerCase cut r ∧ r.body <+: bodyOf chunks := by
  have hbound := length_data_lt hraw
  constructor
  · have hwhole : raw.bytes <+: encodeResponse statusLine headers chunks last :=
      ⟨[], by rw [List.append_nil, hraw]⟩
    obtain ⟨r, hr, -, hall⟩ := returns_of_cut hwhole hbound hstatus hannounced
    refine ⟨r, hr, hall ?_⟩
    rw [hraw, encodeResponse, encodeChunks, List.length_append, List.length_append]
    omega
  · intro cut hcut
    obtain ⟨r, hr, hbody, -⟩ := returns_of_cut (hraw ▸ hcut) hbound hstatus hannounced
    exact ⟨r, hr, hbody⟩

/-! ### A chunk with lines in it -/

def chunkedHeader : Header where
  name := utf8 "Transfer-Encoding"
  value := utf8 " Chunked"
  name_noColon := by decide
  name_oneLine := by decide
  value_oneLine := by decide

theorem isExtension_nil : IsExtension [] where
  shape := ⟨[], [], rfl, fun _ h => absurd h List.not_mem_nil, .inl rfl⟩
  oneLine := List.not_mem_nil

/-- Its data reads like the end of a chunk and the size of another one. -/
def firstChunk : Chunk where
  size := utf8 "00C"
  ext := utf8 " ;a=b"
  data := utf8 "one\x0d\x0a6;\x0d\x0atwo"
  nonempty := by decide
  isSize := ⟨by decide, by decide +kernel, by decide⟩
  isExtension := ⟨⟨[32], [59, 97, 61, 98], by decide, by decide +kernel, .inr ⟨_, rfl⟩⟩,
    by decide⟩

def lastChunk : LastChunk where
  size := [48]
  ext := []
  trailer := crlf
  isSize := ⟨by decide, by decide +kernel, by decide⟩
  isExtension := isExtension_nil

def linesInside : Buffer where
  bytes := encodeResponse (utf8 "HTTP/1.1 200 OK") [chunkedHeader] [firstChunk] lastChunk
  bounded := by decide

theorem parseRawHttp_encodeResponse_linesInside :
    (∃ r, Returns lowerAscii linesInside r ∧ r.body = bodyOf [firstChunk]) ∧
      ∀ cut : Buffer, cut.bytes <+: linesInside.bytes →
        ∃ r, Returns lowerAscii cut r ∧ r.body <+: bodyOf [firstChunk] :=
  parseRawHttp_encodeResponse lowerAscii (utf8 "HTTP/1.1 200 OK") [chunkedHeader] [firstChunk] lastChunk
    linesInside rfl (by decide)
    ⟨chunkedHeader, List.mem_singleton_self _, by decide, by decide⟩

end SupabaseLab.ReplicaRouting
