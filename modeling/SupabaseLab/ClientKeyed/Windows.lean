/-
  ClientKeyed/Windows.lean --- reading an asset window by window.

  Source: `needleCounter` and the window loop of `readAll`, client/src/read.ts.

      readAll        windows [0, step), [step, 2 * step), ... of the plaintext, each read
                     and hashed in its turn
      needleCounter  fed one window of bytes after another, it counts a needle in
                     all of them joined; what may be the start of a match is carried
                     over to the next window
-/
import SupabaseLab.Library.Occurrences
import SupabaseLab.ClientKeyed.ReadBack

set_option autoImplicit false

namespace SupabaseLab.ClientKeyed

open Library

/-! ## The needle counter -/

/-- The variables `needleCounter` closes over; `n` is the needle in UTF-8. -/
structure NeedleCounter where
  n : Bytes
  tail : Bytes := []
  hits : Nat := 0
  deriving DecidableEq, Repr

/-- `buf.indexOf(b, start)`; nothing is equal to an undefined `b`. -/
def indexOf (buf : Bytes) (b : Option UInt8) (start : Nat) : Option Nat :=
  (List.range' start (buf.length - start)).find? fun i => b.isSome ∧ buf[i]? = b

/-- The loop over the rest of the needle, for a first byte at `i`. -/
def restMatches (n buf : Bytes) (i : Nat) : Bool :=
  (List.range' 1 (n.length - 1)).all fun j => buf[i + j]? = n[j]?

theorem indexOf_eq_some {buf : Bytes} {b : Option UInt8} {start i : Nat} (h : indexOf buf b start = some i) :
    start ≤ i ∧ i < buf.length := by
  have hmem := List.mem_range'_1.mp (List.mem_of_find?_eq_some h)
  omega

/-- Native first-byte search, then compare the rest. -/
def scan (n buf : Bytes) (start hits : Nat) : Nat :=
  match h : indexOf buf n[0]? start with
  | none => hits
  | some i =>
      have := indexOf_eq_some h
      if i + n.length ≤ buf.length then
        scan n buf (i + 1) (hits + (restMatches n buf i).toNat)
      else hits
termination_by buf.length - start

def NeedleCounter.feed (c : NeedleCounter) (u : Bytes) : NeedleCounter :=
  let buf := c.tail ++ u
  { c with
    hits := scan c.n buf 0 c.hits
    tail := buf.drop (buf.length + 1 - c.n.length) }

section Needle

variable {n buf : Bytes} {start i : Nat}

/-- No occurrence lies before the first place with the needle's first byte. -/
theorem le_of_mem_occurrences (hn : n ≠ []) (hi : i ∈ occurrences n buf) (hstart : start ≤ i) :
    ∃ j, indexOf buf n[0]? start = some j ∧ j ≤ i := by
  have hfit := add_length_le_of_mem_occurrences hn hi
  have hpos := List.length_pos_iff.mpr hn
  have hat : n[0]?.isSome ∧ buf[i]? = n[0]? :=
    ⟨by rw [List.getElem?_eq_getElem hpos]; rfl, getElem?_of_mem_occurrences hn hi⟩
  cases hfirst : indexOf buf n[0]? start with
  | none =>
    have hnone := List.find?_eq_none.mp hfirst i (List.mem_range'_1.mpr ⟨hstart, by omega⟩)
    exact absurd (decide_eq_true hat) hnone
  | some j =>
    refine ⟨j, rfl, Nat.not_lt.mp fun hlt => ?_⟩
    have hearlier := (List.find?_range'_eq_some.mp hfirst).2.2 i hstart hlt
    rw [decide_eq_true hat] at hearlier
    cases hearlier

/-- A first byte, with the rest behind it, is an occurrence. -/
theorem mem_occurrences_iff_rest (hn : n ≠ []) (hfound : indexOf buf n[0]? start = some i) :
    i ∈ occurrences n buf ↔ restMatches n buf i = true := by
  have hbyte : buf[i]? = n[0]? := (of_decide_eq_true (List.find?_range'_eq_some.mp hfound).1).2
  rw [mem_occurrences hn, List.prefix_iff_getElem?, restMatches, List.all_eq_true]
  constructor
  · intro hstands j hj
    have hj := List.mem_range'_1.mp hj
    have hat := hstands j (by omega)
    rw [List.getElem?_drop] at hat
    rw [decide_eq_true_eq, hat, List.getElem?_eq_getElem]
  · intro hrest j hj
    rw [List.getElem?_drop, ← List.getElem?_eq_getElem hj]
    rcases Nat.eq_zero_or_pos j with rfl | hpos
    · rw [Nat.add_zero, hbyte]
    · exact of_decide_eq_true (hrest j (List.mem_range'_1.mpr ⟨hpos, by omega⟩))

/-- The occurrences from `start` on are the one at the first byte found, if it is one, and
those behind it. -/
theorem card_occurrences_from (hn : n ≠ []) (hfound : indexOf buf n[0]? start = some i) :
    ((occurrences n buf).filter (start ≤ ·)).card =
      (restMatches n buf i).toNat + ((occurrences n buf).filter (i + 1 ≤ ·)).card := by
  have hstart := (indexOf_eq_some hfound).1
  have hiff := mem_occurrences_iff_rest hn hfound
  have hle : ∀ j ∈ occurrences n buf, start ≤ j → i ≤ j := by
    intro j hj hjstart
    obtain ⟨i', hi', hle⟩ := le_of_mem_occurrences hn hj hjstart
    obtain rfl : i = i' := Option.some.inj (hfound.symm.trans hi')
    exact hle
  cases hrest : restMatches n buf i with
  | true =>
    have hsplit : (occurrences n buf).filter (start ≤ ·) =
        insert i ((occurrences n buf).filter (i + 1 ≤ ·)) := by
      ext j
      rw [Finset.mem_insert, Finset.mem_filter, Finset.mem_filter]
      constructor
      · rintro ⟨hj, hjstart⟩
        have := hle j hj hjstart
        rcases Nat.eq_or_lt_of_le this with rfl | hlt
        · exact .inl rfl
        · exact .inr ⟨hj, hlt⟩
      · rintro (rfl | ⟨hj, hlt⟩)
        · exact ⟨hiff.mpr hrest, hstart⟩
        · exact ⟨hj, by omega⟩
    rw [hsplit, Finset.card_insert_of_notMem (by simp), Bool.toNat_true, Nat.add_comm]
  | false =>
    rw [Bool.toNat_false, Nat.zero_add]
    congr 1
    refine Finset.filter_congr fun j hj => ⟨fun hjstart => ?_, fun hlt => by omega⟩
    have := hle j hj hjstart
    rcases Nat.eq_or_lt_of_le this with rfl | hlt
    · rw [hiff.mp hj] at hrest
      cases hrest
    · exact hlt

/-- The scan counts the occurrences from its start on. -/
theorem scan_eq (hn : n ≠ []) (start hits : Nat) :
    scan n buf start hits = hits + ((occurrences n buf).filter (start ≤ ·)).card := by
  fun_induction scan n buf start hits with
  | case1 start hits hnone =>
    have hempty : (occurrences n buf).filter (start ≤ ·) = ∅ := by
      refine Finset.filter_eq_empty_iff.mpr fun i hi hstart => ?_
      obtain ⟨j, hj, -⟩ := le_of_mem_occurrences hn hi hstart
      rw [hnone] at hj
      cases hj
    rw [hempty, Finset.card_empty, Nat.add_zero]
  | case2 start hits i hfound _ hfit ih =>
    rw [ih, Nat.add_assoc, card_occurrences_from hn hfound]
  | case3 start hits i hfound _ hbeyond =>
    have hempty : (occurrences n buf).filter (start ≤ ·) = ∅ := by
      refine Finset.filter_eq_empty_iff.mpr fun j hj hstart => ?_
      obtain ⟨i', hi', hle⟩ := le_of_mem_occurrences hn hj hstart
      obtain rfl : i = i' := Option.some.inj (hfound.symm.trans hi')
      have := add_length_le_of_mem_occurrences hn hj
      omega
    rw [hempty, Finset.card_empty, Nat.add_zero]

/-- What the counter holds after the windows of `text`. -/
structure Counted (n text : Bytes) (c : NeedleCounter) : Prop where
  needle : c.n = n
  tail : c.tail = carried n text
  hits : c.hits = (occurrences n text).card

theorem Counted.feed (hn : n ≠ []) {text : Bytes} {c : NeedleCounter} (h : Counted n text c) (u : Bytes) :
    Counted n (text ++ u) (c.feed u) := by
  obtain ⟨rfl, htail, hhits⟩ := h
  have hpos := List.length_pos_iff.mpr hn
  refine ⟨rfl, ?_, ?_⟩
  · rw [← carried_carried_append, ← htail, carried]
    show (c.tail ++ u).drop _ = _
    congr 1
    omega
  · rw [card_occurrences_append hn, ← hhits, ← htail]
    show scan c.n (c.tail ++ u) 0 c.hits = _
    rw [scan_eq hn, Finset.filter_true_of_mem fun i _ => Nat.zero_le i]

/-- **Every way of cutting a text gives the same count.** -/
theorem needleCounter_counts (hn : n ≠ []) (windows : List Bytes) :
    (windows.foldl NeedleCounter.feed { n := n }).hits = (occurrences n windows.flatten).card := by
  have hrun : ∀ text c, Counted n text c →
      Counted n (text ++ windows.flatten) (windows.foldl NeedleCounter.feed c) := by
    induction windows with
    | nil =>
      intro text c hc
      rw [List.flatten_nil, List.append_nil]
      exact hc
    | cons u windows ih =>
      intro text c hc
      rw [List.flatten_cons, ← List.append_assoc]
      exact ih (text ++ u) (c.feed u) (hc.feed hn u)
  have hstart : Counted n [] { n := n } := by
    refine ⟨rfl, List.drop_nil.symm, ?_⟩
    simp [occurrences, hn]
  exact (hrun [] _ hstart).hits

end Needle

/-! ## The windows of a full read -/

/-- The loop of `readAll` from position `p` on, given at most `turns` turns: the windows it
reads, or `none` when it is not over by then. -/
def windowLoop (size step : Nat) : Nat → Nat → Option (List (Nat × Nat))
  | 0, p => if p < size then none else some []
  | turns + 1, p =>
      if p < size then
        (windowLoop size step turns (p + step)).map fun rest => (p, min size (p + step)) :: rest
      else some []

/-- The windows lie end to end from `a` to `b`, and none is empty. -/
inductive Tiles : Nat → Nat → List (Nat × Nat) → Prop where
  | nil (a : Nat) : Tiles a a []
  | cons {a b c : Nat} {ws : List (Nat × Nat)} (hlt : a < b) (rest : Tiles b c ws) :
      Tiles a c ((a, b) :: ws)

section Windows

variable {size step : Nat}

theorem Tiles.le {a b : Nat} {ws : List (Nat × Nat)} (h : Tiles a b ws) : a ≤ b := by
  induction h with
  | nil a => exact Nat.le_refl a
  | cons hlt _ ih => omega

theorem Tiles.start_le {a b : Nat} {ws : List (Nat × Nat)} (h : Tiles a b ws) :
    ∀ w ∈ ws, a ≤ w.1 ∧ w.1 < w.2 ∧ w.2 ≤ b := by
  induction h with
  | nil a => exact fun w hw => absurd hw List.not_mem_nil
  | cons hlt rest ih =>
    intro w hw
    rcases List.mem_cons.mp hw with rfl | hw
    · exact ⟨Nat.le_refl _, hlt, rest.le⟩
    · obtain ⟨hstart, hne, hstop⟩ := ih w hw
      exact ⟨by omega, hne, hstop⟩

/-- Every position lies in exactly one window. -/
theorem Tiles.exists_unique {a b : Nat} {ws : List (Nat × Nat)} (h : Tiles a b ws) {x : Nat}
    (ha : a ≤ x) (hb : x < b) : ∃! w, w ∈ ws ∧ w.1 ≤ x ∧ x < w.2 := by
  induction h with
  | nil a => omega
  | @cons a m b ws hlt rest ih =>
    by_cases hx : x < m
    · refine ⟨(a, m), ⟨List.mem_cons_self, ha, hx⟩, fun w hw => ?_⟩
      rcases List.mem_cons.mp hw.1 with rfl | hmem
      · rfl
      · have := (rest.start_le w hmem).1
        omega
    · obtain ⟨w, ⟨hw, hin⟩, hunique⟩ := ih (by omega) hb
      refine ⟨w, ⟨List.mem_cons_of_mem _ hw, hin⟩, fun v hv => ?_⟩
      rcases List.mem_cons.mp hv.1 with rfl | hmem
      · exact absurd hv.2.2 hx
      · exact hunique v ⟨hmem, hv.2⟩

/-- What the windows hold, one after the other, is what lies between their ends. -/
theorem Tiles.flatMap_slice {α : Type} {a b : Nat} {ws : List (Nat × Nat)} (h : Tiles a b ws)
    (l : List α) : ws.flatMap (fun w => slice l w.1 w.2) = slice l a b := by
  induction h with
  | nil a => exact (slice_eq_nil (Nat.le_refl a)).symm
  | cons hlt rest ih =>
    rw [List.flatMap_cons, ih]
    exact slice_append_slice (Nat.le_of_lt hlt) rest.le

theorem lt_windowCount_iff (hstep : 0 < step) {i : Nat} :
    i < (size + step - 1) / step ↔ i * step < size := by
  rw [Nat.lt_div_iff_mul_lt hstep]
  omega

theorem windowLoop_over {p : Nat} (hp : ¬ p < size) (turns : Nat) :
    windowLoop size step turns p = some [] := by
  cases turns with
  | zero => exact if_neg hp
  | succ turns => exact if_neg hp

/-- The windows that are left from the `i`-th on. -/
structure WindowsFrom (size step i : Nat) (ws : List (Nat × Nat)) : Prop where
  tiles : Tiles (min (i * step) size) size ws
  starts : ws.map Prod.fst = (List.range' i ((size + step - 1) / step - i)).map (· * step)
  stops : ∀ w ∈ ws, w.2 = min size (w.1 + step)

theorem WindowsFrom.nil (hstep : 0 < step) {i : Nat} (hover : ¬ i * step < size) :
    WindowsFrom size step i [] where
  tiles := by
    rw [Nat.min_eq_right (by omega)]
    exact .nil size
  starts := by
    rw [Nat.sub_eq_zero_of_le (Nat.not_lt.mp (mt (lt_windowCount_iff hstep).mp hover))]
    rfl
  stops w hw := absurd hw List.not_mem_nil

theorem WindowsFrom.cons (hstep : 0 < step) {i : Nat} {ws : List (Nat × Nat)} (hlt : i * step < size)
    (h : WindowsFrom size step (i + 1) ws) :
    WindowsFrom size step i ((i * step, min size (i * step + step)) :: ws) where
  tiles := by
    have hrest := h.tiles
    rw [Nat.succ_mul, Nat.min_comm (i * step + step)] at hrest
    rw [Nat.min_eq_left (Nat.le_of_lt hlt)]
    exact .cons (by omega) hrest
  starts := by
    have hcount := (lt_windowCount_iff hstep).mpr hlt
    rw [List.map_cons, h.starts, ← Nat.sub_sub, ← List.map_cons (f := (· * step)), ← List.range'_succ]
    congr 2
    omega
  stops w hw := by
    rcases List.mem_cons.mp hw with rfl | hw
    · rfl
    · exact h.stops w hw

/-- The loop ends, whatever turns it is given beyond one for each byte. -/
theorem windowLoop_windows (hstep : 0 < step) (turns i : Nat) (hturns : size - i * step ≤ turns) :
    ∃ ws, windowLoop size step turns (i * step) = some ws ∧ WindowsFrom size step i ws := by
  induction turns generalizing i with
  | zero =>
    have hover : ¬ i * step < size := by omega
    exact ⟨[], windowLoop_over hover 0, .nil hstep hover⟩
  | succ turns ih =>
    by_cases hlt : i * step < size
    · have hnext : (i + 1) * step = i * step + step := Nat.succ_mul i step
      obtain ⟨ws, hloop, hws⟩ := ih (i + 1) (by omega)
      refine ⟨_, ?_, hws.cons hstep hlt⟩
      rw [windowLoop, if_pos hlt, ← hnext, hloop]
      rfl
    · exact ⟨[], windowLoop_over hlt _, .nil hstep hlt⟩

/-- The windows `readAll` reads. -/
def windowsOf (size step : Nat) : List (Nat × Nat) :=
  (windowStarts size step).map fun p => (p, min size (p + step))

theorem WindowsFrom.eq_windowsOf {ws : List (Nat × Nat)} (h : WindowsFrom size step 0 ws) :
    ws = windowsOf size step := by
  have hstarts := h.starts
  rw [Nat.sub_zero, ← List.range_eq_range'] at hstarts
  rw [windowsOf, windowStarts, ← hstarts, List.map_map]
  refine (List.map_id ws).symm.trans (List.map_congr_left fun w hw => ?_)
  exact Prod.ext rfl (h.stops w hw)

theorem windowLoop_eq (hstep : 0 < step) {turns : Nat} (hturns : size ≤ turns) :
    windowLoop size step turns 0 = some (windowsOf size step) := by
  obtain ⟨ws, hloop, hws⟩ : ∃ ws, windowLoop size step turns (0 * step) = some ws ∧
      WindowsFrom size step 0 ws := windowLoop_windows hstep turns 0 (by omega)
  rw [Nat.zero_mul] at hloop
  rw [hloop, hws.eq_windowsOf]

theorem tiles_windowsOf (hstep : 0 < step) : Tiles 0 size (windowsOf size step) := by
  obtain ⟨ws, -, hws⟩ : ∃ ws, windowLoop size step size (0 * step) = some ws ∧
      WindowsFrom size step 0 ws := windowLoop_windows hstep size 0 (by omega)
  have htiles := hws.tiles
  rw [Nat.zero_mul, Nat.min_eq_left (Nat.zero_le _)] at htiles
  rwa [← hws.eq_windowsOf]

end Windows

/-! ## A full read of an honest store -/

section Reads

variable {C : Crypto} {a : AssetRow} {o : ReadOpts} {env : ReadEnv} {window : Nat → ReadEnv}
  {dek src : Bytes} {enc : EncryptedRange}

/-- A window was read, and what came back is the plaintext it covers. -/
def Delivers (C : Crypto) (window : Nat → ReadEnv) (o : ReadOpts) (src : Bytes) (w : Nat × Nat)
    (r : ReadResult) : Prop :=
  readRange C (window w.1) w.1 w.2 o = .ok r ∧ r.plain = slice src w.1 w.2

theorem readWindows_delivers {step : Nat} (starts : List Nat)
    (h : ∀ p ∈ starts, ∃ r, Delivers C window o src (p, min a.plaintextSize (p + step)) r) :
    ∃ reads, readWindows C window o a.plaintextSize step starts = .ok reads ∧
      List.Forall₂ (Delivers C window o src)
        (starts.map fun p => (p, min a.plaintextSize (p + step))) reads := by
  induction starts with
  | nil => exact ⟨[], rfl, .nil⟩
  | cons p starts ih =>
    obtain ⟨r, hr⟩ := h p List.mem_cons_self
    obtain ⟨reads, hreads, hall⟩ := ih fun q hq => h q (List.mem_cons_of_mem _ hq)
    refine ⟨r :: reads, ?_, .cons hr hall⟩
    rw [readWindows]
    simp only [hr.1, ok_bind, hreads]
    rfl

theorem flatMap_plain {ws : List (Nat × Nat)} {reads : List ReadResult}
    (h : List.Forall₂ (Delivers C window o src) ws reads) :
    reads.flatMap (·.plain) = ws.flatMap fun w => slice src w.1 w.2 := by
  induction h with
  | nil => rfl
  | cons hr _ ih => rw [List.flatMap_cons, List.flatMap_cons, ih, hr.2]

/-- **Windowed reading and needle counting.**  The windows of a full read tile the asset,
each is read as the plaintext it covers, and the plaintext goes to the hash in order; and
the needle counter counts, in any pieces, what is in the whole. -/
theorem readAll_windows_and_needles (hlaw : C.aead.Inverts TAG) (hrow : a.Describes src)
    (hstate : a.uploadState = "complete") (hsha : a.plaintextSha256 = some (C.sha256Hex src))
    (hdek : dek.length = 32) (henc : encryptRange C dek a src 0 (a.chunkCount - 1) = .ok enc)
    (hserve : env.Serves a dek enc) (hwindow : ∀ p, (window p).Serves a dek enc)
    {windowChunks : Nat} (hpos : 0 < windowChunks) {n : Bytes} (hn : n ≠ []) (pieces : List Bytes) :
    (∃ ws reads,
      (∀ turns, a.plaintextSize ≤ turns →
        windowLoop a.plaintextSize (windowChunks * a.chunkSize) turns 0 = some ws) ∧
      Tiles 0 a.plaintextSize ws ∧ (∀ x < a.plaintextSize, ∃! w, w ∈ ws ∧ w.1 ≤ x ∧ x < w.2) ∧
      List.Forall₂ (Delivers C window { o with log := false } src) ws reads ∧
      readAll C env window o windowChunks = .ok
        { sha256 := C.sha256Hex src
          transferred := (reads.map (·.transferred)).sum
          plain := src }) ∧
      (pieces.foldl NeedleCounter.feed { n := n }).hits =
        (occurrences n pieces.flatten).card := by
  refine ⟨?_, needleCounter_counts hn pieces⟩
  have hstep : 0 < windowChunks * a.chunkSize := Nat.mul_pos hpos hrow.chunkSize_pos
  have htiles : Tiles 0 a.plaintextSize (windowsOf a.plaintextSize (windowChunks * a.chunkSize)) :=
    tiles_windowsOf hstep
  have heach : ∀ p ∈ windowStarts a.plaintextSize (windowChunks * a.chunkSize),
      ∃ r, Delivers C window { o with log := false } src
        (p, min a.plaintextSize (p + windowChunks * a.chunkSize)) r := by
    intro p hp
    obtain ⟨-, hne, hstop⟩ := htiles.start_le _ (List.mem_map_of_mem hp)
    obtain ⟨_, _, _, r, _, _, _, _, _, _, _, _, hread, hplain⟩ :=
      readRange_undoes_upload (o := { o with log := false }) hlaw hrow hstate hdek henc (hwindow p)
        hne (hstop.trans_eq hrow.size.symm)
    exact ⟨r, hread, hplain⟩
  obtain ⟨reads, hreads, hall⟩ := readWindows_delivers _ heach
  refine ⟨_, reads, fun turns => windowLoop_eq hstep, htiles,
    fun x => htiles.exists_unique (Nat.zero_le x), hall, ?_⟩
  have hplain : reads.flatMap (·.plain) = src := by
    rw [flatMap_plain hall]
    refine (htiles.flatMap_slice src).trans ?_
    rw [← hrow.size, slice_zero_length]
  rw [readAll]
  simp only [hserve.session, hserve.asset, hserve.logAccess, hreads, ok_bind, hplain,
    refuseIf_of_not (not_not.mpr hsha.symm)]
  rfl

end Reads

/-- The row of five bytes after `finish`. -/
def finishedRow : AssetRow :=
  { fiveByteRow with plaintextSha256 := some (plainCrypto.sha256Hex [10, 20, 30, 40, 50]) }

theorem finishedRow_describes : finishedRow.Describes [10, 20, 30, 40, 50] :=
  ⟨rfl, by decide, by decide, by decide⟩

/-- Five bytes are read in two windows; two overlapping needles, one of them across pieces. -/
theorem readAll_windows_and_needles_fiveBytes :
    (∃ r, readAll plainCrypto
        (ReadEnv.honest finishedRow (List.replicate 32 7)
          (cipherRange plainCrypto (List.replicate 32 7) finishedRow [10, 20, 30, 40, 50] 0 3))
        (fun _ => ReadEnv.honest finishedRow (List.replicate 32 7)
          (cipherRange plainCrypto (List.replicate 32 7) finishedRow [10, 20, 30, 40, 50] 0 3))
        {} 2 = .ok r ∧ r.plain = [10, 20, 30, 40, 50]) ∧
      ([[1, 1], [], [1, 2]].foldl NeedleCounter.feed { n := [1, 1] }).hits = 2 := by
  obtain ⟨⟨_, _, _, _, _, _, hread⟩, hhits⟩ :=
    readAll_windows_and_needles (o := {}) (n := [1, 1]) Aead.checksum_lawful.toInverts
      finishedRow_describes rfl rfl (List.length_replicate)
      (show encryptRange plainCrypto (List.replicate 32 7) finishedRow [10, 20, 30, 40, 50] 0 2 = _
        from encryptRange_eq (by rw [finishedRow, fiveByteRow, unhex_hex]; rfl) rfl 0 2)
      (ReadEnv.honest_serves _ _ _) (fun _ => ReadEnv.honest_serves _ _ _) (show 0 < 2 by decide)
      (by decide) [[1, 1], [], [1, 2]]
  exact ⟨⟨_, hread, rfl⟩, hhits.trans (by decide)⟩

end SupabaseLab.ClientKeyed
