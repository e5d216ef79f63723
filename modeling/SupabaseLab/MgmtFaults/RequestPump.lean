/-
  MgmtFaults/RequestPump.lean --- the loop that takes requests off a buffer.

  Source: `parseRequest` and `pump` of experiments/mgmt-api-faults/lib/connfault.ts.

  The declared length of a body is whatever number `Number` finds in the header:
  it may be negative, have a fraction, or be infinite.  `parseRequest` and the loop
  are followed here with numbers as the language has them.
-/
import SupabaseLab.Library.JsDouble
import SupabaseLab.Library.Slice
import SupabaseLab.MgmtFaults.Pipelining

set_option autoImplicit false

namespace SupabaseLab.MgmtFaults.RequestPump

open Library

/-! ## One request -/

structure ParsedRequest where
  method : String
  path : String
  headers : List (String × String)
  body : Bytes
  /-- Bytes consumed from the buffer. -/
  used : Double
  deriving DecidableEq

inductive Parsed where
  | more
  | refused (error : String)
  | request (p : ParsedRequest)
  deriving DecidableEq

/-- `Number(v) || 0`. -/
def lengthOf (v : String) : Double :=
  match Double.ofText v.toList with
  | .nan => .fin 0
  | len => len

/-- `len`, after the header lines: that of the last Content-Length. -/
def declaredLength (headers : List (String × String)) : Double :=
  headers.foldl (fun len h => if h.1.toLower = "content-length" then lengthOf h.2 else len) (.fin 0)

/-- `buf.subarray(from, to)`, and `buf.subarray(from)`. -/
def subarray (buf : Bytes) (start : Double) (stop : Double := .inf false) : Bytes :=
  slice buf (start.position buf.length) (stop.position buf.length)

/-- One HTTP/1.1 request from the front of `buf`. -/
def parseRequest (buf : Bytes) : Parsed :=
  match indexOf endOfHead buf with
  | none => .more
  | some stop =>
    let head := splitLines (latin1Text (buf.take stop))
    let words := (head.headD []).splitOn ' '
    match (head.drop 1).foldlM readHeader {} with
    | none => .refused "chunked request body"
    | some acc =>
      let start : Double := .fin (stop + 4 : Nat)
      let used := start.add (declaredLength acc.headers)
      if Double.lt (.fin buf.length) used then .more
      else .request
        { method := upper (String.ofList (words.headD []))
          path := String.ofList (words.getD 1 [])
          headers := acc.headers
          body := subarray buf start used
          used := used }

/-! ## The loop -/

/-- What comes of one `handle`: what was received meanwhile, and whether the loop ends with
it, the connection being dead or `handle` having thrown. -/
structure Handling where
  received : Bytes
  ends : Bool
  deriving DecidableEq, Repr

/-- The loop of `pump`, given at most `turns` turns: the buffers it parses, and whether it came
to its end.  Nothing more is received after the last of `handled`. -/
def pump : Nat → Bytes → List Handling → List Bytes × Bool
  | 0, _, _ => ([], false)
  | turns + 1, buf, handled =>
      match parseRequest buf with
      | .more | .refused _ => ([buf], true)
      | .request p =>
          let h := handled.headD ⟨[], false⟩
          if h.ends then ([buf], true)
          else
            let rest := pump turns (subarray buf p.used ++ h.received) handled.tail
            (buf :: rest.1, rest.2)

/-! ## What a turn leaves -/

/-- The header block at the front of a buffer, as far as the length goes. -/
def Declares (buf : Bytes) (start : Nat) (len : Double) : Prop :=
  ∃ stop acc, indexOf endOfHead buf = some stop ∧ start = stop + 4 ∧
    ((splitLines (latin1Text (buf.take stop))).drop 1).foldlM readHeader {} = some acc ∧
    len = declaredLength acc.headers

/-- `q ≤ d`. -/
def AtLeast (q : ℚ) : Double → Prop
  | .nan => False
  | .inf neg => neg = false
  | .fin v => q ≤ v

/-- A length that gets past the header block by a byte at least, counted from the front. -/
def LengthFits (buf : Bytes) : Prop :=
  ∀ start len, Declares buf start len → AtLeast (1 - start) len

/-- A request takes bytes that are there, and what is left is shorter. -/
def Shortens (buf : Bytes) : Prop :=
  ∀ p, parseRequest buf = .request p → ∃ q : ℚ, p.used = .fin q ∧ 0 < q ∧ q ≤ buf.length ∧
    (subarray buf p.used).length < buf.length

section Turn

variable {buf : Bytes} {start : Nat} {len : Double} {p : ParsedRequest}

theorem lengthOf_isNumber (v : String) : (lengthOf v).IsNumber := by
  unfold lengthOf
  split
  · exact Double.isNumber_zero
  · rename_i hnan
    exact Double.ofText_isNumber hnan

/-- Whatever the headers are, the declared length is a number. -/
theorem declaredLength_isNumber (headers : List (String × String)) : (declaredLength headers).IsNumber := by
  have hrun : ∀ len : Double, len.IsNumber → (headers.foldl
      (fun len h => if h.1.toLower = "content-length" then lengthOf h.2 else len) len).IsNumber := by
    induction headers with
    | nil => exact fun len hlen => hlen
    | cons h headers ih =>
      intro len hlen
      rw [List.foldl_cons]
      apply ih
      split
      · exact lengthOf_isNumber h.2
      · exact hlen
  exact hrun _ Double.isNumber_zero

theorem Declares.isNumber (h : Declares buf start len) : len.IsNumber := by
  obtain ⟨_, acc, -, -, -, rfl⟩ := h
  exact declaredLength_isNumber acc.headers

theorem Declares.bounds (h : Declares buf start len) : 4 ≤ start ∧ start ≤ buf.length := by
  obtain ⟨stop, acc, hstop, rfl, -⟩ := h
  have := indexOf_fits hstop
  exact ⟨by omega, this⟩

/-- A request takes its header block and what that declares. -/
theorem declares_of_request (h : parseRequest buf = .request p) : ∃ start len, Declares buf start len ∧
    p.used = (Double.fin start).add len ∧ Double.lt (.fin buf.length) p.used = false := by
  unfold parseRequest at h
  split at h
  · cases h
  · rename_i stop hstop
    dsimp only at h
    split at h
    · cases h
    · rename_i acc hacc
      split at h
      · cases h
      · rename_i hfits
        cases h
        exact ⟨_, _, ⟨stop, acc, hstop, rfl, hacc, rfl⟩, rfl, Bool.eq_false_iff.mpr hfits⟩

theorem request_of_declares (h : Declares buf start len)
    (hfits : Double.lt (.fin buf.length) ((Double.fin start).add len) = false) :
    ∃ p, parseRequest buf = .request p ∧ p.used = (Double.fin start).add len := by
  obtain ⟨stop, acc, hstop, rfl, hacc, rfl⟩ := h
  unfold parseRequest
  rw [hstop]
  dsimp only
  rw [hacc]
  dsimp only
  rw [if_neg (Bool.eq_false_iff.mp hfits)]
  exact ⟨_, rfl, rfl⟩

theorem length_subarray (used : Double) :
    (subarray buf used).length = buf.length - used.position buf.length := by
  rw [subarray, length_slice]
  have : (Double.inf false).position buf.length = buf.length := rfl
  rw [this, min_self]

/-- A number from one on is a position beyond the first byte. -/
theorem subarray_shorter {q : ℚ} (hone : 1 ≤ q) (hfits : q ≤ buf.length) :
    (subarray buf (.fin q)).length < buf.length := by
  have hfloor : 1 ≤ ⌊q⌋ := Int.le_floor.mpr (by exact_mod_cast hone)
  have hpos : 0 < buf.length := by
    have : (1 : ℚ) ≤ buf.length := hone.trans hfits
    exact_mod_cast this
  rw [length_subarray, Double.position_of_nonneg (by linarith)]
  omega

/-- A fraction is no position beyond it. -/
theorem subarray_same {q : ℚ} (hpos : 0 < q) (hone : q < 1) : (subarray buf (.fin q)).length = buf.length := by
  have hfloor : ⌊q⌋ = 0 := Int.floor_eq_zero_iff.mpr ⟨hpos.le, hone⟩
  rw [length_subarray, Double.position_of_nonneg hpos.le, hfloor, Int.toNat_zero, Nat.zero_min,
    Nat.sub_zero]

theorem shortens_of_fits (h : LengthFits buf) : Shortens buf := by
  intro p hp
  obtain ⟨start, len, hdeclares, hused, hfits⟩ := declares_of_request hp
  have hlen := h start len hdeclares
  rcases hdeclares.isNumber with ⟨neg, rfl⟩ | ⟨v, rfl, -⟩
  · obtain rfl : neg = false := hlen
    rw [hused] at hfits
    cases hfits
  · have hsum : 1 ≤ (start : ℚ) + v := by
      have : (1 : ℚ) - start ≤ v := hlen
      linarith
    rcases Double.round_cases ((start : ℚ) + v) with hround | hround
    · have hq : p.used = .fin (Double.rounded (start + v)) := hused.trans hround
      have hone := Double.one_le_rounded hsum
      rw [hq] at hfits ⊢
      have hle : Double.rounded (start + v) ≤ buf.length := not_lt.mp (of_decide_eq_false hfits)
      exact ⟨_, rfl, by linarith, hle, subarray_shorter hone hle⟩
    · rw [decide_eq_false (by linarith)] at hround
      have hq : p.used = .inf false := hused.trans hround
      rw [hq] at hfits
      cases hfits

theorem fits_of_shortens (h : Shortens buf) : LengthFits buf := by
  intro start len hdeclares
  obtain ⟨hfour, hstart⟩ := hdeclares.bounds
  by_contra hshort
  -- then the request is there, and its end is not beyond the first byte
  rcases hdeclares.isNumber with ⟨neg, rfl⟩ | ⟨v, rfl, hdouble⟩
  · obtain rfl : neg = true := Bool.eq_true_of_not_eq_false hshort
    obtain ⟨p, hp, hused⟩ := request_of_declares hdeclares rfl
    obtain ⟨q, hq, -⟩ := h p hp
    rw [hused] at hq
    cases hq
  · have hsum : (start : ℚ) + v < 1 := by
      have : ¬ (1 : ℚ) - start ≤ v := hshort
      linarith
    have hlt := Double.rounded_add_lt_one (by omega) hdouble hsum
    have hround : Double.round (start + v) = .fin (Double.rounded (start + v)) ∨
        Double.round (start + v) = .inf true := by
      rcases lt_or_ge ((start : ℚ) + v) 0 with hneg | hnonneg
      · have hcases := Double.round_cases ((start : ℚ) + v)
        rwa [decide_eq_true hneg] at hcases
      · exact .inl (Double.round_of_small hnonneg hsum)
    rcases hround with hround | hround
    · have hbuf : (1 : ℚ) ≤ buf.length := by exact_mod_cast (show 1 ≤ buf.length by omega)
      have hfits : Double.lt (.fin buf.length) ((Double.fin start).add (.fin v)) = false := by
        rw [show (Double.fin start).add (.fin v) = _ from hround]
        exact decide_eq_false (by linarith)
      obtain ⟨p, hp, hused⟩ := request_of_declares hdeclares hfits
      obtain ⟨q, hq, hpos, -, hshorter⟩ := h p hp
      have hsame : q = Double.rounded (start + v) := Double.fin.inj (hq.symm.trans (hused.trans hround))
      rw [hq, subarray_same hpos (hsame ▸ hlt)] at hshorter
      exact absurd hshorter (lt_irrefl _)
    · have hfits : Double.lt (.fin buf.length) ((Double.fin start).add (.fin v)) = false := by
        rw [show (Double.fin start).add (.fin v) = _ from hround]
        rfl
      obtain ⟨p, hp, hused⟩ := request_of_declares hdeclares hfits
      obtain ⟨q, hq, -⟩ := h p hp
      have hinf : p.used = .inf true := hused.trans hround
      rw [hinf] at hq
      cases hq

end Turn

/-! ## Whole runs -/

/-- The bytes that are received while requests are handled. -/
def receivedLength (handled : List Handling) : Nat := (handled.map fun h => h.received.length).sum

/-- Where every buffer is shortened the loop ends, in no more turns than there are bytes. -/
theorem pump_ends (turns : Nat) (buf : Bytes) (handled : List Handling)
    (hturns : buf.length + receivedLength handled < turns)
    (hshortens : ∀ b ∈ (pump turns buf handled).1, Shortens b) : (pump turns buf handled).2 = true := by
  induction turns generalizing buf handled with
  | zero => omega
  | succ turns ih =>
    rw [pump] at hshortens ⊢
    split
    · rfl
    · rfl
    · rename_i p hp
      rw [hp] at hshortens
      dsimp only at hshortens ⊢
      split
      · rfl
      · rename_i hgoes
        rw [if_neg hgoes] at hshortens
        obtain ⟨q, hq, -, -, hshorter⟩ := hshortens buf List.mem_cons_self p hp
        refine ih _ _ ?_ fun b hb => hshortens b (List.mem_cons_of_mem _ hb)
        have hreceived : receivedLength handled =
            (handled.headD ⟨[], false⟩).received.length + receivedLength handled.tail := by
          cases handled with
          | nil => rfl
          | cons h handled => rw [receivedLength, List.map_cons, List.sum_cons]; rfl
        rw [List.length_append]
        omega

/-- **When the pump gets on.**  A turn takes bytes that are there and leaves less, exactly when
the length that is declared, counted from the front of the buffer, gets past its first byte;
and where that holds of every buffer that is parsed, the loop ends. -/
theorem pump_shortens_iff (buf : Bytes) (handled : List Handling) :
    (Shortens buf ↔ LengthFits buf) ∧
      ∀ turns, buf.length + receivedLength handled < turns →
        (∀ b ∈ (pump turns buf handled).1, LengthFits b) → (pump turns buf handled).2 = true :=
  ⟨⟨fits_of_shortens, shortens_of_fits⟩, fun turns hturns hfits =>
    pump_ends turns buf handled hturns fun b hb => shortens_of_fits (hfits b hb)⟩

/-- A request whose length is minus that of its own header block. -/
def spinningBuffer : Bytes := latin1 "a\r\ncontent-length:-25\r\n\r\n"

theorem spinningBuffer_parses : ∃ p, parseRequest spinningBuffer = .request p ∧ p.used = .fin 0 := by
  have hcheck : (match parseRequest spinningBuffer with
      | .request p => decide (p.used = .fin 0)
      | _ => false) = true := by decide +kernel
  split at hcheck
  · rename_i p hp
    exact ⟨p, hp, of_decide_eq_true hcheck⟩
  · cases hcheck

/-- The request takes nothing, and the loop parses it for ever. -/
theorem pump_spins : ¬ Shortens spinningBuffer ∧ ∀ turns, (pump turns spinningBuffer []).2 = false := by
  obtain ⟨p, hp, hused⟩ := spinningBuffer_parses
  constructor
  · intro h
    obtain ⟨q, hq, hpos, -⟩ := h p hp
    rw [hused] at hq
    cases hq
    exact absurd hpos (lt_irrefl _)
  · intro turns
    have hsame : subarray spinningBuffer p.used ++ [] = spinningBuffer := by
      rw [hused, List.append_nil, subarray]
      exact slice_zero_length spinningBuffer
    induction turns with
    | zero => rfl
    | succ turns ih =>
      rw [pump, hp]
      show (pump turns (subarray spinningBuffer p.used ++ []) []).2 = false
      rw [hsame]
      exact ih

end SupabaseLab.MgmtFaults.RequestPump
