/-
  Library/SearchParams.lean --- `URLSearchParams`.

  A query is read as pairs of texts, and pairs are written as a query that is read back
  as the same pairs.  A live object keeps both: its pairs, and the query of its URL, which
  it writes anew at each change and not before.
-/
import SupabaseLab.Library.Utf8

set_option autoImplicit false

namespace SupabaseLab.Library

/-! ## Reading and writing -/

/-- Letters, digits and `*-._`. -/
def isFormSafe (b : UInt8) : Bool :=
  (48 ≤ b && b ≤ 57) || (65 ≤ b && b ≤ 90) || (97 ≤ b && b ≤ 122) || b ∈ ([42, 45, 46, 95] : List UInt8)

/-- A byte in `application/x-www-form-urlencoded`. -/
def formByte (b : UInt8) : List Char :=
  if isFormSafe b then [Char.ofNat b.toNat]
  else if b = 32 then ['+']
  else ['%', upperHex (b.toNat / 16), upperHex (b.toNat % 16)]

def formText (cs : List Char) : List Char := (cs.flatMap String.utf8EncodeChar).flatMap formByte

abbrev Params := List (List Char × List Char)

/-- The names and values of a query; empty parts of it are no pairs. -/
def parseParams (query : List Char) : Params :=
  ((query.splitOn '&').filter fun part => part ≠ []).map fun part =>
    (decodeUtf8 (decodeBytes (splitPair part).1), decodeUtf8 (decodeBytes (splitPair part).2))

def writeParams (pairs : Params) : List Char :=
  ['&'].intercalate (pairs.map fun p => formText p.1 ++ '=' :: formText p.2)

/-! ### What is written is read back -/

section RoundTrip

variable {b : UInt8} {c : Char} {cs : List Char} {pairs : Params}

theorem isUnreserved_of_isFormSafe (h : isFormSafe b = true) : isUnreserved b = true := by
  have hall : ∀ n ∈ List.range 256, isFormSafe (UInt8.ofNat n) = true →
      isUnreserved (UInt8.ofNat n) = true := by decide +kernel
  have hb := hall b.toNat (List.mem_range.mpr b.toNat_lt)
  rw [UInt8.ofNat_toNat] at hb
  exact hb h

theorem decodeBytes_formByte (b : UInt8) (rest : List Char) :
    decodeBytes (formByte b ++ rest) = b :: decodeBytes rest := by
  unfold formByte
  split
  · next h => exact decodeBytes_unreserved (isUnreserved_of_isFormSafe h) rest
  · split
    · next h =>
      rw [h, List.singleton_append, decodeBytes]
    · exact decodeBytes_percent b rest

theorem decodeBytes_formText : decodeBytes (formText cs) = cs.flatMap String.utf8EncodeChar := by
  unfold formText
  induction cs.flatMap String.utf8EncodeChar with
  | nil => rfl
  | cons b bs ih => rw [List.flatMap_cons, decodeBytes_formByte, ih]

theorem decode_formText : decodeUtf8 (decodeBytes (formText cs)) = cs := by
  have htext := decodeUtf8_text cs []
  rwa [List.append_nil, decodeUtf8_nil, List.append_nil, ← decodeBytes_formText] at htext

theorem separator_notMem_formText (hc : c = '&' ∨ c = '=') : c ∉ formText cs := by
  unfold formText
  rw [List.mem_flatMap]
  rintro ⟨b, -, hmem⟩
  unfold formByte at hmem
  split at hmem
  · next h => exact separator_notMem_unreserved (isUnreserved_of_isFormSafe h) hc hmem
  · split at hmem
    · rcases hc with rfl | rfl <;> simp at hmem
    · exact separator_notMem_percent b hc hmem

theorem parseParams_writeParams : parseParams (writeParams pairs) = pairs := by
  cases pairs with
  | nil => rfl
  | cons p ps =>
    have hparts : ∀ part ∈ (p :: ps).map fun p => formText p.1 ++ '=' :: formText p.2, '&' ∉ part := by
      intro part hpart hmem
      obtain ⟨q, -, rfl⟩ := List.mem_map.mp hpart
      rcases List.mem_append.mp hmem with hmem | hmem
      · exact separator_notMem_formText (.inl rfl) hmem
      · rcases List.mem_cons.mp hmem with heq | hmem
        · exact absurd heq (by decide)
        · exact separator_notMem_formText (.inl rfl) hmem
    have hsplit : (writeParams (p :: ps)).splitOn '&' =
        (p :: ps).map fun p => formText p.1 ++ '=' :: formText p.2 :=
      List.splitOn_intercalate '&' hparts (by simp)
    have hsome : ((p :: ps).map fun p => formText p.1 ++ '=' :: formText p.2).filter (fun part => part ≠ []) =
        (p :: ps).map fun p => formText p.1 ++ '=' :: formText p.2 := by
      refine List.filter_eq_self.mpr fun part hpart => decide_eq_true ?_
      obtain ⟨q, -, rfl⟩ := List.mem_map.mp hpart
      simp
    unfold parseParams
    rw [hsplit, hsome, List.map_map]
    refine (List.map_congr_left fun q _ => ?_).trans (List.map_id _)
    show (decodeUtf8 (decodeBytes (splitPair (formText q.1 ++ '=' :: formText q.2)).1), _) = q
    dsimp only [Function.comp_apply]
    rw [splitPair_append _ (separator_notMem_formText (.inr rfl)), decode_formText, decode_formText]

end RoundTrip

/-! ## Live parameters -/

/-- The pairs, and the query of the URL they belong to. -/
structure SearchParams where
  pairs : Params
  query : List Char
  reads : parseParams query = pairs

namespace SearchParams

/-- `url.searchParams`. -/
def ofQuery (query : List Char) : SearchParams := ⟨parseParams query, query, rfl⟩

def keys (s : SearchParams) : List (List Char) := s.pairs.map Prod.fst

/-- Every pair of the name goes, and the query is written anew. -/
def delete (s : SearchParams) (name : List Char) : SearchParams :=
  let pairs := s.pairs.filter fun p => p.1 ≠ name
  ⟨pairs, writeParams pairs, parseParams_writeParams⟩

/-- `for (const key of [...keys()]) if (…) delete(key)`. -/
def deleteEach (s : SearchParams) (names : List (List Char)) : SearchParams := names.foldl delete s

variable {s : SearchParams} {names : List (List Char)}

theorem pairs_deleteEach : (s.deleteEach names).pairs = s.pairs.filter fun p => p.1 ∉ names := by
  unfold deleteEach
  induction names generalizing s with
  | nil => exact (List.filter_eq_self.mpr fun p _ => decide_eq_true List.not_mem_nil).symm
  | cons name names ih =>
    rw [List.foldl_cons, ih]
    show (s.pairs.filter _).filter _ = _
    rw [List.filter_filter]
    refine List.filter_congr fun p _ => ?_
    rw [← Bool.decide_and]
    refine decide_eq_decide.mpr ?_
    rw [List.mem_cons, not_or, and_comm]

/-- Deleting the names of a kind leaves the pairs of the other names. -/
theorem pairs_deleteEach_filter (s : SearchParams) (kind : List Char → Bool) :
    (s.deleteEach (s.keys.filter kind)).pairs = s.pairs.filter fun p => !kind p.1 := by
  rw [pairs_deleteEach]
  refine List.filter_congr fun p hp => ?_
  have hkey : p.1 ∈ s.keys := List.mem_map_of_mem hp
  rw [Bool.eq_iff_iff, decide_eq_true_eq, List.mem_filter, and_iff_right hkey, Bool.not_eq_true,
    Bool.not_eq_true']

end SearchParams

end SupabaseLab.Library
