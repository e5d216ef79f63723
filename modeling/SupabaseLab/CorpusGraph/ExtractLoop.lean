/-
  CorpusGraph/ExtractLoop.lean --- the extractor that reads match by match.

  Source: `extract_document` of experiments/pdf-corpus-graph/demo/db/02-extract.sql, next to
  `extract_document_fast` of 03-extract-setbased.sql.

  The loop asks for the first match from a place on, reads it again in the 40 characters
  from there, and goes on one character behind where it began.  So it finds the
  citations that begin inside of others, which a scan does not, and cuts long ones short.

  An expression is matched as the database does it, of the matches that begin first the
  longest.  What the locale takes for a character of a word, and how it compares texts,
  are parameters; ASCII letters, digits and `_` are characters of words everywhere, and
  what `\s` takes is fixed.  Places count characters, as they do in the database.
-/
import SupabaseLab.CorpusGraph.Extraction
import SupabaseLab.Library.Words

set_option autoImplicit false

namespace SupabaseLab.CorpusGraph

open Library

/-! ## The database -/

structure Locale where
  isWord : CharClass
  collate : List Char → List Char → Bool
  word_of_ascii : ∀ c, isWordChar c = true → isWord c = true

/-- The place before the character at an index. -/
def placeAt (text : List Char) (i : Nat) : Place := ⟨(text.take i).reverse, text.drop i⟩

/-- A match begins here. -/
def matchesAt (r : Regex) (text : List Char) (i : Nat) : Bool := !(r.ends (placeAt text i)).isEmpty

/-- `regexp_instr(text, pattern, start, 1, 0)`: where the first match from `start` on begins,
counted from one, or zero. -/
def regexpInstr (r : Regex) (text : List Char) (start : Nat) : Nat :=
  match (List.range' (start - 1) (text.length + 1 - (start - 1))).find? (matchesAt r text) with
  | some i => i + 1
  | none => 0

/-- `(regexp_match(text, pattern))[1]` of a pattern without groups. -/
def regexpMatch (r : Regex) (text : List Char) : Option (List Char) :=
  ((List.range (text.length + 1)).find? (matchesAt r text)).map fun i =>
    slice text i (i + longestAt r text i)

/-- The expressions as the locale reads them, and what a scan finds. -/
def Locale.database (l : Locale) : Database where
  cuts r text := .scan (longestAt (r.inLocale l.isWord) text) text
  collate := l.collate

/-! ## The function -/

/-- The tables, and the counts of the pattern. -/
structure LoopState where
  corpus : Corpus
  vEnts : Nat := 0
  vMents : Nat := 0

/-- `returning id, (xmax = 0)`, with the id of the row that is there when there is one. -/
def returned (kind : Kind) (st : EntityTable × Int) (p : Proposal) : Int × Bool :=
  match st.1.get? (kind, p.norm) with
  | some e => (e.id, false)
  | none => (st.2, true)

/-- The two INSERTs for a match at `pos`, and the counts. -/
def LoopState.write (kind : Kind) (slug : String) (text : List Char) (s : LoopState) (pos : Nat)
    (raw : List Char) : LoopState :=
  let proposal : Proposal := ⟨normalizeCitation kind raw, trim raw⟩
  let st := (s.corpus.entities, s.corpus.nextEntity)
  let upserted := upsertEntity kind st proposal
  let (vId, vIsNew) := returned kind st proposal
  { corpus := { s.corpus with
      entities := upserted.1
      nextEntity := upserted.2
      mentions := s.corpus.mentions ++ [⟨⟨vId, slug, pos⟩, snippetAt text pos⟩] }
    vEnts := if vIsNew then s.vEnts + 1 else s.vEnts
    vMents := s.vMents + 1 }

theorem regexpInstr_eq_zero {r : Regex} {text : List Char} {start : Nat} :
    regexpInstr r text start = 0 ↔
      (List.range' (start - 1) (text.length + 1 - (start - 1))).find? (matchesAt r text) = none := by
  unfold regexpInstr
  split
  · rename_i i hi
    rw [hi]
    exact iff_of_false (Nat.succ_ne_zero i) (Option.some_ne_none i)
  · rename_i hnone
    exact iff_of_true rfl hnone

theorem regexpInstr_bounds {r : Regex} {text : List Char} {start : Nat}
    (h : regexpInstr r text start ≠ 0) :
    start ≤ regexpInstr r text start ∧ regexpInstr r text start ≤ text.length + 1 := by
  unfold regexpInstr at h ⊢
  split at h
  · rename_i i hi
    have := List.mem_range'_1.mp (List.mem_of_find?_eq_some hi)
    omega
  · exact absurd rfl h

/-- The inner loop, from `v_from = start` on. -/
def loopFrom (kind : Kind) (slug : String) (text : List Char) (pattern : Regex) (start : Nat)
    (s : LoopState) : LoopState :=
  let pos := regexpInstr pattern text start
  if _ : pos = 0 then s
  else match regexpMatch pattern ((text.drop (pos - 1)).take 40) with
    | none => loopFrom kind slug text pattern (pos + 1) s
    | some raw => loopFrom kind slug text pattern (pos + 1) (s.write kind slug text pos raw)
termination_by text.length + 2 - start
decreasing_by all_goals
  have := regexpInstr_bounds ‹¬ _›
  omega

/-- The loop over the patterns; a row of the report has no count of rejected matches. -/
def loopPatterns (l : Locale) (slug : String) (text : List Char) :
    List CitationPattern → Corpus → Corpus × List ReportRow
  | [], corpus => (corpus, [])
  | pat :: rest, corpus =>
      let s := loopFrom pat.kind slug text (pat.pattern.inLocale l.isWord) 1 { corpus := corpus }
      let after := loopPatterns l slug text rest s.corpus
      (after.1, ⟨pat.kind, s.vEnts, s.vMents, 0⟩ :: after.2)

def extractDocument (l : Locale) (corpus : Corpus) (slug : String) :
    Except ExtractError (Corpus × List ReportRow) :=
  match corpus.texts slug with
  | none => .error (.noDocument slug)
  | some text => .ok (loopPatterns l slug text citationPatterns corpus)

/-! ## What matches, and how far -/

section Longest

variable {r : Regex} {text w : List Char} {i : Nat}

theorem matchesAt_iff : matchesAt r text i = true ↔ ∃ w, r.TakesAt (placeAt text i) w := by
  unfold matchesAt
  cases hends : r.ends (placeAt text i) with
  | nil =>
    refine iff_of_false (by simp) ?_
    rintro ⟨w, -, h⟩
    rw [hends] at h
    cases h
  | cons q qs =>
    obtain ⟨w, hw, -⟩ := exists_takesAt (hends ▸ List.mem_cons_self : q ∈ r.ends (placeAt text i))
    exact iff_of_true rfl ⟨w, hw⟩

/-- The lengths that `longestAt` goes through are those of what is taken. -/
theorem mem_lengths (hi : i ≤ text.length) {n : Nat} :
    n ∈ ((r.ends (placeAt text i)).map fun q => q.before.length - i) ↔
      ∃ w, r.TakesAt (placeAt text i) w ∧ w.length = n := by
  have hlength : ∀ w, ((placeAt text i).past w).before.length - i = w.length := by
    intro w
    simp [Place.past, placeAt, Nat.min_eq_left hi]
  rw [List.mem_map]
  constructor
  · rintro ⟨q, hq, rfl⟩
    obtain ⟨w, hw, rfl⟩ := exists_takesAt hq
    exact ⟨w, hw, (hlength w).symm⟩
  · rintro ⟨w, hw, rfl⟩
    exact ⟨_, hw.2, hlength w⟩

theorem longestAt_eq_of_max {n : Nat} (hi : i ≤ text.length)
    (hw : ∃ w, r.TakesAt (placeAt text i) w ∧ w.length = n)
    (hmax : ∀ w, r.TakesAt (placeAt text i) w → w.length ≤ n) : longestAt r text i = n := by
  have hsome : (((r.ends (placeAt text i)).map fun q => q.before.length - i)).max? = some n := by
    refine List.max?_eq_some_iff.mpr ⟨(mem_lengths hi).mpr hw, fun m hm => ?_⟩
    obtain ⟨w, hw, rfl⟩ := (mem_lengths hi).mp hm
    exact hmax w hw
  show List.foldl max 0 _ = n
  rw [List.foldl_max]
  show max 0 ((((r.ends (placeAt text i)).map fun q => q.before.length - i)).max?.getD 0) = n
  rw [hsome, Option.getD_some, Nat.zero_max]

/-- Where there is a match, one of them is the longest. -/
theorem exists_longest (hi : i ≤ text.length) (hmatch : matchesAt r text i = true) :
    ∃ w, r.TakesAt (placeAt text i) w ∧ w.length = longestAt r text i ∧
      ∀ w', r.TakesAt (placeAt text i) w' → w'.length ≤ longestAt r text i := by
  obtain ⟨w, hw⟩ := matchesAt_iff.mp hmatch
  cases hmax : (((r.ends (placeAt text i)).map fun q => q.before.length - i)).max? with
  | none =>
    have hmem := (mem_lengths hi).mpr ⟨w, hw, rfl⟩
    rw [List.max?_eq_none_iff.mp hmax] at hmem
    cases hmem
  | some n =>
    obtain ⟨hmem, hle⟩ := List.max?_eq_some_iff.mp hmax
    have hall : ∀ w', r.TakesAt (placeAt text i) w' → w'.length ≤ n := fun w' hw' =>
      hle _ ((mem_lengths hi).mpr ⟨w', hw', rfl⟩)
    obtain ⟨w', hw', hlen⟩ := (mem_lengths hi).mp hmem
    rw [longestAt_eq_of_max hi ⟨w', hw', hlen⟩ hall]
    exact ⟨w', hw', hlen, hall⟩

theorem length_le_of_takesAt (h : r.TakesAt (placeAt text i) w) : w.length ≤ text.length - i := by
  have hle := h.1.length_le
  rwa [placeAt, List.length_drop] at hle

end Longest

/-! ## Reading a match again -/

/-- What an expression takes it takes in the first 40 characters too, as far as it goes; what is
longer ends in digits and is taken up to there. -/
structure ReadsAgain (r : Regex) : Prop where
  nonempty : ∀ p w, r.TakesAt p w → w ≠ []
  window : ∀ p w₀, r.TakesAt p w₀ → ∀ w,
    r.TakesAt ⟨[], p.after.take 40⟩ w ↔ r.TakesAt p w ∧ w.length ≤ 40
  cut : ∀ p w, r.TakesAt p w → 40 < w.length →
    r.TakesAt p (w.take 40) ∧ ∀ c ∈ w.drop 40, isDigit c = true

section Windows

variable {r body : Regex} {k first : CharClass} {n : Nat} {p : Place} {w : List Char}

/-- An expression between the edges of words, or at one of them, or at none. -/
theorem ReadsAgain.of (body : Regex) (lead trail : Bool)
    (hr : ∀ p w, r.TakesAt p w ↔ (lead = true → wordEdge k p = true) ∧
      (w ∈ body.words ∧ w <+: p.after) ∧ (trail = true → wordEdge k (p.past w) = true))
    (hleads : body.leads = some first) (hfirst : lead = true → ∀ c, first c = true → k c = true)
    (hcuts : body.CutsFrom isDigit n) (hn : n ≤ 40) (htrail : trail = true → body.most = some n ∧ n < 40) :
    ReadsAgain r where
  nonempty p w h := by
    obtain ⟨-, ⟨hw, -⟩, -⟩ := (hr p w).mp h
    obtain ⟨c, t, rfl, -⟩ := exists_cons_of_leads hleads hw
    exact List.cons_ne_nil c t
  window p w₀ h₀ w := by
    rw [hr, hr, List.prefix_take_iff]
    have hafter : trail = true → w ∈ body.words → w <+: p.after →
        wordEdge k ((⟨[], p.after.take 40⟩ : Place).past w) = wordEdge k (p.past w) := by
      intro ht hw hstands
      obtain ⟨c, t, rfl, -⟩ := exists_cons_of_leads hleads hw
      have hlen := length_le_most (htrail ht).1 hw
      have hshort := (htrail ht).2
      have hlast : ∀ b : List Char, ((c :: t).reverse ++ b).head? = (c :: t).reverse.head? := by
        intro b
        rw [List.head?_append]
        cases hhead : (c :: t).reverse.head? with
        | none => simp at hhead
        | some d => rfl
      unfold wordEdge Place.past
      dsimp only
      rw [hlast, hlast, List.head?_drop, List.head?_drop, List.getElem?_take_of_lt (by omega)]
    constructor
    · rintro ⟨-, ⟨hw, hstands, hlen⟩, hend⟩
      exact ⟨⟨((hr p w₀).mp h₀).1, ⟨hw, hstands⟩, fun ht => hafter ht hw hstands ▸ hend ht⟩, hlen⟩
    · rintro ⟨⟨-, ⟨hw, hstands⟩, hend⟩, hlen⟩
      refine ⟨fun hl => ?_, ⟨hw, hstands, hlen⟩, fun ht => (hafter ht hw hstands).symm ▸ hend ht⟩
      -- the window begins with a character of a word
      obtain ⟨c, t, rfl, hc⟩ := exists_cons_of_leads hleads hw
      obtain ⟨rest, hrest⟩ := hstands
      have hedge : wordEdge k ⟨[], p.after.take 40⟩ = k c := by
        rw [wordEdge, ← hrest]
        exact Bool.false_bne (k c)
      rw [hedge]
      exact hfirst hl c hc
  cut p w h hlong := by
    obtain ⟨hlead, ⟨hw, hstands⟩, hend⟩ := (hr p w).mp h
    obtain ⟨hmem, hrest⟩ := hcuts w hw 40 hn hlong.le
    refine ⟨(hr p _).mpr ⟨hlead, ⟨hmem, (List.take_prefix 40 w).trans hstands⟩, fun ht => ?_⟩, hrest⟩
    have hlen := length_le_most (htrail ht).1 hw
    have hshort := (htrail ht).2
    omega

theorem isWordChar_of_digit {c : Char} (h : isDigit c = true) : isWordChar c = true := by
  have hrange := isDigit_iff.mp h
  have hdigit : c.isDigit = true := by
    rw [Char.isDigit, Bool.and_eq_true, decide_eq_true_iff, decide_eq_true_iff]
    exact hrange
  rw [isWordChar, Char.isAlphanum, hdigit, Bool.or_true, Bool.true_or]

theorem isWordChar_of_upperLetter {c : Char} (h : isUpperLetter c = true) : isWordChar c = true := by
  have hrange := isUpperLetter_iff.mp h
  have hupper : c.isUpper = true := by
    rw [Char.isUpper, decide_eq_true_iff]
    exact hrange
  rw [isWordChar, Char.isAlphanum, Char.isAlpha, hupper, Bool.true_or, Bool.true_or, Bool.true_or]

theorem takesAt_plain_seq (hbody : body.Plain) :
    (Regex.seq (.edge k) body).TakesAt p w ↔ (true = true → wordEdge k p = true) ∧
      (w ∈ body.words ∧ w <+: p.after) ∧ (false = true → wordEdge k (p.past w) = true) := by
  rw [takesAt_edge_seq, takesAt_iff hbody]
  simp

/-- A statute or a regulation: a number, bounded parts, and digits as far as they go. -/
theorem readsAgain_numbered (l : Locale) (front : List Regex) (ns : List Nat)
    (hplain : (Regex.seqs (front ++ [.plus (.char isDigit)])).Plain)
    (hleads : (Regex.seqs (front ++ [.plus (.char isDigit)])).leads = some isDigit)
    (hmost : front.map Regex.most = ns.map some) (hn : ns.sum + 1 ≤ 40) :
    ReadsAgain (.seq (.edge l.isWord) (.seqs (front ++ [.plus (.char isDigit)]))) :=
  .of _ true false (fun _ _ => takesAt_plain_seq hplain) hleads
    (fun _ c hc => l.word_of_ascii c (isWordChar_of_digit hc)) (cutsFrom_seqs hmost cutsFrom_plus) hn
    fun h => nomatch h

/-- A control, without the edges of words around it. -/
def nistParts : List Regex := [.times 2 (.char isUpperLetter), .text "-", .between 1 2 (.char isDigit)]

theorem most_nistParts : (Regex.seqs nistParts).most = some 5 := rfl

theorem takesAt_nist : (nistPattern.inLocale k).TakesAt p w ↔ (true = true → wordEdge k p = true) ∧
    (w ∈ (Regex.seqs nistParts).words ∧ w <+: p.after) ∧ (true = true → wordEdge k (p.past w) = true) := by
  have hpattern : nistPattern.inLocale k = .seq (.edge k) (.seqs (nistParts ++ [.edge k])) := rfl
  rw [hpattern, takesAt_edge_seq, takesAt_seqs_edge, takesAt_iff (by decide)]
  simp

theorem readsAgain_nist (l : Locale) : ReadsAgain (nistPattern.inLocale l.isWord) :=
  .of _ true true (fun _ _ => takesAt_nist) rfl
    (fun _ c hc => l.word_of_ascii c (isWordChar_of_upperLetter hc)) (cutsFrom_of_most most_nistParts)
    (by decide) fun _ => ⟨most_nistParts, by decide⟩

theorem readsAgain_publaw (l : Locale) : ReadsAgain (publawPattern.inLocale l.isWord) := by
  have hplain : publawPattern.Plain := by decide
  rw [inLocale_of_plain hplain]
  refine .of (n := 19) (k := l.isWord) publawPattern false false (fun p w => ?_) rfl
    (fun h => nomatch h) (cutsFrom_of_most rfl) (by decide) fun h => nomatch h
  rw [takesAt_iff hplain]
  simp

/-- Each of the patterns can be read again from a match on. -/
theorem readsAgain_citation (l : Locale) {pat : CitationPattern} (hpat : pat ∈ citationPatterns) :
    ReadsAgain (pat.pattern.inLocale l.isWord) := by
  simp only [citationPatterns, List.mem_cons, List.not_mem_nil, or_false] at hpat
  rcases hpat with rfl | rfl | rfl | rfl
  · exact readsAgain_nist l
  · exact readsAgain_numbered l [.between 1 2 (.char isDigit), .text " U", .opt (.text "."),
      .opt (.char isSpace), .text "S", .opt (.text "."), .opt (.char isSpace), .text "C", .opt (.text "."),
      .text " "] [2, 2, 1, 1, 1, 1, 1, 1, 1, 1] (by decide) rfl rfl (by decide)
  · exact readsAgain_numbered l [.between 1 2 (.char isDigit), .text " CFR "] [2, 5] (by decide) rfl rfl
      (by decide)
  · exact readsAgain_publaw l

end Windows

/-! ## The hits of both -/

section Hits

variable {r : Regex} {kind : Kind} {slug : String} {text : List Char} {i start : Nat}

theorem ReadsAgain.matchesAt_iff_pos (hr : ReadsAgain r) : matchesAt r text i = true ↔ 0 < longestAt r text i := by
  constructor
  · intro h
    obtain ⟨w₀, hw₀⟩ := matchesAt_iff.mp h
    have hpos := List.length_pos_iff.mpr (hr.nonempty _ _ hw₀)
    have hlen := length_le_of_takesAt hw₀
    obtain ⟨w, -, -, hmax⟩ := exists_longest (by omega) h
    exact hpos.trans_le (hmax w₀ hw₀)
  · intro h
    by_contra hnone
    have hends : r.ends (placeAt text i) = [] := by
      rw [matchesAt, Bool.not_eq_true, Bool.not_eq_false', List.isEmpty_iff] at hnone
      exact hnone
    change 0 < List.foldl max 0 ((r.ends (placeAt text i)).map fun q => q.before.length - i) at h
    rw [hends] at h
    exact absurd h (lt_irrefl 0)

/-- Of what is taken at a place the longest. -/
theorem ReadsAgain.longest_spec (hr : ReadsAgain r) (h : 0 < longestAt r text i) :
    r.TakesAt (placeAt text i) (slice text i (i + longestAt r text i)) ∧
      i + longestAt r text i ≤ text.length ∧
      ∀ w, r.TakesAt (placeAt text i) w → w.length ≤ longestAt r text i := by
  have hmatch := hr.matchesAt_iff_pos.mpr h
  obtain ⟨w₀, hw₀⟩ := matchesAt_iff.mp hmatch
  have hpos := List.length_pos_iff.mpr (hr.nonempty _ _ hw₀)
  have hlen₀ := length_le_of_takesAt hw₀
  obtain ⟨w, hw, hlen, hmax⟩ := exists_longest (by omega) hmatch
  have hle := length_le_of_takesAt hw
  have hslice : slice text i (i + longestAt r text i) = w := by
    have hstands := List.prefix_iff_eq_take.mp hw.1
    rw [slice, List.drop_take, Nat.add_sub_cancel_left, ← hlen]
    exact hstands.symm
  rw [hslice]
  exact ⟨hw, by omega, hmax⟩

/-- Reading on from a match finds it again, up to the end of the window. -/
theorem ReadsAgain.regexpMatch_window (hr : ReadsAgain r) (h : 0 < longestAt r text i) :
    regexpMatch r ((text.drop i).take 40) = some ((slice text i (i + longestAt r text i)).take 40) := by
  obtain ⟨hw, hfit, hmax⟩ := hr.longest_spec h
  set w := slice text i (i + longestAt r text i) with hwdef
  have hlen : w.length = longestAt r text i := by
    rw [hwdef, length_slice_of_le hfit]
    omega
  have hagain : ∀ w', r.TakesAt (placeAt ((text.drop i).take 40) 0) w' ↔
      r.TakesAt (placeAt text i) w' ∧ w'.length ≤ 40 := fun w' => hr.window _ w hw w'
  have hcut : r.TakesAt (placeAt text i) (w.take 40) := by
    rcases Nat.lt_or_ge 40 w.length with hlong | hshort
    · exact (hr.cut _ w hw hlong).1
    · rwa [List.take_of_length_le hshort]
  have htaken := (hagain _).mpr ⟨hcut, List.length_take_le 40 w⟩
  have hzero : matchesAt r ((text.drop i).take 40) 0 = true := matchesAt_iff.mpr ⟨_, htaken⟩
  have hlongest : longestAt r ((text.drop i).take 40) 0 = (w.take 40).length := by
    refine longestAt_eq_of_max (Nat.zero_le _) ⟨_, htaken, rfl⟩ fun w' hw' => ?_
    obtain ⟨hthere, hwithin⟩ := (hagain w').mp hw'
    have := hmax w' hthere
    rw [List.length_take]
    omega
  have hstands : w.take 40 = ((text.drop i).take 40).take (w.take 40).length :=
    List.prefix_iff_eq_take.mp htaken.1
  rw [regexpMatch, List.range_succ_eq_map, List.find?_cons_of_pos hzero, Option.map_some, Nat.zero_add,
    hlongest, slice, List.drop_zero, ← hstands]

/-- What the loop writes of a match. -/
def windowHit (kind : Kind) (r : Regex) (text : List Char) (i : Nat) : Hit :=
  let raw := (slice text i (i + longestAt r text i)).take 40
  ⟨raw, i + 1, normalizeCitation kind raw⟩

/-- The hits of the loop from an index on. -/
def loopHits (kind : Kind) (r : Regex) (text : List Char) (i : Nat) : List Hit :=
  (takenFrom (longestAt r text) text.length i).map (windowHit kind r text)

/-- The search goes to the next place where something is taken. -/
theorem ReadsAgain.loopHits_eq (hr : ReadsAgain r) (kind : Kind) (text : List Char) (hstart : 0 < start) :
    (regexpInstr r text start = 0 ∧ loopHits kind r text (start - 1) = []) ∨
    ∃ i, regexpInstr r text start = i + 1 ∧ 0 < longestAt r text i ∧
      loopHits kind r text (start - 1) = windowHit kind r text i :: loopHits kind r text (i + 1) := by
  cases hfind : (List.range' (start - 1) (text.length + 1 - (start - 1))).find? (matchesAt r text) with
  | none =>
    refine .inl ⟨regexpInstr_eq_zero.mpr hfind, ?_⟩
    have hnone : takenFrom (longestAt r text) text.length (start - 1) = [] := by
      refine List.filter_eq_nil_iff.mpr fun j hj hpos => ?_
      exact List.find?_eq_none.mp hfind j hj (hr.matchesAt_iff_pos.mpr (of_decide_eq_true hpos))
    rw [loopHits, hnone, List.map_nil]
  | some i =>
    obtain ⟨hmatch, hmem, hbefore⟩ := List.find?_range'_eq_some.mp hfind
    have hpos := hr.matchesAt_iff_pos.mp hmatch
    have hbounds := List.mem_range'_1.mp hmem
    refine .inr ⟨i, by rw [regexpInstr, hfind], hpos, ?_⟩
    have hskip : takenFrom (longestAt r text) text.length (start - 1) =
        takenFrom (longestAt r text) text.length i := by
      refine takenFrom_skip (by omega) (by omega) fun j hj hlt => Nat.eq_zero_of_not_pos fun hj' => ?_
      have := hbefore j hj hlt
      rw [hr.matchesAt_iff_pos.mpr hj'] at this
      cases this
    rw [loopHits, hskip, takenFrom_of_le (by omega), if_pos hpos, List.map_cons]
    rfl

/-- **The loop writes a hit for each place where something is taken.** -/
theorem ReadsAgain.loopFrom_eq (hr : ReadsAgain r) (hstart : 0 < start) (s : LoopState) :
    loopFrom kind slug text r start s = (loopHits kind r text (start - 1)).foldl
      (fun s h => s.write kind slug text h.charOffset h.raw) s := by
  induction hn : text.length + 2 - start using Nat.strong_induction_on generalizing start s with
  | _ n ih =>
    subst hn
    rw [loopFrom]
    rcases hr.loopHits_eq kind text hstart with ⟨hzero, hnil⟩ | ⟨i, hpos, htaken, hcons⟩
    · rw [hnil, dif_pos hzero, List.foldl_nil]
    · have hne : regexpInstr r text start ≠ 0 := hpos ▸ Nat.succ_ne_zero i
      have hbounds := regexpInstr_bounds hne
      rw [dif_neg hne, hcons, List.foldl_cons, hpos, Nat.add_sub_cancel, hr.regexpMatch_window htaken]
      exact ih _ (by omega) (by omega) _ rfl

end Hits

end SupabaseLab.CorpusGraph
