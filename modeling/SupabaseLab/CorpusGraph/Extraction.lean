/-
  CorpusGraph/Extraction.lean --- citations and business numbers found in a document.

  Source: `extract_document_fast` of experiments/pdf-corpus-graph/demo/db/03-extract-setbased.sql,
  `valid_abn` and `extract_abn` of 08-editorial.sql.

  The matcher gives the matches in their order, and the pieces of text between them, but
  not where they are.  Each place is told from two window sums over numbered rows.  What
  the matcher finds and how the database compares texts are parameters; that matches lie
  from left to right, apart and not empty, is part of what `Cuts` is.
-/
import SupabaseLab.Library.Aggregate
import SupabaseLab.Library.Cuts
import SupabaseLab.Library.KeyMap
import SupabaseLab.CorpusGraph.Citation
import SupabaseLab.CorpusGraph.CoCitation

set_option autoImplicit false

namespace SupabaseLab.CorpusGraph

open Library

/-! ## Tables -/

structure MentionRow extends Mention where
  snippet : List Char
  deriving DecidableEq

/-- The columns of a row of `entities` that are not its key `(kind, norm)`. -/
structure EntityRow where
  id : Int
  label : List Char
  deriving DecidableEq

abbrev EntityTable := KeyMap (Kind × List Char) EntityRow

structure Corpus where
  /-- `extracted_text` by slug; none where the row is missing or has no text. -/
  texts : String → Option (List Char)
  entities : EntityTable
  nextEntity : Int
  mentions : List MentionRow

inductive ExtractError where
  | noDocument (slug : String)
  deriving DecidableEq

/-- The functions of the database: what its expressions match in a text, and the order of
its collation. -/
structure Database where
  cuts : Regex → (text : List Char) → Cuts text
  collate : List Char → List Char → Bool

/-! ## Hits -/

/-- A row of the temporary table. -/
structure Hit where
  raw : List Char
  charOffset : Nat
  norm : List Char
  deriving DecidableEq

section Hits

variable {text : List Char}

/-- `regexp_matches(…, 'g') with ordinality`. -/
def matchRows (c : Cuts text) : List (List Char × Nat) := c.matched.zipIdx 1

/-- `regexp_split_to_table(…) with ordinality`. -/
def partRows (c : Cuts text) : List (List Char × Nat) := c.pieces.zipIdx 1

/-- `sum(plen) over (order by n)`, by the number of the row. -/
def partCum (c : Cuts text) : List (Nat × Nat) :=
  (partRows c).map fun p =>
    (p.2, (((partRows c).filter fun q => q.2 < p.2 + 1).map fun q => q.1.length).sum)

/-- `sum(length(raw)) over (… rows between unbounded preceding and 1 preceding)`. -/
def preMatches (c : Cuts text) (n : Nat) : Nat :=
  (((matchRows c).filter fun q => q.2 < n).map fun q => q.1.length).sum

/-- The join of both on the number of the row. -/
def hitsOf (kind : Kind) (c : Cuts text) : List Hit :=
  (matchRows c).flatMap fun m => ((partCum c).filter fun pc => pc.1 = m.2).map fun pc =>
    { raw := m.1
      charOffset := pc.2 + preMatches c m.2 + 1
      norm := normalizeCitation kind m.1 }

end Hits

/-! ## Entities and mentions -/

/-- A row of the INSERT into `entities`, under its norm. -/
structure Proposal where
  norm : List Char
  label : List Char
  deriving DecidableEq

/-- `order by h.norm, length(trim(h.raw)) desc, trim(h.raw)`. -/
def Proposal.before (db : Database) (a b : Proposal) : Bool :=
  if a.norm ≠ b.norm then db.collate a.norm b.norm
  else if a.label.length ≠ b.label.length then decide (b.label.length < a.label.length)
  else db.collate a.label b.label

/-- `select distinct on (h.norm) …`: the first row of each norm. -/
def proposalsOf (db : Database) (hits : List Hit) : List Proposal :=
  (groupBy Proposal.norm (fun group => (group.head?.map Proposal.label).getD [])
    ((hits.map fun h => ⟨h.norm, trim h.raw⟩).mergeSort (Proposal.before db))).map
      fun g => ⟨g.1, g.2⟩

/-- A row of the INSERT takes an id, and leaves an entity that is there as it is. -/
def upsertEntity (kind : Kind) (st : EntityTable × Int) (p : Proposal) : EntityTable × Int :=
  match st.1.get? (kind, p.norm) with
  | some _ => (st.1, st.2 + 1)
  | none => (st.1.set (kind, p.norm) ⟨st.2, p.label⟩, st.2 + 1)

/-- `regexp_replace(…, '\s+', ' ', 'g')`. -/
def squeeze : List Char → List Char
  | [] => []
  | c :: rest =>
      if isSpace c then
        if rest.head?.any isSpace then squeeze rest else ' ' :: squeeze rest
      else c :: squeeze rest

/-- `substr(v_text, greatest(1, h.char_offset - 50), 150)`. -/
def snippetAt (text : List Char) (charOffset : Nat) : List Char :=
  squeeze ((text.drop (max 1 (charOffset - 50) - 1)).take 150)

/-- `_hits h join demo.entities e on e.kind = … and e.norm = h.norm`. -/
def mentionsOf (kind : Kind) (slug : String) (text : List Char) (entities : EntityTable)
    (hits : List Hit) : List MentionRow :=
  hits.flatMap fun h =>
    match entities.get? (kind, h.norm) with
    | some e => [⟨⟨e.id, slug, h.charOffset⟩, snippetAt text h.charOffset⟩]
    | none => []

/-- What a function reports of one pattern. -/
structure ReportRow where
  kind : Kind
  entitiesNew : Nat
  mentionsNew : Nat
  rejected : Nat
  deriving DecidableEq

/-- The body of the loop over the patterns; the hits that are kept are written. -/
def extractPattern (db : Database) (kind : Kind) (keep : Hit → Bool) (slug : String)
    (text : List Char) (pattern : Regex) (corpus : Corpus) : Corpus × ReportRow :=
  let found := hitsOf kind (db.cuts pattern text)
  let hits := found.filter keep
  let proposals := proposalsOf db hits
  let upserted := proposals.foldl (upsertEntity kind) (corpus.entities, corpus.nextEntity)
  ({ corpus with
      entities := upserted.1
      nextEntity := upserted.2
      mentions := corpus.mentions ++ mentionsOf kind slug text upserted.1 hits },
    { kind := kind
      entitiesNew := proposals.countP fun p => (corpus.entities.get? (kind, p.norm)).isNone
      mentionsNew := hits.length
      rejected := found.length - hits.length })

/-! ## The functions -/

/-- The loop over the patterns. -/
def extractPatterns (db : Database) (keep : Hit → Bool) (slug : String) (text : List Char) :
    List CitationPattern → Corpus → Corpus × List ReportRow
  | [], corpus => (corpus, [])
  | pat :: rest, corpus =>
      let step := extractPattern db pat.kind keep slug text pat.pattern corpus
      let after := extractPatterns db keep slug text rest step.1
      (after.1, step.2 :: after.2)

def extractDocumentFast (db : Database) (corpus : Corpus) (slug : String) :
    Except ExtractError (Corpus × List ReportRow) :=
  match corpus.texts slug with
  | none => .error (.noDocument slug)
  | some text => .ok (extractPatterns db (fun _ => true) slug text citationPatterns corpus)

/-- The weights of the check of a business number. -/
def abnWeights : List Int := [10, 1, 3, 5, 7, 9, 11, 13, 15, 17, 19]

/-- Eleven digits; with one taken from the first, their weighted sum divides by 89. -/
def validAbn (d : List Char) : Bool :=
  match (d.filter isDigit).map fun c => (c.toNat : Int) - 48 with
  | [] => false
  | first :: rest =>
      decide (rest.length = 10) &&
        decide ((List.zipWith (· * ·) ((first - 1) :: rest) abnWeights).sum % 89 = 0)

/-- `\y[0-9]{2}\s[0-9]{3}\s[0-9]{3}\s[0-9]{3}\y` and `\y[0-9]{11}\y`. -/
def abnPatterns : List CitationPattern :=
  let three : List Regex := [.char isSpace, .times 3 (.char isDigit)]
  [⟨.abn, .seqs ([.boundary, .times 2 (.char isDigit)] ++ three ++ three ++ three ++ [.boundary])⟩,
    ⟨.abn, .seqs [.boundary, .times 11 (.char isDigit), .boundary]⟩]

def extractAbn (db : Database) (corpus : Corpus) (slug : String) :
    Except ExtractError (Corpus × List ReportRow) :=
  match corpus.texts slug with
  | none => .error (.noDocument slug)
  | some text => .ok (extractPatterns db (fun h => validAbn h.raw) slug text abnPatterns corpus)

/-! ## What a match must have got -/

/-- The mention of a match: it stands where its offset says, and its entity is that of the
matched string. -/
structure Records (kind : Kind) (slug : String) (text : List Char) (entities : EntityTable)
    (span : Nat × Nat) (m : MentionRow) : Prop where
  doc : m.docSlug = slug
  offset : m.charOffset = span.1 + 1
  found : slice text span.1 span.2 <+: text.drop (m.charOffset - 1)
  entity : ∃ e, entities.get? (kind, normalizeCitation kind (slice text span.1 span.2)) = some e ∧
    m.entityId = e.id

/-- One mention for each of the spans, in their order. -/
structure Exact (kind : Kind) (slug : String) (text : List Char) (entities : EntityTable)
    (spans : List (Nat × Nat)) (written : List MentionRow) : Prop where
  each : List.Forall₂ (Records kind slug text entities) spans written
  increasing : written.Pairwise fun a b => a.charOffset < b.charOffset

/-- The matches of a pattern whose strings are kept. -/
def keptSpans (db : Database) (keep : List Char → Bool) (text : List Char) (pattern : Regex) :
    List (Nat × Nat) :=
  (db.cuts pattern text).spans.filter fun s => keep (slice text s.1 s.2)

section Lemmas

variable {db : Database} {kind : Kind} {slug : String} {text : List Char} {c : Cuts text}
  {entities entities' : EntityTable} {spans : List (Nat × Nat)} {hits : List Hit} {h : Hit}
  {proposals : List Proposal} {st : EntityTable × Int} {p : Proposal} {corpus : Corpus}
  {pattern : Regex} {patterns : List CitationPattern} {keep : List Char → Bool}

/-! ### Offsets -/

/-- The row that a match must have. -/
def hitAt (kind : Kind) (text : List Char) (s : Nat × Nat) : Hit :=
  ⟨slice text s.1 s.2, s.1 + 1, normalizeCitation kind (slice text s.1 s.2)⟩

theorem partCum_eq (c : Cuts text) : partCum c =
    (partRows c).map fun p => (p.2, ((c.pieces.take p.2).map List.length).sum) := by
  refine List.map_congr_left fun p hp => ?_
  have hp1 : 1 ≤ p.2 := List.le_snd_of_mem_zipIdx hp
  have hrows : ((partRows c).filter fun q => q.2 < p.2 + 1).map Prod.fst = c.pieces.take p.2 := by
    have := filter_zipIdx_lt c.pieces 1 p.2
    rwa [Nat.add_comm 1 p.2] at this
  rw [← hrows, List.map_map]
  rfl

theorem preMatches_eq (c : Cuts text) (k : Nat) :
    preMatches c (1 + k) = ((c.matched.take k).map List.length).sum := by
  rw [← filter_zipIdx_lt c.matched 1 k, List.map_map]
  rfl

theorem rowAt_eq {k : Nat} {s : Nat × Nat} (hs : c.spans[k]? = some s) :
    ((partCum c).filter fun pc => pc.1 = 1 + k) =
      [(1 + k, ((c.pieces.take (1 + k)).map List.length).sum)] := by
  have hk : k < c.pieces.length := by
    rw [Cuts.pieces, length_piecesFrom]
    exact Nat.lt_succ_of_lt (List.getElem?_eq_some_iff.mp hs).1
  have hrow := filter_zipIdx_eq (k := 1) (List.getElem?_eq_getElem hk)
  rw [partCum_eq, List.filter_map]
  exact congrArg (List.map _) hrow

/-- **The two window sums give the place of the match.** -/
theorem hitsOf_eq (kind : Kind) (c : Cuts text) : hitsOf kind c = c.spans.map (hitAt kind text) := by
  unfold hitsOf matchRows Cuts.matched
  rw [List.zipIdx_map, List.flatMap_map]
  refine flatMap_zipIdx fun k s hs => ?_
  have hplace := sum_lengths c.apart hs
  rw [Nat.zero_add, Nat.add_comm k 1] at hplace
  show ((partCum c).filter fun pc => pc.1 = 1 + k).map _ = [hitAt kind text s]
  rw [rowAt_eq hs, List.map_singleton]
  show [Hit.mk (slice text s.1 s.2) (_ + preMatches c (1 + k) + 1) _] = _
  rw [preMatches_eq]
  show [Hit.mk _ (((c.pieces.take (1 + k)).map List.length).sum + _ + 1) _] = _
  rw [show ((c.pieces.take (1 + k)).map List.length).sum +
    ((c.matched.take k).map List.length).sum = s.1 from hplace]
  rfl

/-! ### Entities -/

/-- A norm keeps the entity it has. -/
def EntitiesStay (a b : EntityTable) : Prop := ∀ k e, a.get? k = some e → b.get? k = some e

theorem EntitiesStay.trans {a b c : EntityTable} (h : EntitiesStay a b) (h' : EntitiesStay b c) : EntitiesStay a c :=
  fun k e he => h' k e (h k e he)

theorem upsertEntity_keeps : EntitiesStay st.1 (upsertEntity kind st p).1 := by
  intro k e he
  unfold upsertEntity
  split
  · exact he
  · rename_i hnone
    rw [KeyMap.get?_set_of_ne]
    · exact he
    · rintro rfl
      rw [hnone] at he
      cases he

theorem upsertEntity_has (kind : Kind) (st : EntityTable × Int) (p : Proposal) :
    ∃ e, (upsertEntity kind st p).1.get? (kind, p.norm) = some e := by
  unfold upsertEntity
  split
  · rename_i e he
    exact ⟨e, he⟩
  · exact ⟨_, KeyMap.get?_set_self _ _ _⟩

theorem foldl_upsertEntity_keeps (proposals : List Proposal) (st : EntityTable × Int) :
    EntitiesStay st.1 (proposals.foldl (upsertEntity kind) st).1 := by
  induction proposals generalizing st with
  | nil => exact fun _ _ h => h
  | cons p rest ih => exact upsertEntity_keeps.trans (ih _)

theorem foldl_upsertEntity_has (hp : p ∈ proposals) :
    ∃ e, (proposals.foldl (upsertEntity kind) st).1.get? (kind, p.norm) = some e := by
  induction proposals generalizing st with
  | nil => exact absurd hp List.not_mem_nil
  | cons q rest ih =>
    rw [List.foldl_cons]
    rcases List.mem_cons.mp hp with rfl | hp
    · obtain ⟨e, he⟩ := upsertEntity_has kind st p
      exact ⟨e, foldl_upsertEntity_keeps rest _ _ _ he⟩
    · exact ih hp

/-- Of the rows with one norm, one is inserted. -/
theorem exists_proposal (db : Database) (hh : h ∈ hits) : ∃ p ∈ proposalsOf db hits, p.norm = h.norm := by
  have hsorted : (⟨h.norm, trim h.raw⟩ : Proposal) ∈
      (hits.map fun h => (⟨h.norm, trim h.raw⟩ : Proposal)).mergeSort (Proposal.before db) :=
    List.mem_mergeSort.mpr (List.mem_map_of_mem hh)
  exact ⟨_, List.mem_map_of_mem (mem_groupBy.mpr ⟨List.mem_map_of_mem hsorted, rfl⟩), rfl⟩

/-! ### Mentions -/

theorem mentionsOf_each (hkeeps : EntitiesStay entities entities')
    (hhas : ∀ s ∈ spans, ∃ e, entities.get? (kind, (hitAt kind text s).norm) = some e)
    (hin : ∀ s ∈ spans, s.2 ≤ text.length) :
    List.Forall₂ (Records kind slug text entities') spans
      (mentionsOf kind slug text entities (spans.map (hitAt kind text))) := by
  induction spans with
  | nil => exact .nil
  | cons s rest ih =>
    have hrest := ih (fun t ht => hhas t (List.mem_cons_of_mem _ ht))
      fun t ht => hin t (List.mem_cons_of_mem _ ht)
    obtain ⟨e, he⟩ := hhas s List.mem_cons_self
    unfold mentionsOf at hrest ⊢
    rw [List.map_cons, List.flatMap_cons, he]
    refine .cons ⟨rfl, rfl, ?_, e, hkeeps _ _ he, rfl⟩ hrest
    show (text.take s.2).drop s.1 <+: text.drop s.1
    exact (List.take_prefix s.2 text).drop s.1

/-- Mentions that stand at increasing places have increasing offsets. -/
theorem Exact.of_each {written : List MentionRow}
    (heach : List.Forall₂ (Records kind slug text entities) spans written)
    (hspans : spans.Pairwise fun s t => s.1 < t.1) : Exact kind slug text entities spans written := by
  refine ⟨heach, ?_⟩
  have hoffsets : written.map (·.charOffset) = spans.map fun s => s.1 + 1 := by
    clear hspans
    induction heach with
    | nil => rfl
    | cons hm _ ih => rw [List.map_cons, List.map_cons, ih, hm.offset]
  have hincreasing : (spans.map fun s => s.1 + 1).Pairwise (· < ·) :=
    List.pairwise_map.mpr (hspans.imp Nat.succ_lt_succ)
  rw [← hoffsets] at hincreasing
  exact List.pairwise_map.mp hincreasing

/-! ### Patterns -/

theorem extractPattern_keeps {kept : Hit → Bool} :
    EntitiesStay corpus.entities (extractPattern db kind kept slug text pattern corpus).1.entities :=
  foldl_upsertEntity_keeps _ (corpus.entities, corpus.nextEntity)

theorem kept_hits : (hitsOf kind (db.cuts pattern text)).filter (fun h => keep h.raw) =
    (keptSpans db keep text pattern).map (hitAt kind text) := by
  rw [hitsOf_eq, List.filter_map]
  rfl

theorem extractPattern_exact (corpus : Corpus) {after : Corpus × ReportRow}
    (hafter : extractPattern db kind (fun h => keep h.raw) slug text pattern corpus = after)
    (hkeeps : EntitiesStay after.1.entities entities') : ∃ written,
      after.1.mentions = corpus.mentions ++ written ∧
      Exact kind slug text entities' (keptSpans db keep text pattern) written := by
  subst hafter
  refine ⟨_, rfl, ?_⟩
  have hapart := (db.cuts pattern text).apart
  have hsub : (keptSpans db keep text pattern).Sublist (db.cuts pattern text).spans :=
    List.filter_sublist
  dsimp only [extractPattern] at hkeeps
  rw [kept_hits] at hkeeps ⊢
  refine .of_each (mentionsOf_each hkeeps (fun s hs => ?_) fun s hs => ?_)
    (hapart.increasing.sublist hsub)
  · obtain ⟨p, hp, hnorm⟩ := exists_proposal db (List.mem_map_of_mem (f := hitAt kind text) hs)
    rw [← hnorm]
    exact foldl_upsertEntity_has hp
  · exact (hapart.mem (hsub.mem hs)).2.2

theorem extractPatterns_keeps (patterns : List CitationPattern) (corpus : Corpus)
    {kept : Hit → Bool} :
    EntitiesStay corpus.entities (extractPatterns db kept slug text patterns corpus).1.entities := by
  induction patterns generalizing corpus with
  | nil => exact fun _ _ h => h
  | cons pat rest ih => exact extractPattern_keeps.trans (ih _)

theorem extractPatterns_exact (db : Database) (keep : List Char → Bool) (slug : String)
    (text : List Char) (patterns : List CitationPattern) (corpus : Corpus)
    {after : Corpus × List ReportRow}
    (hafter : extractPatterns db (fun h => keep h.raw) slug text patterns corpus = after) :
    ∃ blocks, after.1.mentions = corpus.mentions ++ blocks.flatten ∧
      List.Forall₂ (fun pat written => Exact pat.kind slug text after.1.entities
        (keptSpans db keep text pat.pattern) written) patterns blocks := by
  subst hafter
  induction patterns generalizing corpus with
  | nil => exact ⟨[], (List.append_nil _).symm, .nil⟩
  | cons pat rest ih =>
    obtain ⟨written, hwritten, hexact⟩ := extractPattern_exact corpus rfl (extractPatterns_keeps rest _)
    obtain ⟨blocks, hblocks, hall⟩ := ih
      (extractPattern db pat.kind (fun h => keep h.raw) slug text pat.pattern corpus).1
    refine ⟨written :: blocks, ?_, .cons hexact hall⟩
    rw [List.flatten_cons, ← List.append_assoc, ← hwritten]
    exact hblocks

end Lemmas

/-! ## Both functions -/

/-- A function writes, for each of its patterns, one mention for each match that is kept. -/
def WritesExactly (db : Database) (keep : List Char → Bool) (slug : String) (text : List Char)
    (patterns : List CitationPattern) (corpus after : Corpus) : Prop :=
  ∃ blocks, after.mentions = corpus.mentions ++ blocks.flatten ∧
    List.Forall₂ (fun pat written => Exact pat.kind slug text after.entities
      (keptSpans db keep text pat.pattern) written) patterns blocks

theorem writesExactly (db : Database) (keep : List Char → Bool) (slug : String) (text : List Char)
    (patterns : List CitationPattern) (corpus : Corpus) : ∃ after report,
      (.ok (extractPatterns db (fun h => keep h.raw) slug text patterns corpus) :
        Except ExtractError _) = .ok (after, report) ∧
      WritesExactly db keep slug text patterns corpus after :=
  ⟨_, _, rfl, extractPatterns_exact db keep slug text patterns corpus rfl⟩

/-- Each match that is kept is written once, in order, and where the text contains it. -/
theorem offsets_exact (db : Database) (corpus : Corpus) (slug : String) (text : List Char)
    (htext : corpus.texts slug = some text) :
    (∃ after report, extractDocumentFast db corpus slug = .ok (after, report) ∧
      WritesExactly db (fun _ => true) slug text citationPatterns corpus after) ∧
    ∃ after report, extractAbn db corpus slug = .ok (after, report) ∧
      WritesExactly db validAbn slug text abnPatterns corpus after := by
  unfold extractDocumentFast extractAbn
  rw [htext]
  constructor
  · exact writesExactly db (fun _ => true) slug text citationPatterns corpus
  · exact writesExactly db validAbn slug text abnPatterns corpus

/-- The length of the longest match at a place. -/
def longestAt (r : Regex) (text : List Char) (i : Nat) : Nat :=
  ((r.ends ⟨(text.take i).reverse, text.drop i⟩).map fun q => q.before.length - i).foldl max 0

/-- Longest matches from left to right, and the order of code points. -/
def scanningDatabase : Database where
  cuts r text := .scan (longestAt r text) text
  collate a b := decide (a.map Char.toNat ≤ b.map Char.toNat)

/-- A control where the text begins, one behind it, and a sound number where the text ends. -/
def fips200 : Corpus where
  texts slug := if slug = "fips-200" then some "SC-7 SC-8 45 153 592 173".toList else none
  entities := .empty
  nextEntity := 1
  mentions := []

theorem offsets_exact_fips200 :
    (∃ after report, extractDocumentFast scanningDatabase fips200 "fips-200" = .ok (after, report) ∧
      WritesExactly scanningDatabase (fun _ => true) "fips-200" "SC-7 SC-8 45 153 592 173".toList
        citationPatterns fips200 after) ∧
    (∃ after report, extractAbn scanningDatabase fips200 "fips-200" = .ok (after, report) ∧
      WritesExactly scanningDatabase validAbn "fips-200" "SC-7 SC-8 45 153 592 173".toList
        abnPatterns fips200 after) ∧
    keptSpans scanningDatabase (fun _ => true) "SC-7 SC-8 45 153 592 173".toList nistPattern =
      [(0, 4), (5, 9)] :=
  let ⟨hfast, habn⟩ := offsets_exact scanningDatabase fips200 "fips-200" _ rfl
  ⟨hfast, habn, by decide⟩

end SupabaseLab.CorpusGraph
