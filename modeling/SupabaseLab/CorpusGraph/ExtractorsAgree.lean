/-
  CorpusGraph/ExtractorsAgree.lean --- when both extractors leave the same.

  Source: `extract_document` of experiments/pdf-corpus-graph/demo/db/02-extract.sql,
  `extract_document_fast` of 03-extract-setbased.sql and the keys of 01-schema.sql.

  Of a pattern each writes entities for the norms of its hits and a mention for each hit.
  So they leave the same where they have the same hits, which is where no citation begins
  inside of another of its pattern and none is longer than the window of the loop.
-/
import SupabaseLab.CorpusGraph.ExtractLoop

set_option autoImplicit false

namespace SupabaseLab.CorpusGraph

open Library

/-! ## What a reader of the tables sees -/

/-- A mention with the key of its entity in place of the id. -/
structure ShownMention where
  entity : Option (Kind × List Char)
  docSlug : String
  charOffset : Nat
  snippet : List Char
  deriving DecidableEq

/-- `(kind, norm)` of the entity with an id. -/
def keyOf (entities : EntityTable) (id : Int) : Option (Kind × List Char) :=
  (entities.entries.find? fun e => e.2.id = id).map Prod.fst

def MentionRow.shown (entities : EntityTable) (m : MentionRow) : ShownMention :=
  ⟨keyOf entities m.entityId, m.docSlug, m.charOffset, m.snippet⟩

def Corpus.shown (c : Corpus) : List ShownMention := c.mentions.map (MentionRow.shown c.entities)

/-- The same entities by their keys, the same mentions in any order, and the same report. -/
structure SameExtraction (a b : Corpus × List ReportRow) : Prop where
  entities : ∀ k, k ∈ a.1.entities.keys ↔ k ∈ b.1.entities.keys
  mentions : a.1.shown.Perm b.1.shown
  counts : a.2 = b.2

/-! ## Tables that keep their constraints -/

/-- No two entities have an id, and the sequence is ahead of each. -/
structure Numbered (st : EntityTable × Int) : Prop where
  unique : ∀ {k k' e e'}, st.1.get? k = some e → st.1.get? k' = some e' → e.id = e'.id → k = k'
  ahead : ∀ {k e}, st.1.get? k = some e → e.id < st.2

/-- The primary key of the entities, and the reference of a mention to one of them. -/
structure Corpus.Sound (c : Corpus) : Prop where
  numbered : Numbered (c.entities, c.nextEntity)
  refers : ∀ m ∈ c.mentions, ∃ k e, c.entities.get? k = some e ∧ e.id = m.entityId

section Tables

variable {kind : Kind} {slug : String} {text : List Char} {st : EntityTable × Int} {p : Proposal}
  {proposals : List Proposal} {hits : List Hit} {corpus : Corpus} {k : Kind × List Char} {e : EntityRow}

theorem Numbered.keyOf_eq (h : Numbered st) (hget : st.1.get? k = some e) : keyOf st.1 e.id = some k := by
  cases hfind : st.1.entries.find? fun x => x.2.id = e.id with
  | none =>
    have := List.find?_eq_none.mp hfind (k, e) (KeyMap.mem_entries.mpr hget)
    exact absurd (decide_eq_true rfl) this
  | some found =>
    have hid := List.find?_some (p := fun x : (Kind × List Char) × EntityRow => decide (x.2.id = e.id)) hfind
    have hfound := KeyMap.mem_entries.mp (List.mem_of_find?_eq_some hfind)
    rw [keyOf, hfind, Option.map_some, h.unique hfound hget (of_decide_eq_true hid)]

theorem Numbered.upsertEntity (h : Numbered st) : Numbered (upsertEntity kind st p) := by
  unfold CorpusGraph.upsertEntity
  split
  · exact ⟨h.unique, fun hget => Int.lt_add_one_of_le (h.ahead hget).le⟩
  · constructor
    · intro k k' e e' hk hk' hid
      rw [KeyMap.get?_set] at hk hk'
      split at hk <;> split at hk'
      · rename_i heq heq'
        exact heq.trans heq'.symm
      · cases hk
        exact absurd hid (h.ahead hk').ne'
      · cases hk'
        exact absurd hid (h.ahead hk).ne
      · exact h.unique hk hk' hid
    · intro k e hk
      rw [KeyMap.get?_set] at hk
      split at hk
      · cases hk
        exact Int.lt_succ _
      · exact Int.lt_add_one_of_le (h.ahead hk).le

theorem Numbered.foldl (h : Numbered st) : Numbered (proposals.foldl (CorpusGraph.upsertEntity kind) st) := by
  induction proposals generalizing st with
  | nil => exact h
  | cons p rest ih => exact ih h.upsertEntity

/-- An entity has the id that the INSERT returned. -/
theorem upsertEntity_returned (kind : Kind) (st : EntityTable × Int) (p : Proposal) :
    ∃ e, (upsertEntity kind st p).1.get? (kind, p.norm) = some e ∧ e.id = (returned kind st p).1 := by
  unfold upsertEntity returned
  cases hget : st.1.get? (kind, p.norm) with
  | none => exact ⟨_, KeyMap.get?_set_self _ _ _, rfl⟩
  | some e => exact ⟨e, hget, rfl⟩

theorem mem_keys_upsertEntity : k ∈ (upsertEntity kind st p).1.keys ↔
    k ∈ st.1.keys ∨ k = (kind, p.norm) := by
  unfold upsertEntity
  split
  · rename_i e he
    have hmem : (kind, p.norm) ∈ st.1.keys := KeyMap.mem_keys.mpr (by rw [he]; rfl)
    exact ⟨.inl, fun h => h.elim id fun heq => heq ▸ hmem⟩
  · rename_i hnone
    have hfresh : (kind, p.norm) ∉ st.1.keys := fun h => by
      have := KeyMap.mem_keys.mp h
      rw [hnone] at this
      cases this
    rw [KeyMap.keys_set_of_not_mem _ hfresh, List.mem_append, List.mem_singleton]

theorem mem_keys_foldl : k ∈ (proposals.foldl (upsertEntity kind) st).1.keys ↔
    k ∈ st.1.keys ∨ ∃ p ∈ proposals, k = (kind, p.norm) := by
  induction proposals generalizing st with
  | nil => simp
  | cons p rest ih =>
    rw [List.foldl_cons, ih, mem_keys_upsertEntity, or_assoc]
    simp

/-- The table grows by a row that is new. -/
theorem length_keys_upsertEntity (kind : Kind) (st : EntityTable × Int) (p : Proposal) :
    (upsertEntity kind st p).1.keys.length =
      st.1.keys.length + if (returned kind st p).2 then 1 else 0 := by
  unfold upsertEntity returned
  cases hget : st.1.get? (kind, p.norm) with
  | some e => rfl
  | none =>
    have hfresh : (kind, p.norm) ∉ st.1.keys := fun h => by
      have := KeyMap.mem_keys.mp h
      rw [hget] at this
      cases this
    show (st.1.set _ _).keys.length = _
    rw [KeyMap.keys_set_of_not_mem _ hfresh, List.length_append]
    rfl

/-- Of rows under different norms, those are new that the table did not have. -/
theorem length_keys_foldl (hnodup : (proposals.map Proposal.norm).Nodup) :
    (proposals.foldl (upsertEntity kind) st).1.keys.length =
      st.1.keys.length + proposals.countP fun p => (st.1.get? (kind, p.norm)).isNone := by
  induction proposals generalizing st with
  | nil => rfl
  | cons p rest ih =>
    obtain ⟨hfresh, hrest⟩ := List.nodup_cons.mp hnodup
    have hsame : ∀ q ∈ rest, ((upsertEntity kind st p).1.get? (kind, q.norm)).isNone =
        (st.1.get? (kind, q.norm)).isNone := by
      intro q hq
      have hne : (kind, q.norm) ≠ (kind, p.norm) := fun heq =>
        hfresh ((Prod.mk.inj heq).2 ▸ List.mem_map_of_mem hq)
      unfold upsertEntity
      split
      · rfl
      · rw [KeyMap.get?_set_of_ne _ _ hne]
    have hnew : (returned kind st p).2 = (st.1.get? (kind, p.norm)).isNone := by
      unfold returned
      split <;> rename_i hget <;> rw [hget] <;> rfl
    rw [List.foldl_cons, ih hrest, length_keys_upsertEntity, List.countP_cons, hnew,
      List.countP_congr fun q hq => by rw [hsame q hq]]
    omega

theorem Corpus.Sound.shown_eq (h : corpus.Sound) {entities : EntityTable} {next : Int}
    (hnumbered : Numbered (entities, next)) (hstay : EntitiesStay corpus.entities entities) :
    corpus.mentions.map (MentionRow.shown entities) = corpus.shown := by
  refine List.map_congr_left fun m hm => ?_
  obtain ⟨k, e, hget, hid⟩ := h.refers m hm
  rw [MentionRow.shown, MentionRow.shown, ← hid, h.numbered.keyOf_eq hget, hnumbered.keyOf_eq (hstay k e hget)]

end Tables

/-! ## Writing the hits of a pattern -/

/-- A mention of a hit, as it is shown. -/
def Hit.shown (kind : Kind) (slug : String) (text : List Char) (h : Hit) : ShownMention :=
  ⟨some (kind, h.norm), slug, h.charOffset, snippetAt text h.charOffset⟩

/-- The row that a hit asks for. -/
def Hit.proposal (h : Hit) : Proposal := ⟨h.norm, trim h.raw⟩

/-- The tables after INSERTs of entities, and of a mention for each hit. -/
def Corpus.written (kind : Kind) (slug : String) (text : List Char) (proposals : List Proposal)
    (hits : List Hit) (corpus : Corpus) : Corpus :=
  let upserted := proposals.foldl (upsertEntity kind) (corpus.entities, corpus.nextEntity)
  { corpus with
    entities := upserted.1
    nextEntity := upserted.2
    mentions := corpus.mentions ++ mentionsOf kind slug text upserted.1 hits }

/-- What a function does for a pattern, as it is shown: `rows` are the mentions it writes. -/
structure Wrote (kind : Kind) (rows : List ShownMention) (before after : Corpus) (row : ReportRow) :
    Prop where
  sound : after.Sound
  keys : ∀ k, k ∈ after.entities.keys ↔ k ∈ before.entities.keys ∨ some k ∈ rows.map ShownMention.entity
  shown : after.shown = before.shown ++ rows
  growth : after.entities.keys.length = before.entities.keys.length + row.entitiesNew
  row : row = ⟨kind, row.entitiesNew, rows.length, 0⟩

section Written

variable {kind : Kind} {slug : String} {text : List Char} {proposals : List Proposal} {hits : List Hit}
  {corpus : Corpus} {row : ReportRow}

theorem mentionsOf_cons {entities : EntityTable} {h : Hit} {e : EntityRow}
    (he : entities.get? (kind, h.norm) = some e) : mentionsOf kind slug text entities (h :: hits) =
      ⟨⟨e.id, slug, h.charOffset⟩, snippetAt text h.charOffset⟩ ::
        mentionsOf kind slug text entities hits := by
  rw [mentionsOf, List.flatMap_cons, he]
  rfl

theorem shown_mentionsOf {entities : EntityTable} {next : Int} (hnumbered : Numbered (entities, next))
    (hhas : ∀ h ∈ hits, ∃ e, entities.get? (kind, h.norm) = some e) :
    (mentionsOf kind slug text entities hits).map (MentionRow.shown entities) =
      hits.map (Hit.shown kind slug text) := by
  induction hits with
  | nil => rfl
  | cons h rest ih =>
    have hrest := ih fun h' hh' => hhas h' (List.mem_cons_of_mem _ hh')
    obtain ⟨e, he⟩ := hhas h List.mem_cons_self
    rw [mentionsOf_cons he, List.map_cons, hrest, MentionRow.shown, hnumbered.keyOf_eq he, List.map_cons]
    rfl

/-- Where the entities are those of the hits, each hit is shown. -/
theorem Corpus.Sound.wrote (hsound : corpus.Sound)
    (hnorms : ∀ n, n ∈ proposals.map Proposal.norm ↔ n ∈ hits.map Hit.norm)
    (hgrowth : (corpus.written kind slug text proposals hits).entities.keys.length =
      corpus.entities.keys.length + row.entitiesNew)
    (hrow : row = ⟨kind, row.entitiesNew, hits.length, 0⟩) :
    Wrote kind (hits.map (Hit.shown kind slug text)) corpus
      (corpus.written kind slug text proposals hits) row := by
  have hnumbered : Numbered (proposals.foldl (upsertEntity kind) (corpus.entities, corpus.nextEntity)) :=
    hsound.numbered.foldl
  have hstay : EntitiesStay corpus.entities
      (proposals.foldl (upsertEntity kind) (corpus.entities, corpus.nextEntity)).1 :=
    foldl_upsertEntity_keeps proposals (corpus.entities, corpus.nextEntity)
  have hhas : ∀ h ∈ hits, ∃ e, (proposals.foldl (upsertEntity kind)
      (corpus.entities, corpus.nextEntity)).1.get? (kind, h.norm) = some e := by
    intro h hh
    obtain ⟨p, hp, hnorm⟩ := List.mem_map.mp ((hnorms h.norm).mpr (List.mem_map_of_mem hh))
    rw [← hnorm]
    exact foldl_upsertEntity_has hp
  refine ⟨⟨hnumbered, fun m hm => ?_⟩, fun k => ?_, ?_, hgrowth, by rwa [List.length_map]⟩
  · rcases List.mem_append.mp hm with hold | hnew
    · obtain ⟨k, e, hget, hid⟩ := hsound.refers m hold
      exact ⟨k, e, hstay k e hget, hid⟩
    · obtain ⟨h, hh, hm⟩ := List.mem_flatMap.mp hnew
      obtain ⟨e, he⟩ := hhas h hh
      rw [he, List.mem_singleton] at hm
      exact ⟨_, e, he, by rw [hm]⟩
  · show k ∈ (proposals.foldl (upsertEntity kind) (corpus.entities, corpus.nextEntity)).1.keys ↔ _
    have hkeys : (∃ p ∈ proposals, k = (kind, p.norm)) ↔ ∃ h ∈ hits, k = (kind, h.norm) := by
      have := hnorms k.2
      simp only [List.mem_map] at this
      constructor
      · rintro ⟨p, hp, rfl⟩
        obtain ⟨h, hh, hnorm⟩ := this.mp ⟨p, hp, rfl⟩
        exact ⟨h, hh, congrArg _ hnorm.symm⟩
      · rintro ⟨h, hh, rfl⟩
        obtain ⟨p, hp, hnorm⟩ := this.mpr ⟨h, hh, rfl⟩
        exact ⟨p, hp, congrArg _ hnorm.symm⟩
    rw [mem_keys_foldl, hkeys, List.map_map, List.mem_map]
    refine or_congr_right (exists_congr fun h => and_congr_right fun _ => ?_)
    exact ⟨fun heq => congrArg some heq.symm, fun heq => (Option.some.inj heq).symm⟩
  · show (corpus.mentions ++ mentionsOf kind slug text _ hits).map (MentionRow.shown
      (proposals.foldl (upsertEntity kind) (corpus.entities, corpus.nextEntity)).1) = _
    rw [List.map_append, shown_mentionsOf hnumbered hhas, hsound.shown_eq hnumbered hstay]

/-! ### All at once -/

theorem extractPattern_eq (db : Database) (pattern : Regex)
    (hhits : hitsOf kind (db.cuts pattern text) = hits) :
    extractPattern db kind (fun _ => true) slug text pattern corpus =
      (corpus.written kind slug text (proposalsOf db hits) hits,
        ⟨kind, (proposalsOf db hits).countP fun p => (corpus.entities.get? (kind, p.norm)).isNone,
          hits.length, 0⟩) := by
  have hall : hits.filter (fun _ => true) = hits := List.filter_eq_self.mpr fun _ _ => rfl
  unfold extractPattern
  dsimp only
  rw [hhits, hall, Nat.sub_self]
  rfl

theorem norms_proposalsOf (db : Database) (hits : List Hit) :
    (proposalsOf db hits).map Proposal.norm =
      distinct (((hits.map Hit.proposal).mergeSort (Proposal.before db)).map Proposal.norm) := by
  rw [proposalsOf, List.map_map, ← groupBy_keys]
  rfl

theorem mem_norms_proposalsOf (db : Database) (hits : List Hit) (n : List Char) :
    n ∈ (proposalsOf db hits).map Proposal.norm ↔ n ∈ hits.map Hit.norm := by
  rw [norms_proposalsOf, mem_distinct, ((List.mergeSort_perm _ _).map Proposal.norm).mem_iff, List.map_map]
  rfl

/-- `extract_document_fast` writes what its scan finds. -/
theorem Corpus.Sound.extractPattern_wrote (hsound : corpus.Sound) (db : Database) (slug : String)
    (pattern : Regex) (hhits : hitsOf kind (db.cuts pattern text) = hits) :
    Wrote kind (hits.map (Hit.shown kind slug text)) corpus
      (extractPattern db kind (fun _ => true) slug text pattern corpus).1
      (extractPattern db kind (fun _ => true) slug text pattern corpus).2 := by
  rw [extractPattern_eq db pattern hhits]
  refine hsound.wrote (mem_norms_proposalsOf db hits) (length_keys_foldl ?_) rfl
  rw [norms_proposalsOf]
  exact nodup_distinct _

/-! ### One after the other -/

theorem write_corpus {h : Hit} (hnorm : h.norm = normalizeCitation kind h.raw) (s : LoopState) :
    (s.write kind slug text h.charOffset h.raw).corpus =
      s.corpus.written kind slug text [h.proposal] [h] := by
  have hproposal : (⟨normalizeCitation kind h.raw, trim h.raw⟩ : Proposal) = h.proposal := by
    rw [Hit.proposal, hnorm]
  obtain ⟨e, he, hid⟩ := upsertEntity_returned kind (s.corpus.entities, s.corpus.nextEntity) h.proposal
  unfold LoopState.write Corpus.written
  dsimp only
  rw [hproposal, List.foldl_cons, List.foldl_nil, mentionsOf_cons he, hid]
  rfl

theorem written_cons {h : Hit} (corpus : Corpus) (proposals : List Proposal) (hits : List Hit) :
    (corpus.written kind slug text [h.proposal] [h]).written kind slug text proposals hits =
      corpus.written kind slug text (h.proposal :: proposals) (h :: hits) := by
  obtain ⟨e, he, -⟩ := upsertEntity_returned kind (corpus.entities, corpus.nextEntity) h.proposal
  have hstays : (proposals.foldl (upsertEntity kind)
      (upsertEntity kind (corpus.entities, corpus.nextEntity) h.proposal)).1.get? (kind, h.norm) = some e :=
    foldl_upsertEntity_keeps proposals _ _ e he
  unfold Corpus.written
  dsimp only
  rw [List.foldl_cons, List.foldl_nil, List.foldl_cons, mentionsOf_cons he, mentionsOf_cons hstays,
    List.append_assoc]
  rfl

/-- What the loop leaves of its hits. -/
theorem foldl_write (hnorm : ∀ h ∈ hits, h.norm = normalizeCitation kind h.raw) (s : LoopState) :
    (hits.foldl (fun s h => s.write kind slug text h.charOffset h.raw) s).corpus =
      s.corpus.written kind slug text (hits.map Hit.proposal) hits := by
  induction hits generalizing s with
  | nil =>
    show s.corpus = { s.corpus with mentions := s.corpus.mentions ++ [] }
    rw [List.append_nil]
  | cons h rest ih =>
    obtain ⟨hfirst, hrest⟩ := List.forall_mem_cons.mp hnorm
    rw [List.foldl_cons, ih hrest, write_corpus hfirst, written_cons, List.map_cons]

/-- The counts: every hit, and the growth of the table. -/
theorem foldl_write_counts (kind : Kind) (slug : String) (text : List Char) (hits : List Hit)
    (s : LoopState) :
    let after := hits.foldl (fun s h => s.write kind slug text h.charOffset h.raw) s
    after.vMents = s.vMents + hits.length ∧
      after.corpus.entities.keys.length + s.vEnts = s.corpus.entities.keys.length + after.vEnts := by
  induction hits generalizing s with
  | nil => exact ⟨rfl, rfl⟩
  | cons h rest ih =>
    obtain ⟨hments, hents⟩ := ih (s.write kind slug text h.charOffset h.raw)
    have hgrowth := length_keys_upsertEntity kind (s.corpus.entities, s.corpus.nextEntity)
      ⟨normalizeCitation kind h.raw, trim h.raw⟩
    refine ⟨?_, ?_⟩
    · rw [List.foldl_cons, List.length_cons, hments]
      show s.vMents + 1 + rest.length = _
      omega
    · have hcount : (s.write kind slug text h.charOffset h.raw).vEnts = s.vEnts +
          if (returned kind (s.corpus.entities, s.corpus.nextEntity)
            ⟨normalizeCitation kind h.raw, trim h.raw⟩).2 then 1 else 0 := by
        unfold LoopState.write
        dsimp only
        split <;> rfl
      have htable : (s.write kind slug text h.charOffset h.raw).corpus.entities =
          (upsertEntity kind (s.corpus.entities, s.corpus.nextEntity)
            ⟨normalizeCitation kind h.raw, trim h.raw⟩).1 := rfl
      rw [htable, hgrowth, hcount] at hents
      rw [List.foldl_cons]
      dsimp only at hents ⊢
      omega

/-- `extract_document` writes a hit for each place where the pattern matches. -/
theorem Corpus.Sound.loop_wrote (hsound : corpus.Sound) {r : Regex} (hr : ReadsAgain r) (kind : Kind)
    (slug : String) (text : List Char) :
    Wrote kind ((loopHits kind r text 0).map (Hit.shown kind slug text)) corpus
      (loopFrom kind slug text r 1 { corpus := corpus }).corpus
      ⟨kind, (loopFrom kind slug text r 1 { corpus := corpus }).vEnts,
        (loopFrom kind slug text r 1 { corpus := corpus }).vMents, 0⟩ := by
  have hnorm : ∀ h ∈ loopHits kind r text 0, h.norm = normalizeCitation kind h.raw := by
    intro h hh
    obtain ⟨i, -, rfl⟩ := List.mem_map.mp hh
    rfl
  have hloop : loopFrom kind slug text r 1 { corpus := corpus } = (loopHits kind r text 0).foldl
      (fun s h => s.write kind slug text h.charOffset h.raw) { corpus := corpus } :=
    hr.loopFrom_eq Nat.one_pos _
  obtain ⟨hments, hents⟩ := foldl_write_counts kind slug text (loopHits kind r text 0) { corpus := corpus }
  have hcorpus := hloop ▸ foldl_write hnorm { corpus := corpus }
  rw [← hloop] at hments hents
  rw [hcorpus] at hents ⊢
  refine hsound.wrote (fun n => ?_) hents ?_
  · rw [List.map_map]
    rfl
  · rw [hments, Nat.zero_add]

end Written

/-! ## All patterns -/

/-- The loop over the patterns, as it is shown. -/
inductive WroteAll (rows : CitationPattern → List ShownMention) :
    List CitationPattern → Corpus → Corpus → List ReportRow → Prop
  | nil (c : Corpus) : WroteAll rows [] c c []
  | cons {pat : CitationPattern} {rest : List CitationPattern} {before mid after : Corpus}
      {row : ReportRow} {report : List ReportRow} (first : Wrote pat.kind (rows pat) before mid row)
      (others : WroteAll rows rest mid after report) :
      WroteAll rows (pat :: rest) before after (row :: report)

/-- The mentions of a kind, from the first on. -/
structure InOrder (kind : Kind) (rows : List ShownMention) : Prop where
  ofKind : ∀ m ∈ rows, m.entity.map Prod.fst = some kind
  increasing : rows.Pairwise fun a b => a.charOffset < b.charOffset

section Patterns

variable {rows rows' : CitationPattern → List ShownMention} {patterns : List CitationPattern}
  {before before' after after' : Corpus} {report report' : List ReportRow}

theorem WroteAll.shown (h : WroteAll rows patterns before after report) :
    after.shown = before.shown ++ patterns.flatMap rows := by
  induction h with
  | nil c => rw [List.flatMap_nil, List.append_nil]
  | cons first _ ih => rw [ih, first.shown, List.append_assoc, List.flatMap_cons]

theorem length_keys_eq {a b : EntityTable} (h : ∀ k, k ∈ a.keys ↔ k ∈ b.keys) :
    a.keys.length = b.keys.length :=
  ((List.perm_ext_iff_of_nodup a.nodup b.nodup).mpr h).length_eq

/-- The same mentions give the same entities and the same counts. -/
theorem WroteAll.same (h : WroteAll rows patterns before after report)
    (h' : WroteAll rows' patterns before' after' report') (hrows : ∀ pat ∈ patterns, rows pat = rows' pat)
    (hkeys : ∀ k, k ∈ before.entities.keys ↔ k ∈ before'.entities.keys) :
    (∀ k, k ∈ after.entities.keys ↔ k ∈ after'.entities.keys) ∧ report = report' := by
  induction h generalizing before' report' with
  | nil c =>
    cases h'
    exact ⟨hkeys, rfl⟩
  | cons first others ih =>
    cases h' with
    | cons first' others' =>
      obtain ⟨hhere, hrest⟩ := List.forall_mem_cons.mp hrows
      have hmid := fun k => (first.keys k).trans
        ((or_congr (hkeys k) (by rw [hhere])).trans (first'.keys k).symm)
      obtain ⟨hafter, hreport⟩ := ih others' hrest hmid
      refine ⟨hafter, congrArg₂ _ ?_ hreport⟩
      have hgrown := first.growth
      have hgrown' := first'.growth
      rw [first.row, first'.row, hhere]
      rw [length_keys_eq hmid, length_keys_eq hkeys, hgrown'] at hgrown
      rw [Nat.add_left_cancel hgrown]

theorem filter_flatMap_kind (hkinds : (patterns.map CitationPattern.kind).Nodup)
    (hrows : ∀ pat ∈ patterns, InOrder pat.kind (rows pat)) {pat : CitationPattern} (hpat : pat ∈ patterns) :
    (patterns.flatMap rows).filter (fun m => m.entity.map Prod.fst = some pat.kind) = rows pat := by
  induction patterns with
  | nil => exact absurd hpat List.not_mem_nil
  | cons first rest ih =>
    obtain ⟨hfresh, hnodup⟩ := List.nodup_cons.mp hkinds
    obtain ⟨hfirst, hrest⟩ := List.forall_mem_cons.mp hrows
    rw [List.flatMap_cons, List.filter_append]
    rcases List.mem_cons.mp hpat with rfl | hpat
    · have hnone : (rest.flatMap rows).filter (fun m => m.entity.map Prod.fst = some pat.kind) = [] := by
        refine List.filter_eq_nil_iff.mpr fun m hm hkind => hfresh ?_
        obtain ⟨other, hother, hm⟩ := List.mem_flatMap.mp hm
        have := ((hrest other hother).ofKind m hm).symm.trans (of_decide_eq_true hkind)
        exact Option.some.inj this ▸ List.mem_map_of_mem hother
      rw [hnone, List.append_nil]
      exact List.filter_eq_self.mpr fun m hm => decide_eq_true (hfirst.ofKind m hm)
    · have hnone : (rows first).filter (fun m => m.entity.map Prod.fst = some pat.kind) = [] := by
        refine List.filter_eq_nil_iff.mpr fun m hm hkind => hfresh ?_
        have := (hfirst.ofKind m hm).symm.trans (of_decide_eq_true hkind)
        exact Option.some.inj this ▸ List.mem_map_of_mem hpat
      rw [hnone, List.nil_append]
      exact ih hnodup hrest hpat

/-- Mentions in order, kind by kind, are the same when they are in any order. -/
theorem rows_eq_of_perm (hkinds : (patterns.map CitationPattern.kind).Nodup)
    (hrows : ∀ pat ∈ patterns, InOrder pat.kind (rows pat))
    (hrows' : ∀ pat ∈ patterns, InOrder pat.kind (rows' pat))
    (hperm : (patterns.flatMap rows).Perm (patterns.flatMap rows')) :
    ∀ pat ∈ patterns, rows pat = rows' pat := by
  intro pat hpat
  have hkind := hperm.filter fun m => m.entity.map Prod.fst = some pat.kind
  rw [filter_flatMap_kind hkinds hrows hpat, filter_flatMap_kind hkinds hrows' hpat] at hkind
  refine hkind.eq_of_pairwise (fun a b _ _ hab hba => ?_) (hrows pat hpat).increasing
    (hrows' pat hpat).increasing
  exact absurd hab hba.not_gt

/-- **Two extractors leave the same when they show the same mentions of each pattern.** -/
theorem WroteAll.same_iff {a b : Corpus × List ReportRow} (h : WroteAll rows patterns before a.1 a.2)
    (h' : WroteAll rows' patterns before b.1 b.2) (hkinds : (patterns.map CitationPattern.kind).Nodup)
    (hrows : ∀ pat ∈ patterns, InOrder pat.kind (rows pat))
    (hrows' : ∀ pat ∈ patterns, InOrder pat.kind (rows' pat)) :
    SameExtraction a b ↔ ∀ pat ∈ patterns, rows pat = rows' pat := by
  constructor
  · intro hsame
    have hperm := hsame.mentions
    rw [h.shown, h'.shown, List.perm_append_left_iff] at hperm
    exact rows_eq_of_perm hkinds hrows hrows' hperm
  · intro hall
    obtain ⟨hkeys, hreport⟩ := h.same h' hall fun _ => Iff.rfl
    refine ⟨hkeys, ?_, hreport⟩
    rw [h.shown, h'.shown, List.flatMap_congr hall]

/-! ### Both functions -/

theorem extractPatterns_wrote {db : Database} {slug : String} {text : List Char} {hits : CitationPattern → List Hit}
    {corpus : Corpus} (hsound : corpus.Sound)
    (hhits : ∀ pat ∈ patterns, hitsOf pat.kind (db.cuts pat.pattern text) = hits pat) :
    WroteAll (fun pat => (hits pat).map (Hit.shown pat.kind slug text)) patterns corpus
      (extractPatterns db (fun _ => true) slug text patterns corpus).1
      (extractPatterns db (fun _ => true) slug text patterns corpus).2 := by
  induction patterns generalizing corpus with
  | nil => exact .nil corpus
  | cons pat rest ih =>
    obtain ⟨hfirst, hrest⟩ := List.forall_mem_cons.mp hhits
    have hwrote := hsound.extractPattern_wrote db slug pat.pattern hfirst
    exact .cons hwrote (ih hwrote.sound hrest)

theorem loopPatterns_wrote (l : Locale) {slug : String} {text : List Char} {corpus : Corpus}
    (hsound : corpus.Sound) (hreads : ∀ pat ∈ patterns, ReadsAgain (pat.pattern.inLocale l.isWord)) :
    WroteAll (fun pat => (loopHits pat.kind (pat.pattern.inLocale l.isWord) text 0).map
        (Hit.shown pat.kind slug text)) patterns corpus
      (loopPatterns l slug text patterns corpus).1 (loopPatterns l slug text patterns corpus).2 := by
  induction patterns generalizing corpus with
  | nil => exact .nil corpus
  | cons pat rest ih =>
    obtain ⟨hfirst, hrest⟩ := List.forall_mem_cons.mp hreads
    have hwrote := hsound.loop_wrote hfirst pat.kind slug text
    exact .cons hwrote (ih hwrote.sound hrest)

end Patterns

/-! ## Where the hits are the same -/

/-- No match begins inside of another, and none is longer than the window of the loop. -/
structure Uncrowded (r : Regex) (text : List Char) : Prop where
  apart : ∀ i j w w', i < j → r.TakesAt (placeAt text i) w → r.TakesAt (placeAt text j) w' →
    i + w.length ≤ j
  short : ∀ i w, r.TakesAt (placeAt text i) w → w.length ≤ 40

section Crowds

variable {r : Regex} {kind : Kind} {slug : String} {text w : List Char} {i : Nat} {p : Place}

theorem ReadsAgain.uncrowded_iff (hr : ReadsAgain r) : Uncrowded r text ↔
    Clear (longestAt r text) text.length ∧ ∀ i, longestAt r text i ≤ 40 := by
  have htaken : ∀ {i w}, r.TakesAt (placeAt text i) w → 0 < longestAt r text i := fun h =>
    hr.matchesAt_iff_pos.mp (matchesAt_iff.mpr ⟨_, h⟩)
  constructor
  · intro h
    refine ⟨fun i j hij _ hi hj => ?_, fun i => ?_⟩
    · obtain ⟨hw, hfit, -⟩ := hr.longest_spec hi
      obtain ⟨hw', -, -⟩ := hr.longest_spec hj
      have hapart := h.apart i j _ _ hij hw hw'
      rw [length_slice_of_le hfit] at hapart
      omega
    · rcases Nat.eq_zero_or_pos (longestAt r text i) with hzero | hpos
      · omega
      · obtain ⟨hw, hfit, -⟩ := hr.longest_spec hpos
        have hshort := h.short i _ hw
        rw [length_slice_of_le hfit] at hshort
        omega
  · rintro ⟨hclear, hshort⟩
    refine ⟨fun i j w w' hij hw hw' => ?_, fun i w hw => ?_⟩
    · obtain ⟨-, -, hmax⟩ := hr.longest_spec (htaken hw)
      obtain ⟨-, hfit, -⟩ := hr.longest_spec (htaken hw')
      have := hclear i j hij (by omega) (htaken hw) (htaken hw')
      have := hmax w hw
      omega
    · obtain ⟨-, -, hmax⟩ := hr.longest_spec (htaken hw)
      exact (hmax w hw).trans (hshort i)

/-- A norm tells that digits behind the window are gone. -/
theorem length_le_of_norm_eq (l : Locale) {pat : CitationPattern} (hpat : pat ∈ citationPatterns)
    (hw : (pat.pattern.inLocale l.isWord).TakesAt p w)
    (hnorm : normalizeCitation pat.kind (w.take 40) = normalizeCitation pat.kind w) : w.length ≤ 40 := by
  by_contra hlong
  have hdigits := ((readsAgain_citation l hpat).cut p w hw (by omega)).2
  have hkept : ∀ keep : Char → Bool, (∀ c, isDigit c = true → keep c = true) →
      (upper (w.take 40)).filter keep ≠ (upper w).filter keep := by
    intro keep hkeep heq
    have hcut : upper w = upper (w.take 40) ++ w.drop 40 := by
      conv_lhs => rw [← List.take_append_drop 40 w]
      rw [upper, List.map_append]
      exact congrArg _ (upper_digits hdigits)
    have hall : (w.drop 40).filter keep = w.drop 40 := List.filter_eq_self.mpr fun c hc => hkeep c (hdigits c hc)
    rw [hcut, List.filter_append, hall] at heq
    have hlen := congrArg List.length heq
    rw [List.length_append, List.length_drop] at hlen
    omega
  have halnum : ∀ c, isDigit c = true → isAlnum c = true := fun c hc => by rw [isAlnum, hc, Bool.true_or]
  simp only [citationPatterns, List.mem_cons, List.not_mem_nil, or_false] at hpat
  rcases hpat with rfl | rfl | rfl | rfl
  · have := length_le_most most_nistParts (takesAt_nist.mp hw).2.1.1
    omega
  · exact hkept isAlnum halnum hnorm
  · exact hkept isAlnum halnum hnorm
  · exact hkept isDigit (fun _ hc => hc) hnorm

/-- **Loop and scan show the same mentions where the citations are not crowded.** -/
theorem shown_eq_iff (l : Locale) (slug : String) (text : List Char) {pat : CitationPattern}
    (hpat : pat ∈ citationPatterns) :
    (loopHits pat.kind (pat.pattern.inLocale l.isWord) text 0).map (Hit.shown pat.kind slug text) =
        (hitsOf pat.kind (l.database.cuts pat.pattern text)).map (Hit.shown pat.kind slug text) ↔
      Uncrowded (pat.pattern.inLocale l.isWord) text := by
  have hr := readsAgain_citation l hpat
  set r := pat.pattern.inLocale l.isWord with hrdef
  have hfit : ∀ i, 0 < longestAt r text i → i + longestAt r text i ≤ text.length := fun i h =>
    (hr.longest_spec h).2.1
  have hscan : Clear (longestAt r text) text.length →
      (l.database.cuts pat.pattern text).spans = (takenFrom (longestAt r text) text.length 0).map
        fun j => (j, j + longestAt r text j) := fun h => scanFrom_of_clear hfit h (by omega)
  rw [hitsOf_eq, loopHits, List.map_map, List.map_map, hr.uncrowded_iff]
  constructor
  · intro heq
    have hoffsets := congrArg (List.map ShownMention.charOffset) heq
    rw [List.map_map, List.map_map] at hoffsets
    have hstarts : (l.database.cuts pat.pattern text).spans.map Prod.fst =
        takenFrom (longestAt r text) text.length 0 := by
      refine List.map_injective_iff.mpr Nat.succ_injective ?_
      rw [List.map_map]
      exact hoffsets.symm
    have hclear : Clear (longestAt r text) text.length := clear_of_scan hstarts
    refine ⟨hclear, fun i => ?_⟩
    rw [hscan hclear, List.map_map, List.map_inj_left] at heq
    by_contra hlong
    have hpos : 0 < longestAt r text i := by omega
    have hmem : i ∈ takenFrom (longestAt r text) text.length 0 :=
      mem_takenFrom.mpr ⟨Nat.zero_le i, by have := hfit i hpos; omega, hpos⟩
    have hnorm := congrArg (fun m => m.entity.map Prod.snd) (heq i hmem)
    have hle := length_le_of_norm_eq l hpat (hr.longest_spec hpos).1 (Option.some.inj hnorm)
    rw [length_slice_of_le (hfit i hpos)] at hle
    omega
  · rintro ⟨hclear, hshort⟩
    rw [hscan hclear, List.map_map]
    refine List.map_congr_left fun i hi => ?_
    have hpos := (mem_takenFrom.mp hi).2.2
    have hwhole : (slice text i (i + longestAt r text i)).take 40 = slice text i (i + longestAt r text i) := by
      refine List.take_of_length_le ?_
      rw [length_slice_of_le (hfit i hpos), Nat.add_sub_cancel_left]
      exact hshort i
    show Hit.shown pat.kind slug text (windowHit pat.kind r text i) = _
    rw [windowHit, hwhole]
    rfl

end Crowds

/-! ## The extractors -/

section Extractors

variable {l : Locale} {corpus : Corpus} {slug : String} {text : List Char}

/-- The mentions that the loop shows of a pattern. -/
def loopRows (l : Locale) (slug : String) (text : List Char) (pat : CitationPattern) : List ShownMention :=
  (loopHits pat.kind (pat.pattern.inLocale l.isWord) text 0).map (Hit.shown pat.kind slug text)

/-- The mentions that the scan shows of a pattern. -/
def scanRows (l : Locale) (slug : String) (text : List Char) (pat : CitationPattern) : List ShownMention :=
  (hitsOf pat.kind (l.database.cuts pat.pattern text)).map (Hit.shown pat.kind slug text)

theorem inOrder_loopRows (pat : CitationPattern) : InOrder pat.kind (loopRows l slug text pat) where
  ofKind m hm := by
    obtain ⟨h, -, rfl⟩ := List.mem_map.mp hm
    rfl
  increasing := List.pairwise_map.mpr (List.pairwise_map.mpr (takenFrom_increasing.imp Nat.succ_lt_succ))

theorem inOrder_scanRows (pat : CitationPattern) : InOrder pat.kind (scanRows l slug text pat) where
  ofKind m hm := by
    obtain ⟨h, -, rfl⟩ := List.mem_map.mp hm
    rfl
  increasing := by
    rw [scanRows, hitsOf_eq]
    exact List.pairwise_map.mpr (List.pairwise_map.mpr
      ((l.database.cuts pat.pattern text).apart.increasing.imp Nat.succ_lt_succ))

theorem extractDocument_wrote (hsound : corpus.Sound) (htext : corpus.texts slug = some text) :
    ∃ slow, extractDocument l corpus slug = .ok slow ∧
      WroteAll (loopRows l slug text) citationPatterns corpus slow.1 slow.2 := by
  rw [extractDocument, htext]
  exact ⟨_, rfl, loopPatterns_wrote l hsound fun _ hpat => readsAgain_citation l hpat⟩

theorem extractDocumentFast_wrote (hsound : corpus.Sound) (htext : corpus.texts slug = some text) :
    ∃ fast, extractDocumentFast l.database corpus slug = .ok fast ∧
      WroteAll (scanRows l slug text) citationPatterns corpus fast.1 fast.2 := by
  rw [extractDocumentFast, htext]
  exact ⟨_, rfl, extractPatterns_wrote hsound fun _ _ => rfl⟩

/-- Both raise for a document without text.  Of a text they leave the same entities and mentions,
and report the same counts, exactly when no citation begins inside of another of its pattern and
none is longer than 40 characters. -/
theorem extractors_agree_iff (l : Locale) (corpus : Corpus) (hsound : corpus.Sound) (slug : String) :
    (corpus.texts slug = none ∧ extractDocument l corpus slug = .error (.noDocument slug) ∧
      extractDocumentFast l.database corpus slug = .error (.noDocument slug)) ∨
    ∃ text slow fast, corpus.texts slug = some text ∧ extractDocument l corpus slug = .ok slow ∧
      extractDocumentFast l.database corpus slug = .ok fast ∧
      (SameExtraction slow fast ↔
        ∀ pat ∈ citationPatterns, Uncrowded (pat.pattern.inLocale l.isWord) text) := by
  cases htext : corpus.texts slug with
  | none =>
    refine .inl ⟨rfl, ?_, ?_⟩
    · rw [extractDocument, htext]
    · rw [extractDocumentFast, htext]
  | some text =>
    obtain ⟨slow, hslow, hloop⟩ := extractDocument_wrote (l := l) hsound htext
    obtain ⟨fast, hfast, hscan⟩ := extractDocumentFast_wrote (l := l) hsound htext
    refine .inr ⟨text, slow, fast, rfl, hslow, hfast, ?_⟩
    rw [hloop.same_iff hscan (by decide) (fun pat _ => inOrder_loopRows pat)
      fun pat _ => inOrder_scanRows pat]
    exact forall₂_congr fun pat hpat => shown_eq_iff l slug text hpat

end Extractors

/-! ### Texts -/

theorem numbered_empty (next : Int) : Numbered (KeyMap.empty, next) where
  unique h := nomatch h
  ahead h := nomatch h

/-- Words of ASCII letters and digits, and the order of code points. -/
def asciiLocale : Locale := ⟨isWordChar, scanningDatabase.collate, fun _ h => h⟩

/-- A regulation that an earlier call has found, in a table with its mention. -/
def regulations (text : String) : Corpus where
  texts slug := if slug = "ecfr" then some text.toList else none
  entities := (upsertEntity .cfr (.empty, 1) ⟨"17CFR240".toList, "17 CFR 240".toList⟩).1
  nextEntity := 2
  mentions := [⟨⟨1, "sox", 5⟩, "see 17 CFR 240".toList⟩]

theorem sound_regulations (text : String) : (regulations text).Sound where
  numbered := (numbered_empty 1).upsertEntity
  refers := List.forall_mem_singleton.mpr ⟨(.cfr, "17CFR240".toList), _, rfl, rfl⟩

theorem clear_statute_regulations : ∀ pat ∈ citationPatterns,
    Clear (longestAt (pat.pattern.inLocale isWordChar) "5 USC 552, 17 CFR 240; 2 CFR 3".toList)
      "5 USC 552, 17 CFR 240; 2 CFR 3".toList.length := by
  decide +kernel

/-- A statute and two regulations, one behind the other. -/
theorem extractors_agree_regulations : ∃ slow fast,
    extractDocument asciiLocale (regulations "5 USC 552, 17 CFR 240; 2 CFR 3") "ecfr" = .ok slow ∧
    extractDocumentFast asciiLocale.database (regulations "5 USC 552, 17 CFR 240; 2 CFR 3") "ecfr" =
      .ok fast ∧ SameExtraction slow fast := by
  rcases extractors_agree_iff asciiLocale _ (sound_regulations "5 USC 552, 17 CFR 240; 2 CFR 3") "ecfr" with
    ⟨hnone, -⟩ | ⟨text, slow, fast, htext, hslow, hfast, hiff⟩
  · cases hnone
  · refine ⟨slow, fast, hslow, hfast, hiff.mpr fun pat hpat => ?_⟩
    obtain rfl : "5 USC 552, 17 CFR 240; 2 CFR 3".toList = text := Option.some.inj htext
    have hr := readsAgain_citation asciiLocale hpat
    refine hr.uncrowded_iff.mpr ⟨?_, fun i => ?_⟩
    · exact clear_statute_regulations pat hpat
    · rcases Nat.eq_zero_or_pos (longestAt (pat.pattern.inLocale asciiLocale.isWord)
        "5 USC 552, 17 CFR 240; 2 CFR 3".toList i) with hzero | hpos
      · omega
      · have hfit := (hr.longest_spec hpos).2.1
        have hlen : "5 USC 552, 17 CFR 240; 2 CFR 3".toList.length = 30 := by decide
        omega

/-- The second citation begins inside of the first. -/
theorem loop_finds_more : ∃ slow fast,
    extractDocument asciiLocale (regulations "1 CFR 2 CFR 3") "ecfr" = .ok slow ∧
    extractDocumentFast asciiLocale.database (regulations "1 CFR 2 CFR 3") "ecfr" = .ok fast ∧
    slow.1.shown.map (fun m => (m.docSlug, m.charOffset)) = [("sox", 5), ("ecfr", 1), ("ecfr", 7)] ∧
    fast.1.shown.map (fun m => (m.docSlug, m.charOffset)) = [("sox", 5), ("ecfr", 1)] ∧
    ¬ SameExtraction slow fast := by
  have hsound := sound_regulations "1 CFR 2 CFR 3"
  have htext : (regulations "1 CFR 2 CFR 3").texts "ecfr" = some "1 CFR 2 CFR 3".toList := rfl
  obtain ⟨slow, hslow, hloop⟩ := extractDocument_wrote (l := asciiLocale) hsound htext
  obtain ⟨fast, hfast, hscan⟩ := extractDocumentFast_wrote (l := asciiLocale) hsound htext
  have hfound : slow.1.shown.map (fun m => (m.docSlug, m.charOffset)) =
      [("sox", 5), ("ecfr", 1), ("ecfr", 7)] := by
    rw [hloop.shown]
    decide +kernel
  have hscanned : fast.1.shown.map (fun m => (m.docSlug, m.charOffset)) = [("sox", 5), ("ecfr", 1)] := by
    rw [hscan.shown]
    decide +kernel
  refine ⟨slow, fast, hslow, hfast, hfound, hscanned, fun hsame => ?_⟩
  have hlen := (hsame.mentions.map fun m => (m.docSlug, m.charOffset)).length_eq
  rw [hfound, hscanned] at hlen
  cases hlen

end SupabaseLab.CorpusGraph
