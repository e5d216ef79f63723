/-
  RestorePaths/Stream.lean --- the streaming consumer.

  Source: `streamConsumer` of experiments/restore-paths/lib/slots.ts.

  What happens to the consumer is an event: the process appends bytes to its output
  file, reports a flush position on stderr, or exits; the loop polls the file; the
  loop starts a new process with a new file once the last one has exited and its
  file is read.  The phase is asked at a poll.  The texts of the exits and of the
  other stderr lines, the delays and the address lookups are left out.
-/
import SupabaseLab.Library.Machine
import SupabaseLab.RestorePaths.Wal2json

set_option autoImplicit false

namespace SupabaseLab.RestorePaths

open Library

/-! ## The consumer -/

structure Stream where
  ledger : Ledger := {}
  /-- The output file of the running process. -/
  file : Bytes := []
  exited : Bool := false
  pos : Nat := 0
  buf : JsText := []
  pending : List JsText := []
  /-- The loop threw. -/
  failed : Bool := false
  /-- The files of the processes before, and what `take` was given, oldest first. -/
  past : List Bytes := []
  taken : List DecodedTx := []

inductive StreamEvent where
  | append (bs : Bytes)
  | flush (lsn : Nat)
  | poll (phase : String)
  | exit
  | respawn

/-- The loop over one file is over. -/
def Stream.done (s : Stream) : Bool := s.exited && s.file.length ≤ s.pos

/-- `includes('"action":"C"')`. -/
def isCommitLine (line : JsText) : Bool := commitMark <:+: line

/-- `pending.slice(0, lastC + 1)`. -/
def handedOver (pending : List JsText) : List JsText := pending.rdropWhile fun l => ¬ isCommitLine l

/-- `pending.slice(lastC + 1)`. -/
def keptBack (pending : List JsText) : List JsText := pending.rtakeWhile fun l => ¬ isCommitLine l

/-- The transactions of a poll, with the confirmed position of before. -/
def takeAll (phase : String) (l : Ledger) (txs : List DecodedTx) : Ledger :=
  txs.foldl (fun ledger tx => ledger.take tx phase l.confirmed) l

/-- What is new in the file, as lines. -/
def Stream.read (s : Stream) : Stream :=
  let buf := s.buf ++ readUtf8 (s.file.drop s.pos)
  { s with
    pos := s.file.length
    buf := lastPiece 10 buf
    pending := s.pending ++ completeLines 10 buf }

/-- Only complete transactions are handed over, through the last C line. -/
def Stream.handOver (convert : JsonText → JsNum) (phase : String) (s : Stream) : Stream :=
  if handedOver s.pending = [] then s
  else
    match parseWal2json convert (handedOver s.pending) with
    | none => { s with failed := true }
    | some txs =>
        { s with
          ledger := takeAll phase s.ledger txs
          pending := keptBack s.pending
          taken := s.taken ++ txs }

/-- One round of the tail loop. -/
def Stream.poll (convert : JsonText → JsNum) (phase : String) (s : Stream) : Stream :=
  if s.file.length ≤ s.pos then s else s.read.handOver convert phase

def Stream.step (convert : JsonText → JsNum) (s : Stream) : StreamEvent → Option Stream
  | .append bs => if s.exited then none else some { s with file := s.file ++ bs }
  | .flush lsn =>
      some { s with ledger := { s.ledger with
        confirmed := if lsn > s.ledger.confirmed then lsn else s.ledger.confirmed } }
  | .poll phase => if s.failed || s.done then none else some (s.poll convert phase)
  | .exit => if s.exited then none else some { s with exited := true }
  | .respawn =>
      if s.failed || !s.done then none
      else some { s with
        past := s.past ++ [s.file], file := [], exited := false, pos := 0, buf := [], pending := [] }

/-! ## Files of the plugin -/

/-- What the complete lines of a file say. -/
def actions (decode : Bytes → Action) (bs : Bytes) : List Action := (completeLines 10 bs).map decode

/-- The complete lines of a file are texts of the plugin, each saying its action. -/
def WrittenBy (decode : Bytes → Action) (bs : Bytes) : Prop :=
  ∀ line ∈ completeLines 10 bs, ∃ text : List Char,
    line = text.flatMap String.utf8EncodeChar ∧ Wal2json (utf16 text) (decode line)

section Files

variable {convert : JsonText → JsNum} {decode : Bytes → Action} {bs bs' : Bytes}
  {pieces : List Bytes} {ls : List JsText} {b l : JsText} {a : Action} {as : List Action}
  {g : Grouped} {x : List WalTx}

/-- A line that the loop reads as this action. -/
structure Reads (convert : JsonText → JsNum) (l : JsText) (a : Action) : Prop where
  parse : ∀ g : Grouped, parseLine convert g.decoded l = some (group g a).decoded
  commit : isCommitLine l = a.isCommit

theorem WrittenBy.shorter (h : WrittenBy decode bs') (hshort : bs <+: bs') : WrittenBy decode bs :=
  fun line hline => h line ((completeLines_of_le hshort).subset hline)

theorem utf8Text_injective {s t : List Char}
    (h : s.flatMap String.utf8EncodeChar = t.flatMap String.utf8EncodeChar) : s = t := by
  rw [← utf8_ofList, ← utf8_ofList] at h
  exact String.ofList_injective (utf8_injective h)

/-- A file of the plugin is read as its actions, from any pieces. -/
theorem WrittenBy.reads (h : WrittenBy decode bs) (hpieces : pieces.flatten = bs)
    (hls : IsLines 10 (pieces.flatMap readUtf8) ls b) :
    List.Forall₂ (Reads convert) ls (actions decode bs) := by
  obtain ⟨ls', b', hls', hread⟩ := readPieces_lines (isLines_split 10 bs) hpieces
    fun line hline => (h line hline).imp fun text htext => htext.1
  obtain rfl : ls = ls' := hls.completeLines_eq.symm.trans hls'.completeLines_eq
  rw [actions, List.forall₂_map_right_iff]
  refine List.Forall₂.flip (((List.forall₂_and_left _ _).mpr ⟨h, hread⟩).imp ?_)
  rintro line l ⟨⟨text, hline, hwal⟩, text', hline', hblur⟩
  obtain rfl := utf8Text_injective (hline.symm.trans hline')
  refine ⟨fun g => hwal.parseLine hblur, ?_⟩
  rw [isCommitLine, Bool.eq_iff_iff, decide_eq_true_eq]
  exact hwal.commitMark_iff hblur

theorem foldlM_parseLine (h : List.Forall₂ (Reads convert) ls as) (g : Grouped) :
    ls.foldlM (parseLine convert) g.decoded = some (as.foldl group g).decoded :=
  foldlM_group (fun _ _ g hread => hread.parse g) h g

/-- Lines from the start are parsed as their transactions. -/
theorem parseWal2json_eq (h : List.Forall₂ (Reads convert) ls as) :
    parseWal2json convert ls = some ((transactions as).map WalTx.decoded) := by
  have hfold := foldlM_parseLine h ([], none)
  rw [parseWal2json]
  exact congrArg (Option.map Prod.fst) hfold

end Files

/-! ## What every run has taken -/

/-- The files of a state, oldest first. -/
def Stream.files (s : Stream) : List Bytes := s.past ++ [s.file]

/-- What is read of the file: the lines handed over, the lines kept back and the unfinished
one.  `k` lines were handed over, and the last of them ends a transaction. -/
structure Tailing (decode : Bytes → Action) (s : Stream) (pieces : List Bytes)
    (handed : List JsText) : Prop where
  pos : s.pos ≤ s.file.length
  read : pieces.flatten = s.file.take s.pos
  lines : IsLines 10 (pieces.flatMap readUtf8) (handed ++ s.pending) s.buf
  kept : ∀ l ∈ s.pending, isCommitLine l = false
  closed : (((actions decode (s.file.take s.pos)).take handed.length).foldl group ([], none)).2 = none

/-- The transactions of the files before and of what is read of this one. -/
def Stream.expected (decode : Bytes → Action) (s : Stream) : List WalTx :=
  s.past.flatMap (fun bs => transactions (actions decode bs)) ++
    transactions (actions decode (s.file.take s.pos))

structure Stream.Good (decode : Bytes → Action) (s : Stream) : Prop where
  alive : s.failed = false
  tailing : ∃ pieces handed, Tailing decode s pieces handed
  taken : s.taken = (s.expected decode).map WalTx.decoded
  books : s.ledger.Books
  received : s.ledger.received.map Received.id = s.taken.flatMap DecodedTx.ids

section Runs

variable {convert : JsonText → JsNum} {decode : Bytes → Action} {s s' : Stream} {e : StreamEvent}
  {phase : String}

theorem length_le_of_done (h : s.done = true) : s.file.length ≤ s.pos := by
  simp only [Stream.done, Bool.and_eq_true, decide_eq_true_eq] at h
  exact h.2

theorem good_start : Stream.Good decode {} where
  alive := rfl
  tailing := ⟨[], [], ⟨Nat.le_refl _, rfl, isLines_nil (by simp), by simp, rfl⟩⟩
  taken := rfl
  books := books_empty
  received := rfl

theorem takeAll_books {l : Ledger} (h : l.Books) (txs : List DecodedTx) : (takeAll phase l txs).Books := by
  have hall : ∀ (l' : Ledger), l'.Books →
      (txs.foldl (fun ledger tx => ledger.take tx phase l.confirmed) l').Books := by
    induction txs with
    | nil => exact fun l' hl' => hl'
    | cons tx txs ih => exact fun l' hl' => ih _ hl'.take
  exact hall l h

theorem takeAll_received (l : Ledger) (txs : List DecodedTx) :
    (takeAll phase l txs).received.map Received.id =
      l.received.map Received.id ++ txs.flatMap DecodedTx.ids := by
  have htake : ∀ (l' : Ledger) (tx : DecodedTx), (l'.take tx phase l.confirmed).received.map Received.id =
      l'.received.map Received.id ++ tx.ids := by
    intro l' tx
    have hids : ∀ (ids : List JsNum) (l' : Ledger),
        (ids.foldl (Ledger.takeId tx.endLsn phase l.confirmed) l').received.map Received.id =
          l'.received.map Received.id ++ ids := by
      intro ids
      induction ids with
      | nil => simp
      | cons id ids ih =>
        intro l'
        have hone : (l'.takeId tx.endLsn phase l.confirmed id).received.map Received.id =
            l'.received.map Received.id ++ [id] := by
          unfold Ledger.takeId
          split_ifs <;> simp
        rw [List.foldl_cons, ih, hone, List.append_assoc, List.singleton_append]
    exact hids tx.ids l'
  have hall : ∀ (txs : List DecodedTx) (l' : Ledger),
      (txs.foldl (fun ledger tx => ledger.take tx phase l.confirmed) l').received.map Received.id =
        l'.received.map Received.id ++ txs.flatMap DecodedTx.ids := by
    intro txs
    induction txs with
    | nil => simp
    | cons tx txs ih =>
      intro l'
      rw [List.foldl_cons, ih, htake, List.flatMap_cons, List.append_assoc]
  exact hall txs l

theorem mem_keptBack {pending : List JsText} {l : JsText} (h : l ∈ keptBack pending) :
    isCommitLine l = false := by
  simpa using List.mem_rtakeWhile_imp h

/-- The lines that are handed over end with a commit. -/
theorem handedOver_last {pending : List JsText} (h : handedOver pending ≠ []) :
    ∃ front l, handedOver pending = front ++ [l] ∧ isCommitLine l = true := by
  have hlast := List.rdropWhile_last_not (fun l => decide (¬ isCommitLine l)) pending h
  rw [decide_eq_true_eq, not_not] at hlast
  exact ⟨(handedOver pending).dropLast, (handedOver pending).getLast h,
    (List.dropLast_append_getLast h).symm, hlast⟩

theorem handedOver_append_keptBack (pending : List JsText) :
    handedOver pending ++ keptBack pending = pending :=
  List.rdropWhile_append_rtakeWhile

section Split

variable {front back : List JsText} {as : List Action} {l : JsText}

theorem reads_take (h : List.Forall₂ (Reads convert) (front ++ back) as) :
    List.Forall₂ (Reads convert) front (as.take front.length) :=
  (List.forall₂_take_append _ _ _ h.flip).flip

theorem reads_drop (h : List.Forall₂ (Reads convert) (front ++ back) as) :
    List.Forall₂ (Reads convert) back (as.drop front.length) :=
  (List.forall₂_drop_append _ _ _ h.flip).flip

/-- Lines kept back complete no transaction. -/
theorem transactions_take (h : List.Forall₂ (Reads convert) (front ++ back) as)
    (hback : ∀ l ∈ back, isCommitLine l = false) :
    transactions as = transactions (as.take front.length) := by
  rw [← transactions_open (fun a ha => ?_) (as.take front.length), List.take_append_drop]
  obtain ⟨l, hl, hread⟩ := exists_of_forall₂_mem (reads_drop h) ha
  rw [← hread.commit]
  exact hback l hl

/-- After a commit no transaction is open. -/
theorem closed_of_last (h : List.Forall₂ (Reads convert) (front ++ [l]) as)
    (hl : isCommitLine l = true) (g : Grouped) : (as.foldl group g).2 = none := by
  obtain ⟨a, hread, hdrop⟩ : ∃ a, Reads convert l a ∧ as.drop front.length = [a] := by
    have hlast := reads_drop h
    generalize as.drop front.length = last at hlast
    cases hlast with
    | cons hread hnil =>
      cases hnil
      exact ⟨_, hread, rfl⟩
  rw [← List.take_append_drop front.length as, hdrop, List.foldl_append, List.foldl_cons, List.foldl_nil]
  exact group_commit (hread.commit ▸ hl) _

end Split

theorem handOver_none (h : handedOver s.pending = []) : s.handOver convert phase = s := if_pos h

theorem handOver_some {txs : List DecodedTx} (h : handedOver s.pending ≠ [])
    (hparse : parseWal2json convert (handedOver s.pending) = some txs) :
    s.handOver convert phase = { s with
      ledger := takeAll phase s.ledger txs
      pending := keptBack s.pending
      taken := s.taken ++ txs } := by
  rw [Stream.handOver, if_neg h, hparse]

/-- Where a round of the loop stands once it has read the file: all lines of the file, the
first of them handed over before. -/
structure Stream.HasRead (decode : Bytes → Action) (s : Stream) (pieces : List Bytes)
    (handed : List JsText) : Prop where
  pos : s.pos = s.file.length
  read : pieces.flatten = s.file
  lines : IsLines 10 (pieces.flatMap readUtf8) (handed ++ s.pending) s.buf
  closed : (((actions decode s.file).take handed.length).foldl group ([], none)).2 = none
  taken : s.taken = (s.past.flatMap (fun bs => transactions (actions decode bs)) ++
    transactions ((actions decode s.file).take handed.length)).map WalTx.decoded

theorem read_hasRead (hgood : s.Good decode) (hwritten : WrittenBy decode s.file) :
    ∃ pieces handed, s.read.HasRead decode pieces handed := by
  obtain ⟨pieces, handed, htail⟩ := hgood.tailing
  have hbefore : List.Forall₂ (Reads fun _ => .int 0) (handed ++ s.pending)
      (actions decode (s.file.take s.pos)) :=
    (hwritten.shorter (List.take_prefix s.pos s.file)).reads htail.read htail.lines
  have hsame : (actions decode (s.file.take s.pos)).take handed.length =
      (actions decode s.file).take handed.length := by
    have hlength := hbefore.length_eq
    rw [List.length_append] at hlength
    obtain ⟨more, hmore⟩ := (completeLines_of_le (List.take_prefix s.pos s.file)).map decode
    have hall : actions decode s.file = actions decode (s.file.take s.pos) ++ more := hmore.symm
    rw [hall, List.take_append_of_le_length (by omega)]
  refine ⟨pieces ++ [s.file.drop s.pos], handed, rfl, ?_, ?_, ?_, ?_⟩
  · rw [List.flatten_append, htail.read, List.flatten_singleton]
    exact List.take_append_drop s.pos s.file
  · have happend := htail.lines.append (readUtf8 (s.file.drop s.pos))
    rw [List.append_assoc] at happend
    rw [List.flatMap_append, List.flatMap_singleton]
    exact happend
  · exact hsame ▸ htail.closed
  · have htaken := hgood.taken
    rw [Stream.expected, transactions_take hbefore htail.kept, hsame] at htaken
    exact htaken

theorem handOver_good {pieces : List Bytes} {handed : List JsText} (hread : s.HasRead decode pieces handed)
    (hwritten : WrittenBy decode s.file) (halive : s.failed = false) (hbooks : s.ledger.Books)
    (hreceived : s.ledger.received.map Received.id = s.taken.flatMap DecodedTx.ids) :
    (s.handOver convert phase).Good decode := by
  have hwhole : s.file.take s.pos = s.file := by rw [hread.pos, List.take_length]
  have hreads : List.Forall₂ (Reads convert) (handed ++ s.pending) (actions decode s.file) :=
    hwritten.reads hread.read hread.lines
  by_cases hnone : handedOver s.pending = []
  · rw [handOver_none hnone]
    have hkept : ∀ l ∈ s.pending, isCommitLine l = false := fun l hl => by
      rw [← handedOver_append_keptBack s.pending, hnone] at hl
      exact mem_keptBack hl
    refine ⟨halive, ⟨pieces, handed, Nat.le_of_eq hread.pos, ?_, hread.lines, hkept, ?_⟩, ?_, hbooks,
      hreceived⟩
    · rw [hread.read, hwhole]
    · rw [hwhole]
      exact hread.closed
    · rw [hread.taken, Stream.expected, hwhole, transactions_take hreads hkept]
  · have hpending := reads_drop hreads
    rw [← handedOver_append_keptBack s.pending] at hpending
    have hhanded := reads_take hpending
    rw [handOver_some hnone (parseWal2json_eq hhanded)]
    obtain ⟨front, l, hfront, hl⟩ := handedOver_last hnone
    have htake : (actions decode s.file).take (handed ++ handedOver s.pending).length =
        (actions decode s.file).take handed.length ++
          ((actions decode s.file).drop handed.length).take (handedOver s.pending).length := by
      rw [List.length_append, List.take_add]
    have hlines : (handed ++ handedOver s.pending) ++ keptBack s.pending = handed ++ s.pending := by
      rw [List.append_assoc, handedOver_append_keptBack]
    have hkept : ∀ l ∈ keptBack s.pending, isCommitLine l = false := fun l hl => mem_keptBack hl
    refine ⟨halive, ⟨pieces, handed ++ handedOver s.pending, Nat.le_of_eq hread.pos, ?_, ?_, hkept, ?_⟩,
      ?_, takeAll_books hbooks _, ?_⟩
    · rw [hread.read]
      exact hwhole.symm
    · rw [hlines]
      exact hread.lines
    · rw [hfront] at hhanded
      have hclosed := closed_of_last hhanded hl
        (((actions decode s.file).take handed.length).foldl group ([], none))
      rw [← hfront, ← List.foldl_append, ← htake] at hclosed
      simpa [hwhole] using hclosed
    · have hall := hreads
      rw [← hlines] at hall
      simp only [Stream.expected, hwhole]
      rw [hread.taken, transactions_take hall hkept, htake, transactions_append hread.closed,
        ← List.append_assoc]
      simp only [List.map_append]
    · rw [takeAll_received, hreceived, List.flatMap_append]

theorem poll_good (hgood : s.Good decode) (hwritten : WrittenBy decode s.file) :
    (s.poll convert phase).Good decode := by
  by_cases hnew : s.file.length ≤ s.pos
  · rw [Stream.poll, if_pos hnew]
    exact hgood
  · rw [Stream.poll, if_neg hnew]
    obtain ⟨pieces, handed, hread⟩ := read_hasRead hgood hwritten
    exact handOver_good hread hwritten hgood.alive hgood.books hgood.received

/-- Files only grow, and no file is forgotten. -/
theorem step_files (hstep : s.step convert e = some s') :
    ∀ bs ∈ s.files, ∃ bs' ∈ s'.files, bs <+: bs' := by
  have hkeep : ∀ t : Stream, t.past = s.past → t.file = s.file →
      ∀ bs ∈ s.files, ∃ bs' ∈ t.files, bs <+: bs' := by
    intro t hpast hfile bs hbs
    exact ⟨bs, by rw [Stream.files, hpast, hfile]; exact hbs, List.prefix_refl bs⟩
  cases e with
  | append more =>
    simp only [Stream.step] at hstep
    split_ifs at hstep
    cases hstep
    intro bs hbs
    rcases List.mem_append.mp hbs with hbs | hbs
    · exact ⟨bs, List.mem_append_left _ hbs, List.prefix_refl bs⟩
    · obtain rfl := List.mem_singleton.mp hbs
      exact ⟨s.file ++ more, by simp [Stream.files], List.prefix_append _ _⟩
  | flush lsn =>
    cases hstep
    exact hkeep _ rfl rfl
  | poll phase =>
    simp only [Stream.step] at hstep
    split_ifs at hstep
    cases hstep
    refine hkeep _ ?_ ?_
    all_goals
      unfold Stream.poll Stream.handOver
      split_ifs
      · rfl
      · rfl
      · split <;> rfl
  | exit =>
    simp only [Stream.step] at hstep
    split_ifs at hstep
    cases hstep
    exact hkeep _ rfl rfl
  | respawn =>
    simp only [Stream.step] at hstep
    split_ifs at hstep
    cases hstep
    intro bs hbs
    exact ⟨bs, List.mem_append_left _ hbs, List.prefix_refl bs⟩

theorem step_good (hstep : s.step convert e = some s') (hgood : s.Good decode)
    (hwritten : ∀ bs ∈ s.files, WrittenBy decode bs) : s'.Good decode := by
  obtain ⟨pieces, handed, htail⟩ := hgood.tailing
  cases e with
  | append more =>
    simp only [Stream.step] at hstep
    split_ifs at hstep
    cases hstep
    have htake : (s.file ++ more).take s.pos = s.file.take s.pos :=
      List.take_append_of_le_length htail.pos
    refine ⟨hgood.alive, ⟨pieces, handed, ?_, ?_, htail.lines, htail.kept, ?_⟩, ?_, hgood.books,
      hgood.received⟩
    · have := htail.pos
      simp
      omega
    · simpa [htake] using htail.read
    · simpa [htake] using htail.closed
    · simpa [Stream.expected, htake] using hgood.taken
  | flush lsn =>
    cases hstep
    exact ⟨hgood.alive, ⟨pieces, handed, htail.pos, htail.read, htail.lines, htail.kept, htail.closed⟩,
      hgood.taken, ⟨hgood.books.nodup, hgood.books.seen, hgood.books.count, hgood.books.phases⟩,
      hgood.received⟩
  | poll phase =>
    simp only [Stream.step] at hstep
    split_ifs at hstep
    cases hstep
    exact poll_good hgood (hwritten s.file (by simp [Stream.files]))
  | exit =>
    simp only [Stream.step] at hstep
    split_ifs at hstep
    cases hstep
    exact ⟨hgood.alive, ⟨pieces, handed, htail.pos, htail.read, htail.lines, htail.kept, htail.closed⟩,
      hgood.taken, hgood.books, hgood.received⟩
  | respawn =>
    simp only [Stream.step] at hstep
    split_ifs at hstep with hdone
    cases hstep
    have hwhole : s.file.take s.pos = s.file := by
      have hdone' : s.failed = false ∧ s.done = true := by simpa using hdone
      exact List.take_of_length_le (length_le_of_done hdone'.2)
    refine ⟨hgood.alive, ⟨[], [], Nat.le_refl _, rfl, isLines_nil (by simp), by simp, rfl⟩, ?_,
      hgood.books, hgood.received⟩
    have htaken := hgood.taken
    rw [Stream.expected, hwhole] at htaken
    simpa [Stream.expected, actions, completeLines, transactions] using htaken

theorem run_good {events : List StreamEvent} (hrun : runEvents (Stream.step convert) {} events = some s)
    (hwritten : ∀ bs ∈ s.files, WrittenBy decode bs) : s.Good decode := by
  refine runEvents_invariant (I := fun _ s => (∀ bs ∈ s.files, WrittenBy decode bs) → s.Good decode)
    (fun _ => good_start) (fun _ m e m' _ ih hstep hwritten => ?_) events s hrun hwritten
  have hbefore : ∀ bs ∈ m.files, WrittenBy decode bs := fun bs hbs => by
    obtain ⟨bs', hbs', hshort⟩ := step_files hstep bs hbs
    exact (hwritten bs' hbs').shorter hshort
  exact step_good hstep (ih hbefore) hbefore

end Runs

/-- In every run `take` is given the transactions of the files, each once and in their order:
those that are complete in the files before and in what is read of this one, and all that are
complete when the loop is over.  The ids are the ids of the rows as doubles.  Deliveries are
the ids seen and the redeliveries, and the phases add up. -/
theorem stream_takes_once (convert : JsonText → JsNum) (decode : Bytes → Action)
    (events : List StreamEvent) (s : Stream)
    (hrun : runEvents (Stream.step convert) {} events = some s)
    (hwritten : ∀ bs ∈ s.files, WrittenBy decode bs) :
    s.failed = false ∧
      s.taken = (s.expected decode).map WalTx.decoded ∧
      (s.done = true →
        s.expected decode = s.files.flatMap fun bs => transactions (actions decode bs)) ∧
      ((∀ tx ∈ s.expected decode, ∀ id ∈ tx.ids, id.natAbs < 2 ^ 53) →
        s.taken.map DecodedTx.ids = (s.expected decode).map fun tx => tx.ids.map .int) ∧
      s.ledger.received.map Received.id = s.taken.flatMap DecodedTx.ids ∧
      (s.ledger.seen.map Prod.fst).Nodup ∧
      (∀ id, id ∈ s.ledger.seen.map Prod.fst ↔ id ∈ s.ledger.received.map Received.id) ∧
      s.ledger.received.length = s.ledger.seen.length + s.ledger.redeliveries.length ∧
      ∀ (acked : JsMap JsNum String) (phases : List String), phases.Nodup →
        (∀ r ∈ s.ledger.received, r.phase ∈ phases) →
        (phases.map fun p => (phaseCounts p acked s.ledger).recv).sum = s.ledger.received.length ∧
          (phases.map fun p => (phaseCounts p acked s.ledger).dup).sum = s.ledger.redeliveries.length ∧
          (phases.map fun p => (phaseCounts p acked s.ledger).dupRewind).sum =
            (s.ledger.redeliveries.filter Redelivery.rewind).length := by
  have hgood := run_good hrun hwritten
  refine ⟨hgood.alive, hgood.taken, fun hdone => ?_, fun hsmall => ?_, hgood.received,
    hgood.books.nodup, hgood.books.seen, hgood.books.count, fun acked phases hnodup hall =>
      hgood.books.phaseCounts_sum acked hnodup hall⟩
  · rw [Stream.expected, List.take_of_length_le (length_le_of_done hdone), Stream.files]
    simp
  · rw [hgood.taken, List.map_map]
    refine List.map_congr_left fun tx htx => ?_
    exact List.map_congr_left fun id hid => rounded_of_lt (hsmall tx htx id hid)

/-! ## A transaction of one row -/

def beginLine : String := "\x7b\"action\":\"B\"\x7d"

def insertLine (id : String) : String :=
  "\x7b\"action\":\"I\",\"table\":\"rp_slot_events\",\"columns\":[\x7b\"name\":\"id\",\"value\":" ++ id ++
    "\x7d]\x7d"

def commitLine : String := "\x7b\"action\":\"C\",\"nextlsn\":\"0/2A\"\x7d"

def rowFile (id : String) : Bytes := joinLines 10 [utf8 beginLine, utf8 (insertLine id), utf8 commitLine]

/-- What the lines of such a file say. -/
def rowAction (id : Int) (line : Bytes) : Action :=
  if line = utf8 beginLine then .begin else if line = utf8 commitLine then .commit 42 else .insert id

/-- The file is written in two parts, the first of which ends inside the insert. -/
def rowEvents (id : String) : List StreamEvent :=
  [.append ((rowFile id).take 40), .poll "quiet", .append ((rowFile id).drop 40), .exit, .poll "resize"]

theorem beginLine_wal2json : Wal2json (utf16 beginLine.toList) .begin where
  object := ⟨.obj [(units "action", .str (units "B"))], rfl, rfl⟩
  mark := by decide

/-- What is there to check of an insert's line. -/
theorem insertLine_wal2json {text : String} {id : Int}
    (hparse : JsonText.parse (utf16 (insertLine text).toList) = some (.obj [
      (units "action", .str (units "I")), (units "table", .str (units "rp_slot_events")),
      (units "columns", .arr [.obj [(units "name", .str (units "id")), (units "value", .num (units text))]])]))
    (hid : integer? (units text) = some id)
    (hmark : ¬ commitMark <:+: utf16 (insertLine text).toList) :
    Wal2json (utf16 (insertLine text).toList) (.insert id) where
  object := ⟨_, hparse, rfl, rfl, [], _, [], units text, rfl, by simp, rfl, rfl, hid⟩
  mark := iff_of_false hmark (by simp [Action.isCommit])

theorem commitLine_wal2json : Wal2json (utf16 commitLine.toList) (.commit 42) where
  object := ⟨.obj [(units "action", .str (units "C")), (units "nextlsn", .str (units "0/2A"))], rfl,
    rfl, units "0/2A", rfl, by decide, by decide⟩
  mark := by decide

theorem rowFile_written {text : String} {id : Int}
    (hlines : completeLines 10 (rowFile text) = [utf8 beginLine, utf8 (insertLine text), utf8 commitLine])
    (hne : utf8 (insertLine text) ≠ utf8 beginLine ∧ utf8 (insertLine text) ≠ utf8 commitLine)
    (hinsert : Wal2json (utf16 (insertLine text).toList) (.insert id)) :
    WrittenBy (rowAction id) (rowFile text) := by
  have htext : ∀ s : String, utf8 s = s.toList.flatMap String.utf8EncodeChar := fun s => by
    rw [← utf8_ofList, String.ofList_toList]
  have hcommit : utf8 commitLine ≠ utf8 beginLine := by decide
  intro line hline
  simp only [hlines, List.mem_cons, List.not_mem_nil, or_false] at hline
  rcases hline with rfl | rfl | rfl
  · refine ⟨beginLine.toList, htext _, ?_⟩
    rw [rowAction, if_pos rfl]
    exact beginLine_wal2json
  · refine ⟨(insertLine text).toList, htext _, ?_⟩
    rw [rowAction, if_neg hne.1, if_neg hne.2]
    exact hinsert
  · refine ⟨commitLine.toList, htext _, ?_⟩
    rw [rowAction, if_neg hcommit, if_pos rfl]
    exact commitLine_wal2json

theorem stream_takes_once_row : ∃ s, runEvents (Stream.step fun _ => .int 0) {} (rowEvents "7") = some s ∧
    s.taken = [⟨42, [.int 7]⟩] ∧ s.ledger.received.length = s.ledger.seen.length := by
  have hrun : ((runEvents (Stream.step fun _ => .int 0) {} (rowEvents "7")).map fun s =>
      (s.files, s.expected (rowAction 7), s.ledger.redeliveries)) =
        some ([rowFile "7"], [⟨42, [7]⟩], []) := by decide +kernel
  obtain ⟨s, hs, heq⟩ := Option.map_eq_some_iff.mp hrun
  obtain ⟨hfiles, hrest⟩ := Prod.mk.inj heq
  obtain ⟨hexpected, hredeliveries⟩ := Prod.mk.inj hrest
  have hwritten : ∀ bs ∈ s.files, WrittenBy (rowAction 7) bs := by
    intro bs hbs
    rw [hfiles] at hbs
    rw [List.mem_singleton.mp hbs]
    exact rowFile_written (by decide) (by decide)
      (insertLine_wal2json rfl (by decide) (by decide +kernel))
  have htakes := stream_takes_once (fun _ => .int 0) (rowAction 7) (rowEvents "7") s hs hwritten
  refine ⟨s, hs, ?_, ?_⟩
  · rw [htakes.2.1, hexpected]
    decide +kernel
  · rw [htakes.2.2.2.2.2.2.2.1, hredeliveries]
    rfl

/-- An id that no double holds is taken as its neighbour. -/
theorem stream_rounds_id : WrittenBy (rowAction 9007199254740993) (rowFile "9007199254740993") ∧
    ((runEvents (Stream.step fun _ => .int 0) {} (rowEvents "9007199254740993")).map fun s =>
      (s.files, s.expected (rowAction 9007199254740993), s.taken)) =
        some ([rowFile "9007199254740993"], [⟨42, [9007199254740993]⟩],
          [⟨42, [.int 9007199254740992]⟩]) := by
  refine ⟨rowFile_written (by decide) (by decide) ?_, by decide +kernel⟩
  exact insertLine_wal2json rfl (by decide) (by decide +kernel)

end SupabaseLab.RestorePaths
