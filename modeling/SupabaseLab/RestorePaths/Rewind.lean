/-
  RestorePaths/Rewind.lean --- redeliveries that are called rewinds.

  Source: the stderr handler and the tail loop of `streamConsumer`, and
  `Ledger.take`, in experiments/restore-paths/lib/slots.ts.

  The consumer runs as in RestorePaths/Stream.lean, and the lines of its output file
  are appended whole.  Beside it stands what a witness of the run notes down: for
  each line that is not taken yet, the flush position reported before it was
  appended, and for each redelivery whether its transaction ended at or before that
  position.
-/
import SupabaseLab.RestorePaths.Stream

set_option autoImplicit false

namespace SupabaseLab.RestorePaths

open Library

/-! ## Redeliveries -/

/-- The deliveries of ids that were seen before, in their order. -/
def redelivered {β : Type} (seen : List JsNum) : List (JsNum × β) → List (JsNum × β)
  | [] => []
  | (id, b) :: rest =>
      if id ∈ seen then (id, b) :: redelivered seen rest else redelivered (seen ++ [id]) rest

/-- The ids seen after more deliveries. -/
def seenAfter (seen ids : List JsNum) : List JsNum :=
  ids.foldl (fun seen id => if id ∈ seen then seen else seen ++ [id]) seen

section Redelivered

variable {β γ : Type} {seen : List JsNum} {l l' : List (JsNum × β)}

theorem redelivered_append : redelivered seen (l ++ l') =
    redelivered seen l ++ redelivered (seenAfter seen (l.map Prod.fst)) l' := by
  induction l generalizing seen with
  | nil => rfl
  | cons x l ih =>
    obtain ⟨id, b⟩ := x
    by_cases h : id ∈ seen
    · simp [redelivered, seenAfter, h, ih]
    · simp [redelivered, seenAfter, h, ih]

theorem redelivered_map (f : β → γ) :
    redelivered seen (l.map fun x => (x.1, f x.2)) = (redelivered seen l).map fun x => (x.1, f x.2) := by
  induction l generalizing seen with
  | nil => rfl
  | cons x l ih =>
    obtain ⟨id, b⟩ := x
    by_cases h : id ∈ seen
    · simp [redelivered, h, ih]
    · simp [redelivered, h, ih]

theorem seenAfter_append (seen ids ids' : List JsNum) :
    seenAfter seen (ids ++ ids') = seenAfter (seenAfter seen ids) ids' := List.foldl_append

end Redelivered

/-! ## What the ledger makes of them -/

def Ledger.keys (l : Ledger) : List JsNum := l.seen.map Prod.fst

/-- The redeliveries a ledger holds, each with its flag. -/
def Ledger.flags (l : Ledger) : List (JsNum × Bool) := l.redeliveries.map fun r => (r.id, r.rewind)

/-- The ids of transactions, each with the end of its own. -/
def idEnds (txs : List DecodedTx) : List (JsNum × Nat) :=
  txs.flatMap fun tx => tx.ids.map fun id => (id, tx.endLsn)

section Flags

variable {endLsn confirmed : Nat} {phase : String} {l : Ledger} {id : JsNum}

theorem takeId_flags : (l.takeId endLsn phase confirmed id).keys = seenAfter l.keys [id] ∧
    (l.takeId endLsn phase confirmed id).flags =
      l.flags ++ (redelivered l.keys [(id, endLsn)]).map fun x => (x.1, decide (x.2 ≤ confirmed)) := by
  cases h : l.seen.has id with
  | true =>
    have hmem : id ∈ l.keys := JsMap.has_iff.mp h
    have hstep : l.takeId endLsn phase confirmed id = { l with
        redeliveries := l.redeliveries ++ [⟨id, phase, bigToLsn endLsn, endLsn ≤ confirmed⟩]
        received := l.received ++ [⟨id, phase⟩] } := by
      simp [Ledger.takeId, h]
    rw [hstep]
    simp [seenAfter, redelivered, hmem, Ledger.flags]
    rfl
  | false =>
    have hmem : id ∉ l.keys := fun hmem => by
      rw [JsMap.has_iff.mpr hmem] at h
      cases h
    have hstep : l.takeId endLsn phase confirmed id = { l with
        seen := l.seen ++ [(id, phase)]
        received := l.received ++ [⟨id, phase⟩] } := by
      simp [Ledger.takeId, h, JsMap.set_of_not_has phase h]
    rw [hstep]
    simp [seenAfter, redelivered, hmem, Ledger.flags]
    simp [Ledger.keys]

theorem takeIds_flags (ids : List JsNum) (l : Ledger) :
    (ids.foldl (Ledger.takeId endLsn phase confirmed) l).keys = seenAfter l.keys ids ∧
      (ids.foldl (Ledger.takeId endLsn phase confirmed) l).flags = l.flags ++
        (redelivered l.keys (ids.map fun id => (id, endLsn))).map fun x => (x.1, decide (x.2 ≤ confirmed)) := by
  induction ids generalizing l with
  | nil => simp [seenAfter, redelivered]
  | cons id ids ih =>
    obtain ⟨hkeys, hflags⟩ := @takeId_flags endLsn confirmed phase l id
    obtain ⟨ihkeys, ihflags⟩ := ih (l.takeId endLsn phase confirmed id)
    rw [List.foldl_cons]
    refine ⟨?_, ?_⟩
    · rw [ihkeys, hkeys, ← seenAfter_append, List.singleton_append]
    · have hsplit : (id :: ids).map (fun id => (id, endLsn)) =
          [(id, endLsn)] ++ ids.map fun id => (id, endLsn) := rfl
      rw [ihflags, hkeys, hflags, hsplit, redelivered_append, List.map_append, List.append_assoc]
      rfl

/-- A poll flags the redeliveries of its transactions against the position of before. -/
theorem takeAll_flags (txs : List DecodedTx) (l : Ledger) :
    (takeAll phase l txs).keys = seenAfter l.keys ((idEnds txs).map Prod.fst) ∧
      (takeAll phase l txs).flags = l.flags ++
        (redelivered l.keys (idEnds txs)).map fun x => (x.1, decide (x.2 ≤ l.confirmed)) := by
  have hall : ∀ (txs : List DecodedTx) (l' : Ledger),
      (txs.foldl (fun ledger tx => ledger.take tx phase l.confirmed) l').keys =
          seenAfter l'.keys ((idEnds txs).map Prod.fst) ∧
        (txs.foldl (fun ledger tx => ledger.take tx phase l.confirmed) l').flags = l'.flags ++
          (redelivered l'.keys (idEnds txs)).map fun x => (x.1, decide (x.2 ≤ l.confirmed)) := by
    intro txs
    induction txs with
    | nil => simp [idEnds, seenAfter, redelivered]
    | cons tx txs ih =>
      intro l'
      obtain ⟨hkeys, hflags⟩ := @takeIds_flags tx.endLsn l.confirmed phase tx.ids l'
      have hkeys' : (l'.take tx phase l.confirmed).keys = seenAfter l'.keys tx.ids := hkeys
      have hflags' : (l'.take tx phase l.confirmed).flags = _ := hflags
      obtain ⟨ihkeys, ihflags⟩ := ih (l'.take tx phase l.confirmed)
      have hids : (tx.ids.map fun id => (id, tx.endLsn)).map Prod.fst = tx.ids := by
        simp [Function.comp_def]
      rw [List.foldl_cons, idEnds, List.flatMap_cons, List.map_append, seenAfter_append,
        redelivered_append, List.map_append, ← List.append_assoc, ← hflags', hids, ← hkeys']
      exact ⟨ihkeys, ihflags⟩
  exact hall txs l

theorem takeAll_confirmed (txs : List DecodedTx) (l : Ledger) :
    (takeAll phase l txs).confirmed = l.confirmed := by
  have hids : ∀ (endLsn c : Nat) (ids : List JsNum) (l' : Ledger),
      (ids.foldl (Ledger.takeId endLsn phase c) l').confirmed = l'.confirmed := by
    intro endLsn c ids
    induction ids with
    | nil => exact fun l' => rfl
    | cons id ids ih =>
      intro l'
      rw [List.foldl_cons, ih]
      unfold Ledger.takeId
      split_ifs <;> rfl
  have hall : ∀ (txs : List DecodedTx) (l' : Ledger),
      (txs.foldl (fun ledger tx => ledger.take tx phase l.confirmed) l').confirmed = l'.confirmed := by
    intro txs
    induction txs with
    | nil => exact fun l' => rfl
    | cons tx txs ih =>
      intro l'
      rw [List.foldl_cons, ih]
      exact hids _ _ tx.ids l'
  exact hall txs l

end Flags

/-! ## Lines and the position before them -/

/-- An id that is delivered: its line came after this position was reported, and its
transaction ends there. -/
structure Delivery where
  endLsn : Nat
  reported : Nat
  deriving DecidableEq, Repr

/-- The position had been reported when the line was appended. -/
def Delivery.isRewind (d : Delivery) : Bool := d.endLsn ≤ d.reported

/-- The deliveries of the transactions that are complete, and the ids of the open one with
the position of their lines. -/
abbrev Delivered : Type := List (JsNum × Delivery) × Option (List (JsNum × Nat))

def deliver (d : Delivered) (line : Action × Nat) : Delivered :=
  match line.1 with
  | .begin => (d.1, some [])
  | .insert id => (d.1, d.2.map (· ++ [(rounded id, line.2)]))
  | .elsewhere => d
  | .commit endLsn =>
      match d.2 with
      | some ids => (d.1 ++ ids.map fun x => (x.1, ⟨endLsn, x.2⟩), none)
      | none => d

/-- The deliveries of lines, each with the position reported before it. -/
def deliveries (lines : List (Action × Nat)) : List (JsNum × Delivery) :=
  (lines.foldl deliver ([], none)).1

/-! ## The run and its witness -/

structure Watched where
  stream : Stream := {}
  /-- The lines appended and not taken, with the position reported before each. -/
  queue : List (Action × Nat) := []
  /-- Of each redelivery, whether its transaction ended by the position reported before. -/
  rewinds : List (JsNum × Bool) := []

inductive LineEvent where
  | line (text : List Char) (a : Action)
  | flush (lsn : Nat)
  | poll (phase : String)
  | exit
  | respawn

/-- The bytes of a line. -/
def lineBytes (text : List Char) : Bytes := text.flatMap String.utf8EncodeChar ++ [10]

def LineEvent.event : LineEvent → StreamEvent
  | .line text _ => .append (lineBytes text)
  | .flush lsn => .flush lsn
  | .poll phase => .poll phase
  | .exit => .exit
  | .respawn => .respawn

def isCommitEntry (line : Action × Nat) : Bool := line.1.isCommit

/-- The redeliveries among the lines that wait. -/
def Watched.due (m : Watched) : List (JsNum × Delivery) :=
  redelivered m.stream.ledger.keys (deliveries m.queue)

/-- A poll takes what is complete. -/
def Watched.note (m : Watched) : LineEvent → Watched
  | .line _ a => { m with queue := m.queue ++ [(a, m.stream.ledger.confirmed)] }
  | .poll _ => { m with
      queue := m.queue.rtakeWhile fun x => ¬ isCommitEntry x
      rewinds := m.rewinds ++ m.due.map fun x => (x.1, x.2.isRewind) }
  | .respawn => { m with queue := [] }
  | _ => m

def Watched.step (convert : JsonText → JsNum) (m : Watched) (e : LineEvent) : Option Watched :=
  (m.stream.step convert e.event).map fun s => { m.note e with stream := s }

/-! ## Deliveries and transactions -/

section Deliveries

variable {lines later : List (Action × Nat)} {d : Delivered} {g : Grouped}

/-- The same, without the positions. -/
structure SameDeliveries (g : Grouped) (d : Delivered) : Prop where
  complete : d.1.map (fun x => (x.1, x.2.endLsn)) = idEnds (g.1.map WalTx.decoded)
  opened : d.2.map (·.map Prod.fst) = g.2.map (·.map rounded)

theorem SameDeliveries.step (h : SameDeliveries g d) (line : Action × Nat) :
    SameDeliveries (group g line.1) (deliver d line) := by
  obtain ⟨a, reported⟩ := line
  obtain ⟨txs, cur⟩ := g
  obtain ⟨ds, ids⟩ := d
  obtain ⟨hcomplete, hopened⟩ := h
  cases a with
  | begin => exact ⟨hcomplete, rfl⟩
  | elsewhere => exact ⟨hcomplete, hopened⟩
  | insert id =>
    cases cur <;> cases ids <;> simp at hopened
    · exact ⟨hcomplete, rfl⟩
    · exact ⟨hcomplete, by simp [group, deliver, hopened]⟩
  | commit endLsn =>
    cases cur <;> cases ids <;> simp at hopened
    · exact ⟨hcomplete, rfl⟩
    · rename_i ids' ids
      refine ⟨?_, rfl⟩
      have hlast : (ids.map fun x => (x.1, endLsn)) =
          (WalTx.decoded ⟨endLsn, ids'⟩).ids.map fun id => (id, endLsn) := by
        rw [WalTx.decoded, ← hopened, List.map_map]
        rfl
      simp only [group, deliver, List.map_append, List.map_map, Function.comp_def] at hcomplete ⊢
      rw [hcomplete, hlast]
      simp [idEnds]
      exact fun _ _ => rfl

/-- The deliveries of lines are the ids of their transactions. -/
theorem deliveries_ends (lines : List (Action × Nat)) :
    (deliveries lines).map (fun x => (x.1, x.2.endLsn)) =
      idEnds ((transactions (lines.map Prod.fst)).map WalTx.decoded) := by
  have hfold : ∀ (lines : List (Action × Nat)) (g : Grouped) (d : Delivered), SameDeliveries g d →
      SameDeliveries ((lines.map Prod.fst).foldl group g) (lines.foldl deliver d) := by
    intro lines
    induction lines with
    | nil => exact fun g d h => h
    | cons line lines ih => exact fun g d h => ih _ _ (h.step line)
  exact (hfold lines ([], none) ([], none) ⟨rfl, rfl⟩).complete

/-- Without a commit nothing is delivered. -/
theorem deliveries_open (h : ∀ x ∈ later, isCommitEntry x = false) :
    deliveries (lines ++ later) = deliveries lines := by
  have hfold : ∀ d : Delivered, (later.foldl deliver d).1 = d.1 := by
    induction later with
    | nil => exact fun d => rfl
    | cons x later ih =>
      obtain ⟨hx, hlater⟩ := List.forall_mem_cons.mp h
      intro d
      rw [List.foldl_cons, ih hlater]
      obtain ⟨a, reported⟩ := x
      cases a <;> simp [deliver, isCommitEntry, Action.isCommit] at hx ⊢
  rw [deliveries, List.foldl_append]
  exact hfold _

/-- A position noted with a delivery was noted with a line. -/
theorem reported_le {c : Nat} (h : ∀ line ∈ lines, line.2 ≤ c) :
    ∀ x ∈ deliveries lines, x.2.reported ≤ c := by
  have hfold : ∀ (lines : List (Action × Nat)) (d : Delivered), (∀ line ∈ lines, line.2 ≤ c) →
      (∀ x ∈ d.1, x.2.reported ≤ c) → (∀ ids, d.2 = some ids → ∀ x ∈ ids, x.2 ≤ c) →
      ∀ x ∈ (lines.foldl deliver d).1, x.2.reported ≤ c := by
    intro lines
    induction lines with
    | nil => exact fun d _ hd _ => hd
    | cons line lines ih =>
      intro d hall hd hids
      obtain ⟨hline, hrest⟩ := List.forall_mem_cons.mp hall
      obtain ⟨a, reported⟩ := line
      obtain ⟨ds, cur⟩ := d
      rw [List.foldl_cons]
      cases a with
      | begin => exact ih _ hrest hd (by simp [deliver])
      | elsewhere => exact ih _ hrest hd hids
      | insert id =>
        refine ih _ hrest hd ?_
        cases cur with
        | none => simp [deliver]
        | some ids =>
          have hids := hids ids rfl
          simp only [deliver, Option.map_some, Option.some.injEq, forall_eq', List.mem_append,
            List.mem_singleton]
          rintro x (hx | rfl)
          · exact hids x hx
          · exact hline
      | commit endLsn =>
        cases cur with
        | none => exact ih _ hrest hd (by simp [deliver])
        | some ids =>
          have hids := hids ids rfl
          refine ih _ hrest ?_ (by simp [deliver])
          simp only [deliver, List.mem_append, List.mem_map]
          rintro x (hx | ⟨y, hy, rfl⟩)
          · exact hd x hx
          · exact hids y hy
  exact hfold lines ([], none) h (by simp) (by simp)

theorem mem_of_mem_redelivered {β : Type} {seen : List JsNum} {l : List (JsNum × β)} {x : JsNum × β}
    (hx : x ∈ redelivered seen l) : x ∈ l := by
  induction l generalizing seen with
  | nil => exact hx
  | cons y l ih =>
    obtain ⟨id, b⟩ := y
    rw [redelivered] at hx
    split_ifs at hx
    · rcases List.mem_cons.mp hx with rfl | hx
      · exact .head _
      · exact .tail _ (ih hx)
    · exact .tail _ (ih hx)

end Deliveries

/-! ## Runs without a flush report that comes between -/

/-- A flush report does not reach, from below, the end of a transaction that waits to be
taken and delivers an id again.  The end of a transaction, when it is written, lies past the
position reported by then unless it was reported before the lines of such ids. -/
def Watched.Safe (m : Watched) : LineEvent → Prop
  | .flush lsn => ∀ x ∈ m.due, x.2.endLsn ≤ lsn → x.2.endLsn ≤ m.stream.ledger.confirmed
  | .line text (.commit endLsn) => ∀ x ∈ (m.note (.line text (.commit endLsn))).due,
      x.2.endLsn ≤ m.stream.ledger.confirmed → x.2.isRewind = true
  | _ => True

/-- A line that waits: its text, its action and the position reported before it. -/
structure Waiting where
  text : List Char
  line : Action × Nat
  wal : Wal2json (utf16 text) line.1
  newline : '\n' ∉ text

structure Watched.Inv (m : Watched) : Prop where
  alive : m.stream.failed = false
  pos : m.stream.pos ≤ m.stream.file.length
  buf : m.stream.buf = []
  lines : ∃ kept unread : List Waiting, m.queue = (kept ++ unread).map Waiting.line ∧
    m.stream.pending = kept.map (fun x => utf16 x.text) ∧
    m.stream.file.drop m.stream.pos = unread.flatMap (fun x => lineBytes x.text) ∧
    ∀ x ∈ kept, isCommitEntry x.line = false
  reported : ∀ x ∈ m.queue, x.2 ≤ m.stream.ledger.confirmed
  clean : ∀ x ∈ m.due, x.2.endLsn ≤ m.stream.ledger.confirmed → x.2.isRewind = true
  flags : m.stream.ledger.flags = m.rewinds

section Runs

variable {convert : JsonText → JsNum} {m m' : Watched} {e : LineEvent} {kept unread : List Waiting}
  {phase : String} {s : Stream}

theorem Blur.refl (s : List Nat) : Blur s s := by
  induction s with
  | nil => exact .nil
  | cons u s ih => exact .same u ih

/-- Whole lines are read whole. -/
theorem readUtf8_lines (unread : List Waiting) :
    readUtf8 (unread.flatMap fun x => lineBytes x.text) =
      joinLines 10 (unread.map fun x => utf16 x.text) := by
  induction unread with
  | nil => rfl
  | cons x unread ih =>
    have hline : lineBytes x.text = (x.text ++ ['\n']).flatMap String.utf8EncodeChar := by
      rw [List.flatMap_append]
      rfl
    rw [List.flatMap_cons, hline, readUtf8, decodeUtf8_text, utf16_append, ← readUtf8, ih,
      utf16_append]
    rfl

theorem newline_notMem_waiting (x : Waiting) : 10 ∉ utf16 x.text := by
  intro hmem
  obtain ⟨c, hc, hunit⟩ := List.mem_flatMap.mp hmem
  split_ifs at hunit with hplane
  · obtain rfl : c = '\n' := Char.toNat_inj.mp (List.mem_singleton.mp hunit).symm
    exact x.newline hc
  · simp at hunit
    omega

theorem waiting_reads (lines : List Waiting) : List.Forall₂ (Reads convert)
    (lines.map fun x => utf16 x.text) (lines.map fun x => x.line.1) := by
  induction lines with
  | nil => exact .nil
  | cons x lines ih =>
    refine .cons ⟨fun g => x.wal.parseLine (Blur.refl _), ?_⟩ ih
    rw [isCommitLine, Bool.eq_iff_iff, decide_eq_true_eq]
    exact x.wal.mark

theorem isCommitLine_waiting (x : Waiting) : isCommitLine (utf16 x.text) = isCommitEntry x.line := by
  rw [isCommitLine, Bool.eq_iff_iff, decide_eq_true_eq]
  exact x.wal.mark

theorem handedOver_waiting (lines : List Waiting) : handedOver (lines.map fun x => utf16 x.text) =
    (lines.rdropWhile fun x => ¬ isCommitEntry x.line).map fun x => utf16 x.text := by
  unfold handedOver List.rdropWhile
  rw [← List.map_reverse, List.dropWhile_map, List.map_reverse]
  simp only [Function.comp_def, isCommitLine_waiting]

theorem keptBack_waiting (lines : List Waiting) : keptBack (lines.map fun x => utf16 x.text) =
    (lines.rtakeWhile fun x => ¬ isCommitEntry x.line).map fun x => utf16 x.text := by
  unfold keptBack List.rtakeWhile
  rw [← List.map_reverse, List.takeWhile_map, List.map_reverse]
  simp only [Function.comp_def, isCommitLine_waiting]

/-- The lines after the last commit make no transaction. -/
theorem transactions_rdropWhile (lines : List Waiting) :
    transactions (lines.map fun x => x.line.1) =
      transactions ((lines.rdropWhile fun x => ¬ isCommitEntry x.line).map fun x => x.line.1) := by
  have hsplit : lines = (lines.rdropWhile fun x => ¬ isCommitEntry x.line) ++
      lines.rtakeWhile fun x => ¬ isCommitEntry x.line := List.rdropWhile_append_rtakeWhile.symm
  rw [hsplit, List.map_append, transactions_open, ← hsplit]
  intro a ha
  obtain ⟨x, hx, rfl⟩ := List.mem_map.mp ha
  simpa [isCommitEntry] using List.mem_rtakeWhile_imp hx

/-- What a poll leaves: the lines of the transaction that is open, and a ledger that took all
others. -/
theorem poll_lines (halive : s.failed = false) (hpos : s.pos ≤ s.file.length) (hbuf : s.buf = [])
    (hpending : s.pending = kept.map fun x => utf16 x.text)
    (hfile : s.file.drop s.pos = unread.flatMap fun x => lineBytes x.text)
    (hkept : ∀ x ∈ kept, isCommitEntry x.line = false) :
    (s.poll convert phase).failed = false ∧ (s.poll convert phase).file = s.file ∧
      (s.poll convert phase).pos = s.file.length ∧ (s.poll convert phase).buf = [] ∧
      (s.poll convert phase).pending =
        ((kept ++ unread).rtakeWhile fun x => ¬ isCommitEntry x.line).map (fun x => utf16 x.text) ∧
      (s.poll convert phase).ledger = takeAll phase s.ledger
        ((transactions ((kept ++ unread).map fun x => x.line.1)).map WalTx.decoded) := by
  have hnothing : ∀ lines : List Waiting,
      (lines.rdropWhile fun x => ¬ isCommitEntry x.line) = [] →
      (lines.rtakeWhile fun x => ¬ isCommitEntry x.line) = lines ∧
        takeAll phase s.ledger ((transactions (lines.map fun x => x.line.1)).map WalTx.decoded) =
          s.ledger := by
    intro lines hnone
    have hsplit : (lines.rdropWhile fun x => ¬ isCommitEntry x.line) ++
        (lines.rtakeWhile fun x => ¬ isCommitEntry x.line) = lines :=
      List.rdropWhile_append_rtakeWhile
    rw [hnone, List.nil_append] at hsplit
    refine ⟨hsplit, ?_⟩
    rw [transactions_rdropWhile, hnone]
    rfl
  by_cases hnew : s.file.length ≤ s.pos
  · obtain rfl : unread = [] := by
      rw [List.drop_eq_nil_of_le hnew] at hfile
      cases unread with
      | nil => rfl
      | cons x unread => simp [lineBytes] at hfile
    have hnone : (kept.rdropWhile fun x => ¬ isCommitEntry x.line) = [] := by
      rw [List.rdropWhile_eq_nil_iff]
      simpa using hkept
    obtain ⟨htake, hledger⟩ := hnothing kept hnone
    rw [Stream.poll, if_pos hnew, List.append_nil, htake, hledger]
    exact ⟨halive, rfl, Nat.le_antisymm hpos hnew, hbuf, hpending, rfl⟩
  · rw [Stream.poll, if_neg hnew]
    have hlines : IsLines 10 (s.buf ++ readUtf8 (s.file.drop s.pos))
        (unread.map fun x => utf16 x.text) [] := by
      rw [hbuf, hfile, readUtf8_lines]
      refine ⟨by simp, fun l hl => ?_, by simp⟩
      obtain ⟨x, -, rfl⟩ := List.mem_map.mp hl
      exact newline_notMem_waiting x
    have hread : s.read = { s with
        pos := s.file.length
        buf := []
        pending := (kept ++ unread).map fun x => utf16 x.text } := by
      rw [Stream.read, hlines.completeLines_eq, hlines.lastPiece_eq, hpending, List.map_append]
    rw [hread]
    by_cases hnone : ((kept ++ unread).rdropWhile fun x => ¬ isCommitEntry x.line) = []
    · obtain ⟨htake, hledger⟩ := hnothing _ hnone
      rw [handOver_none (by rw [handedOver_waiting, hnone]; rfl), htake, hledger]
      exact ⟨halive, rfl, rfl, rfl, rfl, rfl⟩
    · have hhanded : handedOver ((kept ++ unread).map fun x => utf16 x.text) ≠ [] := by
        rw [handedOver_waiting]
        simpa using hnone
      have hreads : List.Forall₂ (Reads convert) _ _ :=
        waiting_reads ((kept ++ unread).rdropWhile fun x => ¬ isCommitEntry x.line)
      have hparse := parseWal2json_eq hreads
      rw [← handedOver_waiting, ← transactions_rdropWhile] at hparse
      rw [handOver_some hhanded hparse]
      exact ⟨halive, rfl, rfl, rfl, keptBack_waiting _, rfl⟩

theorem inv_start : Watched.Inv {} where
  alive := rfl
  pos := Nat.le_refl _
  buf := rfl
  lines := ⟨[], [], rfl, rfl, rfl, by simp⟩
  reported := by simp
  clean := by simp [Watched.due, deliveries, redelivered]
  flags := rfl

theorem due_of_open {keys : List JsNum} {queue : List (Action × Nat)}
    (h : ∀ x ∈ queue, isCommitEntry x = false) : redelivered keys (deliveries queue) = [] := by
  have hnone : deliveries ([] ++ queue) = deliveries [] := deliveries_open h
  rw [List.nil_append] at hnone
  rw [hnone]
  rfl

/-- Against the position of the poll and against the position before the line, a delivery
that waits is a rewind or is not. -/
theorem Watched.Inv.isRewind_eq (h : m.Inv) : ∀ x ∈ m.due,
    decide (x.2.endLsn ≤ m.stream.ledger.confirmed) = x.2.isRewind := by
  intro x hx
  rw [Bool.eq_iff_iff, decide_eq_true_eq]
  refine ⟨h.clean x hx, fun hrewind => ?_⟩
  have hreported := reported_le h.reported x (mem_of_mem_redelivered hx)
  exact Nat.le_trans (of_decide_eq_true hrewind) hreported

/-- A line that ends no transaction delivers nothing. -/
theorem note_line_due {a : Action} (h : a.isCommit = false) (text : List Char) :
    (m.note (.line text a)).due = m.due := by
  have hopen : deliveries (m.queue ++ [(a, m.stream.ledger.confirmed)]) = deliveries m.queue :=
    deliveries_open (by simpa [isCommitEntry] using h)
  rw [Watched.due, Watched.due, Watched.note, hopen]

/-- What the poll flags is what the witness notes down. -/
theorem Watched.Inv.poll_flags (h : m.Inv) :
    (takeAll phase m.stream.ledger
      ((transactions (m.queue.map Prod.fst)).map WalTx.decoded)).flags =
        m.rewinds ++ m.due.map fun x => (x.1, x.2.isRewind) := by
  have hends : redelivered m.stream.ledger.keys
      (idEnds ((transactions (m.queue.map Prod.fst)).map WalTx.decoded)) =
        m.due.map fun x => (x.1, x.2.endLsn) := by
    rw [← deliveries_ends, redelivered_map, Watched.due]
  rw [(takeAll_flags _ _).2, hends, h.flags, List.map_map]
  congr 1
  refine List.map_congr_left fun x hx => ?_
  exact congrArg (x.1, ·) (h.isRewind_eq x hx)

theorem step_inv (hstep : m.step convert e = some m') (hinv : m.Inv) (hsafe : m.Safe e)
    (hline : ∀ text a, e = .line text a → '\n' ∉ text ∧ Wal2json (utf16 text) a) : m'.Inv := by
  obtain ⟨s, hs, rfl⟩ := Option.map_eq_some_iff.mp hstep
  obtain ⟨kept, unread, hqueue, hpending, hfile, hkept⟩ := hinv.lines
  cases e with
  | line text a =>
    obtain ⟨hnewline, hwal⟩ := hline text a rfl
    simp only [LineEvent.event, Stream.step] at hs
    split_ifs at hs
    cases hs
    let x : Waiting := ⟨text, (a, m.stream.ledger.confirmed), hwal, hnewline⟩
    refine ⟨hinv.alive, ?_, hinv.buf, ⟨kept, unread ++ [x], ?_, hpending, ?_, hkept⟩, ?_, ?_, hinv.flags⟩
    · have := hinv.pos
      simp
      omega
    · simp [Watched.note, hqueue, x]
    · rw [List.drop_append_of_le_length hinv.pos, hfile, List.flatMap_append, List.flatMap_singleton]
    · intro y hy
      rcases List.mem_append.mp hy with hy | hy
      · exact hinv.reported y hy
      · rw [List.mem_singleton.mp hy]
    · by_cases hcommit : a.isCommit = true
      · cases a <;> simp [Action.isCommit] at hcommit
        exact hsafe
      · have hdue := note_line_due (m := m) (Bool.eq_false_iff.mpr hcommit) text
        intro y hy
        exact hinv.clean y (hdue ▸ hy)
  | flush lsn =>
    cases hs
    have hmax : m.stream.ledger.confirmed ≤
        if lsn > m.stream.ledger.confirmed then lsn else m.stream.ledger.confirmed := by
      split_ifs <;> omega
    refine ⟨hinv.alive, hinv.pos, hinv.buf, ⟨kept, unread, hqueue, hpending, hfile, hkept⟩,
      fun x hx => Nat.le_trans (hinv.reported x hx) hmax, fun x hx hend => ?_, hinv.flags⟩
    refine hinv.clean x hx ?_
    simp only at hend
    split_ifs at hend
    · exact hsafe x hx hend
    · exact hend
  | poll phase =>
    simp only [LineEvent.event, Stream.step] at hs
    split_ifs at hs
    cases hs
    obtain ⟨halive, hfile', hpos', hbuf', hpending', hledger⟩ :=
      @poll_lines convert kept unread phase _ hinv.alive hinv.pos hinv.buf hpending hfile hkept
    have hactions : (kept ++ unread).map (fun x => x.line.1) = m.queue.map Prod.fst := by
      rw [hqueue, List.map_map]
      rfl
    have hleft : m.queue.rtakeWhile (fun x => ¬ isCommitEntry x) =
        ((kept ++ unread).rtakeWhile fun x => ¬ isCommitEntry x.line).map Waiting.line := by
      unfold List.rtakeWhile
      rw [hqueue, ← List.map_reverse, List.takeWhile_map, List.map_reverse]
      rfl
    have hopen : ∀ x ∈ m.queue.rtakeWhile (fun x => ¬ isCommitEntry x), isCommitEntry x = false :=
      fun x hx => by simpa using List.mem_rtakeWhile_imp hx
    have hconfirmed : (m.stream.poll convert phase).ledger.confirmed = m.stream.ledger.confirmed := by
      rw [hledger, takeAll_confirmed]
    refine ⟨halive, ?_, hbuf', ⟨_, [], ?_, hpending', ?_, ?_⟩, ?_, ?_, ?_⟩
    · exact Nat.le_of_eq (by rw [hpos', hfile'])
    · rw [List.append_nil, ← hleft]
      rfl
    · rw [hpos', hfile', List.drop_length]
      rfl
    · intro x hx
      simpa using List.mem_rtakeWhile_imp hx
    · intro x hx
      rw [hconfirmed]
      exact hinv.reported x ((List.rtakeWhile_suffix _ _).subset hx)
    · intro x hx
      have hx' : x ∈ redelivered (m.stream.poll convert phase).ledger.keys
        (deliveries (m.queue.rtakeWhile fun x => ¬ isCommitEntry x)) := hx
      rw [due_of_open hopen] at hx'
      exact absurd hx' List.not_mem_nil
    · rw [hledger, hactions]
      exact hinv.poll_flags
  | exit =>
    simp only [LineEvent.event, Stream.step] at hs
    split_ifs at hs
    cases hs
    exact ⟨hinv.alive, hinv.pos, hinv.buf, ⟨kept, unread, hqueue, hpending, hfile, hkept⟩,
      hinv.reported, hinv.clean, hinv.flags⟩
  | respawn =>
    simp only [LineEvent.event, Stream.step] at hs
    split_ifs at hs
    cases hs
    exact ⟨hinv.alive, Nat.le_refl _, rfl, ⟨[], [], rfl, rfl, rfl, by simp⟩, by simp [Watched.note],
      by simp [Watched.note, Watched.due, deliveries, redelivered], hinv.flags⟩

end Runs

/-- In every run without a flush report that comes between, a redelivery is flagged exactly
when its transaction ended by the position reported before its line was appended. -/
theorem rewind_iff_reported_before (convert : JsonText → JsNum) (events : List LineEvent) (m : Watched)
    (hrun : runEvents (Watched.step convert) {} events = some m)
    (hlines : ∀ text a, .line text a ∈ events → '\n' ∉ text ∧ Wal2json (utf16 text) a)
    (hsafe : AlongRun (Watched.step convert) Watched.Safe {} events) :
    m.stream.failed = false ∧ m.stream.ledger.flags = m.rewinds := by
  have hboth : AlongRun (Watched.step convert) (fun m e => m.Safe e ∧
      ∀ text a, e = .line text a → '\n' ∉ text ∧ Wal2json (utf16 text) a) {} events := by
    intro before e after m hsplit hbefore
    refine ⟨hsafe before e after m hsplit hbefore, fun text a he => hlines text a ?_⟩
    rw [hsplit, he]
    simp
  have hinv : m.Inv := AlongRun.invariant inv_start
    (fun m e m' hP hinv hstep => step_inv hstep hinv hP.1 hP.2) events m hboth hrun
  exact ⟨hinv.alive, hinv.flags⟩

/-! ## A transaction that comes twice -/

instance (m : Watched) (e : LineEvent) : Decidable (m.Safe e) :=
  match e with
  | .flush lsn => inferInstanceAs
      (Decidable (∀ x ∈ m.due, x.2.endLsn ≤ lsn → x.2.endLsn ≤ m.stream.ledger.confirmed))
  | .line text (.commit endLsn) => inferInstanceAs
      (Decidable (∀ x ∈ (m.note (.line text (.commit endLsn))).due,
        x.2.endLsn ≤ m.stream.ledger.confirmed → x.2.isRewind = true))
  | .line _ .begin | .line _ (.insert _) | .line _ .elsewhere | .poll _ | .exit | .respawn =>
      isTrue trivial

/-- The lines of the row 7. -/
def rowLines : List LineEvent := [.line beginLine.toList .begin,
  .line (insertLine "7").toList (.insert 7), .line commitLine.toList (.commit 42)]

/-- The end is reported before the process starts again. -/
def confirmedEvents : List LineEvent :=
  rowLines ++ [.poll "quiet", .flush 42, .exit, .respawn] ++ rowLines ++ [.poll "resize"]

/-- The redelivery itself is what the report is about. -/
def overtakenEvents : List LineEvent :=
  rowLines ++ [.poll "quiet", .exit, .respawn] ++ rowLines ++ [.flush 42, .poll "resize"]

theorem rewind_iff_reported_before_confirmed : ∃ m,
    runEvents (Watched.step fun _ => .int 0) {} confirmedEvents = some m ∧
      m.stream.ledger.flags = [(.int 7, true)] := by
  have hrun : ((runEvents (Watched.step fun _ => .int 0) {} confirmedEvents).map Watched.rewinds) =
      some [(.int 7, true)] := by decide +kernel
  obtain ⟨m, hm, hrewinds⟩ := Option.map_eq_some_iff.mp hrun
  have hnever : never (Watched.step fun _ => .int 0) (fun m e => ¬ m.Safe e) {} confirmedEvents = true := by
    decide +kernel
  have hsafe : AlongRun (Watched.step fun _ => .int 0) Watched.Safe {} confirmedEvents :=
    alongRun_of_never hnever fun m e h => by simpa using h
  have hlines : ∀ text a, .line text a ∈ confirmedEvents → '\n' ∉ text ∧ Wal2json (utf16 text) a := by
    intro text a hmem
    have hrow : LineEvent.line text a ∈ rowLines := by simpa [confirmedEvents] using hmem
    simp only [rowLines, List.mem_cons, List.not_mem_nil, or_false, LineEvent.line.injEq] at hrow
    rcases hrow with ⟨rfl, rfl⟩ | ⟨rfl, rfl⟩ | ⟨rfl, rfl⟩
    · exact ⟨by decide, beginLine_wal2json⟩
    · exact ⟨by decide, insertLine_wal2json rfl (by decide) (by decide +kernel)⟩
    · exact ⟨by decide, commitLine_wal2json⟩
  have hflags := rewind_iff_reported_before (fun _ => .int 0) confirmedEvents m hm hlines hsafe
  exact ⟨m, hm, hflags.2.trans hrewinds⟩

/-- A report that comes between the line and the poll makes a rewind of what was none. -/
theorem rewind_overtaken :
    ((runEvents (Watched.step fun _ => .int 0) {} overtakenEvents).map fun m =>
      (m.stream.ledger.flags, m.rewinds)) = some ([(.int 7, true)], [(.int 7, false)]) := by
  decide +kernel

end SupabaseLab.RestorePaths
