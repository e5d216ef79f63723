/-
  RestorePaths/Wal2json.lean --- the lines of the plugin, and what the parser makes
  of them.

  The plugin is no part of the sources.  `Wal2json` says what its format 2 is known
  to be: one JSON object a line, and `"action":"C"` in the lines of a commit only.
  `parseWal2json` reads such lines as the transactions they are made of, also after
  characters that are no ASCII got lost in them.
-/
import SupabaseLab.RestorePaths.Slots

set_option autoImplicit false

namespace SupabaseLab.RestorePaths

open Library

/-! ## What is delivered -/

inductive Action where
  | begin
  /-- An insert into the table. -/
  | insert (id : Int)
  /-- An insert into another table. -/
  | elsewhere
  | commit (endLsn : Nat)
  deriving DecidableEq, Repr

def Action.isCommit : Action → Bool
  | .commit _ => true
  | _ => false

/-- A transaction of the server: the ids it inserts into the table and its end. -/
structure WalTx where
  endLsn : Nat
  ids : List Int
  deriving DecidableEq, Repr

def WalTx.decoded (tx : WalTx) : DecodedTx := ⟨tx.endLsn, tx.ids.map rounded⟩

/-- The transactions that are committed, and the ids of the one that is open. -/
abbrev Grouped : Type := List WalTx × Option (List Int)

def group (g : Grouped) : Action → Grouped
  | .begin => (g.1, some [])
  | .insert id => (g.1, g.2.map (· ++ [id]))
  | .elsewhere => g
  | .commit endLsn =>
      match g.2 with
      | some ids => (g.1 ++ [⟨endLsn, ids⟩], none)
      | none => g

/-- The transactions whose lines are all there, from begin to commit. -/
def transactions (actions : List Action) : List WalTx := (actions.foldl group ([], none)).1

def Grouped.decoded (g : Grouped) : Parsed :=
  (g.1.map WalTx.decoded, g.2.map fun ids => ⟨0, ids.map rounded⟩)

section Transactions

variable {as later : List Action} {a : Action} {g : Grouped}

/-- What is complete stays in front. -/
theorem foldl_group_append (as : List Action) (x : List WalTx) (g : Grouped) :
    as.foldl group (x ++ g.1, g.2) = (x ++ (as.foldl group g).1, (as.foldl group g).2) := by
  induction as generalizing g with
  | nil => rfl
  | cons a as ih =>
    rw [List.foldl_cons, List.foldl_cons, ← ih]
    congr 1
    obtain ⟨txs, cur⟩ := g
    cases a <;> cases cur <;> simp [group]

theorem transactions_append {as : List Action} (hclosed : (as.foldl group ([], none)).2 = none)
    (later : List Action) : transactions (as ++ later) = transactions as ++ transactions later := by
  have hgroup : as.foldl group ([], none) = (transactions as ++ [], none) := by
    rw [List.append_nil]
    exact Prod.ext rfl hclosed
  rw [transactions, List.foldl_append, hgroup]
  exact congrArg Prod.fst (foldl_group_append later (transactions as) ([], none))

/-- Without a commit nothing is completed. -/
theorem transactions_open {later : List Action} (h : ∀ a ∈ later, a.isCommit = false)
    (as : List Action) : transactions (as ++ later) = transactions as := by
  have hfold : ∀ g : Grouped, (later.foldl group g).1 = g.1 := by
    induction later with
    | nil => exact fun g => rfl
    | cons a later ih =>
      obtain ⟨ha, hlater⟩ := List.forall_mem_cons.mp h
      intro g
      rw [List.foldl_cons, ih hlater]
      cases a <;> simp [group, Action.isCommit] at ha ⊢
  rw [transactions, List.foldl_append]
  exact hfold _

theorem group_commit (h : a.isCommit = true) (g : Grouped) : (group g a).2 = none := by
  obtain ⟨txs, cur⟩ := g
  cases a <;> simp [Action.isCommit] at h
  cases cur <;> rfl

/-- What is skipped makes no transaction. -/
theorem transactions_filter (as : List Action) :
    transactions (as.filter (· ≠ .elsewhere)) = transactions as := by
  have hfold : ∀ g : Grouped, (as.filter (· ≠ .elsewhere)).foldl group g = as.foldl group g := by
    induction as with
    | nil => exact fun g => rfl
    | cons a as ih =>
      intro g
      by_cases ha : a = .elsewhere
      · subst ha
        rw [List.filter_cons_of_neg (by simp)]
        exact ih g
      · rw [List.filter_cons_of_pos (by simpa using ha)]
        exact ih (group g a)
  exact congrArg Prod.fst (hfold _)

/-- A parser that reads each message as its action reads them all as their actions. -/
theorem foldlM_group {μ : Type} {parse : Parsed → μ → Option Parsed} {Reads : μ → Action → Prop}
    {ms : List μ} (hparse : ∀ m a g, Reads m a → parse g.decoded m = some (group g a).decoded)
    (h : List.Forall₂ Reads ms as) (g : Grouped) :
    ms.foldlM parse g.decoded = some (as.foldl group g).decoded := by
  induction h generalizing g with
  | nil => rfl
  | cons hread _ ih =>
    rw [List.foldlM_cons, hparse _ _ _ hread, List.foldl_cons, ← ih]
    rfl

end Transactions

/-! ## How it is written -/

/-- `value.key` is this string. -/
def Says (j : JsonText) (key : String) (s : JsText) : Prop := j.get? (units key) = some (some (.str s))

/-- The object of an action. -/
def Describes (j : JsonText) : Action → Prop
  | .begin => Says j "action" (units "B")
  | .insert id =>
      Says j "action" (units "I") ∧ Says j "table" (units "rp_slot_events") ∧
        ∃ before column after digits,
          j.get? (units "columns") = some (some (.arr (before ++ column :: after))) ∧
          (∀ c ∈ before, ∃ name, Says c "name" name ∧ name ≠ units "id") ∧
          Says column "name" (units "id") ∧
          column.get? (units "value") = some (some (.num digits)) ∧ integer? digits = some id
  | .elsewhere =>
      Says j "action" (units "I") ∧ ∃ table, Says j "table" table ∧ table ≠ units "rp_slot_events"
  | .commit endLsn =>
      Says j "action" (units "C") ∧
        ∃ text, Says j "nextlsn" text ∧ (∀ u ∈ text, u < 128) ∧ lsnToBig text = some endLsn

/-- `"action":"C"`. -/
def commitMark : JsText := units "\"action\":\"C\""

/-- A line of format 2. -/
structure Wal2json (line : JsText) (a : Action) : Prop where
  object : ∃ j, JsonText.parse line = some j ∧ Describes j a
  mark : commitMark <:+: line ↔ a.isCommit = true

/-! ## How it is read -/

section Reading

variable {convert : JsonText → JsNum} {line l : JsText} {a : Action} {g : Grouped} {j j' : JsonText}
  {key : String} {s : JsText}

/-- A name of the format. -/
def Ascii (s : JsText) : Prop := ∀ u ∈ s, u < 128

instance (s : JsText) : Decidable (Ascii s) := inferInstanceAs (Decidable (∀ u ∈ s, u < 128))

theorem Says.like (h : Says j key s) (hlike : JsonText.Like j j') (hkey : Ascii (units key))
    (hs : Ascii s) : Says j' key s := by
  obtain ⟨v, hv, hsv⟩ := hlike.get? hkey h
  rw [Says, hv, hsv.str_eq hs]

theorem Says.like_ne (h : Says j key s) (hlike : JsonText.Like j j') (hkey : Ascii (units key))
    {t : JsText} (ht : Ascii t) (hne : s ≠ t) : ∃ s', Says j' key s' ∧ s' ≠ t := by
  obtain ⟨v, hv, hsv⟩ := hlike.get? hkey h
  cases hsv with
  | same => exact ⟨s, hv, hne⟩
  | str halike => exact ⟨_, hv, fun heq => hne ((halike.eq_iff ht).mpr heq)⟩

theorem exists_of_forall₂_mem {α β : Type} {R : α → β → Prop} {l : List α} {l' : List β}
    (h : List.Forall₂ R l l') {y : β} (hy : y ∈ l') : ∃ x ∈ l, R x y := by
  induction h with
  | nil => exact absurd hy List.not_mem_nil
  | cons hxy _ ih =>
    rcases List.mem_cons.mp hy with rfl | hy
    · exact ⟨_, .head _, hxy⟩
    · obtain ⟨x, hx, hR⟩ := ih hy
      exact ⟨x, .tail _ hx, hR⟩

/-- What an object says of an action it goes on saying. -/
theorem Describes.like (h : Describes j a) (hlike : JsonText.Like j j') : Describes j' a := by
  cases a with
  | begin => exact Says.like h hlike (by decide) (by decide)
  | insert id =>
    obtain ⟨haction, htable, before, column, after, digits, hcolumns, hbefore, hname, hvalue, hid⟩ := h
    refine ⟨haction.like hlike (by decide) (by decide), htable.like hlike (by decide) (by decide), ?_⟩
    obtain ⟨v, hv, hitems⟩ := hlike.get? (by decide) hcolumns
    obtain ⟨items', rfl, hall⟩ : ∃ items', v = .arr items' ∧
        List.Forall₂ JsonText.Like (before ++ column :: after) items' := by
      cases hitems with
      | same => exact ⟨_, rfl, List.forall₂_same.mpr fun v _ => .same v⟩
      | arr hall => exact ⟨_, rfl, hall⟩
    have hfirst : List.Forall₂ JsonText.Like before (items'.take before.length) :=
      (List.forall₂_take_append _ _ _ hall.flip).flip
    have hrest : List.Forall₂ JsonText.Like (column :: after) (items'.drop before.length) :=
      (List.forall₂_drop_append _ _ _ hall.flip).flip
    cases hdrop : items'.drop before.length with
    | nil =>
      rw [hdrop] at hrest
      cases hrest
    | cons column' after' =>
      rw [hdrop, List.forall₂_cons] at hrest
      obtain ⟨hcolumn, -⟩ := hrest
      obtain ⟨w, hw, hdigits⟩ := hcolumn.get? (by decide) hvalue
      refine ⟨items'.take before.length, column', after', digits, ?_, fun c hc => ?_,
        hname.like hcolumn (by decide) (by decide), ?_, hid⟩
      · rw [← hdrop, List.take_append_drop]
        exact hv
      · obtain ⟨b, hb, hlike⟩ := exists_of_forall₂_mem hfirst hc
        obtain ⟨name, hname, hne⟩ := hbefore b hb
        exact hname.like_ne hlike (by decide) (by decide) hne
      · rw [hw, hdigits.num_eq]
  | elsewhere =>
    obtain ⟨haction, table, htable, hne⟩ := h
    exact ⟨haction.like hlike (by decide) (by decide), htable.like_ne hlike (by decide) (by decide) hne⟩
  | commit endLsn =>
    obtain ⟨haction, text, htext, hascii, hlsn⟩ := h
    exact ⟨haction.like hlike (by decide) (by decide), text,
      htext.like hlike (by decide) hascii, hascii, hlsn⟩

@[simp] theorem isText_str (s : JsText) (literal : String) :
    isText (some (.str s)) literal = decide (s = units literal) := rfl

theorem Says.get? (h : Says j key s) : j.get? (units key) = some (some (.str s)) := h

theorem findId_append {before after : List JsonText} {column : JsonText}
    (hbefore : ∀ c ∈ before, ∃ name, Says c "name" name ∧ name ≠ units "id")
    (hname : Says column "name" (units "id")) :
    findId (before ++ column :: after) = some (some column) := by
  induction before with
  | nil => simp [findId, hname.get?]
  | cons c before ih =>
    obtain ⟨⟨name, hc, hne⟩, hbefore⟩ := List.forall_mem_cons.mp hbefore
    simp [findId, hc.get?, hne, ih hbefore]

/-- White space is no JSON but for the little that JSON knows. -/
theorem start_blank {u : Nat} (h : isBlank u = true) :
    JsonText.start u = none ∨ JsonText.isSpace u = true := by
  by_cases hwide : 128 ≤ u
  · exact .inl (JsonText.start_wide hwide)
  · have hu : u = 9 ∨ u = 10 ∨ u = 11 ∨ u = 12 ∨ u = 13 ∨ u = 32 := by
      simp [isBlank, isBlankUnit, isLineTerminator] at h
      omega
    rcases hu with rfl | rfl | rfl | rfl | rfl | rfl <;> decide

/-- An object that describes an action is read as that action. -/
theorem parseLine_of_describes (hparse : JsonText.parse l = some j) (h : Describes j a) :
    parseLine convert g.decoded l = some (group g a).decoded := by
  have hblank : l.all isBlank = false := by
    by_contra hblank
    rw [Bool.not_eq_false, List.all_eq_true] at hblank
    rw [JsonText.parse_blank fun u hu => start_blank (hblank u hu)] at hparse
    cases hparse
  obtain ⟨txs, cur⟩ := g
  unfold parseLine
  rw [hblank, if_neg (by decide), hparse]
  cases a with
  | begin =>
    have haction : Says j "action" (units "B") := h
    simp [haction.get?, group, Grouped.decoded]
  | insert id =>
    obtain ⟨haction, htable, before, column, after, digits, hcolumns, hbefore, hname, hvalue, hid⟩ := h
    have hinserted : insertedId j = some (some (.num digits)) := by
      simp [insertedId, hcolumns, findId_append hbefore hname, hvalue]
    have hnumber : number convert (.num digits) = rounded id := by simp [number, hid]
    have hB : units "I" ≠ units "B" := by decide
    cases cur with
    | none => simp [haction.get?, hB, group, Grouped.decoded]
    | some ids => simp [haction.get?, htable.get?, hB, hinserted, hnumber, group, Grouped.decoded]
  | elsewhere =>
    obtain ⟨haction, table, htable, hne⟩ := h
    have hB : units "I" ≠ units "B" := by decide
    cases cur with
    | none => simp [haction.get?, hB, group, Grouped.decoded]
    | some ids => simp [haction.get?, htable.get?, hB, hne, group, Grouped.decoded]
  | commit endLsn =>
    obtain ⟨haction, text, htext, -, hlsn⟩ := h
    have hB : units "C" ≠ units "B" := by decide
    have hI : units "C" ≠ units "I" := by decide
    have hend : commitEnd convert j = some endLsn := by
      cases text with
      | nil => cases hlsn
      | cons u text => simp [commitEnd, htext.get?, hlsn]
    cases cur with
    | none => simp [haction.get?, hB, group, Grouped.decoded]
    | some ids =>
      simp [haction.get?, hB, hI, hend, group, Grouped.decoded, WalTx.decoded]

/-- A line of the plugin, as it was read, is its action to the parser. -/
theorem Wal2json.parseLine (h : Wal2json line a) (hblur : Blur line l) :
    RestorePaths.parseLine convert g.decoded l = some (group g a).decoded := by
  obtain ⟨j, hparse, hdescribes⟩ := h.object
  obtain ⟨j', hparse', hlike⟩ := JsonText.parse_like hblur hparse
  exact parseLine_of_describes hparse' (hdescribes.like hlike)

theorem Wal2json.commitMark_iff (h : Wal2json line a) (hblur : Blur line l) :
    commitMark <:+: l ↔ a.isCommit = true := by
  rw [← hblur.isInfix_iff (by decide) (by decide)]
  exact h.mark

end Reading

end SupabaseLab.RestorePaths
