/-
  RestorePaths/CredentialWatch.lean --- two passwords polled across a restore.

  Source: `Login`, `stateOf` and `watchCredentials` of experiments/restore-paths/lib/rp.ts.

  One turn of the loop tries the current password, then, when it is due, the one it
  replaced, and notes the pair of states after each login.  The pair starts from states
  that nobody has observed: the first note is taken after a login with the current
  password alone, and says of the other one that it is refused.
-/
import SupabaseLab.Library.JsRound
import Mathlib.Data.List.Destutter
import Mathlib.Data.List.TakeWhile
import Mathlib.Data.Fintype.Defs

set_option autoImplicit false

namespace SupabaseLab.RestorePaths.Credential

open Library

/-! ## Logins -/

structure Login where
  ok : Bool
  error : String
  answered : Bool
  blocked : Bool
  deriving DecidableEq

inductive CredState where
  | ok
  | refused
  | blocked
  | down
  deriving DecidableEq

instance : Fintype CredState where
  elems := ⟨([.ok, .refused, .blocked, .down] : List CredState), by decide⟩
  complete s := by cases s <;> decide

def stateOf (l : Login) : CredState :=
  if l.ok then .ok else if l.blocked then .blocked else if l.answered then .refused else .down

def CredState.text : CredState → String
  | .ok => "ok"
  | .refused => "refused"
  | .blocked => "blocked"
  | .down => "down"

/-- The state as a transition names it. -/
def stateText (new old : CredState) : String := "new=" ++ new.text ++ " old=" ++ old.text

/-! ## The loop -/

/-- A line of `transitions`. -/
structure Transition where
  atS : ℤ
  new : CredState
  old : CredState
  deriving DecidableEq

/-- The line itself. -/
def Transition.text (tr : Transition) : String :=
  "t+" ++ toString tr.atS ++ "s " ++ stateText tr.new tr.old

/-- The variables of the loop.  `none` is `"never"`, and an outage of the sampler's probe has its
error text. -/
structure WatchState where
  transitions : List Transition := []
  prev : String := ""
  firstNew : Option ℤ := none
  firstOld : Option ℤ := none
  firstRefused : Option ℤ := none
  refusedUntilOk : Option ℤ := none
  lastNew : CredState := .ok
  lastOld : CredState := .refused
  newModes : List String := []
  oldModes : List String := []
  /-- `latest`: the error, when the path is down. -/
  latest : Option String := none
  lastOldAt : ℤ := 0
  refusedSince : ℤ := 0
  deriving DecidableEq

/-- What one turn of the loop meets: the outcomes of the logins, and the clock where the code
reads it or would read it. -/
structure Turn where
  new : Login
  /-- In `note()` after the login with the current password. -/
  newNotedMs : ℤ
  /-- Where `refusedSince` is set. -/
  sinceMs : ℤ
  /-- Where it is decided whether the old password is due. -/
  dueMs : ℤ
  old : Login
  /-- After the login with the old password. -/
  oldEndMs : ℤ
  oldNotedMs : ℤ
  /-- Where the pause is chosen. -/
  pauseMs : ℤ
  deriving DecidableEq

/-- `Math.round((Date.now() - t0) / 1000)`. -/
def secondsSince (t0 nowMs : ℤ) : ℤ := mathRound (((nowMs - t0 : ℤ) : ℚ) / 1000)

def note (st : WatchState) (atS : ℤ) : WatchState :=
  if stateText st.lastNew st.lastOld ≠ st.prev then
    { st with
      transitions := st.transitions ++ [⟨atS, st.lastNew, st.lastOld⟩]
      prev := stateText st.lastNew st.lastOld }
  else st

/-- A failure text joins the modes once. -/
def addMode (modes : List String) (l : Login) : List String :=
  if l.ok then modes else if l.error ∈ modes then modes else modes ++ [l.error]

def noteFirstOk (st : WatchState) (t : Turn) (atS : ℤ) : WatchState :=
  if t.new.ok ∧ st.firstNew = none then { st with firstNew := some atS } else st

def noteRefusal (st : WatchState) (t : Turn) (atS : ℤ) : WatchState :=
  if st.lastNew = .refused then
    { st with
      firstRefused := st.firstRefused.or (some atS)
      refusedSince := if st.refusedSince = 0 then t.sinceMs else st.refusedSince }
  else
    match st.firstRefused with
    | some since =>
      if t.new.ok ∧ st.refusedUntilOk = none then { st with refusedUntilOk := some (atS - since) }
      else st
    | none => st

def clearSince (st : WatchState) : WatchState :=
  if st.lastNew ≠ .refused then { st with refusedSince := 0 } else st

/-- The login with the current password. -/
def newLogin (st : WatchState) (t : Turn) : WatchState :=
  { st with
    lastNew := stateOf t.new
    latest := if t.new.ok || (t.new.answered && !t.new.blocked) then none else some t.new.error
    newModes := addMode st.newModes t.new }

/-- The turn up to the decision about the old password. -/
def newTurn (t0 : ℤ) (st : WatchState) (t : Turn) : WatchState :=
  let atS := secondsSince t0 t.newNotedMs
  clearSince (noteRefusal (noteFirstOk (note (newLogin st t) atS) t atS) t atS)

/-- `lastOldAt === 0 || Date.now() - lastOldAt >= 60_000`. -/
def oldDue (lastOldAt dueMs : ℤ) : Bool := decide (lastOldAt = 0) || decide (60000 ≤ dueMs - lastOldAt)

/-- The login with the old password. -/
def oldLogin (st : WatchState) (t : Turn) : WatchState :=
  { st with
    lastOldAt := t.oldEndMs
    lastOld := stateOf t.old
    oldModes := addMode st.oldModes t.old }

def oldTurn (t0 : ℤ) (st : WatchState) (t : Turn) : WatchState :=
  let atS := secondsSince t0 t.oldNotedMs
  let st := note (oldLogin st t) atS
  if t.old.ok ∧ st.firstOld = none then { st with firstOld := some atS } else st

def watchTurn (t0 : ℤ) (st : WatchState) (t : Turn) : WatchState :=
  let st := newTurn t0 st t
  if oldDue st.lastOldAt t.dueMs then oldTurn t0 st t else st

/-- How long the loop sleeps after a turn. -/
def pauseOf (st : WatchState) (t : Turn) : ℤ :=
  if st.lastNew = .refused ∧ st.refusedSince ≠ 0 ∧ 60000 < t.pauseMs - st.refusedSince then 20000
  else 5000

structure CredentialTimeline where
  transitions : List String
  firstOkNewS : Option ℤ
  firstOkOldS : Option ℤ
  firstRefusedNewS : Option ℤ
  refusedUntilOkS : Option ℤ
  finalNew : CredState
  finalOld : CredState
  newFailModes : List String
  oldFailModes : List String
  deriving DecidableEq

/-- What `stop()` returns when the loop has come to its end. -/
def WatchState.timeline (st : WatchState) : CredentialTimeline where
  transitions := st.transitions.map Transition.text
  firstOkNewS := st.firstNew
  firstOkOldS := st.firstOld
  firstRefusedNewS := st.firstRefused
  refusedUntilOkS := st.refusedUntilOk
  finalNew := st.lastNew
  finalOld := st.lastOld
  newFailModes := st.newModes
  oldFailModes := st.oldModes

/-! ## What was observed -/

inductive Password where
  | new
  | old
  deriving DecidableEq

/-- A login as the loop saw it. -/
structure Observation where
  password : Password
  state : CredState
  atS : ℤ
  deriving DecidableEq

/-- A login with the old password, from the decision to make it to its end. -/
structure OldLogin where
  fromMs : ℤ
  toMs : ℤ
  deriving DecidableEq

/-- The watch together with its logins so far. -/
structure Watched where
  st : WatchState := {}
  logins : List Observation := []
  oldLogins : List OldLogin := []
  /-- What the loop slept after each turn. -/
  pauses : List ℤ := []
  deriving DecidableEq

def Watched.turn (t0 : ℤ) (w : Watched) (t : Turn) : Watched :=
  let due := oldDue (newTurn t0 w.st t).lastOldAt t.dueMs
  { st := watchTurn t0 w.st t
    logins := w.logins ++ [⟨.new, stateOf t.new, secondsSince t0 t.newNotedMs⟩] ++
      if due then [⟨.old, stateOf t.old, secondsSince t0 t.oldNotedMs⟩] else []
    oldLogins := w.oldLogins ++ if due then [⟨t.dueMs, t.oldEndMs⟩] else []
    pauses := w.pauses ++ [pauseOf (watchTurn t0 w.st t) t] }

/-- The loop from its start.  Its first turn begins before `stop()` can be called. -/
def watch (t0 : ℤ) (first : Turn) (turns : List Turn) : Watched :=
  (first :: turns).foldl (Watched.turn t0) {}

/-- The pair of states after each login, from where both passwords have been tried. -/
def observedPairs : Option CredState → Option CredState → List Observation →
    List (CredState × CredState)
  | _, _, [] => []
  | new, old, o :: rest =>
    let new := if o.password = .new then some o.state else new
    let old := if o.password = .old then some o.state else old
    match new, old with
    | some n, some d => (n, d) :: observedPairs new old rest
    | _, _ => observedPairs new old rest

/-- The changes of the observed pair, in order. -/
def observedChanges (logins : List Observation) : List (CredState × CredState) :=
  (observedPairs none none logins).destutter (· ≠ ·)

/-- When a password was first seen in a state. -/
def firstSeen (p : Password) (s : CredState) (logins : List Observation) : Option ℤ :=
  (logins.find? fun o => decide (o.password = p) && decide (o.state = s)).map Observation.atS

/-- From the first refusal of the current password to its first success after that. -/
def refusalSpan (logins : List Observation) : Option ℤ :=
  match logins.dropWhile fun o => !(decide (o.password = .new) && decide (o.state = .refused)) with
  | [] => none
  | r :: later => (firstSeen .new .ok later).map (· - r.atS)

/-- What the timeline promises. -/
structure Faithful (w : Watched) : Prop where
  namedNew : ∀ tr ∈ w.st.transitions, ∃ o ∈ w.logins, o.password = .new ∧ o.state = tr.new
  namedOld : ∀ tr ∈ w.st.transitions, ∃ o ∈ w.logins, o.password = .old ∧ o.state = tr.old
  finalNew : ∃ o ∈ w.logins, o.password = .new ∧ o.state = w.st.timeline.finalNew
  finalOld : ∃ o ∈ w.logins, o.password = .old ∧ o.state = w.st.timeline.finalOld
  changes : w.st.transitions.map (fun tr => (tr.new, tr.old)) = observedChanges w.logins
  differ : w.st.transitions.IsChain fun a b => (a.new, a.old) ≠ (b.new, b.old)
  firstOkNew : w.st.timeline.firstOkNewS = firstSeen .new .ok w.logins
  firstOkOld : w.st.timeline.firstOkOldS = firstSeen .old .ok w.logins
  firstRefusedNew : w.st.timeline.firstRefusedNewS = firstSeen .new .refused w.logins
  refusedUntilOk : w.st.timeline.refusedUntilOkS = refusalSpan w.logins
  /-- A login with the old password begins a minute or more after the one before it ended. -/
  minuteApart : w.oldLogins.IsChain fun a b => 60000 ≤ b.fromMs - a.toMs

/-- The turns at which the old password is due. -/
def oldTurns : ℤ → List Turn → List Turn
  | _, [] => []
  | lastOldAt, t :: turns =>
    if oldDue lastOldAt t.dueMs then t :: oldTurns t.oldEndMs turns else oldTurns lastOldAt turns

/-- The first login with the old password is refused, as the watch assumes, and none of them
ends when the clock reads zero, a minute or more before the next. -/
def AsAssumed (first : Turn) (turns : List Turn) : Prop :=
  stateOf first.old = .refused ∧
    (oldTurns 0 (first :: turns)).IsChain fun a b => a.oldEndMs = 0 → 60000 ≤ b.dueMs

section Lemmas

variable {st : WatchState} {t first : Turn} {turns : List Turn} {t0 atS : ℤ}
  {logins l : List Observation} {o : Observation} {new old : CredState} {p : Password}

/-! ## Notes -/

theorem stateOf_eq_ok_iff {l : Login} : stateOf l = .ok ↔ l.ok = true := by
  unfold stateOf
  cases l.ok <;> cases l.blocked <;> cases l.answered <;> decide

/-- The text tells the pair. -/
theorem stateText_inj {new' old' : CredState} :
    stateText new old = stateText new' old' ↔ new = new' ∧ old = old' := by
  have hall : ∀ a b c d, stateText a b = stateText c d ↔ a = c ∧ b = d := by decide
  exact hall new old new' old'

theorem stateText_ne_empty : stateText new old ≠ "" := by
  have hall : ∀ a b, stateText a b ≠ "" := by decide
  exact hall new old

def Transition.pair (tr : Transition) : CredState × CredState := (tr.new, tr.old)

theorem pairs_note (st : WatchState) (atS : ℤ) : (note st atS).transitions.map Transition.pair =
    st.transitions.map Transition.pair ++
      if stateText st.lastNew st.lastOld = st.prev then [] else [(st.lastNew, st.lastOld)] := by
  unfold note
  by_cases h : stateText st.lastNew st.lastOld = st.prev
  · rw [if_neg (not_not.mpr h), if_pos h, List.append_nil]
  · rw [if_pos h, if_neg h, List.map_append]
    rfl

theorem prev_note (st : WatchState) (atS : ℤ) :
    (note st atS).prev = stateText st.lastNew st.lastOld := by
  unfold note
  split
  · rfl
  · rename_i h
    exact (not_not.mp h).symm

/-- A note changes no more than the transitions. -/
theorem note_eq (st : WatchState) (atS : ℤ) : ∃ transitions prev, note st atS =
    { st with transitions := transitions, prev := prev } := by
  unfold note
  split
  · exact ⟨_, _, rfl⟩
  · exact ⟨st.transitions, st.prev, rfl⟩

/-! ## One turn -/

/-- What the login with the current password does to the state. -/
structure NewStep (t0 : ℤ) (st : WatchState) (t : Turn) (st' : WatchState) : Prop where
  lastNew : st'.lastNew = stateOf t.new
  lastOld : st'.lastOld = st.lastOld
  lastOldAt : st'.lastOldAt = st.lastOldAt
  firstOld : st'.firstOld = st.firstOld
  prev : st'.prev = stateText (stateOf t.new) st.lastOld
  pairs : st'.transitions.map Transition.pair = st.transitions.map Transition.pair ++
    if stateText (stateOf t.new) st.lastOld = st.prev then [] else [(stateOf t.new, st.lastOld)]
  firstNew : st'.firstNew = st.firstNew.or
    (if stateOf t.new = .ok then some (secondsSince t0 t.newNotedMs) else none)
  firstRefused : st'.firstRefused = st.firstRefused.or
    (if stateOf t.new = .refused then some (secondsSince t0 t.newNotedMs) else none)
  refusedUntilOk : st'.refusedUntilOk = st.refusedUntilOk.or
    (if stateOf t.new = .ok then st.firstRefused.map (secondsSince t0 t.newNotedMs - ·) else none)

/-- The first success is kept. -/
theorem noteFirstOk_eq : noteFirstOk st t atS =
    { st with firstNew := st.firstNew.or (if stateOf t.new = .ok then some atS else none) } := by
  obtain ⟨transitions, prev, firstNew⟩ := st
  simp only [noteFirstOk, stateOf_eq_ok_iff]
  by_cases hok : t.new.ok = true
  · cases firstNew <;> simp [hok]
  · simp [hok]

/-- The first refusal is kept, and the first success after it. -/
theorem noteRefusal_eq (atS : ℤ) (hlast : st.lastNew = stateOf t.new) :
    ∃ since, noteRefusal st t atS =
      { st with
        firstRefused := st.firstRefused.or (if stateOf t.new = .refused then some atS else none)
        refusedUntilOk := st.refusedUntilOk.or
          (if stateOf t.new = .ok then st.firstRefused.map (atS - ·) else none)
        refusedSince := since } := by
  obtain ⟨transitions, prev, firstNew, firstOld, firstRefused, refusedUntilOk, lastNew, lastOld,
    newModes, oldModes, latest, lastOldAt, refusedSince⟩ := st
  simp only at hlast
  simp only [noteRefusal, hlast]
  by_cases hrefused : stateOf t.new = .refused
  · rw [if_pos hrefused]
    exact ⟨_, by simp [hrefused]; rfl⟩
  · rw [if_neg hrefused]
    refine ⟨refusedSince, ?_⟩
    by_cases hok : t.new.ok = true
    · have hstate := stateOf_eq_ok_iff.mpr hok
      cases firstRefused <;> cases refusedUntilOk <;> simp [hok, hstate]
    · have hstate := mt stateOf_eq_ok_iff.mp hok
      cases firstRefused <;> simp [hok, hstate, hrefused]

theorem NewStep.clearSince {st' : WatchState} (h : NewStep t0 st t st') :
    NewStep t0 st t (clearSince st') := by
  unfold Credential.clearSince
  split
  · exact ⟨h.lastNew, h.lastOld, h.lastOldAt, h.firstOld, h.prev, h.pairs, h.firstNew,
      h.firstRefused, h.refusedUntilOk⟩
  · exact h

theorem newTurn_step (t0 : ℤ) (st : WatchState) (t : Turn) : NewStep t0 st t (newTurn t0 st t) := by
  have hpairs := pairs_note (newLogin st t) (secondsSince t0 t.newNotedMs)
  have hprev := prev_note (newLogin st t) (secondsSince t0 t.newNotedMs)
  have hnote := note_eq (newLogin st t) (secondsSince t0 t.newNotedMs)
  unfold newTurn
  dsimp only
  generalize note (newLogin st t) (secondsSince t0 t.newNotedMs) = noted at hpairs hprev hnote ⊢
  obtain ⟨transitions, prev, rfl⟩ := hnote
  rw [noteFirstOk_eq]
  generalize hfirst : (if stateOf t.new = .ok then some (secondsSince t0 t.newNotedMs) else none) = first
  have hlast : ({ newLogin st t with
      transitions := transitions
      prev := prev
      firstNew := (newLogin st t).firstNew.or first } : WatchState).lastNew = stateOf t.new := rfl
  obtain ⟨since, hrefusal⟩ := noteRefusal_eq (secondsSince t0 t.newNotedMs) hlast
  rw [hrefusal]
  exact NewStep.clearSince ⟨rfl, rfl, rfl, rfl, hprev, hpairs, hfirst ▸ rfl, rfl, rfl⟩

/-- What the login with the old password does to the state. -/
structure OldStep (t0 : ℤ) (st : WatchState) (t : Turn) (st' : WatchState) : Prop where
  lastNew : st'.lastNew = st.lastNew
  lastOld : st'.lastOld = stateOf t.old
  lastOldAt : st'.lastOldAt = t.oldEndMs
  firstNew : st'.firstNew = st.firstNew
  firstRefused : st'.firstRefused = st.firstRefused
  refusedUntilOk : st'.refusedUntilOk = st.refusedUntilOk
  prev : st'.prev = stateText st.lastNew (stateOf t.old)
  pairs : st'.transitions.map Transition.pair = st.transitions.map Transition.pair ++
    if stateText st.lastNew (stateOf t.old) = st.prev then [] else [(st.lastNew, stateOf t.old)]
  firstOld : st'.firstOld = st.firstOld.or
    (if stateOf t.old = .ok then some (secondsSince t0 t.oldNotedMs) else none)

theorem oldTurn_step (t0 : ℤ) (st : WatchState) (t : Turn) : OldStep t0 st t (oldTurn t0 st t) := by
  obtain ⟨transitions, prev, hnote⟩ := note_eq (oldLogin st t) (secondsSince t0 t.oldNotedMs)
  have hpairs := pairs_note (oldLogin st t) (secondsSince t0 t.oldNotedMs)
  have hprev := prev_note (oldLogin st t) (secondsSince t0 t.oldNotedMs)
  rw [hnote] at hpairs hprev
  unfold oldTurn
  dsimp only
  rw [hnote]
  split
  · rename_i h
    obtain ⟨hok, hfirst⟩ := h
    have hfirst : st.firstOld = none := hfirst
    refine ⟨rfl, rfl, rfl, rfl, rfl, rfl, hprev, hpairs, ?_⟩
    rw [hfirst, if_pos (stateOf_eq_ok_iff.mpr hok), Option.none_or]
  · rename_i h
    refine ⟨rfl, rfl, rfl, rfl, rfl, rfl, hprev, hpairs, ?_⟩
    by_cases hok : t.old.ok = true
    · cases hfirst : st.firstOld with
      | none => exact absurd ⟨hok, hfirst⟩ h
      | some s => exact hfirst
    · rw [if_neg (mt stateOf_eq_ok_iff.mp hok), Option.or_none]
      rfl

/-! ## The log -/

/-- What a password was last seen as. -/
def lastState (p : Password) (s : Option CredState) (l : List Observation) : Option CredState :=
  l.foldl (fun s o => if o.password = p then some o.state else s) s

/-- The pair that stands after the logins, when there is one. -/
def pairAfter (new old : Option CredState) (l : List Observation) : List (CredState × CredState) :=
  match lastState .new new l, lastState .old old l with
  | some n, some d => [(n, d)]
  | _, _ => []

theorem lastState_concat {s : Option CredState} : lastState p s (l ++ [o]) =
    if o.password = p then some o.state else lastState p s l := by
  rw [lastState, List.foldl_append]
  rfl

theorem observedPairs_concat (new old : Option CredState) :
    observedPairs new old (l ++ [o]) = observedPairs new old l ++ pairAfter new old (l ++ [o]) := by
  induction l generalizing new old with
  | nil =>
    simp only [List.nil_append, observedPairs, pairAfter, lastState, List.foldl_cons, List.foldl_nil]
  | cons a l ih =>
    rw [List.cons_append, observedPairs, observedPairs, ih]
    split <;> rfl

/-- A password that was last seen in a state was seen in it. -/
theorem exists_of_lastState {s : Option CredState} {c : CredState} (h : lastState p s l = some c) :
    s = some c ∨ ∃ o ∈ l, o.password = p ∧ o.state = c := by
  induction l using List.reverseRecOn with
  | nil => exact .inl h
  | append_singleton l o ih =>
    rw [lastState_concat] at h
    split at h
    · rename_i hp
      exact .inr ⟨o, by simp, hp, Option.some_inj.mp h⟩
    · refine (ih h).imp_right ?_
      rintro ⟨o', ho', hseen⟩
      exact ⟨o', List.mem_append_left _ ho', hseen⟩

theorem seen_of_mem_observedPairs {pair : CredState × CredState}
    (h : pair ∈ observedPairs none none l) :
    (∃ o ∈ l, o.password = .new ∧ o.state = pair.1) ∧
      ∃ o ∈ l, o.password = .old ∧ o.state = pair.2 := by
  induction l using List.reverseRecOn with
  | nil => exact absurd h List.not_mem_nil
  | append_singleton l o ih =>
    rw [observedPairs_concat, List.mem_append] at h
    rcases h with h | h
    · obtain ⟨⟨a, ha, hnew⟩, b, hb, hold⟩ := ih h
      exact ⟨⟨a, List.mem_append_left _ ha, hnew⟩, b, List.mem_append_left _ hb, hold⟩
    · unfold pairAfter at h
      split at h
      · rename_i hnew hold
        obtain rfl := List.mem_singleton.mp h
        exact ⟨(exists_of_lastState hnew).resolve_left (Option.some_ne_none _).symm,
          (exists_of_lastState hold).resolve_left (Option.some_ne_none _).symm⟩
      · exact absurd h List.not_mem_nil

/-- The changes of a longer sequence. -/
theorem destutter_concat {α : Type} [DecidableEq α] (l : List α) (a x : α) :
    ((a :: l) ++ [x]).destutter (· ≠ ·) = (a :: l).destutter (· ≠ ·) ++
      if (a :: l).getLast? = some x then [] else [x] := by
  rw [List.cons_append, List.destutter_cons', List.destutter_cons']
  induction l generalizing a with
  | nil =>
    rw [List.nil_append, List.destutter'_singleton, List.destutter'_nil, List.getLast?_singleton]
    by_cases h : a = x <;> simp [h]
  | cons b l ih =>
    rw [List.cons_append, List.getLast?_cons_cons]
    by_cases h : a = b
    · subst h
      rw [List.destutter'_cons_neg _ (by simp), List.destutter'_cons_neg _ (by simp), ih]
    · rw [List.destutter'_cons_pos _ h, List.destutter'_cons_pos _ h, ih, List.cons_append]

theorem firstSeen_concat {s : CredState} : firstSeen p s (l ++ [o]) =
    (firstSeen p s l).or (if o.password = p ∧ o.state = s then some o.atS else none) := by
  rw [firstSeen, List.find?_append, Option.map_or, firstSeen, List.find?_singleton]
  congr 1
  by_cases h : o.password = p ∧ o.state = s
  · rw [if_pos h]
    simp [h]
  · rw [if_neg h]
    simpa using h

/-- The logins from the first refusal of the current password on. -/
theorem firstSeen_refused_eq : firstSeen .new .refused l =
    (l.dropWhile fun o => !(decide (o.password = .new) && decide (o.state = .refused))).head?.map
      Observation.atS := by
  rw [firstSeen, List.find?_eq_head?_dropWhile_not]

theorem refusalSpan_concat : refusalSpan (l ++ [o]) =
    (refusalSpan l).or (if o.password = .new ∧ o.state = .ok then
      (firstSeen .new .refused l).map (o.atS - ·) else none) := by
  rw [firstSeen_refused_eq, refusalSpan, List.dropWhile_append, refusalSpan]
  generalize l.dropWhile _ = later
  cases later with
  | nil =>
    simp only [List.isEmpty_nil, if_true, List.head?_nil, Option.map_none, ite_self, Option.or_none,
      List.dropWhile_cons, List.dropWhile_nil]
    by_cases h : (!(decide (o.password = .new) && decide (o.state = .refused))) = true
    · rw [if_pos h]
    · rw [if_neg h]
      rfl
  | cons r later =>
    simp only [List.isEmpty_cons, Bool.false_eq_true, if_false, List.cons_append, List.head?_cons,
      Option.map_some, firstSeen_concat, Option.map_or]
    congr 1
    split <;> rfl

/-! ## The invariant -/

/-- What the state says of the logins so far, once both passwords have been tried.  `extra` is
what the first note said before that. -/
structure Kept (extra : List (CredState × CredState)) (st : WatchState) (logins : List Observation) :
    Prop where
  lastNew : lastState .new none logins = some st.lastNew
  lastOld : lastState .old none logins = some st.lastOld
  prev : st.prev = stateText st.lastNew st.lastOld
  nonempty : observedPairs none none logins ≠ []
  current : (observedPairs none none logins).getLast? = some (st.lastNew, st.lastOld)
  pairs : st.transitions.map Transition.pair = extra ++ observedChanges logins
  firstNew : st.firstNew = firstSeen .new .ok logins
  firstOld : st.firstOld = firstSeen .old .ok logins
  firstRefused : st.firstRefused = firstSeen .new .refused logins
  refusedUntilOk : st.refusedUntilOk = refusalSpan logins

/-- One more pair makes one more change, unless it is the pair that stands. -/
theorem Kept.changes {extra : List (CredState × CredState)} (h : Kept extra st logins)
    (hnew : lastState .new none (logins ++ [o]) = some new)
    (hold : lastState .old none (logins ++ [o]) = some old) :
    observedPairs none none (logins ++ [o]) = observedPairs none none logins ++ [(new, old)] ∧
      observedChanges (logins ++ [o]) = observedChanges logins ++
        if stateText new old = st.prev then [] else [(new, old)] := by
  have hpairs : observedPairs none none (logins ++ [o]) =
      observedPairs none none logins ++ [(new, old)] := by
    rw [observedPairs_concat, pairAfter, hnew, hold]
  refine ⟨hpairs, ?_⟩
  have hcurrent := h.current
  have hnonempty := h.nonempty
  rw [observedChanges, observedChanges, hpairs]
  generalize observedPairs none none logins = l at hcurrent hnonempty
  cases l with
  | nil => exact absurd rfl hnonempty
  | cons a l =>
    rw [destutter_concat, hcurrent, h.prev]
    congr 1
    refine if_congr ?_ rfl rfl
    rw [stateText_inj, Option.some_inj, Prod.mk.injEq, eq_comm, eq_comm (a := st.lastOld)]

theorem Kept.newLogin {extra : List (CredState × CredState)} {st' : WatchState}
    (h : Kept extra st logins) (hstep : NewStep t0 st t st') :
    Kept extra st' (logins ++ [⟨.new, stateOf t.new, secondsSince t0 t.newNotedMs⟩]) := by
  generalize ho : (⟨.new, stateOf t.new, secondsSince t0 t.newNotedMs⟩ : Observation) = o
  have hnew : lastState .new none (logins ++ [o]) = some (stateOf t.new) := by
    rw [lastState_concat, ← ho]
    rfl
  have hold : lastState .old none (logins ++ [o]) = some st.lastOld := by
    rw [lastState_concat, ← ho]
    exact h.lastOld
  obtain ⟨hpairs, hchanges⟩ := h.changes hnew hold
  constructor
  · rw [hnew, hstep.lastNew]
  · rw [hold, hstep.lastOld]
  · rw [hstep.prev, hstep.lastNew, hstep.lastOld]
  · rw [hpairs]
    exact List.concat_ne_nil _ _
  · rw [hpairs, List.getLast?_concat, hstep.lastNew, hstep.lastOld]
  · rw [hstep.pairs, h.pairs, hchanges, List.append_assoc]
  · rw [hstep.firstNew, h.firstNew, firstSeen_concat, ← ho]
    simp only [true_and]
  · rw [hstep.firstOld, h.firstOld, firstSeen_concat, ← ho]
    simp
  · rw [hstep.firstRefused, h.firstRefused, firstSeen_concat, ← ho]
    simp only [true_and]
  · rw [hstep.refusedUntilOk, h.refusedUntilOk, h.firstRefused, refusalSpan_concat, ← ho]
    simp only [true_and]

theorem Kept.oldLogin {extra : List (CredState × CredState)} {st' : WatchState}
    (h : Kept extra st logins) (hstep : OldStep t0 st t st') :
    Kept extra st' (logins ++ [⟨.old, stateOf t.old, secondsSince t0 t.oldNotedMs⟩]) := by
  generalize ho : (⟨.old, stateOf t.old, secondsSince t0 t.oldNotedMs⟩ : Observation) = o
  have hnew : lastState .new none (logins ++ [o]) = some st.lastNew := by
    rw [lastState_concat, ← ho]
    exact h.lastNew
  have hold : lastState .old none (logins ++ [o]) = some (stateOf t.old) := by
    rw [lastState_concat, ← ho]
    rfl
  obtain ⟨hpairs, hchanges⟩ := h.changes hnew hold
  constructor
  · rw [hnew, hstep.lastNew]
  · rw [hold, hstep.lastOld]
  · rw [hstep.prev, hstep.lastNew, hstep.lastOld]
  · rw [hpairs]
    exact List.concat_ne_nil _ _
  · rw [hpairs, List.getLast?_concat, hstep.lastNew, hstep.lastOld]
  · rw [hstep.pairs, h.pairs, hchanges, List.append_assoc]
  · rw [hstep.firstNew, h.firstNew, firstSeen_concat, ← ho]
    simp
  · rw [hstep.firstOld, h.firstOld, firstSeen_concat, ← ho]
    simp only [true_and]
  · rw [hstep.firstRefused, h.firstRefused, firstSeen_concat, ← ho]
    simp
  · rw [hstep.refusedUntilOk, h.refusedUntilOk, refusalSpan_concat, ← ho]
    simp

/-- A turn is one login or two. -/
theorem Kept.turn {extra : List (CredState × CredState)} {w : Watched}
    (h : Kept extra w.st w.logins) (t0 : ℤ) (t : Turn) :
    Kept extra (w.turn t0 t).st (w.turn t0 t).logins := by
  have hfirst := h.newLogin (newTurn_step t0 w.st t)
  simp only [Watched.turn, watchTurn]
  split
  · exact hfirst.oldLogin (oldTurn_step t0 (newTurn t0 w.st t) t)
  · rw [List.append_nil]
    exact hfirst

/-- What the first note says before the old password has been tried. -/
def unseen (first : Turn) : List (CredState × CredState) :=
  if stateOf first.old = .refused then [] else [(stateOf first.new, .refused)]

theorem oldDue_zero (dueMs : ℤ) : oldDue 0 dueMs = true := rfl

/-- The first turn tries both. -/
theorem kept_first (t0 : ℤ) (first : Turn) :
    Kept (unseen first) (Watched.turn t0 {} first).st (Watched.turn t0 {} first).logins := by
  have hnew := newTurn_step t0 {} first
  have hold := oldTurn_step t0 (newTurn t0 {} first) first
  have hdue : oldDue (newTurn t0 {} first).lastOldAt first.dueMs = true := by
    rw [hnew.lastOldAt]
    exact oldDue_zero _
  simp only [Watched.turn, watchTurn, hdue, if_true, List.nil_append, List.cons_append]
  generalize oldTurn t0 (newTurn t0 {} first) first = st' at hold
  generalize newTurn t0 {} first = st at hnew hold
  have hpairs := hold.pairs
  rw [hnew.pairs, hnew.prev, hnew.lastNew] at hpairs
  simp only [stateText_inj, stateText_ne_empty, true_and, if_false] at hpairs
  generalize hseen : (⟨.new, stateOf first.new, secondsSince t0 first.newNotedMs⟩ : Observation) = o
  generalize hseen' : (⟨.old, stateOf first.old, secondsSince t0 first.oldNotedMs⟩ : Observation) = o'
  have hlist : observedPairs none none [o, o'] = [(stateOf first.new, stateOf first.old)] := by
    rw [← hseen, ← hseen']
    rfl
  have happend : [o, o'] = ([] ++ [o]) ++ [o'] := rfl
  constructor
  · rw [hold.lastNew, hnew.lastNew, ← hseen, ← hseen']
    rfl
  · rw [hold.lastOld, ← hseen']
    rfl
  · rw [hold.prev, hold.lastNew, hold.lastOld]
  · rw [hlist]
    exact List.cons_ne_nil _ _
  · rw [hlist, hold.lastNew, hold.lastOld, hnew.lastNew]
    rfl
  · rw [hpairs, observedChanges, hlist, List.destutter_singleton, unseen]
    by_cases h : stateOf first.old = .refused <;> simp [h]
  · rw [hold.firstNew, hnew.firstNew, happend, firstSeen_concat, firstSeen_concat, ← hseen, ← hseen']
    simp [firstSeen]
  · rw [hold.firstOld, hnew.firstOld, happend, firstSeen_concat, firstSeen_concat, ← hseen, ← hseen']
    simp [firstSeen]
  · rw [hold.firstRefused, hnew.firstRefused, happend, firstSeen_concat, firstSeen_concat, ← hseen,
      ← hseen']
    simp [firstSeen]
  · rw [hold.refusedUntilOk, hnew.refusedUntilOk, happend, refusalSpan_concat, refusalSpan_concat,
      ← hseen, ← hseen']
    simp [firstSeen, refusalSpan]

theorem kept_watch (t0 : ℤ) (first : Turn) (turns : List Turn) :
    Kept (unseen first) (watch t0 first turns).st (watch t0 first turns).logins := by
  rw [watch, List.foldl_cons]
  have hfirst := kept_first t0 first
  generalize Watched.turn t0 {} first = w at hfirst
  induction turns generalizing w with
  | nil => exact hfirst
  | cons t turns ih => exact ih _ (hfirst.turn t0 t)

/-! ## A minute apart -/

theorem lastOldAt_watchTurn (t0 : ℤ) (st : WatchState) (t : Turn) :
    oldDue (newTurn t0 st t).lastOldAt t.dueMs = oldDue st.lastOldAt t.dueMs ∧
      (watchTurn t0 st t).lastOldAt = if oldDue st.lastOldAt t.dueMs then t.oldEndMs else st.lastOldAt := by
  have hnew := (newTurn_step t0 st t).lastOldAt
  refine ⟨by rw [hnew], ?_⟩
  simp only [watchTurn, hnew]
  split
  · exact (oldTurn_step t0 _ t).lastOldAt
  · exact hnew

/-- The logins with the old password are made when it is due. -/
theorem foldl_oldLogins (t0 : ℤ) (w : Watched) (turns : List Turn) :
    (turns.foldl (Watched.turn t0) w).oldLogins = w.oldLogins ++
      (oldTurns w.st.lastOldAt turns).map fun t => ⟨t.dueMs, t.oldEndMs⟩ := by
  induction turns generalizing w with
  | nil => exact (List.append_nil _).symm
  | cons t turns ih =>
    obtain ⟨hdue, hlast⟩ := lastOldAt_watchTurn t0 w.st t
    rw [List.foldl_cons, ih, oldTurns]
    simp only [Watched.turn, hdue, hlast]
    split
    · rw [List.append_assoc]
      rfl
    · rw [List.append_nil]

/-- A login is due when the one before it ended a minute ago, by the clock, or at zero. -/
theorem oldTurns_due (lastOldAt : ℤ) (turns : List Turn) :
    (∀ t ∈ (oldTurns lastOldAt turns).head?, oldDue lastOldAt t.dueMs = true) ∧
      (oldTurns lastOldAt turns).IsChain fun a b => oldDue a.oldEndMs b.dueMs = true := by
  induction turns generalizing lastOldAt with
  | nil => exact ⟨fun t ht => absurd ht (Option.not_mem_none t), List.IsChain.nil⟩
  | cons t turns ih =>
    rw [oldTurns]
    split
    · rename_i hdue
      obtain ⟨hhead, hchain⟩ := ih t.oldEndMs
      refine ⟨fun u hu => ?_, List.isChain_cons.mpr ⟨hhead, hchain⟩⟩
      cases Option.some_inj.mp hu
      exact hdue
    · exact ih lastOldAt

theorem minuteApart_iff (t0 : ℤ) (first : Turn) (turns : List Turn) :
    ((watch t0 first turns).oldLogins.IsChain fun a b => 60000 ≤ b.fromMs - a.toMs) ↔
      (oldTurns 0 (first :: turns)).IsChain fun a b => a.oldEndMs = 0 → 60000 ≤ b.dueMs := by
  have heq : (watch t0 first turns).oldLogins =
      (oldTurns 0 (first :: turns)).map fun t => (⟨t.dueMs, t.oldEndMs⟩ : OldLogin) :=
    foldl_oldLogins t0 {} (first :: turns)
  rw [heq, List.isChain_map]
  have hdue := (oldTurns_due 0 (first :: turns)).2
  generalize oldTurns 0 (first :: turns) = l at hdue
  have hiff : ∀ a b : Turn, oldDue a.oldEndMs b.dueMs = true →
      (60000 ≤ b.dueMs - a.oldEndMs ↔ (a.oldEndMs = 0 → 60000 ≤ b.dueMs)) := by
    intro a b h
    simp only [oldDue, Bool.or_eq_true, decide_eq_true_eq] at h
    omega
  rw [List.isChain_iff_getElem] at hdue ⊢
  rw [List.isChain_iff_getElem]
  exact forall₂_congr fun i hi => hiff _ _ (hdue i hi)

/-! ## The timeline -/

theorem faithful_of_asAssumed (t0 : ℤ) (h : AsAssumed first turns) :
    Faithful (watch t0 first turns) := by
  have hkept := kept_watch t0 first turns
  have hpairs := hkept.pairs
  rw [unseen, if_pos h.1, List.nil_append] at hpairs
  have hseen : ∀ tr ∈ (watch t0 first turns).st.transitions,
      tr.pair ∈ observedPairs none none (watch t0 first turns).logins := by
    intro tr htr
    have hmem := List.mem_map_of_mem (f := Transition.pair) htr
    rw [hpairs] at hmem
    exact (List.destutter_sublist (· ≠ ·) _).subset hmem
  refine
    { namedNew := fun tr htr => (seen_of_mem_observedPairs (hseen tr htr)).1
      namedOld := fun tr htr => (seen_of_mem_observedPairs (hseen tr htr)).2
      finalNew := (exists_of_lastState hkept.lastNew).resolve_left (Option.some_ne_none _).symm
      finalOld := (exists_of_lastState hkept.lastOld).resolve_left (Option.some_ne_none _).symm
      changes := hpairs
      differ := ?_
      firstOkNew := hkept.firstNew
      firstOkOld := hkept.firstOld
      firstRefusedNew := hkept.firstRefused
      refusedUntilOk := hkept.refusedUntilOk
      minuteApart := (minuteApart_iff t0 first turns).mpr h.2 }
  have hdiffer := List.isChain_destutter (· ≠ ·) (observedPairs none none (watch t0 first turns).logins)
  exact (List.isChain_map Transition.pair).mp (hpairs.symm ▸ hdiffer)

/-- **The timeline is what was observed exactly when the watch starts out as it assumes**, and
the clock never reads zero at the end of a login with the old password that is soon repeated. -/
theorem timeline_faithful_iff (t0 : ℤ) (first : Turn) (turns : List Turn) :
    Faithful (watch t0 first turns) ↔ AsAssumed first turns := by
  refine ⟨fun h => ⟨?_, (minuteApart_iff t0 first turns).mp h.minuteApart⟩, faithful_of_asAssumed t0⟩
  by_contra hother
  have hpairs := (kept_watch t0 first turns).pairs
  have hchanges : (watch t0 first turns).st.transitions.map Transition.pair =
      observedChanges (watch t0 first turns).logins := h.changes
  rw [hchanges, unseen, if_neg hother] at hpairs
  exact absurd (congrArg List.length hpairs) (by simp)

end Lemmas

/-! ## A rolled back password -/

def loggedIn : Login := ⟨true, "", true, false⟩

def refusedLogin : Login := ⟨false, "password authentication failed", true, false⟩

/-- The first turn, when the old password still works. -/
def rolledBack : Turn := ⟨refusedLogin, 1000, 1000, 1000, loggedIn, 2000, 2000, 2000⟩

/-- The first line names a refusal of the old password that no login has met. -/
theorem old_refusal_not_observed :
    (watch 0 rolledBack []).st.timeline.transitions =
        ["t+1s new=refused old=refused", "t+2s new=refused old=ok"] ∧
      (watch 0 rolledBack []).logins = [⟨.new, .refused, 1⟩, ⟨.old, .ok, 2⟩] ∧
      ¬ Faithful (watch 0 rolledBack []) := by
  refine ⟨by with_unfolding_all decide, by with_unfolding_all decide, fun h => ?_⟩
  have hnamed := h.namedOld ⟨1, .refused, .refused⟩ (by with_unfolding_all decide)
  revert hnamed
  decide

end SupabaseLab.RestorePaths.Credential
