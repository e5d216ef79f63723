/-
  Library/Cascade.lean --- a list of stages that requests are offered to.

  Each request goes to the stages in order until one takes it, and a stage may
  keep count of what it has seen.  Reading such a list one request at a time is
  what a program does; reading it one stage at a time says what each stage does:
  it works on the requests that the stages before it left, and on nothing else.
  The two readings agree.

  A stage that counts the requests it is for, lets the first few pass and then
  takes a number of them, takes those in a window of positions.
-/
import Mathlib.Data.List.Basic

set_option autoImplicit false

namespace SupabaseLab.Library

section Stages

variable {σ α β : Type} (take : σ → α → σ × Option β)

/-- A request, offered to the stages in order: the stages after it, and what the
one that took it made of it. -/
def offer : List σ → α → List σ × Option β
  | [], _ => ([], none)
  | s :: stages, a =>
      match take s a with
      | (s', some b) => (s' :: stages, some b)
      | (s', none) => (s' :: (offer stages a).1, (offer stages a).2)

/-- The requests, one after the other. -/
def offers : List σ → List α → List σ × List (Option β)
  | stages, [] => (stages, [])
  | stages, a :: as =>
      ((offers (offer take stages a).1 as).1,
        (offer take stages a).2 :: (offers (offer take stages a).1 as).2)

/-- One stage alone, on a stream of requests. -/
def stageRun : σ → List α → σ × List (Option β)
  | s, [] => (s, [])
  | s, a :: as => ((stageRun (take s a).1 as).1, (take s a).2 :: (stageRun (take s a).1 as).2)

/-- The requests that a stage left, where `taken` is what it made of each. -/
def leftOver : List α → List (Option β) → List α
  | a :: as, none :: taken => a :: leftOver as taken
  | _ :: as, some _ :: taken => leftOver as taken
  | _, _ => []

/-- The outcomes of the left requests, put in the places where they stood. -/
def fillIn : List (Option β) → List (Option β) → List (Option β)
  | [], _ => []
  | some b :: taken, rest => some b :: fillIn taken rest
  | none :: taken, [] => none :: fillIn taken []
  | none :: taken, b :: rest => b :: fillIn taken rest

/-- The stages one after the other, each on what the one before it left. -/
def cascade : List σ → List α → List σ × List (Option β)
  | [], as => ([], as.map fun _ => none)
  | s :: stages, as =>
      ((stageRun take s as).1 :: (cascade stages (leftOver as (stageRun take s as).2)).1,
        fillIn (stageRun take s as).2 (cascade stages (leftOver as (stageRun take s as).2)).2)

theorem offers_nil_stages (as : List α) : offers take [] as = ([], as.map fun _ => none) := by
  induction as with
  | nil => rfl
  | cons a as ih => rw [offers, offer, ih, List.map_cons]

/-- The first stage taken apart from the others. -/
theorem offers_cons (s : σ) (stages : List σ) (as : List α) :
    offers take (s :: stages) as =
      ((stageRun take s as).1 :: (offers take stages (leftOver as (stageRun take s as).2)).1,
        fillIn (stageRun take s as).2
          (offers take stages (leftOver as (stageRun take s as).2)).2) := by
  induction as generalizing s stages with
  | nil => rfl
  | cons a as ih =>
    rw [offers, stageRun]
    cases htake : take s a with
    | mk s' taken =>
      cases taken with
      | some b =>
        have hoffer : offer take (s :: stages) a = (s' :: stages, some b) := by
          rw [offer, htake]
        rw [hoffer]
        simp only [ih, leftOver, fillIn]
      | none =>
        have hoffer : offer take (s :: stages) a =
            (s' :: (offer take stages a).1, (offer take stages a).2) := by
          rw [offer, htake]
        rw [hoffer]
        simp only [ih, leftOver, fillIn, offers]

/-- Request by request and stage by stage come to the same. -/
theorem offers_eq_cascade (stages : List σ) (as : List α) :
    offers take stages as = cascade take stages as := by
  induction stages generalizing as with
  | nil => exact offers_nil_stages take as
  | cons s stages ih => rw [offers_cons, cascade, ih]

theorem offers_concat (stages : List σ) (as : List α) (a : α) :
    offers take stages (as ++ [a]) =
      ((offer take (offers take stages as).1 a).1,
        (offers take stages as).2 ++ [(offer take (offers take stages as).1 a).2]) := by
  induction as generalizing stages with
  | nil => rfl
  | cons x as ih => simp only [List.cons_append, offers, ih]

theorem length_fillIn (taken rest : List (Option β)) :
    (fillIn taken rest).length = taken.length := by
  induction taken generalizing rest with
  | nil => rfl
  | cons x taken ih =>
    cases x with
    | some b => exact congrArg Nat.succ (ih rest)
    | none =>
      cases rest with
      | nil => exact congrArg Nat.succ (ih [])
      | cons b rest => exact congrArg Nat.succ (ih rest)

end Stages

/-! ## A stage that takes a window of positions -/

section Window

variable {α β : Type}

/-- The positions `skip < m ≤ skip + times`; `times = 0` sets no bound. -/
def inWindow (skip times m : Nat) : Bool := skip < m && (times = 0 || m ≤ skip + times)

/-- How many of the first `m` positions are in the window. -/
def windowCount (skip times m : Nat) : Nat :=
  if times = 0 then m - skip else min times (m - skip)

theorem windowCount_zero (skip times : Nat) : windowCount skip times 0 = 0 := by
  rw [windowCount, Nat.zero_sub]
  split
  · rfl
  · exact Nat.min_zero _

theorem windowCount_succ (skip times m : Nat) :
    windowCount skip times (m + 1) =
      windowCount skip times m + if inWindow skip times (m + 1) then 1 else 0 := by
  simp only [windowCount, inWindow, Bool.and_eq_true, Bool.or_eq_true, decide_eq_true_eq]
  split <;> split <;> omega

/-- A counter that has taken what the window held so far takes the next one
exactly when it is in the window. -/
theorem inWindow_succ_iff (skip times m : Nat) :
    inWindow skip times (m + 1) = true ↔
      ¬ m + 1 ≤ skip ∧ (times = 0 ∨ windowCount skip times m < times) := by
  simp only [windowCount, inWindow, Bool.and_eq_true, Bool.or_eq_true, decide_eq_true_eq]
  split <;> omega

/-- What a stage with this window makes of a stream whose first `m` requests for it
are past: `role` says of each request whether the stage is for it, or what ends it
there whatever the position. -/
def windowRun (skip times : Nat) (role : α → β ⊕ Bool) (taken : β) : Nat → List α → List (Option β)
  | _, [] => []
  | m, a :: as =>
      match role a with
      | .inl b => some b :: windowRun skip times role taken m as
      | .inr false => none :: windowRun skip times role taken m as
      | .inr true =>
          (if inWindow skip times (m + 1) then some taken else none) ::
            windowRun skip times role taken (m + 1) as

theorem length_windowRun (skip times : Nat) (role : α → β ⊕ Bool) (taken : β) (m : Nat)
    (as : List α) : (windowRun skip times role taken m as).length = as.length := by
  induction as generalizing m with
  | nil => rfl
  | cons a as ih =>
    rw [windowRun]
    split
    · exact congrArg Nat.succ (ih m)
    · exact congrArg Nat.succ (ih m)
    · exact congrArg Nat.succ (ih (m + 1))

/-- How many requests of a stream a stage is for. -/
def countFor (role : α → β ⊕ Bool) (as : List α) : Nat :=
  as.countP fun a => match role a with
    | .inr b => b
    | .inl _ => false

end Window

end SupabaseLab.Library
