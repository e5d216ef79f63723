/-
  Library/Machine.lean --- machines that take one event after another.

  A machine is a step function that refuses the events that cannot happen in a
  state.  A run is a list of events, oldest first, so "every interleaving" is
  "every list of events", and what happened before a state is part of what an
  invariant may speak of.
-/
import Mathlib

set_option autoImplicit false

namespace SupabaseLab.Library

variable {σ ε : Type} {step : σ → ε → Option σ} {s s' : σ} {e : ε} {es es' : List ε}

/-- The state after the events; `none` when one of them could not happen. -/
def runEvents (step : σ → ε → Option σ) : σ → List ε → Option σ
  | s, [] => some s
  | s, e :: es => (step s e).bind fun s' => runEvents step s' es

@[simp] theorem runEvents_nil : runEvents step s [] = some s := rfl

theorem runEvents_cons :
    runEvents step s (e :: es) = (step s e).bind fun s' => runEvents step s' es := rfl

theorem runEvents_append :
    runEvents step s (es ++ es') = (runEvents step s es).bind fun s' => runEvents step s' es' := by
  induction es generalizing s with
  | nil => rfl
  | cons e es ih =>
    rw [List.cons_append, runEvents_cons, runEvents_cons, Option.bind_assoc]
    congr
    funext s'
    exact ih

/-- A run, cut before its last event. -/
theorem runEvents_concat : runEvents step s (es ++ [e]) = some s' ↔
    ∃ m, runEvents step s es = some m ∧ step m e = some s' := by
  rw [runEvents_append, Option.bind_eq_some_iff]
  simp only [runEvents_cons, runEvents_nil, Option.bind_fun_some]

/-- What holds at the start and is kept by every step, given what happened before
it, holds after every run. -/
theorem runEvents_invariant {I : List ε → σ → Prop} (hinit : I [] s)
    (hstep : ∀ es m e m', runEvents step s es = some m → I es m → step m e = some m' →
      I (es ++ [e]) m') :
    ∀ es s', runEvents step s es = some s' → I es s' := by
  intro es
  induction es using List.reverseRecOn with
  | nil =>
    intro s' h
    cases h
    exact hinit
  | append_singleton es e ih =>
    intro s' h
    obtain ⟨m, hm, hlast⟩ := runEvents_concat.mp h
    exact hstep es m e s' hm (ih m hm) hlast

/-! ## Runs without a step of some kind -/

/-- No event of the list is taken in a state where `bad` says so. -/
def never (step : σ → ε → Option σ) (bad : σ → ε → Bool) : σ → List ε → Bool
  | _, [] => true
  | s, e :: es => !bad s e && (match step s e with
    | some s' => never step bad s' es
    | none => true)

theorem bad_eq_false_of_never {bad : σ → ε → Bool} (h : never step bad s (es ++ e :: es') = true)
    (hrun : runEvents step s es = some s') : bad s' e = false := by
  induction es generalizing s with
  | nil =>
    cases hrun
    rw [List.nil_append, never, Bool.and_eq_true, Bool.not_eq_true'] at h
    exact h.1
  | cons x es ih =>
    obtain ⟨m, hm, hrest⟩ := Option.bind_eq_some_iff.mp hrun
    rw [List.cons_append, never, Bool.and_eq_true, hm] at h
    exact ih h.2 hrest

/-! ## Runs whose steps all meet a condition -/

section

variable {P : σ → ε → Prop}

/-- Every event of the run meets `P` in the state it is taken in. -/
def AlongRun (step : σ → ε → Option σ) (P : σ → ε → Prop) (s : σ) (es : List ε) : Prop :=
  ∀ before e after m, es = before ++ e :: after → runEvents step s before = some m → P m e

theorem AlongRun.init (h : AlongRun step P s (es ++ [e])) : AlongRun step P s es := by
  intro before x after m hsplit hrun
  refine h before x (after ++ [e]) m ?_ hrun
  rw [hsplit, List.append_assoc, List.cons_append]

theorem AlongRun.last (h : AlongRun step P s (es ++ [e])) (hrun : runEvents step s es = some s') :
    P s' e :=
  h es e [] s' rfl hrun

theorem alongRun_nil : AlongRun step P s [] := by
  intro before e after m hsplit
  exact absurd hsplit (List.append_ne_nil_of_right_ne_nil _ (List.cons_ne_nil _ _)).symm

theorem alongRun_concat (hrun : runEvents step s es = some s') :
    AlongRun step P s (es ++ [e]) ↔ AlongRun step P s es ∧ P s' e := by
  refine ⟨fun h => ⟨h.init, h.last hrun⟩, ?_⟩
  rintro ⟨h, hlast⟩ before x after m hsplit hm
  rcases List.eq_nil_or_concat after with rfl | ⟨after, y, rfl⟩
  · obtain ⟨rfl, hx⟩ := List.append_inj' hsplit rfl
    cases hx
    cases hrun.symm.trans hm
    exact hlast
  · rw [List.concat_eq_append, ← List.cons_append, ← List.append_assoc] at hsplit
    exact h before x after m (List.append_inj' hsplit rfl).1 hm

/-- What holds at the start and is kept by every step that meets the condition. -/
theorem AlongRun.invariant {I : σ → Prop} (hinit : I s)
    (hstep : ∀ m e m', P m e → I m → step m e = some m' → I m') :
    ∀ es s', AlongRun step P s es → runEvents step s es = some s' → I s' := by
  intro es
  induction es using List.reverseRecOn with
  | nil =>
    intro s' _ hrun
    cases hrun
    exact hinit
  | append_singleton es e ih =>
    intro s' h hrun
    obtain ⟨m, hm, hlast⟩ := runEvents_concat.mp hrun
    exact hstep m e s' (h.last hm) (ih m h.init hm) hlast

theorem alongRun_of_never {bad : σ → ε → Bool} (h : never step bad s es = true)
    (hP : ∀ m e, bad m e = false → P m e) : AlongRun step P s es := by
  intro before e after m hsplit hrun
  rw [hsplit] at h
  exact hP m e (bad_eq_false_of_never h hrun)

end

end SupabaseLab.Library
