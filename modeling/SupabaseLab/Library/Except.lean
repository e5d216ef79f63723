/-
  Library/Except.lean --- taking a fallible computation apart at its steps.
-/
import Mathlib

set_option autoImplicit false

namespace SupabaseLab.Library

variable {ε α β : Type}

/-- A sequence returned normally exactly when both of its parts did. -/
theorem bind_eq_ok {x : Except ε α} {f : α → Except ε β} {b : β} :
    (x >>= f) = .ok b ↔ ∃ a, x = .ok a ∧ f a = .ok b := by
  cases x with
  | error e => simp [bind, Except.bind]
  | ok a => simp [bind, Except.bind]

@[simp] theorem ok_bind (a : α) (f : α → Except ε β) : (Except.ok a >>= f) = f a := rfl

@[simp] theorem error_bind (e : ε) (f : α → Except ε β) :
    ((Except.error e : Except ε α) >>= f) = .error e := rfl

/-- Renaming a failure never turns it into a result. -/
theorem mapError_eq_ok {ε' : Type} {f : ε → ε'} {x : Except ε α} {a : α} :
    x.mapError f = .ok a ↔ x = .ok a := by
  cases x with
  | error e => simp [Except.mapError]
  | ok b => simp [Except.mapError]

/-- `if bad then throw e`. -/
def refuseIf (bad : Prop) [Decidable bad] (e : ε) : Except ε Unit :=
  if bad then .error e else .ok ()

theorem refuseIf_eq_ok {bad : Prop} [Decidable bad] {e : ε} {u : Unit} :
    refuseIf bad e = .ok u ↔ ¬ bad := by
  unfold refuseIf
  split
  · rename_i hbad
    simp [hbad]
  · rename_i hbad
    simp [hbad]

theorem refuseIf_of_not {bad : Prop} [Decidable bad] {e : ε} (h : ¬ bad) :
    refuseIf bad e = .ok () := if_neg h

/-- The value that is there, or a failure. -/
def orThrow (x : Option α) (e : ε) : Except ε α :=
  match x with
  | some a => .ok a
  | none => .error e

theorem orThrow_eq_ok {x : Option α} {e : ε} {a : α} : orThrow x e = .ok a ↔ x = some a := by
  cases x with
  | none => simp [orThrow]
  | some b => simp [orThrow]

/-- A loop whose turns all return collects their results. -/
theorem mapM_eq_ok {f : α → Except ε β} {g : α → β} {l : List α} (h : ∀ a ∈ l, f a = .ok (g a)) :
    l.mapM f = .ok (l.map g) := by
  induction l with
  | nil => rfl
  | cons a l ih =>
    rw [List.mapM_cons, h a List.mem_cons_self, ih fun b hb => h b (List.mem_cons_of_mem _ hb)]
    rfl

/-! ## Postconditions -/

/-- `x` ends well when a result meets `onOk` and an early exit meets `onError`. -/
def Meets (x : Except ε α) (onOk : α → Prop) (onError : ε → Prop) : Prop :=
  match x with
  | .ok a => onOk a
  | .error e => onError e

@[simp] theorem meets_ok {a : α} {onOk : α → Prop} {onError : ε → Prop} :
    Meets (.ok a : Except ε α) onOk onError ↔ onOk a := Iff.rfl

@[simp] theorem meets_error {e : ε} {onOk : α → Prop} {onError : ε → Prop} :
    Meets (.error e : Except ε α) onOk onError ↔ onError e := Iff.rfl

/-- The rule of sequencing: an early exit of the first part ends the whole. -/
theorem Meets.bind {x : Except ε α} {f : α → Except ε β} {mid : α → Prop} {onOk : β → Prop}
    {onError : ε → Prop} (hx : Meets x mid onError)
    (hf : ∀ a, mid a → Meets (f a) onOk onError) : Meets (x >>= f) onOk onError := by
  cases x with
  | error e => exact hx
  | ok a => exact hf a hx

theorem Meets.mono {x : Except ε α} {onOk onOk' : α → Prop} {onError onError' : ε → Prop}
    (h : Meets x onOk onError) (hok : ∀ a, onOk a → onOk' a)
    (herror : ∀ e, onError e → onError' e) : Meets x onOk' onError' := by
  cases x with
  | error e => exact herror e h
  | ok a => exact hok a h

/-- Every failure of `x` is one of `allowed`. -/
def Throws (x : Except ε α) (allowed : ε → Prop) : Prop := Meets x (fun _ => True) allowed

section Throws

variable {allowed : ε → Prop}

theorem Throws.ok (a : α) : Throws (.ok a : Except ε α) allowed := trivial

theorem Throws.error {e : ε} (he : allowed e) : Throws (.error e : Except ε α) allowed := he

theorem Throws.bind {x : Except ε α} {f : α → Except ε β} (hx : Throws x allowed)
    (hf : ∀ a, Throws (f a) allowed) : Throws (x >>= f) allowed :=
  Meets.bind hx fun a _ => hf a

theorem Throws.refuseIf {bad : Prop} [Decidable bad] {e : ε} (he : allowed e) :
    Throws (refuseIf bad e) allowed := by
  unfold Library.refuseIf
  split
  · exact Throws.error he
  · exact Throws.ok ()

theorem Throws.orThrow {x : Option α} {e : ε} (he : allowed e) :
    Throws (orThrow x e) allowed := by
  cases x with
  | none => exact Throws.error he
  | some a => exact Throws.ok a

theorem Throws.mapError {ε' : Type} {f : ε' → ε} {x : Except ε' α} (hf : ∀ e, allowed (f e)) :
    Throws (x.mapError f) allowed := by
  cases x with
  | error e => exact Throws.error (hf e)
  | ok a => exact Throws.ok a

end Throws

end SupabaseLab.Library
