/-
  Library/Process.lean --- a process that talks to a world and may die on the way.

  A process changes the world by requests.  What becomes of one request is its
  `Fate`: the answer arrives; the world refuses; the world carries it out and the
  answer is lost; or the process is killed, before the request or after it.  So a
  crash between any two requests is a fate, and a run under a script of fates is
  a function.

  `Ensures P x Q E` is the Hoare triple of a process: from a world that meets `P`
  it returns in one that meets `Q`, or stops early in one that meets `E`.
-/
import SupabaseLab.Library.Except

set_option autoImplicit false

namespace SupabaseLab.Library

variable {σ ε α β : Type}

/-- How a process ends before its end. -/
inductive Stop (ε : Type) where
  | threw (e : ε)
  | crashed
  deriving DecidableEq, Repr

/-- A process over the worlds `σ`. -/
def Process (σ ε α : Type) : Type := σ → Except (Stop ε) α × σ

namespace Process

instance : Monad (Process σ ε) where
  pure a s := (.ok a, s)
  bind x f s :=
    match x s with
    | (.ok a, s') => f a s'
    | (.error stop, s') => (.error stop, s')

/-- Throws `e`. -/
def fail (e : ε) : Process σ ε α := fun s => (.error (.threw e), s)

/-- The process is killed. -/
def die : Process σ ε α := fun s => (.error .crashed, s)

/-- `try x catch e`, with what was thrown as the result. -/
def attempt (x : Process σ ε α) : Process σ ε (Except ε α) := fun s =>
  match x s with
  | (.ok a, s') => (.ok (.ok a), s')
  | (.error (.threw e), s') => (.ok (.error e), s')
  | (.error .crashed, s') => (.error .crashed, s')

/-- A computation that touches nothing. -/
def ofExcept (x : Except ε α) : Process σ ε α := fun s => (x.mapError .threw, s)

/-- A change of the world that is no request: bookkeeping. -/
def note (f : σ → σ) : Process σ ε Unit := fun s => (.ok (), f s)

/-! ## Requests -/

/-- What becomes of a request. -/
inductive Fate (ε : Type) where
  | answered
  | refused (e : ε)
  | lost (e : ε)
  | crashedBefore
  | crashedAfter
  deriving DecidableEq, Repr

/-- A request the world answers by `op`. -/
def request (fate : Fate ε) (op : σ → Except ε α × σ) : Process σ ε α := fun s =>
  match fate with
  | .answered => ((op s).1.mapError .threw, (op s).2)
  | .refused e => (.error (.threw e), s)
  | .lost e => (.error (.threw e), (op s).2)
  | .crashedBefore => (.error .crashed, s)
  | .crashedAfter => (.error .crashed, (op s).2)

/-! ## Triples -/

/-- From a world that meets `P` the process returns in one that meets `Q`, or
stops early in one that meets `E`. -/
def Ensures (P : σ → Prop) (x : Process σ ε α) (Q : α → σ → Prop) (E : Stop ε → σ → Prop) :
    Prop :=
  ∀ s, P s →
    match x s with
    | (.ok a, s') => Q a s'
    | (.error stop, s') => E stop s'

section Rules

variable {P P' : σ → Prop} {Q Q' : α → σ → Prop} {R : β → σ → Prop} {E E' : Stop ε → σ → Prop}
  {x : Process σ ε α} {f : α → Process σ ε β}

theorem Ensures.pure {a : α} (h : ∀ s, P s → Q a s) : Ensures P (Pure.pure a : Process σ ε α) Q E :=
  fun s hs => h s hs

theorem Ensures.bind (hx : Ensures P x Q E) (hf : ∀ a, Ensures (Q a) (f a) R E) :
    Ensures P (x >>= f) R E := by
  intro s hs
  have hfirst := hx s hs
  show match (match x s with
    | (.ok a, s') => f a s'
    | (.error stop, s') => (.error stop, s')) with
    | (.ok b, s') => R b s'
    | (.error stop, s') => E stop s'
  revert hfirst
  rcases x s with ⟨stop | a, s'⟩
  · exact fun hfirst => hfirst
  · exact fun hfirst => hf a s' hfirst

theorem Ensures.mono (h : Ensures P x Q E) (hpre : ∀ s, P' s → P s) (hpost : ∀ a s, Q a s → Q' a s)
    (hexit : ∀ stop s, E stop s → E' stop s) : Ensures P' x Q' E' := by
  intro s hs
  have hrun := h s (hpre s hs)
  revert hrun
  rcases x s with ⟨stop | a, s'⟩
  · exact fun hrun => hexit stop s' hrun
  · exact fun hrun => hpost a s' hrun

theorem Ensures.pre (h : Ensures P x Q E) (hpre : ∀ s, P' s → P s) : Ensures P' x Q E :=
  h.mono hpre (fun _ _ hq => hq) fun _ _ he => he

theorem Ensures.post (h : Ensures P x Q E) (hpost : ∀ a s, Q a s → Q' a s) : Ensures P x Q' E :=
  h.mono (fun _ hp => hp) hpost fun _ _ he => he

/-- What holds before and does not speak of the world may be assumed. -/
theorem Ensures.assume {φ : Prop} (h : φ → Ensures P x Q E) :
    Ensures (fun s => φ ∧ P s) x Q E :=
  fun s hs => h hs.1 s hs.2

theorem Ensures.fail {e : ε} (h : ∀ s, P s → E (.threw e) s) :
    Ensures P (Process.fail e : Process σ ε α) Q E :=
  fun s hs => h s hs

theorem Ensures.die (h : ∀ s, P s → E .crashed s) :
    Ensures P (Process.die : Process σ ε α) Q E :=
  fun s hs => h s hs

/-- What was thrown is a result like another; a crash is not caught. -/
theorem Ensures.attempt {Q : Except ε α → σ → Prop}
    (hx : Ensures P x (fun a => Q (.ok a)) fun
      | .threw e => Q (.error e)
      | .crashed => E .crashed) :
    Ensures P (Process.attempt x) Q E := by
  intro s hs
  have hrun := hx s hs
  unfold Process.attempt
  revert hrun
  rcases x s with ⟨(e | _) | a, s'⟩
  · exact fun hrun => hrun
  · exact fun hrun => hrun
  · exact fun hrun => hrun

theorem Ensures.ofExcept {y : Except ε α} (hok : ∀ a s, y = .ok a → P s → Q a s)
    (herror : ∀ e s, y = .error e → P s → E (.threw e) s) :
    Ensures P (Process.ofExcept y) Q E := by
  intro s hs
  cases y with
  | ok a => exact hok a s rfl hs
  | error e => exact herror e s rfl hs

theorem Ensures.note {g : σ → σ} {Q : Unit → σ → Prop} (h : ∀ s, P s → Q () (g s)) :
    Ensures P (Process.note g : Process σ ε Unit) Q E :=
  fun s hs => h s hs

/-- The rule of a request.  `E` must hold of the world as it was and of the world
as the request leaves it, whatever the reason for stopping there. -/
theorem Ensures.request {fate : Fate ε} {op : σ → Except ε α × σ}
    (hok : ∀ s a, P s → (op s).1 = .ok a → Q a (op s).2)
    (herror : ∀ s e, P s → (op s).1 = .error e → E (.threw e) (op s).2)
    (hfate : fate ≠ .answered → ∀ s, P s → ∀ stop, E stop s ∧ E stop (op s).2) :
    Ensures P (Process.request fate op) Q E := by
  intro s hs
  cases fate with
  | answered =>
    show match (((op s).1.mapError .threw, (op s).2) : Except (Stop ε) α × σ) with
      | (.ok a, s') => Q a s'
      | (.error stop, s') => E stop s'
    cases hop : (op s).1 with
    | ok a => exact hok s a hs hop
    | error e => exact herror s e hs hop
  | refused e => exact (hfate (fun h => by cases h) s hs _).1
  | lost e => exact (hfate (fun h => by cases h) s hs _).2
  | crashedBefore => exact (hfate (fun h => by cases h) s hs _).1
  | crashedAfter => exact (hfate (fun h => by cases h) s hs _).2

/-- A request that keeps `P` keeps it whatever becomes of the request. -/
theorem Ensures.request_kept {fate : Fate ε} {op : σ → Except ε α × σ}
    (h : ∀ s, P s → P (op s).2) :
    Ensures P (Process.request fate op) (fun _ => P) fun _ => P :=
  Ensures.request (fun s _ hs _ => h s hs) (fun s _ hs _ => h s hs)
    fun _ s hs _ => ⟨hs, h s hs⟩

/-- The rule of a loop over a list, with an invariant on what it carries. -/
theorem Ensures.foldlM {γ ι : Type} {I : γ → σ → Prop} {body : γ → ι → Process σ ε γ}
    (hbody : ∀ acc x, Ensures (I acc) (body acc x) I E) (l : List ι) (init : γ) :
    Ensures (I init) (l.foldlM body init) I E := by
  induction l generalizing init with
  | nil => exact Ensures.pure fun _ hs => hs
  | cons x l ih =>
    rw [List.foldlM_cons]
    exact Ensures.bind (hbody init x) ih

/-- The rule of a counting loop, with an invariant on the turns done. -/
theorem Ensures.forRange {γ : Type} {n : Nat} {init : γ} {body : γ → Nat → Process σ ε γ}
    {I : Nat → γ → σ → Prop}
    (hbody : ∀ p, p < n → ∀ acc, Ensures (I p acc) (body acc p) (I (p + 1)) E) :
    Ensures (I 0 init) ((List.range n).foldlM body init) (I n) E := by
  have hfrom : ∀ k p, p + k = n → ∀ acc,
      Ensures (I p acc) ((List.range' p k).foldlM body acc) (I n) E := by
    intro k
    induction k with
    | zero =>
      intro p hp acc
      rw [Nat.add_zero] at hp
      rw [List.range'_zero, List.foldlM_nil, hp]
      exact Ensures.pure fun _ hs => hs
    | succ k ih =>
      intro p hp acc
      rw [List.range'_succ, List.foldlM_cons]
      exact Ensures.bind (hbody p (by omega) acc) fun acc' => ih (p + 1) (by omega) acc'
  rw [List.range_eq_range']
  exact hfrom n 0 (Nat.zero_add n) init

/-- A triple, read at a run that returned. -/
theorem Ensures.returned (h : Ensures P x Q E) {s s' : σ} {a : α} (hs : P s)
    (hrun : x s = (.ok a, s')) : Q a s' := by
  have hx := h s hs
  rw [hrun] at hx
  exact hx

/-- A triple, read at a run that stopped early. -/
theorem Ensures.stopped (h : Ensures P x Q E) {s s' : σ} {stop : Stop ε} (hs : P s)
    (hrun : x s = (.error stop, s')) : E stop s' := by
  have hx := h s hs
  rw [hrun] at hx
  exact hx

/-- What holds in the end, returned or not. -/
theorem Ensures.leaves {S : σ → Prop} (h : Ensures P x (fun _ => S) fun _ => S) {s : σ} (hs : P s) :
    S (x s).2 := by
  have hx := h s hs
  revert hx
  rcases x s with ⟨stop | a, s'⟩
  · exact fun hx => hx
  · exact fun hx => hx

/-- A process that cannot stop early returns. -/
theorem Ensures.returns (h : Ensures P x Q fun _ _ => False) {s : σ} (hs : P s) :
    ∃ a s', x s = (.ok a, s') ∧ Q a s' := by
  have hx := h s hs
  revert hx
  rcases hrun : x s with ⟨stop | a, s'⟩
  · exact fun hx => hx.elim
  · exact fun hx => ⟨a, s', rfl, hx⟩

end Rules

end Process

end SupabaseLab.Library
