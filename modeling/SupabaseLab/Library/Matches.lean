/-
  Library/Matches.lean --- every match of an expression in a text, from left to right.

  An expression without assertions does not see what stands before it, and what it
  cannot read ends every match.  So the matches in a text are those in its runs: the
  stretches of letters that the expression can read.  An optional sign before an
  expression changes the first match of a run and no other.

  A text from which pieces were taken out has the same runs, but for those next to a
  piece.
-/
import SupabaseLab.Library.Replace

set_option autoImplicit false

namespace SupabaseLab.Library

variable {r : Regex} {k : CharClass} {p q : Place} {b t : List Char}

/-- `text.matchAll(/r/g)` from a place on.  An expression here takes at least one letter. -/
def matchesFrom (r : Regex) : ℕ → Place → List (List Char)
  | 0, _ => []
  | n + 1, p =>
    match (r.ends p).head?.filter fun q => q.after.length < p.after.length with
    | some q => p.after.take (p.after.length - q.after.length) :: matchesFrom r n q
    | none =>
      match p.after with
      | [] => []
      | c :: rest => matchesFrom r n ⟨c :: p.before, rest⟩

def matchAll (r : Regex) (text : List Char) : List (List Char) :=
  matchesFrom r text.length ⟨[], text⟩

/-! ## Expressions without assertions -/

/-- No lookaround and no boundary. -/
def Regex.Plain : Regex → Prop
  | .empty | .char _ => True
  | .seq r s | .alt r s => r.Plain ∧ s.Plain
  | .star r => r.Plain
  | .ahead _ _ | .behind _ _ | .boundary => False

/-- The place in a longer text. -/
def Place.within (p : Place) (b t : List Char) : Place := ⟨p.before ++ b, p.after ++ t⟩

theorem starEnds_fuel {step : Place → List Place} {n m : ℕ} (hn : p.after.length ≤ n)
    (hm : p.after.length ≤ m) : starEnds step n p = starEnds step m p := by
  have hdone : ∀ n (p : Place), p.after.length = 0 → starEnds step n p = [p] := by
    intro n p hp
    cases n with
    | zero => rfl
    | succ n =>
      have hnone : ((step p).filter fun q => q.after.length < p.after.length) = [] := by
        refine List.filter_eq_nil_iff.mpr fun q _ hlt => ?_
        have := of_decide_eq_true hlt
        omega
      rw [starEnds, hnone, List.flatMap_nil, List.nil_append]
  induction n generalizing m p with
  | zero => rw [hdone 0 p (by omega), hdone m p (by omega)]
  | succ n ih =>
    cases m with
    | zero => rw [hdone (n + 1) p (by omega), hdone 0 p (by omega)]
    | succ m =>
      rw [starEnds, starEnds]
      refine congrArg (· ++ [p]) (List.flatMap_congr fun q hq => ?_)
      have := of_decide_eq_true (List.mem_filter.mp hq).2
      exact ih (by omega) (by omega)

/-- **What an expression cannot read ends its matches.** -/
theorem ends_within (hr : r.Plain) (hk : r.Takes (k · = true)) (ht : ∀ c ∈ t.head?, k c = false)
    (p : Place) : r.ends (p.within b t) = (r.ends p).map (·.within b t) := by
  induction r generalizing p with
  | empty => rfl
  | char class_ =>
    obtain ⟨before, after⟩ := p
    cases after with
    | nil =>
      cases t with
      | nil => rfl
      | cons c t =>
        have hc : class_ c = false := by
          rw [Bool.eq_false_iff]
          intro hc
          have hread : k c = true := hk c hc
          rw [ht c rfl] at hread
          cases hread
        show (if class_ c then _ else []) = _
        rw [if_neg (Bool.eq_false_iff.mp hc)]
        rfl
    | cons c after =>
      show (if class_ c then _ else []) = List.map _ (if class_ c then _ else [])
      split
      · rfl
      · rfl
  | seq r s ihr ihs =>
    rw [Regex.ends, Regex.ends, ihr hr.1 hk.1, List.flatMap_map, List.map_flatMap]
    exact List.flatMap_congr fun m _ => ihs hr.2 hk.2 m
  | alt r s ihr ihs => rw [Regex.ends, Regex.ends, ihr hr.1 hk.1, ihs hr.2 hk.2, List.map_append]
  | star r ih =>
    have hsteps : ∀ n (p : Place), starEnds r.ends n (p.within b t) =
        (starEnds r.ends n p).map (·.within b t) := by
      intro n
      induction n with
      | zero => exact fun _ => rfl
      | succ n ihn =>
        intro p
        have hlength : ∀ q : Place, decide ((q.within b t).after.length < (p.within b t).after.length) =
            decide (q.after.length < p.after.length) := by
          intro q
          simp [Place.within]
        rw [starEnds, starEnds, ih hr hk, List.filter_map, List.flatMap_map, List.map_append,
          List.map_flatMap]
        refine congrArg₂ (· ++ ·) ?_ rfl
        have hfilter : ((fun q : Place => decide (q.after.length < (p.within b t).after.length)) ∘
            fun q : Place => q.within b t) = fun q => decide (q.after.length < p.after.length) :=
          funext hlength
        rw [hfilter]
        exact List.flatMap_congr fun q _ => ihn q
    rw [Regex.ends, Regex.ends, hsteps]
    refine congrArg (List.map _) (starEnds_fuel ?_ le_rfl)
    rw [Place.within, List.length_append]
    exact Nat.le_add_right _ _
  | ahead => exact hr.elim
  | behind => exact hr.elim
  | boundary => exact hr.elim

/-- What follows the match that begins where the text does. -/
def Regex.rest? (r : Regex) (t : List Char) : Option (List Char) :=
  ((r.ends ⟨[], t⟩).head?.filter fun q => q.after.length < t.length).map Place.after

theorem Regex.rest?_nil (r : Regex) : r.rest? [] = none := by
  rw [Regex.rest?, Option.map_eq_none_iff, Option.filter_eq_none_iff]
  exact fun q _ hlt => absurd (of_decide_eq_true hlt) (Nat.not_lt_zero _)

theorem Regex.length_rest?_lt {rest : List Char} (h : r.rest? t = some rest) :
    rest.length < t.length := by
  obtain ⟨q, hq, rfl⟩ := Option.map_eq_some_iff.mp h
  exact of_decide_eq_true (Option.filter_eq_some_iff.mp hq).2

/-- A search for matches skips a letter, or goes on behind a match. -/
theorem Regex.search_induction (r : Regex) {motive : List Char → Prop} (nil : motive [])
    (skip : ∀ c t, r.rest? (c :: t) = none → motive t → motive (c :: t))
    (found : ∀ c t rest, r.rest? (c :: t) = some rest → motive rest → motive (c :: t))
    (t : List Char) : motive t := by
  induction hn : t.length using Nat.strong_induction_on generalizing t with
  | _ n ih =>
    cases t with
    | nil => exact nil
    | cons c t =>
      cases hrest : r.rest? (c :: t) with
      | none => exact skip c t hrest (ih t.length (by rw [← hn]; exact Nat.lt_succ_self _) t rfl)
      | some rest =>
        exact found c t rest hrest (ih rest.length (hn ▸ Regex.length_rest?_lt hrest) rest rfl)

section Plain

variable (hr : r.Plain) (hk : r.Takes (k · = true))

include hr hk

theorem found_within (b t : List Char) :
    ((r.ends ⟨b, t⟩).head?.filter fun q => q.after.length < t.length) =
      ((r.ends ⟨[], t⟩).head?.filter fun q => q.after.length < t.length).map (·.within b []) := by
  have hends := ends_within (b := b) (t := []) hr hk (by simp) ⟨[], t⟩
  have hplace : (⟨[], t⟩ : Place).within b [] = ⟨b, t⟩ := by
    rw [Place.within, List.append_nil, List.nil_append]
  rw [hplace] at hends
  rw [hends, List.head?_map, Option.filter_map]
  simp [Place.within, Function.comp_def]

omit hr hk in
theorem matchesFrom_nil {n : ℕ} (h : p.after = []) : matchesFrom r n p = [] := by
  cases n with
  | zero => rfl
  | succ n =>
    have hnone : ((r.ends p).head?.filter fun q => q.after.length < p.after.length) = none := by
      refine Option.filter_eq_none_iff.mpr fun q _ hlt => ?_
      rw [h] at hlt
      exact absurd (of_decide_eq_true hlt) (Nat.not_lt_zero _)
    rw [matchesFrom, hnone, h]

/-- What stands before a text does not matter to its matches. -/
theorem matchesFrom_eq {n : ℕ} (hn : p.after.length ≤ n) : matchesFrom r n p = matchAll r p.after := by
  have hcongr : ∀ n m b b' (t : List Char), t.length ≤ n → t.length ≤ m →
      matchesFrom r n ⟨b, t⟩ = matchesFrom r m ⟨b', t⟩ := by
    intro n
    induction n with
    | zero =>
      intro m b b' t hn _
      have ht := List.eq_nil_of_length_eq_zero (Nat.le_zero.mp hn)
      rw [matchesFrom_nil ht, matchesFrom_nil ht]
    | succ n ih =>
      intro m b b' t hn hm
      cases m with
      | zero =>
        have ht := List.eq_nil_of_length_eq_zero (Nat.le_zero.mp hm)
        rw [matchesFrom_nil ht, matchesFrom_nil ht]
      | succ m =>
        rw [matchesFrom, matchesFrom]
        dsimp only
        rw [found_within hr hk b t, found_within hr hk b' t]
        cases hfound : (r.ends ⟨[], t⟩).head?.filter fun q => q.after.length < t.length with
        | none =>
          cases t with
          | nil => rfl
          | cons c t => exact ih m _ _ t (Nat.le_of_succ_le_succ hn) (Nat.le_of_succ_le_succ hm)
        | some q =>
          have hlt := of_decide_eq_true (Option.filter_eq_some_iff.mp hfound).2
          refine congrArg (_ :: ·) (ih m _ _ (q.after ++ []) ?_ ?_)
          · rw [List.append_nil]
            omega
          · rw [List.append_nil]
            omega
  exact hcongr n p.after.length p.before [] p.after hn le_rfl

/-- The first match, and those in what follows it. -/
theorem matchAll_eq (t : List Char) : matchAll r t =
    match r.rest? t with
    | some rest => t.take (t.length - rest.length) :: matchAll r rest
    | none => matchAll r t.tail := by
  cases t with
  | nil =>
    rw [Regex.rest?_nil]
    rfl
  | cons c t =>
    rw [matchAll, List.length_cons, matchesFrom, Regex.rest?]
    cases hfound : (r.ends ⟨[], c :: t⟩).head?.filter fun q => q.after.length < (c :: t).length with
    | none => exact matchesFrom_eq (p := ⟨[c], t⟩) hr hk le_rfl
    | some q =>
      have hlt := of_decide_eq_true (Option.filter_eq_some_iff.mp hfound).2
      refine congrArg (_ :: ·) (matchesFrom_eq hr hk ?_)
      exact Nat.le_of_lt_succ hlt

theorem rest?_append (ht : ∀ c ∈ t.head?, k c = false) (x : List Char) :
    r.rest? (x ++ t) = (r.rest? x).map (· ++ t) := by
  have hends := ends_within (b := []) hr hk ht ⟨[], x⟩
  rw [Regex.rest?, Regex.rest?]
  show Option.map _ (Option.filter _ (r.ends (Place.within ⟨[], x⟩ [] t)).head?) = _
  rw [hends, List.head?_map, Option.filter_map, Option.map_map, Option.map_map]
  have hlength : ((fun q : Place => decide (q.after.length < (x ++ t).length)) ∘
      fun q : Place => q.within [] t) = fun q => decide (q.after.length < x.length) := by
    funext q
    simp [Place.within]
  rw [hlength]
  rfl

/-- Matches are found part by part, where the first match in a text is found in the first part. -/
theorem matchAll_append_of (h : ∀ x, x ≠ [] → r.rest? (x ++ t) = (r.rest? x).map (· ++ t))
    (x : List Char) : matchAll r (x ++ t) = matchAll r x ++ matchAll r t := by
  induction x using r.search_induction with
  | nil => rfl
  | skip c x hrest ih =>
    rw [matchAll_eq hr hk (c :: x ++ t), matchAll_eq hr hk (c :: x), h _ (List.cons_ne_nil c x), hrest]
    exact ih
  | found c x rest hrest ih =>
    rw [matchAll_eq hr hk (c :: x ++ t), matchAll_eq hr hk (c :: x), h _ (List.cons_ne_nil c x), hrest,
      Option.map_some]
    dsimp only
    rw [ih, List.length_append, List.length_append, Nat.add_sub_add_right,
      List.take_append_of_le_length (Nat.sub_le _ _)]
    rfl

theorem matchAll_append (ht : ∀ c ∈ t.head?, k c = false) (x : List Char) :
    matchAll r (x ++ t) = matchAll r x ++ matchAll r t :=
  matchAll_append_of hr hk (fun x _ => rest?_append hr hk ht x) x

theorem matchAll_cons {c : Char} (hc : k c = false) (t : List Char) :
    matchAll r (c :: t) = matchAll r t := by
  have hnone : r.rest? (c :: t) = none := by
    have := rest?_append (t := c :: t) hr hk (by rintro d ⟨⟩; exact hc) []
    rw [List.nil_append, Regex.rest?_nil] at this
    exact this
  rw [matchAll_eq hr hk, hnone]
  rfl

/-- **A letter that cannot be read parts the matches.** -/
theorem matchAll_append_cons {c : Char} (hc : k c = false) (x t : List Char) :
    matchAll r (x ++ c :: t) = matchAll r x ++ matchAll r t := by
  rw [matchAll_append (t := c :: t) hr hk (by rintro d ⟨⟩; exact hc), matchAll_cons hr hk hc]

omit hr in
theorem rest?_spec {rest : List Char} (h : r.rest? t = some rest) :
    ∃ w, t = w ++ rest ∧ ∀ c ∈ w, k c = true := by
  obtain ⟨q, hq, rfl⟩ := Option.map_eq_some_iff.mp h
  obtain ⟨w, hover, hw⟩ := exists_over hk (List.mem_of_mem_head? (Option.filter_eq_some_iff.mp hq).1)
  exact ⟨w, hover.1, hw⟩

/-- A match is made of letters that can be read. -/
theorem letters_of_mem_matchAll {w : List Char} (h : w ∈ matchAll r t) : ∀ c ∈ w, k c = true := by
  induction t using r.search_induction with
  | nil => cases h
  | skip c t hrest ih =>
    rw [matchAll_eq hr hk, hrest] at h
    exact ih h
  | found c t rest hrest ih =>
    rw [matchAll_eq hr hk, hrest] at h
    rcases List.mem_cons.mp h with rfl | h
    · obtain ⟨w, hw, hletters⟩ := rest?_spec hk hrest
      rw [hw, List.length_append, Nat.add_sub_cancel, List.take_left]
      exact hletters
    · exact ih h

end Plain

/-! ## Runs -/

/-- A text from which pieces were taken out; `none` stands for a piece. -/
abbrev Gapped : Type := List (Option Char)

/-- The text with a blank for each piece. -/
def Gapped.text (m : Gapped) : List Char := m.map (·.getD ' ')

/-- Letters next to one another, with what stands on both sides: the end of the text, a piece
that was taken out, or a letter. -/
structure LetterRun where
  left : Option (Option Char)
  letters : List Char
  right : Option (Option Char)
  deriving DecidableEq

/-- No piece was taken out beside the run. -/
def LetterRun.Whole (run : LetterRun) : Prop := run.left ≠ some none ∧ run.right ≠ some none

instance (run : LetterRun) : Decidable run.Whole := inferInstanceAs (Decidable (_ ∧ _))

/-- A run that ends here, if there is one. -/
def letterRunEnding (left : Option (Option Char)) (letters : List Char) (right : Option (Option Char)) :
    List LetterRun :=
  if letters = [] then [] else [⟨left, letters, right⟩]

/-- The runs of letters of a class, where one has begun. -/
def letterRunsFrom (k : CharClass) : Option (Option Char) → List Char → Gapped → List LetterRun
  | left, letters, [] => letterRunEnding left letters none
  | left, letters, none :: m =>
      letterRunEnding left letters (some none) ++ letterRunsFrom k (some none) [] m
  | left, letters, some c :: m =>
      if k c then letterRunsFrom k left (letters ++ [c]) m
      else letterRunEnding left letters (some (some c)) ++ letterRunsFrom k (some (some c)) [] m

def letterRuns (k : CharClass) (m : Gapped) : List LetterRun := letterRunsFrom k none [] m

section Runs

variable {left right : Option (Option Char)} {letters : List Char} {m : Gapped} {run : LetterRun}

theorem mem_letterRunEnding (h : run ∈ letterRunEnding left letters right) :
    run = ⟨left, letters, right⟩ := by
  unfold letterRunEnding at h
  split at h
  · cases h
  · exact List.mem_singleton.mp h

theorem flatMap_letterRunEnding {β : Type} {f : LetterRun → List β} (hnone : f ⟨left, [], right⟩ = []) :
    (letterRunEnding left letters right).flatMap f = f ⟨left, letters, right⟩ := by
  unfold letterRunEnding
  split
  · rename_i hnil
    rw [hnil, hnone]
    rfl
  · exact List.flatMap_singleton _ _

/-- A letter goes on the run that has begun, or ends it. -/
theorem mem_letterRunsFrom_some {c : Char} : run ∈ letterRunsFrom k left letters (some c :: m) ↔
    k c = true ∧ run ∈ letterRunsFrom k left (letters ++ [c]) m ∨
    k c = false ∧ (run ∈ letterRunEnding left letters (some (some c)) ∨
      run ∈ letterRunsFrom k (some (some c)) [] m) := by
  rw [letterRunsFrom]
  cases k c with
  | true => simp
  | false => simp

theorem letters_of_mem_letterRunsFrom (hletters : ∀ c ∈ letters, k c = true)
    (h : run ∈ letterRunsFrom k left letters m) : ∀ c ∈ run.letters, k c = true := by
  induction m generalizing left letters with
  | nil =>
    rw [mem_letterRunEnding h]
    exact hletters
  | cons x m ih =>
    cases x with
    | none =>
      rcases List.mem_append.mp h with h | h
      · rw [mem_letterRunEnding h]
        exact hletters
      · exact ih (List.forall_mem_nil _) h
    | some c =>
      rcases mem_letterRunsFrom_some.mp h with ⟨hc, h⟩ | ⟨-, h | h⟩
      · refine ih (List.forall_mem_append.mpr ⟨hletters, ?_⟩) h
        exact List.forall_mem_singleton.mpr hc
      · rw [mem_letterRunEnding h]
        exact hletters
      · exact ih (List.forall_mem_nil _) h

/-- **The matches in a text are those in its runs.** -/
theorem matchAll_letterRunsFrom (hr : r.Plain) (hk : r.Takes (k · = true)) (hspace : k ' ' = false)
    (left : Option (Option Char)) (letters : List Char) (m : Gapped) :
    matchAll r (letters ++ Gapped.text m) =
      (letterRunsFrom k left letters m).flatMap fun run => matchAll r run.letters := by
  have hending : ∀ left letters right, (letterRunEnding left letters right).flatMap
      (fun run => matchAll r run.letters) = matchAll r letters := fun _ _ _ =>
    flatMap_letterRunEnding rfl
  induction m generalizing left letters with
  | nil => rw [letterRunsFrom, hending, Gapped.text, List.map_nil, List.append_nil]
  | cons x m ih =>
    cases x with
    | none =>
      rw [letterRunsFrom, List.flatMap_append, hending, ← ih]
      exact matchAll_append_cons hr hk hspace letters _
    | some c =>
      rw [letterRunsFrom]
      split
      · rw [← ih, List.append_assoc]
        rfl
      · rename_i hc
        rw [List.flatMap_append, hending, ← ih]
        exact matchAll_append_cons hr hk (Bool.eq_false_iff.mpr hc) letters _

/-! ## A sign before an expression -/

/-- `m?r`, for a letter `m`. -/
def Regex.signed (sign : Char) (r : Regex) : Regex := .seq (.opt (.char fun c => c = sign)) r

variable {sign : Char}

theorem Regex.plain_signed (hr : r.Plain) : (Regex.signed sign r).Plain := ⟨⟨trivial, trivial⟩, hr⟩

theorem Regex.takes_signed (hk : r.Takes (k · = true)) :
    (Regex.signed sign r).Takes (fun c => (k c || decide (c = sign)) = true) := by
  have hmono : ∀ r : Regex, r.Takes (k · = true) →
      r.Takes (fun c => (k c || decide (c = sign)) = true) := by
    intro r hr
    induction r with
    | char => exact fun c hc => Bool.or_eq_true_iff.mpr (.inl (hr c hc))
    | seq _ _ ihr ihs => exact ⟨ihr hr.1, ihs hr.2⟩
    | alt _ _ ihr ihs => exact ⟨ihr hr.1, ihs hr.2⟩
    | star _ ih => exact ih hr
    | _ => trivial
  refine ⟨⟨fun c hc => ?_, trivial⟩, hmono r hk⟩
  exact Bool.or_eq_true_iff.mpr (.inr hc)

theorem rest?_signed_of_ne {c : Char} (hc : c ≠ sign) (t : List Char) :
    (Regex.signed sign r).rest? (c :: t) = r.rest? (c :: t) := by
  have hends : (Regex.signed sign r).ends ⟨[], c :: t⟩ = r.ends ⟨[], c :: t⟩ := by
    show ((if decide (c = sign) = true then _ else []) ++ [_]).flatMap r.ends = _
    rw [if_neg (by simpa using hc), List.nil_append]
    exact List.flatMap_singleton _ _
  rw [Regex.rest?, Regex.rest?, hends]

/-- The sign on the left of a run. -/
def signBefore (sign : Char) (left : Option (Option Char)) : List Char :=
  if left = some (some sign) then [sign] else []

/-- A match begins where the run does, and a sign stands before it. -/
def LetterRun.Signed (sign : Char) (r : Regex) (run : LetterRun) : Prop :=
  run.left = some (some sign) ∧ (r.rest? run.letters).isSome = true

instance (run : LetterRun) : Decidable (run.Signed sign r) := inferInstanceAs (Decidable (_ ∧ _))

/-- The matches in a run that no sign belongs to. -/
def unsignedMatches (sign : Char) (r : Regex) (run : LetterRun) : List (List Char) :=
  if run.Signed sign r then (matchAll r run.letters).tail else matchAll r run.letters

section Signed

variable (hr : r.Plain) (hk : r.Takes (k · = true)) (hsign : k sign = false)
  (hne : ∀ p q, q ∈ r.ends p → q.after.length < p.after.length)

include hr hk hsign hne

/-- Behind a sign the expression is read. -/
theorem rest?_signed (t : List Char) : (Regex.signed sign r).rest? (sign :: t) = r.rest? t := by
  have hnone : r.ends ⟨[], sign :: t⟩ = [] := by
    refine List.eq_nil_iff_forall_not_mem.mpr fun q hq => ?_
    obtain ⟨w, hover, hw⟩ := exists_over hk hq
    have hlt := hne _ _ hq
    cases w with
    | nil =>
      rw [hover.1] at hlt
      exact absurd hlt (lt_irrefl _)
    | cons c w =>
      obtain ⟨rfl, _⟩ := List.cons.inj hover.1
      have hread : k sign = true := hw sign List.mem_cons_self
      rw [hsign] at hread
      cases hread
  have hends : (Regex.signed sign r).ends ⟨[], sign :: t⟩ = r.ends ⟨[sign], t⟩ := by
    show ((if decide (sign = sign) = true then [_] else []) ++ [_]).flatMap r.ends = _
    rw [if_pos (decide_eq_true rfl), List.singleton_append, List.flatMap_cons, List.flatMap_cons,
      hnone, List.nil_append, List.flatMap_nil, List.append_nil]
  have hbefore := ends_within (b := [sign]) (t := []) hr hk (by simp) ⟨[], t⟩
  have hplace : (⟨[], t⟩ : Place).within [sign] [] = ⟨[sign], t⟩ := by
    rw [Place.within, List.append_nil, List.nil_append]
  rw [hplace] at hbefore
  rw [Regex.rest?, Regex.rest?, hends, hbefore, List.head?_map]
  cases hhead : (r.ends ⟨[], t⟩).head? with
  | none => rfl
  | some q =>
    have hlt : q.after.length < t.length := hne _ _ (List.mem_of_mem_head? hhead)
    rw [Option.map_some, Option.filter_some, Option.filter_some, if_pos, if_pos]
    · exact congrArg some (List.append_nil _)
    · exact decide_eq_true hlt
    · rw [decide_eq_true_iff, Place.within, List.append_nil]
      exact Nat.lt_succ_of_lt hlt

theorem matchAll_signed_append (ht : ∀ c ∈ t.head?, k c = false) (x : List Char) :
    matchAll (Regex.signed sign r) (x ++ t) =
      matchAll (Regex.signed sign r) x ++ matchAll (Regex.signed sign r) t := by
  refine matchAll_append_of (Regex.plain_signed hr) (Regex.takes_signed hk) (fun x hx => ?_) x
  obtain ⟨c, x, rfl⟩ := List.exists_cons_of_ne_nil hx
  by_cases hc : c = sign
  · subst hc
    rw [List.cons_append, rest?_signed hr hk hsign hne, rest?_signed hr hk hsign hne,
      rest?_append hr hk ht]
  · rw [List.cons_append, rest?_signed_of_ne hc, rest?_signed_of_ne hc, ← List.cons_append,
      rest?_append hr hk ht]

omit hsign hne in
theorem matchAll_signed_of_not_mem {x : List Char} (h : sign ∉ x) :
    matchAll (Regex.signed sign r) x = matchAll r x := by
  induction x using r.search_induction with
  | nil => rfl
  | skip c x hrest ih =>
    obtain ⟨hc, hx⟩ := not_or.mp (List.mem_cons.not.mp h)
    rw [matchAll_eq (Regex.plain_signed hr) (Regex.takes_signed hk), matchAll_eq hr hk,
      rest?_signed_of_ne (Ne.symm hc), hrest]
    exact ih hx
  | found c x rest hrest ih =>
    obtain ⟨hc, -⟩ := not_or.mp (List.mem_cons.not.mp h)
    obtain ⟨w, hw, -⟩ := rest?_spec hk hrest
    rw [matchAll_eq (Regex.plain_signed hr) (Regex.takes_signed hk), matchAll_eq hr hk,
      rest?_signed_of_ne (Ne.symm hc), hrest]
    exact congrArg (_ :: ·) (ih fun hmem => h (hw ▸ List.mem_append_right w hmem))

/-- The first match behind a sign has it, the others do not. -/
theorem matchAll_signed_cons {x : List Char} (h : sign ∉ x) :
    matchAll (Regex.signed sign r) (sign :: x) =
      match r.rest? x with
      | some rest => (sign :: x.take (x.length - rest.length)) :: matchAll r rest
      | none => matchAll r x := by
  rw [matchAll_eq (Regex.plain_signed hr) (Regex.takes_signed hk), rest?_signed hr hk hsign hne]
  cases hrest : r.rest? x with
  | none => exact matchAll_signed_of_not_mem hr hk h
  | some rest =>
    have hlt := Regex.length_rest?_lt hrest
    obtain ⟨w, hw, -⟩ := rest?_spec hk hrest
    have hnot : sign ∉ rest := fun hmem => h (hw ▸ List.mem_append_right w hmem)
    dsimp only
    rw [matchAll_signed_of_not_mem hr hk hnot, List.length_cons,
      Nat.succ_sub hlt.le, List.take_succ_cons]

theorem matchAll_signed_letterRunsFrom (left : Option (Option Char)) (letters t : List Char) :
    matchAll (Regex.signed sign r) (signBefore sign left ++ letters ++ t) =
      (letterRunsFrom k left letters (t.map some)).flatMap fun run =>
        matchAll (Regex.signed sign r) (signBefore sign run.left ++ run.letters) := by
  have halone : ∀ left, matchAll (Regex.signed sign r) (signBefore sign left) = [] := by
    intro left
    unfold signBefore
    split
    · have hnone := matchAll_signed_cons (x := []) hr hk hsign hne List.not_mem_nil
      rw [Regex.rest?_nil] at hnone
      exact hnone
    · rfl
  have hending : ∀ left letters right, (letterRunEnding left letters right).flatMap
      (fun run => matchAll (Regex.signed sign r) (signBefore sign run.left ++ run.letters)) =
        matchAll (Regex.signed sign r) (signBefore sign left ++ letters) := by
    intro left letters right
    refine flatMap_letterRunEnding ?_
    rw [List.append_nil, halone]
  induction t generalizing left letters with
  | nil => rw [List.map_nil, letterRunsFrom, hending, List.append_nil]
  | cons c t ih =>
    rw [List.map_cons, letterRunsFrom]
    split
    · rw [← ih, List.append_assoc, List.append_assoc, List.append_assoc]
      rfl
    · rename_i hc
      have hc := Bool.eq_false_iff.mpr hc
      rw [List.flatMap_append, hending, ← ih,
        matchAll_signed_append (t := c :: t) hr hk hsign hne (by rintro d ⟨⟩; exact hc)]
      refine congrArg (_ ++ ·) ?_
      unfold signBefore
      by_cases hsame : c = sign
      · rw [hsame, if_pos rfl]
        rfl
      · rw [if_neg fun h => hsame (Option.some.inj (Option.some.inj h))]
        refine matchAll_cons (Regex.plain_signed hr) (Regex.takes_signed hk) ?_ t
        simp [hc, hsame]

/-- **The matches in a text without a sign** are those in its runs that no sign belongs to. -/
theorem mem_matchAll_signed_iff {w : List Char} (hw : w.head? ≠ some sign) :
    w ∈ matchAll (Regex.signed sign r) t ↔
      ∃ run ∈ letterRuns k (t.map some), w ∈ unsignedMatches sign r run := by
  have htext := matchAll_signed_letterRunsFrom hr hk hsign hne none [] t
  have hrun : ∀ run ∈ letterRuns k (t.map some),
      (w ∈ matchAll (Regex.signed sign r) (signBefore sign run.left ++ run.letters) ↔
        w ∈ unsignedMatches sign r run) := by
    intro run hrun
    have hnot : sign ∉ run.letters := by
      intro hmem
      have hread := letters_of_mem_letterRunsFrom (List.forall_mem_nil _) hrun sign hmem
      rw [hsign] at hread
      cases hread
    unfold unsignedMatches signBefore
    by_cases hleft : run.left = some (some sign)
    · rw [if_pos hleft, List.singleton_append, matchAll_signed_cons hr hk hsign hne hnot]
      cases hrest : r.rest? run.letters with
      | none =>
        have hunsigned : ¬ run.Signed sign r := by
          rintro ⟨_, h⟩
          rw [hrest] at h
          cases h
        rw [if_neg hunsigned]
      | some rest =>
        have hsigned : run.Signed sign r := ⟨hleft, by rw [hrest]; rfl⟩
        rw [if_pos hsigned, matchAll_eq hr hk run.letters, hrest, List.tail_cons, List.mem_cons]
        refine or_iff_right ?_
        rintro rfl
        exact hw rfl
    · rw [if_neg hleft, if_neg fun h : run.Signed sign r => hleft h.1, List.nil_append,
        matchAll_signed_of_not_mem hr hk hnot]
  rw [show signBefore sign none ++ [] ++ t = t from rfl] at htext
  rw [htext, List.mem_flatMap]
  exact exists_congr fun run => and_congr_right (hrun run)

end Signed

/-! ## Pieces taken out -/

/-- `text.replace(/r/g, " ")`, with the place of each piece kept in mind. -/
def cutFrom (r : Regex) : ℕ → List Char → Gapped → Gapped
  | 0, _, m => m
  | n + 1, before, m =>
    match (r.ends ⟨before, Gapped.text m⟩).head?.filter fun q => q.after.length < m.length with
    | some q => none :: cutFrom r n q.before (m.drop (m.length - q.after.length))
    | none =>
      match m with
      | [] => []
      | x :: m => x :: cutFrom r n (x.getD ' ' :: before) m

def cutAll (r : Regex) (m : Gapped) : Gapped := cutFrom r m.length [] m

@[simp] theorem Gapped.length_text (m : Gapped) : (Gapped.text m).length = m.length :=
  List.length_map _

/-- What follows a match, with its gaps. -/
theorem text_drop_of_found {before : List Char} (h : q ∈ r.ends ⟨before, Gapped.text m⟩) :
    Gapped.text (m.drop (m.length - q.after.length)) = q.after := by
  obtain ⟨w, hover, -⟩ := exists_over r.takes_any h
  have hlength := congrArg List.length hover.1
  rw [Gapped.length_text, List.length_append] at hlength
  rw [hlength, Nat.add_sub_cancel, Gapped.text, List.map_drop]
  show (Gapped.text m).drop w.length = q.after
  rw [show Gapped.text m = w ++ q.after from hover.1, List.drop_left]

theorem text_cutFrom (n : ℕ) (before : List Char) (m : Gapped) :
    Gapped.text (cutFrom r n before m) = replaceFrom r (fun _ => [' ']) n ⟨before, Gapped.text m⟩ := by
  induction n generalizing before m with
  | zero => rfl
  | succ n ih =>
    rw [cutFrom.eq_def, replaceFrom]
    dsimp only
    rw [Gapped.length_text]
    cases hfound : (r.ends ⟨before, Gapped.text m⟩).head?.filter fun q => q.after.length < m.length with
    | some q =>
      have hq := List.mem_of_mem_head? (Option.filter_eq_some_iff.mp hfound).1
      have hrest := ih q.before (m.drop (m.length - q.after.length))
      rw [text_drop_of_found hq] at hrest
      exact congrArg (' ' :: ·) hrest
    | none =>
      cases m with
      | nil => rfl
      | cons x m => exact congrArg (x.getD ' ' :: ·) (ih (x.getD ' ' :: before) m)

/-- **Taking pieces out** is replacing them by blanks. -/
theorem text_cutAll (r : Regex) (m : Gapped) :
    Gapped.text (cutAll r m) = replaceAll r (fun _ => [' ']) (Gapped.text m) := by
  rw [cutAll, text_cutFrom, replaceAll, Gapped.length_text]

/-- What is left of a text. -/
inductive LeftOf : List Char → Gapped → Prop where
  | nil : LeftOf [] []
  | keep {t : List Char} {m : Gapped} (c : Char) (rest : LeftOf t m) : LeftOf (c :: t) (some c :: m)
  | cut {t : List Char} {m : Gapped} (old : List Char) (rest : LeftOf t m) :
      LeftOf (old ++ t) (none :: m)

theorem leftOf_self (t : List Char) : LeftOf t (t.map some) := by
  induction t with
  | nil => exact .nil
  | cons c t ih => exact .keep c ih

theorem LeftOf.drop (h : LeftOf t m) (n : ℕ) :
    ∃ old rest, t = old ++ rest ∧ LeftOf rest (m.drop n) := by
  induction h generalizing n with
  | nil => exact ⟨[], [], rfl, by rw [List.drop_nil]; exact .nil⟩
  | @keep t m c rest ih =>
    cases n with
    | zero => exact ⟨[], c :: t, rfl, .keep c rest⟩
    | succ n =>
      obtain ⟨old, left, rfl, hleft⟩ := ih n
      exact ⟨c :: old, left, rfl, hleft⟩
  | @cut t m old' rest ih =>
    cases n with
    | zero => exact ⟨[], old' ++ t, rfl, .cut old' rest⟩
    | succ n =>
      obtain ⟨old, left, rfl, hleft⟩ := ih n
      exact ⟨old' ++ old, left, (List.append_assoc _ _ _).symm, hleft⟩

theorem LeftOf.cutAll (h : LeftOf t m) : LeftOf t (cutAll r m) := by
  have hfrom : ∀ n before t m, LeftOf t m → LeftOf t (cutFrom r n before m) := by
    intro n
    induction n with
    | zero => exact fun _ _ _ h => h
    | succ n ih =>
      intro before t m h
      rw [cutFrom.eq_def]
      dsimp only
      split
      · rename_i q _
        obtain ⟨old, rest, rfl, hrest⟩ := h.drop (m.length - q.after.length)
        exact .cut old (ih _ _ _ hrest)
      · cases h with
        | nil => exact .nil
        | keep c rest => exact .keep c (ih _ _ _ rest)
        | cut old rest => exact .cut old (ih _ _ _ rest)
  exact hfrom _ _ _ _ h

/-- Wherever a text is cut, it goes on in some run. -/
theorem exists_letterRunsFrom_append (left : Option (Option Char)) (letters old t : List Char) :
    ∃ ended left' letters', letterRunsFrom k left letters ((old ++ t).map some) =
      ended ++ letterRunsFrom k left' letters' (t.map some) := by
  induction old generalizing left letters with
  | nil => exact ⟨[], left, letters, rfl⟩
  | cons c old ih =>
    rw [List.cons_append, List.map_cons, letterRunsFrom]
    split
    · exact ih left (letters ++ [c])
    · obtain ⟨ended, left', letters', heq⟩ := ih (some (some c)) []
      exact ⟨_ ++ ended, left', letters', by rw [heq, List.append_assoc]⟩

/-- **A run beside which no piece was taken out is a run of the text.** -/
theorem LeftOf.mem_letterRuns (h : LeftOf t m) (hwhole : run.Whole) :
    run ∈ letterRuns k m → run ∈ letterRuns k (t.map some) := by
  have hboth : (∀ left letters, run ∈ letterRunsFrom k left letters m →
        run ∈ letterRunsFrom k left letters (t.map some)) ∧
      ∀ letters left' letters', run ∈ letterRunsFrom k (some none) letters m →
        run ∈ letterRunsFrom k left' letters' (t.map some) := by
    induction h with
    | nil =>
      refine ⟨fun _ _ h => h, fun letters left' letters' h => ?_⟩
      rw [mem_letterRunEnding h] at hwhole
      exact absurd rfl hwhole.1
    | keep c rest ih =>
      refine ⟨fun left letters h => ?_, fun letters left' letters' h => ?_⟩
      · refine mem_letterRunsFrom_some.mpr ((mem_letterRunsFrom_some.mp h).imp ?_ ?_)
        · exact And.imp_right (ih.1 _ _)
        · exact And.imp_right (Or.imp_right (ih.1 _ _))
      · refine mem_letterRunsFrom_some.mpr ?_
        rcases mem_letterRunsFrom_some.mp h with ⟨hc, h⟩ | ⟨hc, h | h⟩
        · exact .inl ⟨hc, ih.2 _ _ _ h⟩
        · rw [mem_letterRunEnding h] at hwhole
          exact absurd rfl hwhole.1
        · exact .inr ⟨hc, .inr (ih.1 _ _ h)⟩
    | @cut t m old rest ih =>
      have hcut : ∀ left letters left' letters', run ∈ letterRunsFrom k left letters (none :: m) →
          run ∈ letterRunsFrom k left' letters' ((old ++ t).map some) := by
        intro left letters left' letters' h
        obtain ⟨ended, left'', letters'', heq⟩ := exists_letterRunsFrom_append left' letters' old t
        rw [heq]
        rcases List.mem_append.mp h with h | h
        · rw [mem_letterRunEnding h] at hwhole
          exact absurd rfl hwhole.2
        · exact List.mem_append_right _ (ih.2 _ _ _ h)
      exact ⟨fun left letters => hcut left letters left letters,
        fun letters left' letters' => hcut (some none) letters left' letters'⟩
  exact hboth.1 none []

end Runs

/-! ## Letters that are not read -/

/-- A text in which only letters that are not read, next to one another, become other such
letters. -/
abbrev Reworded (k : CharClass) : List Char → List Char → List Char → Prop :=
  Rewrites (fun _ _ => True) fun _ old _ new =>
    (old ≠ [] ∧ ∀ c ∈ old, k c = false) ∧ new ≠ [] ∧ ∀ c ∈ new, k c = false

section Plain

variable (hr : r.Plain) (hk : r.Takes (k · = true))

include hr hk

theorem matchAll_unread_append {x : List Char} (hx : ∀ c ∈ x, k c = false) (t : List Char) :
    matchAll r (x ++ t) = matchAll r t := by
  induction x with
  | nil => rfl
  | cons c x ih =>
    obtain ⟨hc, hx⟩ := List.forall_mem_cons.mp hx
    rw [List.cons_append, matchAll_cons hr hk hc, ih hx]

theorem matchAll_append_unread {x : List Char} (hne : x ≠ []) (hx : ∀ c ∈ x, k c = false)
    (a t : List Char) : matchAll r (a ++ (x ++ t)) = matchAll r a ++ matchAll r t := by
  obtain ⟨c, x, rfl⟩ := List.exists_cons_of_ne_nil hne
  obtain ⟨hc, hx⟩ := List.forall_mem_cons.mp hx
  rw [List.cons_append, matchAll_append_cons hr hk hc, matchAll_unread_append hr hk hx]

/-- **Matches do not see what is not read.** -/
theorem matchAll_reworded {before t' : List Char} (h : Reworded k before t t') :
    matchAll r t = matchAll r t' := by
  -- `a` is what was read of the run that the rest of the text goes on
  have hfrom : ∀ a, (∀ c ∈ a, k c = true) → matchAll r (a ++ t) = matchAll r (a ++ t') := by
    induction h with
    | nil => exact fun _ _ => rfl
    | @keep before c t t' _ rest ih =>
      intro a ha
      cases hc : k c with
      | true =>
        have hread := ih (a ++ [c]) (List.forall_mem_append.mpr ⟨ha, List.forall_mem_singleton.mpr hc⟩)
        rw [List.append_assoc, List.append_assoc] at hread
        exact hread
      | false =>
        rw [matchAll_append_cons hr hk hc, matchAll_append_cons hr hk hc]
        exact congrArg (_ ++ ·) (ih [] (List.forall_mem_nil _))
    | @put before old t new t' hcut rest ih =>
      intro a ha
      obtain ⟨⟨hold, holdLetters⟩, hnew, hnewLetters⟩ := hcut
      rw [matchAll_append_unread hr hk hold holdLetters, matchAll_append_unread hr hk hnew hnewLetters]
      exact congrArg (_ ++ ·) (ih [] (List.forall_mem_nil _))
  exact hfrom [] (List.forall_mem_nil _)

end Plain

end SupabaseLab.Library
