/-
  MgmtFaults/RuleWindows.lean --- which requests a rule of the fault proxy faults.

  `pick` goes over the rules for every request, and each rule counts what it has
  seen and what it has faulted.  Read one rule at a time: a rule works on the
  requests that no rule before it took, and of those it is for it takes the ones
  whose positions are in its window.
-/
import SupabaseLab.MgmtFaults.StatusProxy

set_option autoImplicit false

namespace SupabaseLab.MgmtFaults.StatusProxy

open Library

/-! ## What the rules say -/

section Windows

variable (isMatch : String → String → Option Bool)

/-- What a rule is to a request, whatever it has counted: it ends `pick`, or the
request counts for it or does not. -/
def RuleSpec.role (r : RuleSpec) (call : Call) : Picked ⊕ Bool :=
  if r.otherMethod call.method then .inr false
  else
    match isMatch r.path call.path with
    | none => .inl .threw
    | some matched => .inr matched

/-- What a rule takes of a stream of requests. -/
def RuleSpec.takes (r : RuleSpec) (calls : List Call) : List (Option Picked) :=
  windowRun (r.skip.getD 0) (r.times.getD 0) (r.role isMatch) (.rule r) 0 calls

/-- What becomes of the requests, rule by rule. -/
def outcomes : List RuleSpec → List Call → List (Option Picked)
  | [], calls => calls.map fun _ => none
  | r :: rules, calls =>
      fillIn (r.takes isMatch calls) (outcomes rules (leftOver calls (r.takes isMatch calls)))

/-- A rule that has seen `m` requests. -/
def RuleSpec.counted (r : RuleSpec) (m : Nat) : Rule where
  toRuleSpec := r
  seen := m
  fired := windowCount (r.skip.getD 0) (r.times.getD 0) m

/-- The rules with their counters after the requests, rule by rule. -/
def countedRules : List RuleSpec → List Call → List Rule
  | [], _ => []
  | r :: rules, calls =>
      r.counted (countFor (r.role isMatch) calls) ::
        countedRules rules (leftOver calls (r.takes isMatch calls))

end Windows

/-- The rules that were set last. -/
def rulesSet : List Event → List RuleSpec :=
  List.foldl (fun rules => fun
    | .admin method pathname body =>
        if pathname = "/__admin/rules" ∧ method = "PUT" then body.getD rules
        else if pathname = "/__admin/reset" then []
        else rules
    | _ => rules) []

/-! ## A rule and its counters -/

section Counters

variable {isMatch : String → String → Option Bool}

theorem consult_mk (r : RuleSpec) (seen fired : Nat) (call : Call) :
    Rule.consult isMatch { toRuleSpec := r, seen := seen, fired := fired } call =
      match r.role isMatch call with
      | .inl p => ({ toRuleSpec := r, seen := seen, fired := fired }, some p)
      | .inr false => ({ toRuleSpec := r, seen := seen, fired := fired }, none)
      | .inr true =>
        if seen + 1 ≤ r.skip.getD 0 then
          ({ toRuleSpec := r, seen := seen + 1, fired := fired }, none)
        else if r.times.getD 0 ≠ 0 && r.times.getD 0 ≤ fired then
          ({ toRuleSpec := r, seen := seen + 1, fired := fired }, none)
        else ({ toRuleSpec := r, seen := seen + 1, fired := fired + 1 }, some (.rule r)) := by
  rw [Rule.consult, RuleSpec.role]
  cases r.otherMethod call.method with
  | true => rfl
  | false =>
    cases isMatch r.path call.path with
    | none => rfl
    | some matched =>
      cases matched with
      | false => rfl
      | true => rfl

theorem consult_counted (r : RuleSpec) (m : Nat) (call : Call) :
    (r.counted m).consult isMatch call =
      match r.role isMatch call with
      | .inl p => (r.counted m, some p)
      | .inr false => (r.counted m, none)
      | .inr true => (r.counted (m + 1),
          if inWindow (r.skip.getD 0) (r.times.getD 0) (m + 1) then some (.rule r) else none) := by
  have hcount := windowCount_succ (r.skip.getD 0) (r.times.getD 0) m
  have hwindow := inWindow_succ_iff (r.skip.getD 0) (r.times.getD 0) m
  simp only [RuleSpec.counted, consult_mk]
  cases r.role isMatch call with
  | inl p => rfl
  | inr counts =>
    cases counts with
    | false => rfl
    | true =>
      simp only [Bool.and_eq_true, decide_eq_true_eq]
      cases hin : inWindow (r.skip.getD 0) (r.times.getD 0) (m + 1) with
      | true =>
        obtain ⟨hskip, htimes⟩ := hwindow.mp hin
        rw [if_pos hin] at hcount
        rw [if_neg hskip, if_neg (by omega), if_pos rfl, hcount]
      | false =>
        simp only [hin, Bool.false_eq_true, if_false, Nat.add_zero] at hcount
        simp only [hcount, Bool.false_eq_true, if_false]
        split
        · rfl
        · next hskip =>
          have hspent : r.times.getD 0 ≠ 0 ∧
              r.times.getD 0 ≤ windowCount (r.skip.getD 0) (r.times.getD 0) m := by
            by_contra hbudget
            rw [hwindow.mpr ⟨hskip, by omega⟩] at hin
            cases hin
          rw [if_pos hspent]

variable (isMatch) in
theorem stageRun_counted (r : RuleSpec) (m : Nat) (calls : List Call) :
    stageRun (Rule.consult isMatch) (r.counted m) calls =
      (r.counted (m + countFor (r.role isMatch) calls),
        windowRun (r.skip.getD 0) (r.times.getD 0) (r.role isMatch) (.rule r) m calls) := by
  induction calls generalizing m with
  | nil => rfl
  | cons call calls ih =>
    rw [stageRun, consult_counted, windowRun, countFor, List.countP_cons]
    cases hrole : r.role isMatch call with
    | inl p => simp only [ih, countFor, Bool.false_eq_true, if_false, Nat.add_zero]
    | inr counts =>
      cases counts with
      | false => simp only [ih, countFor, Bool.false_eq_true, if_false, Nat.add_zero]
      | true => simp only [ih, countFor, if_true, Nat.add_assoc, Nat.add_comm 1]

theorem cascade_counted (rules : List RuleSpec) (calls : List Call) :
    cascade (Rule.consult isMatch) (rules.map fun r => r.counted 0) calls =
      (countedRules isMatch rules calls, outcomes isMatch rules calls) := by
  induction rules generalizing calls with
  | nil => rfl
  | cons r rules ih =>
    have hstage := stageRun_counted isMatch r 0 calls
    rw [Nat.zero_add] at hstage
    rw [List.map_cons, cascade, hstage]
    simp only [ih, countedRules, outcomes, RuleSpec.takes]

variable (isMatch) in
/-- The counters and the outcomes of `pick`, request by request, are those of the
windows, rule by rule. -/
theorem offers_counted (rules : List RuleSpec) (calls : List Call) :
    offers (Rule.consult isMatch) (rules.map fun r => r.counted 0) calls =
      (countedRules isMatch rules calls, outcomes isMatch rules calls) := by
  rw [offers_eq_cascade, cascade_counted]

variable (isMatch) in
/-- One request more. -/
theorem pick_counted (rules : List RuleSpec) (calls : List Call) (call : Call) :
    countedRules isMatch rules (calls ++ [call]) =
        (pick isMatch (countedRules isMatch rules calls) call).1 ∧
      outcomes isMatch rules (calls ++ [call]) =
        outcomes isMatch rules calls ++
          [(pick isMatch (countedRules isMatch rules calls) call).2] := by
  have h := offers_concat (Rule.consult isMatch) (rules.map fun r => r.counted 0) calls call
  rw [offers_counted, offers_counted] at h
  exact ⟨congrArg Prod.fst h, congrArg Prod.snd h⟩

theorem length_outcomes (rules : List RuleSpec) (calls : List Call) :
    (outcomes isMatch rules calls).length = calls.length := by
  cases rules with
  | nil => exact List.length_map _
  | cons r rules => rw [outcomes, length_fillIn, RuleSpec.takes, length_windowRun]

theorem counted_zero (r : RuleSpec) : r.counted 0 = { toRuleSpec := r } := by
  rw [RuleSpec.counted, windowCount_zero]

end Counters

end SupabaseLab.MgmtFaults.StatusProxy
