/-
  MgmtFaults/StatusLog.lean --- the rows of the log.

  A row is put into the log in the same stretch of the handler in which the rules are
  consulted, so the log is in the order in which the rules saw the requests, and what
  a rule does can be read off it.  Its number was given earlier where there is a body
  to hash: numbers are not in the order of the log, and a reset that comes between the
  two leaves an old number to a new log.
-/
import SupabaseLab.MgmtFaults.StatusRuns

set_option autoImplicit false

namespace SupabaseLab.MgmtFaults.StatusProxy

open Library

/-! ## What a row keeps -/

/-- The rule that a row names. -/
def ruleId : Option Picked → Option String
  | some (.rule r) => some r.id
  | _ => none

/-- What a row is born with: its number, and what the rules were asked and answered. -/
def LogRow.head (row : LogRow) : Nat × Call × Option String :=
  (row.seq, { method := row.method, path := row.path }, row.rule)

def Server.headOf (s : Server) (i : Nat) : Option (Nat × Call × Option String) :=
  (s.tasks[i]?.bind Task.row).map LogRow.head

/-- The number of a request whose row is not in the log yet. -/
def Task.waitingNumber (t : Task) : Option Nat :=
  match t.phase with
  | .hashing seq => some seq
  | _ => none

def Server.waitingNumbers (s : Server) : List Nat := s.tasks.filterMap Task.waitingNumber

section Heads

variable {isMatch : String → String → Option Bool} {accepts : Nat → Bool} {es : List Event}
  {s s' : Server} {i : Nat} {t t' : Task} {now : Int} {picked : Option Picked}

theorem head_done (r : Reply) :
    (t.done accepts now r).row.map LogRow.head = t.row.map LogRow.head := by
  rw [Task.done]
  split
  · exact Option.map_map ..
  · rfl

theorem waitingNumber_done (r : Reply) : (t.done accepts now r).waitingNumber = none := by
  rw [Task.done]
  split
  · rfl
  · rfl

theorem head_start (seq : Nat) (sha : String) :
    (t.start accepts now (t.newRow seq sha) picked).row.map LogRow.head =
        some (seq, t.req.call, ruleId picked) ∧
      (t.start accepts now (t.newRow seq sha) picked).waitingNumber = none := by
  cases picked with
  | none => exact ⟨rfl, rfl⟩
  | some picked =>
    cases picked with
    | threw => exact ⟨rfl, rfl⟩
    | rule r =>
      rw [Task.start]
      cases r.mode with
      | errorBefore => exact ⟨head_done _, waitingNumber_done _⟩
      | errorAfter => exact ⟨rfl, rfl⟩
      | delayBefore => exact ⟨rfl, rfl⟩
      | delayAfter => exact ⟨rfl, rfl⟩
      | passthrough => exact ⟨rfl, rfl⟩

theorem head_note (f : LogRow → LogRow) (hf : ∀ row, (f row).head = row.head) :
    (t.note f).row.map LogRow.head = t.row.map LogRow.head := by
  rw [Task.note, Option.map_map]
  exact congrArg (fun g => Option.map g t.row) (funext hf)

theorem head_answer (up : Upstream) (body : Bytes) :
    (t.answer accepts now up body).row.map LogRow.head = t.row.map LogRow.head ∧
      (t.answer accepts now up body).waitingNumber = none := by
  simp only [Task.answer]
  split
  · exact ⟨(head_done _).trans (head_note _ fun _ => rfl), waitingNumber_done _⟩
  · split
    · refine ⟨(head_done _).trans ?_, waitingNumber_done _⟩
      simp only [Task.note, Option.map_map]
      rfl
    · refine ⟨?_, rfl⟩
      simp only [Task.note, Option.map_map]
      rfl
    · exact ⟨(head_done _).trans (head_note _ fun _ => rfl), waitingNumber_done _⟩

/-- How a handler goes on: it begins its row, or its row stays what it was born as. -/
theorem resume_cases {wake : Wake} (h : RunInv es s) (ht : s.tasks[i]? = some t)
    (hstep : s.resume isMatch accepts i t now t.phase wake = some s') :
    (t.row = none ∧ t.waitingNumber = none ∧ s' = s.number isMatch accepts i t now) ∨
    (∃ seq digest, t.row = none ∧ t.waitingNumber = some seq ∧
      s' = s.handle isMatch accepts i t now seq digest) ∨
    ∃ t' : Task, s' = s.put i t' ∧ t.waitingNumber = none ∧ t'.waitingNumber = none ∧
      t'.row.map LogRow.head = t.row.map LogRow.head := by
  have hcourse := h.course i t ht
  rw [Task.Course] at hcourse
  rw [Task.waitingNumber]
  cases hphase : t.phase with
  | reading =>
    rw [hphase] at hcourse hstep
    cases wake with
    | bodyRead ok =>
      cases ok with
      | true =>
        cases hstep
        exact .inl ⟨hcourse.1, rfl, rfl⟩
      | false =>
        cases hstep
        exact .inr (.inr ⟨_, rfl, rfl, rfl, rfl⟩)
    | _ => cases hstep
  | hashing seq =>
    rw [hphase] at hcourse hstep
    cases wake with
    | hashed digest =>
      cases hstep
      exact .inr (.inl ⟨seq, digest, hcourse.1, rfl, rfl⟩)
    | _ => cases hstep
  | sleepingBefore =>
    rw [hphase] at hstep
    cases wake with
    | slept =>
      cases hstep
      exact .inr (.inr ⟨_, rfl, rfl, rfl, rfl⟩)
    | _ => cases hstep
  | fetching =>
    rw [hphase] at hstep
    cases wake with
    | fetched answer =>
      cases answer with
      | error e =>
        cases hstep
        exact .inr (.inr ⟨_, rfl, rfl, waitingNumber_done _,
          (head_done _).trans (head_note _ fun _ => rfl)⟩)
      | ok up =>
        cases hstep
        exact .inr (.inr ⟨_, rfl, rfl, rfl, rfl⟩)
    | _ => cases hstep
  | receiving up =>
    rw [hphase] at hstep
    cases wake with
    | received body =>
      cases body with
      | none =>
        cases hstep
        exact .inr (.inr ⟨_, rfl, rfl, rfl, rfl⟩)
      | some body =>
        cases hstep
        exact .inr (.inr ⟨_, rfl, rfl, (head_answer up body).2, (head_answer up body).1⟩)
    | _ => cases hstep
  | sleepingAfter up body =>
    rw [hphase] at hstep
    cases wake with
    | slept =>
      cases hstep
      exact .inr (.inr ⟨_, rfl, rfl, waitingNumber_done _, head_done _⟩)
    | _ => cases hstep
  | replied r =>
    rw [hphase] at hstep
    cases hstep
  | threw =>
    rw [hphase] at hstep
    cases hstep

/-! ## Which rule a row names -/

/-- The log keeps what the rules were asked and answered. -/
structure LogInv (isMatch : String → String → Option Bool) (es : List Event) (s : Server) :
    Prop where
  rules : s.rules = countedRules isMatch (rulesSet es) s.calls
  picked : s.picked = outcomes isMatch (rulesSet es) s.calls
  kept : ∃ before : List (Nat × Call × Option String), ∃ numbers : List Nat,
    s.log.map s.headOf =
      (before ++ numbers.zip (s.calls.zip (s.picked.map ruleId))).map some ∧
    numbers.length = s.calls.length

/-- The log after a handler ran. -/
theorem heads_put (ht : s.tasks[i]? = some t) (t' : Task)
    (hhead : t'.row.map LogRow.head = t.row.map LogRow.head) (log : List Nat) :
    log.map (s.put i t').headOf = log.map s.headOf := by
  obtain ⟨hi, -⟩ := List.getElem?_eq_some_iff.mp ht
  refine List.map_congr_left fun j _ => ?_
  rw [Server.headOf, Server.headOf, Server.put]
  by_cases hij : i = j
  · subst hij
    rw [List.getElem?_set_self hi, ht]
    exact hhead
  · rw [List.getElem?_set_ne hij]

/-- The log after a row is begun. -/
theorem heads_handle (ht : s.tasks[i]? = some t) (hrow : t.row = none)
    (hkept : ∀ j ∈ s.log, (s.headOf j).isSome = true) (seq : Nat) (sha : String) :
    (s.handle isMatch accepts i t now seq sha).log.map
        (s.handle isMatch accepts i t now seq sha).headOf =
      s.log.map s.headOf ++
        [some (seq, t.req.call, ruleId (pick isMatch s.rules t.req.call).2)] := by
  obtain ⟨hi, -⟩ := List.getElem?_eq_some_iff.mp ht
  have hnotMem : i ∉ s.log := by
    intro hmem
    have hsome := hkept i hmem
    rw [Server.headOf, ht, Option.bind_some, hrow] at hsome
    cases hsome
  have hhandle : s.handle isMatch accepts i t now seq sha =
      Server.put
        { s with
          log := s.log ++ [i]
          rules := (pick isMatch s.rules t.req.call).1
          calls := s.calls ++ [t.req.call]
          picked := s.picked ++ [(pick isMatch s.rules t.req.call).2] }
        i (t.start accepts now (t.newRow seq sha) (pick isMatch s.rules t.req.call).2) := rfl
  rw [hhandle]
  show List.map _ (s.log ++ [i]) = _
  rw [List.map_append, List.map_singleton]
  congr 1
  · refine List.map_congr_left fun j hj => ?_
    have hij : i ≠ j := fun heq => hnotMem (heq ▸ hj)
    rw [Server.headOf, Server.headOf, Server.put, List.getElem?_set_ne hij]
  · rw [Server.headOf, Server.put, List.getElem?_set_self hi, Option.bind_some, (head_start seq sha).1]

theorem isSome_of_kept {heads : List (Nat × Call × Option String)}
    (h : s.log.map s.headOf = heads.map some) : ∀ j ∈ s.log, (s.headOf j).isSome = true := by
  intro j hj
  have hmem : s.headOf j ∈ heads.map some := h ▸ List.mem_map_of_mem hj
  obtain ⟨head, -, hhead⟩ := List.mem_map.mp hmem
  rw [← hhead]
  rfl

theorem LogInv.put {es' : List Event} (h : LogInv isMatch es s) (hset : rulesSet es' = rulesSet es)
    (ht : s.tasks[i]? = some t) (hhead : t'.row.map LogRow.head = t.row.map LogRow.head) :
    LogInv isMatch es' (s.put i t') := by
  obtain ⟨before, numbers, hkept, hlen⟩ := h.kept
  refine ⟨?_, ?_, before, numbers, (heads_put ht _ hhead _).trans hkept, hlen⟩
  · rw [hset]
    exact h.rules
  · rw [hset]
    exact h.picked

theorem LogInv.handle {es' : List Event} (h : LogInv isMatch es s)
    (hset : rulesSet es' = rulesSet es) (ht : s.tasks[i]? = some t) (hrow : t.row = none)
    (seq : Nat) (sha : String) : LogInv isMatch es' (s.handle isMatch accepts i t now seq sha) := by
  obtain ⟨before, numbers, hkept, hlen⟩ := h.kept
  obtain ⟨hcounted, houtcomes⟩ := pick_counted isMatch (rulesSet es) s.calls t.req.call
  rw [← h.rules] at hcounted houtcomes
  refine ⟨?_, ?_, before, numbers ++ [seq], ?_, ?_⟩
  · rw [hset]
    exact hcounted.symm
  · rw [hset]
    show s.picked ++ [(pick isMatch s.rules t.req.call).2] = _
    rw [h.picked]
    exact houtcomes.symm
  · have hpicked : s.picked.length = s.calls.length := by
      rw [h.picked, length_outcomes]
    have hids : (s.picked ++ [(pick isMatch s.rules t.req.call).2]).map ruleId =
        s.picked.map ruleId ++ [ruleId (pick isMatch s.rules t.req.call).2] := List.map_append
    rw [heads_handle ht hrow (isSome_of_kept hkept), hkept]
    show _ = (before ++ (numbers ++ [seq]).zip ((s.calls ++ [t.req.call]).zip
      ((s.picked ++ [(pick isMatch s.rules t.req.call).2]).map ruleId))).map some
    rw [hids, List.zip_append, List.zip_append, ← List.append_assoc, List.map_append,
      List.map_append, List.map_append]
    · rfl
    · rw [List.length_zip, List.length_map, hpicked, hlen, Nat.min_self]
    · rw [List.length_map, hpicked]
  · show (numbers ++ [seq]).length = (s.calls ++ [t.req.call]).length
    rw [List.length_append, List.length_append, hlen]
    rfl

theorem rulesSet_arrives (req : Request) :
    rulesSet (es ++ [.arrives now req]) = rulesSet es := by
  rw [rulesSet, List.foldl_concat]

theorem rulesSet_resumes (wake : Wake) :
    rulesSet (es ++ [.resumes now i wake]) = rulesSet es := by
  rw [rulesSet, List.foldl_concat]

theorem LogInv.number {es' : List Event} (h : LogInv isMatch es s)
    (hset : rulesSet es' = rulesSet es) (ht : s.tasks[i]? = some t) (hrow : t.row = none) :
    LogInv isMatch es' (s.number isMatch accepts i t now) := by
  have hnumbered : LogInv isMatch es { s with seq := s.seq + 1 } := ⟨h.rules, h.picked, h.kept⟩
  rw [Server.number]
  split
  · exact hnumbered.handle hset ht hrow _ _
  · exact hnumbered.put hset ht rfl

theorem headOf_arrived (hkept : ∀ j ∈ s.log, (s.headOf j).isSome = true) :
    s.log.map { s with tasks := s.tasks ++ [t] : Server }.headOf = s.log.map s.headOf := by
  refine List.map_congr_left fun j hj => ?_
  have hlt : j < s.tasks.length := by
    by_contra hge
    have hsome := hkept j hj
    rw [Server.headOf, List.getElem?_eq_none (Nat.le_of_not_lt hge)] at hsome
    cases hsome
  rw [Server.headOf, Server.headOf, List.getElem?_append_left hlt]

theorem logInv_step {e : Event} (hruns : RunInv es s) (h : LogInv isMatch es s)
    (hstep : s.step isMatch accepts e = some s') : LogInv isMatch (es ++ [e]) s' := by
  obtain ⟨before, numbers, hkept, hlen⟩ := h.kept
  cases e with
  | arrives now req =>
    have hset : rulesSet (es ++ [.arrives now req]) = rulesSet es := rulesSet_arrives req
    have harrived : LogInv isMatch es
        { s with tasks := s.tasks ++ [{ req := req, t0 := now }] } :=
      ⟨h.rules, h.picked, before, numbers, (headOf_arrived (isSome_of_kept hkept)).trans hkept, hlen⟩
    rw [Server.step] at hstep
    split at hstep
    · cases hstep
    · cases hstep
      split
      · exact harrived.number hset List.getElem?_concat_length rfl
      · refine ⟨?_, ?_, harrived.kept⟩
        · rw [hset]
          exact h.rules
        · rw [hset]
          exact h.picked
  | resumes now i wake =>
    have hset : rulesSet (es ++ [.resumes now i wake]) = rulesSet es := rulesSet_resumes wake
    obtain ⟨t, ht, hresume⟩ := Option.bind_eq_some_iff.mp hstep
    rcases resume_cases hruns ht hresume with ⟨hrow, -, rfl⟩ | ⟨seq, digest, hrow, -, rfl⟩ |
      ⟨t', rfl, -, -, hhead⟩
    · exact h.number hset ht hrow
    · exact h.handle hset ht hrow seq digest
    · exact h.put hset ht hhead
  | admin method pathname rules =>
    cases hstep
    rcases admin_cases es s method pathname rules with ⟨hsame, hset⟩ |
      ⟨set, log, seq, hstate, hset, hlog⟩
    · rw [hsame]
      refine ⟨?_, ?_, h.kept⟩
      · rw [hset]
        exact h.rules
      · rw [hset]
        exact h.picked
    · rw [hstate]
      have hpure := offers_counted isMatch set []
      refine ⟨?_, ?_, ?_⟩
      · rw [hset, show countedRules isMatch set [] = set.map fun r => r.counted 0 from
          (congrArg Prod.fst hpure).symm]
        exact List.map_congr_left fun r _ => (counted_zero r).symm
      · rw [hset]
        exact congrArg Prod.snd hpure
      · rcases hlog with ⟨rfl, -⟩ | ⟨-, rfl, -⟩
        · refine ⟨before ++ numbers.zip (s.calls.zip (s.picked.map ruleId)), [], ?_, rfl⟩
          rw [List.zip_nil_left, List.append_nil]
          exact hkept
        · exact ⟨[], [], rfl, rfl⟩

theorem logInv_run (hrun : runEvents (Server.step isMatch accepts) {} es = some s) :
    LogInv isMatch es s :=
  runEvents_invariant ⟨rfl, rfl, [], [], rfl, rfl⟩
    (fun _ _ _ _ hrun h hstep => logInv_step (runInv_run hrun) h hstep) es s hrun

theorem rows_heads {heads : List (Nat × Call × Option String)}
    (h : s.log.map s.headOf = heads.map some) : s.rows.map LogRow.head = heads := by
  calc s.rows.map LogRow.head
      = s.log.filterMap s.headOf := List.map_filterMap
    _ = (s.log.map s.headOf).filterMap id := by rw [List.filterMap_map]; rfl
    _ = (heads.map some).filterMap id := by rw [h]
    _ = heads := by rw [List.filterMap_map]; exact List.filterMap_some

end Heads

/-- What the rules did to the requests since they were set. -/
structure RulesObeyed (isMatch : String → String → Option Bool) (es : List Event) (s : Server) :
    Prop where
  /-- each rule has seen the requests that it is for and no rule before it took, and fired
  for those in its window -/
  counters : s.rules = countedRules isMatch (rulesSet es) s.calls
  picked : s.picked = outcomes isMatch (rulesSet es) s.calls
  /-- the log ends with these requests, each with the rule that took it -/
  logged : ∃ before, s.rows.map (fun row => row.head.2) =
    before ++ s.calls.zip (s.picked.map ruleId)

theorem rules_fire_in_their_windows {isMatch : String → String → Option Bool}
    {accepts : Nat → Bool} {es : List Event} {s : Server}
    (hrun : runEvents (Server.step isMatch accepts) {} es = some s) :
    RulesObeyed isMatch es s := by
  have h := logInv_run hrun
  obtain ⟨before, numbers, hkept, hlen⟩ := h.kept
  refine ⟨h.rules, h.picked, before.map Prod.snd, ?_⟩
  have hlength : (s.calls.zip (s.picked.map ruleId)).length = numbers.length := by
    rw [List.length_zip, List.length_map, h.picked, length_outcomes, hlen, Nat.min_self]
  calc s.rows.map (fun row => row.head.2)
      = (s.rows.map LogRow.head).map Prod.snd := List.map_map.symm
    _ = before.map Prod.snd ++ (numbers.zip (s.calls.zip (s.picked.map ruleId))).map Prod.snd := by
      rw [rows_heads hkept, List.map_append]
    _ = before.map Prod.snd ++ s.calls.zip (s.picked.map ruleId) := by
      rw [List.map_snd_zip (Nat.le_of_eq hlength)]

theorem rules_fire_in_their_windows_discarded : ∃ s,
    runEvents (Server.step (fun _ _ => some true) fun _ => true) {} discardedAnswer = some s ∧
      RulesObeyed (fun _ _ => some true) discardedAnswer s := by
  obtain ⟨s, hs⟩ := Option.isSome_iff_exists.mp (show (runEvents
    (Server.step (fun _ _ => some true) fun _ => true) {} discardedAnswer).isSome = true by decide)
  exact ⟨s, hs, rules_fire_in_their_windows hs⟩

/-! ## The numbers -/

/-- No row waits for its place in the log when the log is emptied. -/
def QuietReset (s : Server) : Event → Prop
  | .admin _ pathname _ => pathname = "/__admin/reset" → s.waitingNumbers = []
  | _ => True

/-- The numbers given since the last reset stand in the log, or wait to. -/
def Numbered (s : Server) : Prop :=
  ∃ heads : List (Nat × Call × Option String), s.log.map s.headOf = heads.map some ∧
    (heads.map Prod.fst ++ s.waitingNumbers).Perm (List.range' 1 s.seq)

section Numbers

variable {isMatch : String → String → Option Bool} {accepts : Nat → Bool} {es : List Event}
  {s s' : Server} {i : Nat} {t t' : Task} {now : Int}

theorem filterMap_set_perm {α β : Type} {f : α → Option β} {l : List α} {a : α}
    (h : l[i]? = some a) (b : α) : ∃ rest, (l.filterMap f).Perm ((f a).toList ++ rest) ∧
      ((l.set i b).filterMap f).Perm ((f b).toList ++ rest) := by
  obtain ⟨hi, rfl⟩ := List.getElem?_eq_some_iff.mp h
  have hcons (x : α) (l : List α) : (x :: l).filterMap f = (f x).toList ++ l.filterMap f := by
    rw [List.filterMap_cons]
    cases f x with
    | none => rfl
    | some b => rfl
  refine ⟨(l.take i).filterMap f ++ (l.drop (i + 1)).filterMap f, ?_, ?_⟩
  · have hcut : l = l.take i ++ l[i] :: l.drop (i + 1) := by
      rw [List.getElem_cons_drop, List.take_append_drop]
    conv_lhs => rw [hcut]
    rw [List.filterMap_append, hcons]
    exact List.perm_append_comm_assoc ..
  · rw [List.set_eq_take_append_cons_drop, if_pos hi, List.filterMap_append, hcons]
    exact List.perm_append_comm_assoc ..

variable (isMatch accepts now) in
/-- A row is begun under number `n`. -/
theorem numbers_handle {heads : List (Nat × Call × Option String)}
    (hkept : s.log.map s.headOf = heads.map some) (ht : s.tasks[i]? = some t) (hrow : t.row = none)
    (n : Nat) (sha : String) : ∃ (heads' : List (Nat × Call × Option String)) (rest : List Nat),
      (s.handle isMatch accepts i t now n sha).log.map
        (s.handle isMatch accepts i t now n sha).headOf = heads'.map some ∧
      heads'.map Prod.fst = heads.map Prod.fst ++ [n] ∧
      s.waitingNumbers.Perm (t.waitingNumber.toList ++ rest) ∧
      (s.handle isMatch accepts i t now n sha).waitingNumbers.Perm rest := by
  obtain ⟨rest, hbefore, hafter⟩ := filterMap_set_perm (f := Task.waitingNumber) ht
    (t.start accepts now (t.newRow n sha) (pick isMatch s.rules t.req.call).2)
  rw [(head_start n sha).2] at hafter
  refine ⟨heads ++ [(n, t.req.call, ruleId (pick isMatch s.rules t.req.call).2)], rest,
    ?_, ?_, hbefore, hafter⟩
  · rw [heads_handle ht hrow (isSome_of_kept hkept), hkept, List.map_append]
    rfl
  · rw [List.map_append]
    rfl

theorem Numbered.begin (h : Numbered s) (ht : s.tasks[i]? = some t) (hrow : t.row = none)
    {n : Nat} (hnumber : t.waitingNumber = some n) (sha : String) :
    Numbered (s.handle isMatch accepts i t now n sha) := by
  obtain ⟨heads, hkept, hperm⟩ := h
  obtain ⟨heads', rest, hkept', hfst, hbefore, hafter⟩ :=
    numbers_handle isMatch accepts now hkept ht hrow n sha
  rw [hnumber] at hbefore
  refine ⟨heads', hkept', ?_⟩
  rw [hfst, List.append_assoc]
  refine .trans ?_ hperm
  exact ((List.Perm.append_left [n] hafter).trans hbefore.symm).append_left _

theorem Numbered.number (h : Numbered s) (ht : s.tasks[i]? = some t) (hrow : t.row = none)
    (hnumber : t.waitingNumber = none) : Numbered (s.number isMatch accepts i t now) := by
  obtain ⟨heads, hkept, hperm⟩ := h
  have hrange : List.range' 1 (s.seq + 1) = List.range' 1 s.seq ++ [s.seq + 1] := by
    rw [List.range'_1_concat, Nat.add_comm 1]
  rw [Server.number]
  split
  · obtain ⟨heads', rest, hkept', hfst, hbefore, hafter⟩ :=
      numbers_handle (s := { s with seq := s.seq + 1 }) isMatch accepts now hkept ht hrow
        (s.seq + 1) ""
    rw [hnumber] at hbefore
    refine ⟨heads', hkept', ?_⟩
    show List.Perm _ (List.range' 1 (s.seq + 1))
    rw [hfst, List.append_assoc, hrange]
    refine .trans ?_ (hperm.append_right _)
    rw [List.append_assoc]
    exact ((List.Perm.append_left _ (hafter.trans hbefore.symm)).trans List.perm_append_comm).append_left _
  · obtain ⟨rest, hbefore, hafter⟩ := filterMap_set_perm (f := Task.waitingNumber) ht
      { t with phase := .hashing (s.seq + 1) }
    rw [hnumber] at hbefore
    refine ⟨heads, (heads_put (s := { s with seq := s.seq + 1 }) ht
      { t with phase := .hashing (s.seq + 1) } rfl _).trans hkept, ?_⟩
    show List.Perm _ (List.range' 1 (s.seq + 1))
    rw [hrange]
    refine .trans ?_ (hperm.append_right _)
    rw [List.append_assoc]
    refine List.Perm.append_left _ (hafter.trans ?_)
    exact (List.Perm.append_left _ hbefore.symm).trans List.perm_append_comm

theorem numbered_step {e : Event} (hruns : RunInv es s) (h : Numbered s) (hquiet : QuietReset s e)
    (hstep : s.step isMatch accepts e = some s') : Numbered s' := by
  obtain ⟨heads, hkept, hperm⟩ := h
  cases e with
  | arrives now req =>
    have harrived : Numbered { s with tasks := s.tasks ++ [{ req := req, t0 := now }] } := by
      refine ⟨heads, (headOf_arrived (isSome_of_kept hkept)).trans hkept, ?_⟩
      rw [Server.waitingNumbers, List.filterMap_append]
      show (_ ++ (_ ++ [])).Perm _
      rw [List.append_nil]
      exact hperm
    rw [Server.step] at hstep
    split at hstep
    · cases hstep
    · cases hstep
      split
      · exact harrived.number List.getElem?_concat_length rfl rfl
      · exact harrived
  | resumes now i wake =>
    obtain ⟨t, ht, hresume⟩ := Option.bind_eq_some_iff.mp hstep
    rcases resume_cases hruns ht hresume with ⟨hrow, hnumber, rfl⟩ |
      ⟨seq, digest, hrow, hnumber, rfl⟩ | ⟨t', rfl, hnone, hnone', hhead⟩
    · exact Numbered.number ⟨heads, hkept, hperm⟩ ht hrow hnumber
    · exact Numbered.begin ⟨heads, hkept, hperm⟩ ht hrow hnumber digest
    · obtain ⟨rest, hbefore, hafter⟩ := filterMap_set_perm (f := Task.waitingNumber) ht t'
      rw [hnone] at hbefore
      rw [hnone'] at hafter
      exact ⟨heads, (heads_put ht _ hhead _).trans hkept,
        (List.Perm.append_left _ (hafter.trans hbefore.symm)).trans hperm⟩
  | admin method pathname rules =>
    cases hstep
    rcases admin_cases [] s method pathname rules with ⟨hsame, -⟩ |
      ⟨set, log, seq, hstate, -, hlog⟩
    · rw [hsame]
      exact ⟨heads, hkept, hperm⟩
    · rw [hstate]
      rcases hlog with ⟨rfl, rfl⟩ | ⟨hreset, rfl, rfl⟩
      · exact ⟨heads, hkept, hperm⟩
      · refine ⟨[], rfl, ?_⟩
        show (s.waitingNumbers).Perm _
        rw [hquiet hreset]
        exact .refl _

theorem log_numbers (hquiet : AlongRun (Server.step isMatch accepts) QuietReset {} es)
    (hrun : runEvents (Server.step isMatch accepts) {} es = some s) :
    (s.rows.map LogRow.seq ++ s.waitingNumbers).Perm (List.range' 1 s.seq) := by
  have hnumbered : Numbered s := by
    induction es using List.reverseRecOn generalizing s with
    | nil =>
      cases hrun
      exact ⟨[], rfl, .refl _⟩
    | append_singleton es e ih =>
      obtain ⟨m, hm, hlast⟩ := runEvents_concat.mp hrun
      exact numbered_step (runInv_run hm) (ih hquiet.init hm) (hquiet.last hm) hlast
  obtain ⟨heads, hkept, hperm⟩ := hnumbered
  have hseq : s.rows.map LogRow.seq = heads.map Prod.fst := by
    rw [← rows_heads hkept, List.map_map]
    rfl
  rwa [hseq]

/-- A request without a body that comes while another one is being hashed. -/
def overtaken : List Event :=
  [.arrives 0 { method := "POST", pathname := "/v1/projects", search := "", headers := [], body := [123] },
    .resumes 1 0 (.bodyRead true),
    .arrives 2 { method := "GET", pathname := "/v1/projects", search := "", headers := [], body := [] },
    .resumes 3 0 (.hashed "021fb596db81")]

theorem log_numbers_overtaken : ∃ s,
    runEvents (Server.step (fun _ _ => some true) fun _ => true) {} overtaken = some s ∧
      (s.rows.map LogRow.seq ++ s.waitingNumbers).Perm (List.range' 1 s.seq) := by
  obtain ⟨s, hs⟩ := Option.isSome_iff_exists.mp (show (runEvents
    (Server.step (fun _ _ => some true) fun _ => true) {} overtaken).isSome = true by decide)
  refine ⟨s, hs, log_numbers (fun before e after m hsplit _ => ?_) hs⟩
  have hmem : e ∈ overtaken := by
    rw [hsplit]
    exact List.mem_append_right _ List.mem_cons_self
  rw [overtaken] at hmem
  fin_cases hmem
  · trivial
  · trivial
  · trivial
  · trivial

end Numbers

end SupabaseLab.MgmtFaults.StatusProxy
