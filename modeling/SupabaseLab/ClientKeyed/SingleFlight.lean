/-
  ClientKeyed/SingleFlight.lean --- one refresh at a time, one sign-in a region.

  The cell `refreshing`, and under each region the map of sessions, holds the one
  promise that is not over (`Tracks`).  Everything else a session keeps about its
  tokens follows the grants one by one, since no two of them overlap.
-/
import SupabaseLab.ClientKeyed.Session

set_option autoImplicit false

namespace SupabaseLab.ClientKeyed

open Library

/-! ## What a stretch can do -/

theorem grantAnswer_not_goesOn {grant : String} {status : Nat} {b : Body} {phase : GrantPhase} :
    grantAnswer grant status b ≠ .goesOn phase := by
  intro h
  unfold grantAnswer at h
  split at h
  · cases h
  · split at h
    · split at h
      · cases h
      · cases h
    · cases h

/-- Only a readable body of a 200, with an access token, ends a grant well. -/
theorem grantAnswer_returns {grant : String} {status : Nat} {b : Body} {j : Granted}
    (h : grantAnswer grant status b = .returns j) :
    status = 200 ∧ ∃ t : TokenBody, b = .fields t ∧ t.accessToken = some j.accessToken ∧
      t.refreshToken = j.refreshToken := by
  unfold grantAnswer at h
  split at h
  · cases h
  · rename_i t
    split at h
    · rename_i access haccess
      split at h
      · cases h
      · rename_i hok
        cases h
        rw [not_or, not_not] at hok
        exact ⟨hok.1, t, rfl, haccess, rfl⟩
    · cases h

/-- What a stretch of a grant can do. -/
inductive GrantTo (grant : String) : GrantPhase → GrantEvent → GrantStep → Prop where
  | gaveUp (attempt : Nat) (message : String) (e : Thrown) :
      GrantTo grant (.fetching attempt) (.fetchFails message) (.throws e)
  | backsOff (attempt : Nat) (message : String) :
      GrantTo grant (.fetching attempt) (.fetchFails message) (.goesOn (.backingOff attempt))
  | retries (attempt : Nat) :
      GrantTo grant (.backingOff attempt) .retry (.goesOn (.fetching (attempt + 1)))
  | answered (attempt status : Nat) :
      GrantTo grant (.fetching attempt) (.answers status) (.goesOn (.reading status))
  | read (status : Nat) (b : Body) (g : GrantStep) (hg : grantAnswer grant status b = g) :
      GrantTo grant (.reading status) (.body b) g

theorem grantTo_of_step {grant : String} {phase : GrantPhase} {e : GrantEvent} {g : GrantStep}
    (h : grantStep grant phase e = some g) : GrantTo grant phase e g := by
  unfold grantStep at h
  split at h
  · split at h
    · cases h
      exact .gaveUp _ _ _
    · cases h
      exact .backsOff _ _
  · cases h
    exact .retries _
  · cases h
    exact .answered _ _
  · cases h
    exact .read _ _ _ rfl
  · cases h

/-- A refresh whose promise is not settled. -/
def Refresh.Live (f : Refresh) : Prop := ∃ phase, f.phase = .running phase

theorem Refresh.Live.not_fulfilled {f : Refresh} (h : f.Live) (v : Granted × Nat) :
    f.phase ≠ .fulfilled v := by
  obtain ⟨phase, hphase⟩ := h
  rw [hphase]
  exact fun hv => nomatch hv

namespace Session

/-- What a stretch of a session can do. -/
inductive StepTo (s : Session) : Event → Session → Prop where
  | atOnce (nowMs : Int) (hdue : s.needsRefresh nowMs = false) :
      StepTo s (.token nowMs) { s with callers := s.callers ++ [.got s.access none] }
  | joins (nowMs : Int) (i : Nat) (hdue : s.needsRefresh nowMs = true)
      (hcell : s.refreshing = some i) : StepTo s (.token nowMs) (s.join i)
  | starts (nowMs : Int) (hdue : s.needsRefresh nowMs = true) (hcell : s.refreshing = none) :
      StepTo s (.token nowMs) ((s.startRefresh nowMs).join s.flights.length)
  | grant (i : Nat) (f : Refresh) (phase : GrantPhase) (e : GrantEvent) (g : GrantStep)
      (hget : s.flights[i]? = some f) (hphase : f.phase = .running phase)
      (hgrant : GrantTo "refresh_token" phase e g) : StepTo s (.grant i e) (s.onRefresh i f e g)
  | resumes (c i : Nat) (f : Refresh) (caller : Caller) (hcaller : s.callers[c]? = some (.waiting i))
      (hget : s.flights[i]? = some f) (hresume : s.resume i f.phase = some caller) :
      StepTo s (.resume c) { s with callers := s.callers.set c caller }

theorem stepTo_of_step {s s' : Session} {e : Event} (h : step s e = some s') : StepTo s e s' := by
  cases e with
  | token nowMs =>
    cases h
    unfold token
    split
    · rename_i hdue
      cases hcell : s.refreshing with
      | some i => exact .joins nowMs i hdue hcell
      | none => exact .starts nowMs hdue hcell
    · rename_i hdue
      exact .atOnce nowMs (Bool.eq_false_iff.mpr hdue)
  | grant i e =>
    unfold step at h
    dsimp only at h
    split at h
    · rename_i f hget
      split at h
      · rename_i phase hphase
        obtain ⟨g, hg, rfl⟩ := Option.map_eq_some_iff.mp h
        exact .grant i f phase e g hget hphase (grantTo_of_step hg)
      · cases h
    · cases h
  | resume c =>
    unfold step at h
    dsimp only at h
    split at h
    · rename_i i hcaller
      obtain ⟨caller, hbind, rfl⟩ := Option.map_eq_some_iff.mp h
      obtain ⟨f, hget, hresume⟩ := Option.bind_eq_some_iff.mp hbind
      exact .resumes c i f caller hcaller hget hresume
    · cases h

/-! ## One refresh at a time -/

def OneFlight (s : Session) : Prop :=
  Tracks (fun _ : Refresh => ()) Refresh.Live s.flights fun _ => s.refreshing

theorem oneFlight_new (j : Granted) : OneFlight (new j) := Tracks.nil

theorem OneFlight.step {s s' : Session} {e : Event} (h : OneFlight s) (hstep : StepTo s e s') :
    OneFlight s' := by
  cases hstep with
  | atOnce nowMs hdue => exact h
  | joins nowMs i hdue hcell => exact h
  | starts nowMs hdue hcell => exact Tracks.start h rfl ⟨_, rfl⟩ hcell fun _ => (if_pos rfl).symm
  | resumes c i f caller hcaller hget hresume => exact h
  | grant i f phase e g hget hphase hgrant =>
    cases g with
    | goesOn phase' =>
      exact Tracks.goesOn h hget rfl ⟨fun _ => ⟨phase, hphase⟩, fun _ => ⟨phase', rfl⟩⟩
    | returns j =>
      refine Tracks.lands h hget ⟨phase, hphase⟩ ?_ fun _ => (if_pos rfl).symm
      rintro ⟨p, hp⟩
      cases hp
    | throws err =>
      refine Tracks.lands h hget ⟨phase, hphase⟩ ?_ fun _ => (if_pos rfl).symm
      rintro ⟨p, hp⟩
      cases hp

/-! ## Tokens only get newer -/

/-- A token of generation `n`, by the count of refreshes. -/
def HasToken (s : Session) (n : Nat) (token : String) : Prop := s.accesses[n]? = some token

/-- Refresh `i` succeeded, and the token is the one it produced or a later one. -/
def Since (s : Session) (i : Nat) (token : String) : Prop :=
  ∃ f j n m, s.flights[i]? = some f ∧ f.phase = .fulfilled (j, n) ∧
    s.HasToken n j.accessToken ∧ n ≤ m ∧ s.HasToken m token

/-- A step that loses no token and no refresh that succeeded. -/
structure Kept (s s' : Session) : Prop where
  flights : ∀ (i : Nat) (f : Refresh) (v : Granted × Nat), s.flights[i]? = some f →
    f.phase = .fulfilled v → s'.flights[i]? = some f
  accesses : ∀ n token, s.HasToken n token → s'.HasToken n token

theorem Since.kept {s s' : Session} {i : Nat} {token : String} (h : s.Since i token)
    (hkept : Kept s s') : s'.Since i token := by
  obtain ⟨f, j, n, m, hget, hphase, hn, hle, hm⟩ := h
  exact ⟨f, j, n, m, hkept.flights i f _ hget hphase, hphase, hkept.accesses n _ hn, hle,
    hkept.accesses m _ hm⟩

theorem flights_set_kept {s : Session} {i : Nat} {f : Refresh} (hget : s.flights[i]? = some f)
    (hlive : f.Live) (f' : Refresh) (j : Nat) (g : Refresh) (v : Granted × Nat) (hg : s.flights[j]? = some g)
    (hv : g.phase = .fulfilled v) : (s.flights.set i f')[j]? = some g := by
  by_cases hij : i = j
  · subst hij
    rw [hget] at hg
    cases hg
    exact absurd hv (hlive.not_fulfilled v)
  · rw [List.getElem?_set_ne hij]
    exact hg

theorem kept_of_step {s s' : Session} {e : Event} (hstep : StepTo s e s') : Kept s s' := by
  cases hstep with
  | atOnce nowMs hdue => exact ⟨fun _ _ _ hget _ => hget, fun _ _ hn => hn⟩
  | joins nowMs i hdue hcell => exact ⟨fun _ _ _ hget _ => hget, fun _ _ hn => hn⟩
  | resumes c i f caller hcaller hget hresume =>
    exact ⟨fun _ _ _ hget _ => hget, fun _ _ hn => hn⟩
  | starts nowMs hdue hcell =>
    exact ⟨fun _ _ _ hget _ => getElem?_concat_of_some hget _, fun _ _ hn => hn⟩
  | grant i f phase e g hget hphase hgrant =>
    have hset := flights_set_kept hget ⟨phase, hphase⟩
    cases g with
    | goesOn phase' => exact ⟨hset _, fun _ _ hn => hn⟩
    | returns j => exact ⟨hset _, fun _ _ hn => getElem?_concat_of_some hn _⟩
    | throws err => exact ⟨hset _, fun _ _ hn => hn⟩

/-- The session holds its newest token, and each refresh produced the one it says. -/
structure Generations (s : Session) : Prop where
  length : s.accesses.length = s.refreshes + 1
  newest : s.HasToken s.refreshes s.access
  made : ∀ (i : Nat) (f : Refresh) (j : Granted) (n : Nat), s.flights[i]? = some f →
    f.phase = .fulfilled (j, n) → n ≤ s.refreshes ∧ s.HasToken n j.accessToken
  got : ∀ (c i : Nat) (token : String), s.callers[c]? = some (.got token (some i)) → s.Since i token

theorem generations_new (j : Granted) : Generations (new j) where
  length := rfl
  newest := rfl
  made := fun _ _ _ _ hget => by cases hget
  got := fun _ _ _ hget => by cases hget

/-- A new caller that got no token from a refresh leaves the tokens of the others as they were. -/
theorem got_append {s s' : Session} {caller : Caller} {c i : Nat} {token : String}
    (h : Generations s) (hkept : Kept s s') (hcaller : ∀ t k, caller ≠ .got t (some k))
    (hget : (s.callers ++ [caller])[c]? = some (.got token (some i))) : s'.Since i token := by
  obtain hold | ⟨-, hnew⟩ := getElem?_concat_cases hget
  · exact (h.got c i token hold).kept hkept
  · exact absurd hnew.symm (hcaller token i)

theorem Generations.step {s s' : Session} {e : Event} (h : Generations s)
    (hstep : StepTo s e s') : Generations s' := by
  have hkept := kept_of_step hstep
  cases hstep with
  | atOnce nowMs hdue =>
    refine ⟨h.length, h.newest, h.made, fun c i token hget => ?_⟩
    exact got_append h hkept (fun _ _ he => by cases he) hget
  | joins nowMs i hdue hcell =>
    refine ⟨h.length, h.newest, h.made, fun c i token hget => ?_⟩
    exact got_append h hkept (fun _ _ he => by cases he) hget
  | starts nowMs hdue hcell =>
    refine ⟨h.length, h.newest, fun i f j n hget hphase => ?_, fun c i token hget => ?_⟩
    · obtain hold | ⟨-, rfl⟩ := getElem?_concat_cases hget
      · exact h.made i f j n hold hphase
      · cases hphase
    · exact got_append h hkept (fun _ _ he => by cases he) hget
  | resumes c i f caller hcaller hget hresume =>
    refine ⟨h.length, h.newest, h.made, fun c' i' token hget' => ?_⟩
    obtain ⟨-, hold⟩ | ⟨-, hnew⟩ := getElem?_set_cases hget'
    · exact h.got c' i' token hold
    · subst hnew
      -- the caller reads the field after its refresh wrote it
      unfold resume at hresume
      split at hresume
      · rename_i v hphase
        cases hresume
        obtain ⟨hle, hn⟩ := h.made i f v.1 v.2 hget hphase
        exact ⟨f, v.1, v.2, s.refreshes, hget, hphase, hn, hle, h.newest⟩
      · cases hresume
      · cases hresume
  | grant i f phase e g hget hphase hgrant =>
    cases g with
    | goesOn phase' =>
      refine ⟨h.length, h.newest, fun k g j n hk hg => ?_, fun c i token hc =>
        (h.got c i token hc).kept hkept⟩
      obtain ⟨-, hold⟩ | ⟨-, rfl⟩ := getElem?_set_cases hk
      · exact h.made k g j n hold hg
      · cases hg
    | throws err =>
      refine ⟨h.length, h.newest, fun k g j n hk hg => ?_, fun c i token hc =>
        (h.got c i token hc).kept hkept⟩
      obtain ⟨-, hold⟩ | ⟨-, rfl⟩ := getElem?_set_cases hk
      · exact h.made k g j n hold hg
      · cases hg
    | returns j =>
      have hlen : (s.accesses ++ [j.accessToken]).length = s.refreshes + 1 + 1 := by
        rw [List.length_append, h.length]
        rfl
      have hnew : (s.accesses ++ [j.accessToken])[s.refreshes + 1]? = some j.accessToken := by
        rw [← h.length]
        exact List.getElem?_concat_length
      refine ⟨hlen, hnew, fun k g j' n hk hg => ?_, fun c i token hc =>
        (h.got c i token hc).kept hkept⟩
      obtain ⟨-, hold⟩ | ⟨-, rfl⟩ := getElem?_set_cases hk
      · obtain ⟨hle, hn⟩ := h.made k g j' n hold hg
        exact ⟨Nat.le_succ_of_le hle, getElem?_concat_of_some hn _⟩
      · cases hg
        exact ⟨Nat.le_refl _, hnew⟩

/-! ## A failed refresh is made again -/

/-- The refresh that is running is the last one, and after the last one, unless it
succeeded, the token is as old as it was. -/
structure StillDue (s : Session) : Prop where
  last : ∀ i, s.refreshing = some i → i + 1 = s.flights.length
  due : ∀ f, s.flights.getLast? = some f → (∀ v, f.phase ≠ .fulfilled v) →
    ∀ nowMs, f.startedMs ≤ nowMs → s.needsRefresh nowMs = true

theorem stillDue_new (j : Granted) : StillDue (new j) where
  last := fun _ h => by cases h
  due := fun _ h => by cases h

theorem needsRefresh_mono {s : Session} {nowMs later : Int} (h : s.needsRefresh nowMs = true)
    (hle : nowMs ≤ later) : s.needsRefresh later = true := by
  unfold needsRefresh at h ⊢
  split
  · rename_i expMs hexp
    rw [hexp] at h
    dsimp only at h
    rw [decide_eq_true_eq] at h ⊢
    omega
  · rename_i hexp
    rw [hexp] at h
    exact h

theorem getLast?_set_last {l : List Refresh} {i : Nat} {f' g : Refresh} (hlast : i + 1 = l.length)
    (hg : (l.set i f').getLast? = some g) : g = f' := by
  rw [List.getLast?_eq_getElem?, List.length_set, List.getElem?_set, if_pos (by omega),
    if_pos (by omega)] at hg
  exact (Option.some.inj hg).symm

theorem StillDue.step {s s' : Session} {e : Event} (h : StillDue s) (hone : OneFlight s)
    (hstep : StepTo s e s') : StillDue s' := by
  cases hstep with
  | atOnce nowMs hdue => exact ⟨h.last, h.due⟩
  | joins nowMs i hdue hcell => exact ⟨h.last, h.due⟩
  | resumes c i f caller hcaller hget hresume => exact ⟨h.last, h.due⟩
  | starts nowMs hdue hcell =>
    refine ⟨fun i hi => ?_, fun f hf _ later hle => ?_⟩
    · cases hi
      change s.flights.length + 1 = (s.flights ++ [_]).length
      rw [List.length_append, List.length_singleton]
    · change (s.flights ++ [_]).getLast? = some f at hf
      rw [List.getLast?_concat] at hf
      cases hf
      exact needsRefresh_mono hdue hle
  | grant i f phase e g hget hphase hgrant =>
    have hcell : s.refreshing = some i := (hone () i).mpr ⟨f, hget, rfl, phase, hphase⟩
    have hlast := h.last i hcell
    have hold : ∀ nowMs, f.startedMs ≤ nowMs → s.needsRefresh nowMs = true := by
      refine h.due f ?_ (Refresh.Live.not_fulfilled ⟨phase, hphase⟩)
      rw [List.getLast?_eq_getElem?, ← hlast, Nat.add_sub_cancel]
      exact hget
    cases g with
    | goesOn phase' =>
      refine ⟨fun k hk => (h.last k hk).trans (List.length_set).symm, fun g hg _ => ?_⟩
      rw [getLast?_set_last hlast hg]
      exact hold
    | throws err =>
      refine ⟨fun k hk => (by cases hk), fun g hg _ => ?_⟩
      rw [getLast?_set_last hlast hg]
      exact hold
    | returns j =>
      refine ⟨fun k hk => (by cases hk), fun g hg hnot => ?_⟩
      rw [getLast?_set_last hlast hg] at hnot
      exact absurd rfl (hnot _)

/-! ## A spent refresh token is not sent again -/

/-- After the 200 for a refresh token comes its body, and when that was read the token does
not go out any more. -/
def NeverResent (wire : List Wire) : Prop :=
  ∀ before after token, wire = before ++ .answered token 200 :: after → after = [] ∨
    ∃ got rest, after = .body token got :: rest ∧ (got = true → .sent token ∉ rest)

/-- A line after the 200 for a token is its body, and a token whose body was read is not
sent. -/
theorem NeverResent.concat {wire : List Wire} {x : Wire} (h : NeverResent wire)
    (hread : ∀ token, x = .sent token → .body token true ∉ wire)
    (hbody : ∀ before token, wire = before ++ [.answered token 200] → ∃ got, x = .body token got) :
    NeverResent (wire ++ [x]) := by
  intro before after token hsplit
  obtain rfl | ⟨after', y, rfl⟩ := List.eq_nil_or_concat after
  · exact .inl rfl
  · right
    rw [List.concat_eq_append, ← List.cons_append, ← List.append_assoc] at hsplit
    obtain ⟨hwire, hlast⟩ := List.append_inj' hsplit rfl
    cases hlast
    obtain rfl | ⟨got, rest, rfl, hrest⟩ := h before after' token hwire
    · obtain ⟨got, rfl⟩ := hbody before token hwire
      exact ⟨got, [], rfl, fun _ hmem => nomatch hmem⟩
    · refine ⟨got, rest ++ [x], List.concat_eq_append, fun hgot hmem => ?_⟩
      rw [List.mem_append, List.mem_singleton] at hmem
      obtain hold | hnew := hmem
      · exact hrest hgot hold
      · subst hgot
        refine hread token hnew.symm ?_
        rw [hwire]
        exact List.mem_append_right _ (List.mem_cons_of_mem _ List.mem_cons_self)

/-- What the lines between the session and Auth say of the token it holds. -/
structure Unspent (s : Session) : Prop where
  resent : NeverResent s.wire
  sentFirst : ∀ token status, .answered token status ∈ s.wire → .sent token ∈ s.wire
  readFirst : ∀ token got, .body token got ∈ s.wire → .sent token ∈ s.wire
  held : ∀ (i : Nat) (f : Refresh), s.flights[i]? = some f → f.Live →
    f.refreshToken = s.refreshToken ∧ .sent f.refreshToken ∈ s.wire
  unspent : .body s.refreshToken true ∉ s.wire
  /-- A 200 is the last line only while a refresh reads its body. -/
  reading : ∀ before token, s.wire = before ++ [.answered token 200] →
    ∃ (i : Nat) (f : Refresh), s.flights[i]? = some f ∧ f.phase = .running (.reading 200) ∧
      f.refreshToken = token

theorem unspent_new (j : Granted) : Unspent (new j) where
  resent := fun before after token h => absurd h.symm (by simp [new])
  sentFirst := fun _ _ h => by cases h
  readFirst := fun _ _ h => by cases h
  held := fun _ _ hget => by cases hget
  unspent := fun h => by cases h
  reading := fun before token h => absurd h.symm (by simp [new])

/-- A body with an access token has a refresh token that was never sent. -/
theorem honours_body {s : Session} {i : Nat} {f : Refresh} {t : TokenBody} {access : String}
    (h : s.honours (.grant i (.body (.fields t))) = true) (hget : s.flights[i]? = some f)
    (hphase : f.phase = .running (.reading 200)) (haccess : t.accessToken = some access) :
    ∃ fresh, t.refreshToken = some fresh ∧ .sent (some fresh) ∉ s.wire := by
  simp only [honours, hget, Option.map_some, hphase] at h
  split at h
  · rename_i fresh _ _ _ _ heq
    obtain rfl := Body.fields.inj heq
    exact ⟨fresh, rfl, (of_decide_eq_true h).2⟩
  · rename_i heq
    obtain rfl := Body.fields.inj heq
    cases haccess
  · cases h

section

variable {s s' : Session} {i : Nat} {f : Refresh} {phase : GrantPhase}

/-- While a refresh runs, only a body it reads can be missing. -/
theorem Unspent.last (h : Unspent s) (hone : OneFlight s) (hget : s.flights[i]? = some f)
    (hphase : f.phase = .running phase) {before : List Wire} {token : Option String}
    (hwire : s.wire = before ++ [.answered token 200]) :
    phase = .reading 200 ∧ f.refreshToken = token := by
  obtain ⟨k, g, hk, hg, htoken⟩ := h.reading before token hwire
  have hki : k = i := hone.unique hk hget rfl ⟨_, hg⟩ ⟨_, hphase⟩
  subst hki
  rw [hget] at hk
  cases hk
  rw [hphase] at hg
  cases hg
  exact ⟨rfl, htoken⟩

/-- A refresh that ends leaves no refresh running. -/
theorem not_live_of_ended (hone : OneFlight s) (hget : s.flights[i]? = some f)
    (hphase : f.phase = .running phase) (f' : Refresh) (hf' : ¬ f'.Live) (k : Nat) (g : Refresh)
    (hk : (s.flights.set i f')[k]? = some g) : ¬ g.Live := by
  intro hg
  obtain ⟨hne, hold⟩ | ⟨-, rfl⟩ := getElem?_set_cases hk
  · exact hne (hone.unique hold hget rfl hg ⟨_, hphase⟩)
  · exact hf' hg

/-- A running refresh goes on, and puts at most one line on the wire. -/
theorem Unspent.goesOn (h : Unspent s) (hone : OneFlight s) (hget : s.flights[i]? = some f)
    (hphase : f.phase = .running phase) {phase' : GrantPhase} {e : GrantEvent}
    (hgrant : GrantTo "refresh_token" phase e (.goesOn phase')) :
    Unspent (s.onRefresh i f e (.goesOn phase')) := by
  obtain ⟨htoken, hsent⟩ := h.held i f hget ⟨_, hphase⟩
  have hheld : ∀ w, ∀ (k : Nat) (g : Refresh),
      (s.flights.set i { f with phase := .running phase' })[k]? = some g → g.Live →
        g.refreshToken = s.refreshToken ∧ .sent g.refreshToken ∈ s.wire ++ w := by
    intro w k g hk hg
    obtain ⟨-, hold⟩ | ⟨-, rfl⟩ := getElem?_set_cases hk
    · exact (h.held k g hold hg).imp_right (List.mem_append_left w)
    · exact ⟨htoken, List.mem_append_left w hsent⟩
  cases hgrant with
  | backsOff attempt message =>
    refine ⟨?_, ?_, ?_, hheld [], ?_, fun before token hwire => ?_⟩
    all_goals dsimp only [onRefresh, wireOf] at *
    all_goals rw [List.append_nil] at *
    · exact h.resent
    · exact h.sentFirst
    · exact h.readFirst
    · exact h.unspent
    · cases (h.last hone hget hphase hwire).1
  | retries attempt =>
    refine ⟨h.resent.concat (fun token htok => ?_) (fun before token hwire => ?_),
      fun token status hmem => ?_, fun token got hmem => ?_, hheld _, fun hmem => ?_,
      fun before token hwire => ?_⟩
    · cases htok
      rw [htoken]
      exact h.unspent
    · cases (h.last hone hget hphase hwire).1
    · obtain hold | hnew := List.mem_append.mp hmem
      · exact List.mem_append_left _ (h.sentFirst token status hold)
      · cases List.mem_singleton.mp hnew
    · obtain hold | hnew := List.mem_append.mp hmem
      · exact List.mem_append_left _ (h.readFirst token got hold)
      · cases List.mem_singleton.mp hnew
    · obtain hold | hnew := List.mem_append.mp hmem
      · exact h.unspent hold
      · cases List.mem_singleton.mp hnew
    · cases (List.append_inj' hwire rfl).2
  | answered attempt status =>
    refine ⟨h.resent.concat (fun token htok => nomatch htok) (fun before token hwire => ?_),
      fun token status' hmem => ?_, fun token got hmem => ?_, hheld _, fun hmem => ?_,
      fun before token hwire => ?_⟩
    · cases (h.last hone hget hphase hwire).1
    · obtain hold | hnew := List.mem_append.mp hmem
      · exact List.mem_append_left _ (h.sentFirst token status' hold)
      · cases List.mem_singleton.mp hnew
        exact List.mem_append_left _ hsent
    · obtain hold | hnew := List.mem_append.mp hmem
      · exact List.mem_append_left _ (h.readFirst token got hold)
      · cases List.mem_singleton.mp hnew
    · obtain hold | hnew := List.mem_append.mp hmem
      · exact h.unspent hold
      · cases List.mem_singleton.mp hnew
    · -- the 200 that is the last line now
      cases (List.append_inj' hwire rfl).2
      obtain ⟨hlen, -⟩ := List.getElem?_eq_some_iff.mp hget
      exact ⟨i, _, List.getElem?_set_self hlen, rfl, rfl⟩
  | read status b _ hg => exact absurd hg grantAnswer_not_goesOn

/-- The line of a body, after which no refresh is running. -/
theorem Unspent.bodyLine (h : Unspent s) (hone : OneFlight s) (hget : s.flights[i]? = some f)
    {status : Nat} (hphase : f.phase = .running (.reading status)) (got : Bool)
    (hwire : s'.wire = s.wire ++ [.body f.refreshToken got])
    (hended : ∀ (k : Nat) (g : Refresh), s'.flights[k]? = some g → ¬ g.Live)
    (hunspent : .body s'.refreshToken true ∉ s'.wire) : Unspent s' := by
  obtain ⟨-, hsent⟩ := h.held i f hget ⟨_, hphase⟩
  refine ⟨?_, fun token status' hmem => ?_, fun token got' hmem => ?_,
    fun k g hk hg => absurd hg (hended k g hk), hunspent, fun before token hlast => ?_⟩
  · rw [hwire]
    refine h.resent.concat (fun token htok => nomatch htok) fun before token hlast => ?_
    exact ⟨got, congrArg (Wire.body · got) (h.last hone hget hphase hlast).2⟩
  · rw [hwire] at hmem ⊢
    obtain hold | hnew := List.mem_append.mp hmem
    · exact List.mem_append_left _ (h.sentFirst token status' hold)
    · cases List.mem_singleton.mp hnew
  · rw [hwire] at hmem ⊢
    obtain hold | hnew := List.mem_append.mp hmem
    · exact List.mem_append_left _ (h.readFirst token got' hold)
    · cases List.mem_singleton.mp hnew
      exact List.mem_append_left _ hsent
  · rw [hwire] at hlast
    cases (List.append_inj' hlast rfl).2

/-- A refresh that failed leaves the token it sent. -/
theorem Unspent.throws (h : Unspent s) (hone : OneFlight s) (hget : s.flights[i]? = some f)
    (hphase : f.phase = .running phase) {e : GrantEvent} {err : Thrown}
    (hgrant : GrantTo "refresh_token" phase e (.throws err)) :
    Unspent (s.onRefresh i f e (.throws err)) := by
  have hended := not_live_of_ended hone hget hphase { f with phase := .rejected err }
    (fun ⟨_, hp⟩ => nomatch hp)
  cases hgrant with
  | gaveUp attempt message _ =>
    refine ⟨?_, ?_, ?_, fun k g hk hg => absurd hg (hended k g hk), ?_, fun before token hwire => ?_⟩
    all_goals dsimp only [onRefresh, wireOf] at *
    all_goals rw [List.append_nil] at *
    · exact h.resent
    · exact h.sentFirst
    · exact h.readFirst
    · exact h.unspent
    · cases (h.last hone hget hphase hwire).1
  | read status b _ hg =>
    refine h.bodyLine hone hget hphase false rfl hended fun hmem => ?_
    obtain hold | hnew := List.mem_append.mp hmem
    · exact h.unspent hold
    · exact Bool.noConfusion (Wire.body.inj (List.mem_singleton.mp hnew)).2

/-- A refresh that succeeded replaces the token by one that was never sent. -/
theorem Unspent.returns (h : Unspent s) (hone : OneFlight s) (hget : s.flights[i]? = some f)
    (hphase : f.phase = .running phase) {e : GrantEvent} {j : Granted}
    (hgrant : GrantTo "refresh_token" phase e (.returns j))
    (hauth : s.honours (.grant i e) = true) : Unspent (s.onRefresh i f e (.returns j)) := by
  have hended := not_live_of_ended hone hget hphase
    { f with phase := .fulfilled (j, s.refreshes + 1) } (fun ⟨_, hp⟩ => nomatch hp)
  obtain ⟨-, hsent⟩ := h.held i f hget ⟨_, hphase⟩
  cases hgrant with
  | read status b _ hg =>
    obtain ⟨rfl, t, rfl, haccess, hrefresh⟩ := grantAnswer_returns hg
    obtain ⟨fresh, hfresh, hunsent⟩ := honours_body hauth hget hphase haccess
    refine h.bodyLine hone hget hphase true rfl hended fun hmem => hunsent ?_
    rw [← hfresh, hrefresh]
    obtain hold | hnew := List.mem_append.mp hmem
    · exact h.readFirst _ _ hold
    · have htoken : j.refreshToken = f.refreshToken := (Wire.body.inj (List.mem_singleton.mp hnew)).1
      rw [htoken]
      exact hsent

theorem Unspent.step {e : Event} (h : Unspent s) (hone : OneFlight s)
    (hauth : s.honours e = true) (hstep : StepTo s e s') : Unspent s' := by
  cases hstep with
  | atOnce nowMs hdue => exact ⟨h.resent, h.sentFirst, h.readFirst, h.held, h.unspent, h.reading⟩
  | joins nowMs i hdue hcell =>
    exact ⟨h.resent, h.sentFirst, h.readFirst, h.held, h.unspent, h.reading⟩
  | resumes c i f caller hcaller hget hresume =>
    exact ⟨h.resent, h.sentFirst, h.readFirst, h.held, h.unspent, h.reading⟩
  | grant i f phase e g hget hphase hgrant =>
    cases g with
    | goesOn phase' => exact h.goesOn hone hget hphase hgrant
    | returns j => exact h.returns hone hget hphase hgrant hauth
    | throws err => exact h.throws hone hget hphase hgrant
  | starts nowMs hdue hcell =>
    have hidle : ∀ (k : Nat) (g : Refresh), s.flights[k]? = some g → ¬ g.Live := by
      intro k g hk hg
      have hcell' := (hone () k).mpr ⟨g, hk, rfl, hg⟩
      rw [hcell] at hcell'
      cases hcell'
    refine ⟨h.resent.concat (fun token htok => ?_) (fun before token hwire => ?_),
      fun token status hmem => ?_, fun token got hmem => ?_, fun k g hk hg => ?_, fun hmem => ?_,
      fun before token hwire => ?_⟩
    · cases htok
      exact h.unspent
    · obtain ⟨k, g, hk, hg, -⟩ := h.reading before token hwire
      exact absurd ⟨_, hg⟩ (hidle k g hk)
    · obtain hold | hnew := List.mem_append.mp hmem
      · exact List.mem_append_left _ (h.sentFirst token status hold)
      · cases List.mem_singleton.mp hnew
    · obtain hold | hnew := List.mem_append.mp hmem
      · exact List.mem_append_left _ (h.readFirst token got hold)
      · cases List.mem_singleton.mp hnew
    · obtain hold | ⟨-, rfl⟩ := getElem?_concat_cases hk
      · exact absurd hg (hidle k g hold)
      · exact ⟨rfl, List.mem_append_right _ (List.mem_singleton.mpr rfl)⟩
    · obtain hold | hnew := List.mem_append.mp hmem
      · exact h.unspent hold
      · cases List.mem_singleton.mp hnew
    · cases (List.append_inj' hwire rfl).2

end

/-! ## What a session keeps over every run -/

/-- What the session holds after every run whose answers honour the contract. -/
structure Inv (s : Session) : Prop where
  one : OneFlight s
  generations : Generations s
  due : StillDue s
  unspent : Unspent s

theorem inv_new (j : Granted) : Inv (new j) :=
  ⟨oneFlight_new j, generations_new j, stillDue_new j, unspent_new j⟩

theorem Inv.step {s s' : Session} {e : Event} (h : Inv s) (hauth : s.honours e = true)
    (hstep : StepTo s e s') : Inv s' :=
  ⟨h.one.step hstep, h.generations.step hstep, h.due.step h.one hstep,
    h.unspent.step h.one hauth hstep⟩

theorem inv_run {j : Granted} {events : List Event} {s : Session} (hrun : run j events = some s)
    (hauth : AlongRun step (fun s e => s.honours e = true) (new j) events) : Inv s :=
  AlongRun.invariant (inv_new j) (fun _ _ _ hP hm hstep => hm.step hP (stepTo_of_step hstep))
    events s hauth hrun

end Session

/-! ## One sign-in a region -/

namespace Sessions

/-- What a stretch of the client's sessions can do. -/
inductive StepTo (creds : String → Option Credentials) (ck : Sessions) : Event → Sessions → Prop where
  | joins (region : String) (i : Nat) (hcell : ck.sessions.get? region = some i) :
      StepTo creds ck (.session region) (ck.hand (.promise region i))
  | starts (region : String) (c : Credentials) (hcell : ck.sessions.get? region = none)
      (hcreds : creds region = some c) :
      StepTo creds ck (.session region)
        ((ck.startSignIn region c).hand (.promise region ck.signIns.length))
  | refuses (region : String) (e : Thrown) (hcell : ck.sessions.get? region = none)
      (hcreds : creds region = none) : StepTo creds ck (.session region) (ck.hand (.threw e))
  | grant (i : Nat) (f : SignIn) (phase : GrantPhase) (e : GrantEvent) (g : GrantStep)
      (hget : ck.signIns[i]? = some f) (hphase : f.phase = .running phase) :
      StepTo creds ck (.grant i e)
        { ck with signIns := ck.signIns.set i { f with phase := signInPhase g } }
  | caught (i : Nat) (f : SignIn) (e : Thrown) (hget : ck.signIns[i]? = some f)
      (hphase : f.phase = .rejected e) (hcaught : f.caught = false) :
      StepTo creds ck (.caught i)
        { ck with
          sessions := ck.sessions.delete f.region
          signIns := ck.signIns.set i { f with caught := true } }

section

variable {creds : String → Option Credentials} {ck ck' : Sessions} {e : Event}

theorem stepTo_of_step (h : step creds ck e = some ck') : StepTo creds ck e ck' := by
  cases e with
  | session region =>
    cases h
    unfold session
    split
    · rename_i i hcell
      exact .joins region i hcell
    · rename_i hcell
      split
      · rename_i c hcreds
        exact .starts region c hcell hcreds
      · rename_i hcreds
        exact .refuses region _ hcell hcreds
  | grant i e =>
    unfold step at h
    dsimp only at h
    split at h
    · rename_i f hget
      split at h
      · rename_i phase hphase
        obtain ⟨g, -, rfl⟩ := Option.map_eq_some_iff.mp h
        exact .grant i f phase e g hget hphase
      · cases h
    · cases h
  | caught i =>
    unfold step at h
    dsimp only at h
    split at h
    · rename_i f hget
      split at h
      · rename_i err hphase hcaught
        cases h
        exact .caught i f err hget hphase hcaught
      · cases h
    · cases h

/-- The map holds the sign-in of each region that is running, succeeded, or failed
without its handler having run; and callers got sign-ins of their region. -/
structure Inv (ck : Sessions) : Prop where
  one : Tracks SignIn.region (fun f => f.caught = false) ck.signIns fun region =>
    ck.sessions.get? region
  failed : ∀ (i : Nat) (f : SignIn), ck.signIns[i]? = some f → f.caught = true →
    ∃ err, f.phase = .rejected err
  handed : ∀ region i, .promise region i ∈ ck.handed →
    ∃ f, ck.signIns[i]? = some f ∧ f.region = region

/-- Changing a sign-in leaves its region, and the others, as they are. -/
theorem getElem?_set_key {i k : Nat} {f f' g : SignIn} {region : String}
    (hget : ck.signIns[i]? = some f) (hk : ck.signIns[k]? = some g) (hregion : g.region = region)
    (hf' : f'.region = f.region) :
    ∃ g', (ck.signIns.set i f')[k]? = some g' ∧ g'.region = region := by
  by_cases hik : i = k
  · subst hik
    rw [hget] at hk
    cases hk
    obtain ⟨hlen, -⟩ := List.getElem?_eq_some_iff.mp hget
    exact ⟨f', List.getElem?_set_self hlen, hf'.trans hregion⟩
  · exact ⟨g, (List.getElem?_set_ne hik).trans hk, hregion⟩

theorem inv_init : Inv {} where
  one := Tracks.nil
  failed := fun _ _ h => by cases h
  handed := fun _ _ h => by cases h

theorem Inv.step (h : Inv ck) (hstep : StepTo creds ck e ck') : Inv ck' := by
  cases hstep with
  | joins region i hcell =>
    refine ⟨h.one, h.failed, fun r k hmem => ?_⟩
    obtain hold | hnew := List.mem_append.mp hmem
    · exact h.handed r k hold
    · cases List.mem_singleton.mp hnew
      obtain ⟨f, hget, hregion, -⟩ := (h.one region i).mp hcell
      exact ⟨f, hget, hregion⟩
  | refuses region err hcell hcreds =>
    refine ⟨h.one, h.failed, fun r k hmem => ?_⟩
    obtain hold | hnew := List.mem_append.mp hmem
    · exact h.handed r k hold
    · cases List.mem_singleton.mp hnew
  | starts region c hcell hcreds =>
    refine ⟨h.one.start rfl rfl hcell fun r => JsMap.get?_set _ _ _ r, fun k f hget hcaught => ?_,
      fun r k hmem => ?_⟩
    · obtain hold | ⟨-, rfl⟩ := getElem?_concat_cases hget
      · exact h.failed k f hold hcaught
      · cases hcaught
    · obtain hold | hnew := List.mem_append.mp hmem
      · obtain ⟨f, hget, hregion⟩ := h.handed r k hold
        exact ⟨f, getElem?_concat_of_some hget _, hregion⟩
      · cases List.mem_singleton.mp hnew
        exact ⟨_, List.getElem?_concat_length, rfl⟩
  | grant i f phase e g hget hphase =>
    refine ⟨h.one.goesOn hget rfl Iff.rfl, fun k f' hk hcaught => ?_, fun r k hmem => ?_⟩
    · obtain ⟨-, hold⟩ | ⟨-, rfl⟩ := getElem?_set_cases hk
      · exact h.failed k f' hold hcaught
      · obtain ⟨err, herr⟩ := h.failed i f hget hcaught
        rw [hphase] at herr
        cases herr
    · obtain ⟨f', hk, hregion⟩ := h.handed r k hmem
      exact getElem?_set_key hget hk hregion rfl
  | caught i f err hget hphase hcaught =>
    refine ⟨h.one.lands hget hcaught (fun hnot => nomatch hnot) fun r => JsMap.get?_delete _ _ r,
      fun k f' hk hcaught' => ?_, fun r k hmem => ?_⟩
    · obtain ⟨-, hold⟩ | ⟨-, rfl⟩ := getElem?_set_cases hk
      · exact h.failed k f' hold hcaught'
      · exact ⟨err, hphase⟩
    · obtain ⟨f', hk, hregion⟩ := h.handed r k hmem
      exact getElem?_set_key hget hk hregion rfl

theorem inv_run {events : List Event} (hrun : run creds events = some ck) : Inv ck :=
  runEvents_invariant (I := fun _ => Inv) inv_init
    (fun _ _ _ _ _ hm hstep => hm.step (stepTo_of_step hstep)) events ck hrun

end

end Sessions

end SupabaseLab.ClientKeyed
