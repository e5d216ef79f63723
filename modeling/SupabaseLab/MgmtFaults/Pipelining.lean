/-
  MgmtFaults/Pipelining.lean --- a connection is handled like its whole stream.

  Source: `pump`, `data`, `drain`, `flush` and `handle` of
  experiments/mgmt-api-faults/lib/connfault.ts.

  A request that is whole stays the same request however much comes in after it,
  so the requests read from the pieces of a stream are the first ones of the
  stream.  They are handled up to the first whose rule closes the connection.
-/
import SupabaseLab.MgmtFaults.ConnProxy

set_option autoImplicit false

namespace SupabaseLab.MgmtFaults

open Library

/-! ## Reading requests -/

/-- What is found at the front of a buffer does not depend on what comes after. -/
theorem parseRequest_append {buf : Bytes} (later : Bytes) (h : parseRequest buf ≠ .more) :
    parseRequest (buf ++ later) = parseRequest buf := by
  cases hstop : indexOf endOfHead buf with
  | none =>
    rw [parseRequest, hstop] at h
    exact absurd rfl h
  | some stop =>
    have hfits : stop + 4 ≤ buf.length := indexOf_fits hstop
    have hhead : (buf ++ later).take stop = buf.take stop :=
      List.take_append_of_le_length (by omega)
    unfold parseRequest at h ⊢
    rw [hstop] at h
    rw [indexOf_append later hstop, hstop]
    dsimp only at h ⊢
    rw [hhead]
    split
    · rfl
    · rename_i acc hacc
      rw [hacc] at h
      dsimp only at h
      split
      · rfl
      · rename_i len hlen
        rw [hlen] at h
        dsimp only at h
        by_cases hshort : buf.length < stop + 4 + len
        · rw [if_pos hshort] at h
          exact absurd rfl h
        · have hlonger : ¬ (buf ++ later).length < stop + 4 + len := by
            rw [List.length_append]
            omega
          have hbody : ((buf ++ later).drop (stop + 4)).take len =
              (buf.drop (stop + 4)).take len := by
            rw [List.drop_append_of_le_length hfits,
              List.take_append_of_le_length (by rw [List.length_drop]; omega)]
          rw [if_neg hshort, if_neg hlonger, hbody]

/-- A request ends where the buffer does, or before. -/
theorem used_le_length {buf : Bytes} {p : ParsedRequest} (h : parseRequest buf = .request p) :
    p.used ≤ buf.length := by
  unfold parseRequest at h
  split at h
  · cases h
  · dsimp only at h
    split at h
    · cases h
    · split at h
      · cases h
      · split at h
        · cases h
        · cases h
          dsimp only
          omega

/-- The requests that follow one another in a stream. -/
def requests : Framing UInt8 ParsedRequest where
  read buf :=
    match parseRequest buf with
    | .request p => some (p, p.used)
    | _ => none
  fits := by
    intro buf p n h
    split at h
    · rename_i q hq
      cases h
      exact used_le_length hq
    · cases h
  stable := by
    intro buf p n later h
    split at h
    · rename_i q hq
      rw [parseRequest_append later (by rw [hq]; exact Parsed.noConfusion), hq]
      exact h
    · cases h

theorem requests_read {buf : Bytes} {p : ParsedRequest} (h : parseRequest buf = .request p) :
    requests.read buf = some (p, p.used) := by
  show (match parseRequest buf with
    | .request p => some (p, p.used)
    | _ => none) = _
  rw [h]

theorem requests_read_none {buf : Bytes} (h : ∀ p, parseRequest buf ≠ .request p) :
    requests.read buf = none := by
  show (match parseRequest buf with
    | .request p => some (p, p.used)
    | _ => none) = _
  split
  · rename_i p hp
    exact absurd hp (h p)
  · rfl

theorem requests_read_nil : requests.read [] = none := rfl

/-! ## Sending bytes -/

/-- The socket takes the front of what is queued. -/
theorem flush_taken {taken : List Int} {out out' : List Bytes} {w : Bytes}
    (h : flush taken out = some (w, out')) : w ++ out'.flatten = out.flatten := by
  induction taken, out using flush.induct generalizing w out' with
  | case1 =>
    cases h
    rfl
  | case2 n chunk out hn =>
    rw [flush, if_pos hn, if_pos rfl] at h
    cases h
    rfl
  | case3 n taken chunk out hn htaken =>
    rw [flush, if_pos hn, if_neg htaken] at h
    cases h
  | case4 n chunk out hn hshort =>
    rw [flush, if_neg hn, if_pos hshort, if_pos rfl] at h
    cases h
    rw [List.flatten_cons, List.flatten_cons, ← List.append_assoc, List.take_append_drop]
  | case5 n taken chunk out hn hshort htaken =>
    rw [flush, if_neg hn, if_pos hshort, if_neg htaken] at h
    cases h
  | case6 n taken chunk out hn hshort ih =>
    rw [flush, if_neg hn, if_neg hshort] at h
    obtain ⟨r, hr, hpair⟩ := Option.map_eq_some_iff.mp h
    cases hpair
    rw [List.append_assoc, ih hr, List.flatten_cons]
  | case7 taken out hnil hcons =>
    rw [flush] at h
    · cases h
    · exact hnil
    · exact hcons

/-- A socket that takes every chunk leaves nothing queued. -/
theorem flush_whole (out : List Bytes) :
    flush (out.map fun chunk => (chunk.length : Int)) out = some (out.flatten, []) := by
  induction out with
  | nil => rfl
  | cons chunk out ih =>
    rw [List.map_cons, flush, if_neg (by omega), if_neg (by omega), ih]
    rfl

/-! ## What a step does -/

section Steps

variable {isMatch : String → String → Bool} {s s' : Conn} {p : ParsedRequest} {e : Event}
  {es : List Event}

/-- The request is handed to `handle` by the one loop that takes it from the
buffer. -/
theorem turn_cases (h : s.turn isMatch = some s') :
    s.dead = true ∧ s' = { s with phase := .idle } ∨
    s.dead = false ∧
      (parseRequest s.buf = .more ∧ s' = { s with phase := .idle } ∨
      (∃ error, parseRequest s.buf = .refused error ∧
        s' = { s with phase := .idle, dead := true }) ∨
      ∃ p, parseRequest s.buf = .request p ∧
        s' = Conn.handle isMatch { s with buf := s.buf.drop p.used } p) := by
  unfold Conn.turn at h
  split at h
  · rename_i hdead
    cases h
    exact .inl ⟨hdead, rfl⟩
  · rename_i hdead
    refine .inr ⟨Bool.eq_false_of_not_eq_true hdead, ?_⟩
    split at h
    · rename_i hmore
      cases h
      exact .inl ⟨hmore, rfl⟩
    · rename_i error hrefused
      cases h
      exact .inr (.inl ⟨error, hrefused, rfl⟩)
    · rename_i p hp
      cases h
      exact .inr (.inr ⟨p, hp, rfl⟩)
    · cases h

/-- The ways in which `handle` stops for the first time. -/
theorem handle_cases (s : Conn) (p : ParsedRequest) :
    ∃ h rules picked, h.request = p ∧
      rules = (s.pick isMatch p.method p.path).1.rules ∧
      picked = (s.pick isMatch p.method p.path).1.picked ∧
      (h.killsBefore = true ∧ s.handle isMatch p =
        { s with
          rules := rules
          picked := picked
          handled := s.handled ++ [h]
          dead := true
          phase := .returning } ∨
      h.killsBefore = false ∧ p.accepted = false ∧ s.handle isMatch p =
        { s with
          rules := rules
          picked := picked
          handled := s.handled ++ [h]
          phase := .idle } ∨
      h.killsBefore = false ∧ p.accepted = true ∧ s.handle isMatch p =
        { s with
          rules := rules
          picked := picked
          handled := s.handled ++ [h]
          phase := .awaiting h
          forwarded := s.forwarded ++ [Forwarded.of p] }) := by
  let after := s.pick isMatch p.method p.path
  let h : Handled :=
    { request := p
      mode := after.2.bind fun i => after.1.rules[i]?.map ConnRule.mode }
  refine ⟨h, after.1.rules, after.1.picked, rfl, rfl, rfl, ?_⟩
  cases hkills : h.killsBefore with
  | true =>
    refine .inl ⟨rfl, ?_⟩
    show (if h.killsBefore = true then _ else _) = _
    rw [if_pos hkills]
    rfl
  | false =>
    have hnot : ¬ h.killsBefore = true := by
      rw [hkills]
      exact Bool.false_ne_true
    cases haccepted : p.accepted with
    | false =>
      refine .inr (.inl ⟨rfl, rfl, ?_⟩)
      show (if h.killsBefore = true then _ else if p.accepted = false then _ else _) = _
      rw [if_neg hnot, if_pos haccepted]
      rfl
    | true =>
      refine .inr (.inr ⟨rfl, rfl, ?_⟩)
      show (if h.killsBefore = true then _ else if p.accepted = false then _ else _) = _
      rw [if_neg hnot, if_neg (by rw [haccepted]; exact Bool.noConfusion)]
      rfl

/-- Flushing moves bytes from the queue to the socket. -/
theorem flush_cases {taken : List Int} (h : s.flush taken = some s') :
    ∃ w out', w ++ out'.flatten = s.out.flatten ∧
      s' = { s with written := s.written ++ w, out := out' } := by
  obtain ⟨r, hr, hs⟩ := Option.map_eq_some_iff.mp h
  exact ⟨r.1, r.2, flush_taken hr, hs.symm⟩

/-- The ways in which `handle` ends, once the upstream has answered. -/
theorem complete_cases {h : Handled} {up : Option Answer} {taken : List Int}
    (hs : s.complete h up taken = some s') :
    h.mode = some .resetAfter ∧ s' = { s with dead := true, phase := .returning } ∨
    h.mode ≠ some .resetAfter ∧ s.dead = true ∧ s' = { s with phase := .returning } ∨
    h.mode ≠ some .resetAfter ∧ s.dead = false ∧ ∃ w out',
      w ++ out'.flatten = s.out.flatten ++ replyBytes up ∧
      s' =
        { s with
          phase := .returning
          out := out'
          answered := s.answered ++ [(h, up)]
          written := s.written ++ w } := by
  unfold Conn.complete at hs
  split at hs
  · rename_i hmode
    cases hs
    exact .inl ⟨hmode, rfl⟩
  · rename_i hmode
    split at hs
    · rename_i hdead
      cases hs
      exact .inr (.inl ⟨hmode, hdead, rfl⟩)
    · rename_i hdead
      obtain ⟨w, out', hbytes, rfl⟩ := flush_cases hs
      refine .inr (.inr ⟨hmode, Bool.eq_false_of_not_eq_true hdead, w, out', ?_, rfl⟩)
      rw [hbytes, List.flatten_append]
      rfl

/-- What an event does, by where the connection is. -/
inductive Moves (isMatch : String → String → Bool) (s : Conn) : Event → Conn → Prop
  | ignores (chunk : Bytes) : s.dead = true → Moves isMatch s (.data chunk) s
  | buffers (chunk : Bytes) : s.dead = false → s.phase ≠ .idle →
      Moves isMatch s (.data chunk) { s with buf := s.buf ++ chunk }
  | starts {s' : Conn} (chunk : Bytes) : s.dead = false → s.phase = .idle →
      Conn.turn isMatch { s with buf := s.buf ++ chunk } = some s' →
      Moves isMatch s (.data chunk) s'
  | completes {s' : Conn} {h : Handled} {up : Option Answer} {taken : List Int} :
      s.phase = .awaiting h → s.complete h up taken = some s' →
      Moves isMatch s (.completes up taken) s'
  | resumes {s' : Conn} : s.phase = .returning → s.turn isMatch = some s' →
      Moves isMatch s .resumes s'
  | drains {s' : Conn} {taken : List Int} : s.flush taken = some s' →
      Moves isMatch s (.drain taken) s'
  | closes : Moves isMatch s .close { s with dead := true }
  | picks (method path : String) :
      Moves isMatch s (.elsewhere method path) (s.pick isMatch method path).1
  | sets (rules : List ConnRule) : Moves isMatch s (.setRules rules)
      { s with rules := rules.map fun r => { r with fired := 0 }, picked := [] }

theorem step_moves (hs : s.step isMatch e = some s') : Moves isMatch s e s' := by
  cases e with
  | data chunk =>
    unfold Conn.step at hs
    dsimp only at hs
    split at hs
    · rename_i hdead
      cases hs
      exact .ignores chunk hdead
    · rename_i hdead
      have halive := Bool.eq_false_of_not_eq_true hdead
      split at hs
      · rename_i hidle
        exact .starts chunk halive hidle hs
      · rename_i hbusy
        cases hs
        exact .buffers chunk halive hbusy
  | completes up taken =>
    unfold Conn.step at hs
    dsimp only at hs
    split at hs
    · rename_i h hphase
      exact .completes hphase hs
    · cases hs
  | resumes =>
    unfold Conn.step at hs
    dsimp only at hs
    split at hs
    · rename_i hreturning
      exact .resumes hreturning hs
    · cases hs
  | drain taken => exact .drains hs
  | close =>
    cases hs
    exact .closes
  | elsewhere method path =>
    cases hs
    exact .picks method path
  | setRules rules =>
    cases hs
    exact .sets rules

end Steps

/-! ## What holds at every moment of a connection -/

/-- The request is sent on to the upstream. -/
def Handled.forwards (h : Handled) : Bool := !h.killsBefore && h.request.accepted

/-- The connection is closed by the time `handle` is through with the request. -/
def Handled.closes (h : Handled) : Bool :=
  h.killsBefore || h.forwards && h.mode = some .resetAfter

/-- The request gets an answer. -/
def Handled.answers (h : Handled) : Bool := h.forwards && h.mode ≠ some .resetAfter

/-- The requests that `handle` is through with. -/
def Conn.settled (s : Conn) : List Handled :=
  match s.phase with
  | .awaiting _ => s.handled.dropLast
  | _ => s.handled

/-- What the connection has read and handled after the events `es`. -/
structure Tracked (es : List Event) (s : Conn) : Prop where
  parsed : ∃ received, received <+: dataOf es ∧ (s.dead = false → received = dataOf es) ∧
    requests.Reads received (s.handled.map Handled.request) s.buf
  /-- only the last request can have closed the connection -/
  onlyLast : ∀ h ∈ s.handled.dropLast, h.closes = false
  alive : s.dead = false → ∀ h ∈ s.settled, h.closes = false
  current : ∀ h, s.phase = .awaiting h → s.handled.getLast? = some h ∧ h.forwards = true ∧
    (s.dead = true → Event.close ∈ es)
  cause : s.dead = true → Event.close ∈ es ∨ (∃ error, parseRequest s.buf = .refused error) ∨
    ∃ h ∈ s.handled, h.closes = true
  forwarded : s.forwarded = (s.handled.filter Handled.forwards).map fun h => Forwarded.of h.request
  inOrder : s.answered.map Prod.fst <+: s.handled.filter Handled.answers
  answered : s.dead = false ∨ Event.close ∉ es →
    s.answered.map Prod.fst = s.settled.filter Handled.answers

/-- `pump` stops only when there is no whole request, or when `handle` throws. -/
def Waiting (s : Conn) : Prop :=
  s.phase = .idle → s.dead = false →
    parseRequest s.buf = .more ∨ ∃ h ∈ s.handled, h.request.accepted = false

section Invariant

variable {isMatch : String → String → Bool} {s s' : Conn} {p : ParsedRequest} {e : Event}
  {es : List Event}

theorem Handled.forwards_iff {h : Handled} :
    h.forwards = true ↔ h.killsBefore = false ∧ h.request.accepted = true := by
  rw [Handled.forwards, Bool.and_eq_true, Bool.not_eq_true']

theorem Handled.closes_of_killsBefore {h : Handled} (hkills : h.killsBefore = true) :
    h.closes = true ∧ h.forwards = false ∧ h.answers = false := by
  rw [Handled.answers, Handled.closes, Handled.forwards, hkills]
  exact ⟨rfl, rfl, rfl⟩

theorem Handled.closes_of_refused {h : Handled} (hkills : h.killsBefore = false)
    (haccepted : h.request.accepted = false) :
    h.closes = false ∧ h.forwards = false ∧ h.answers = false := by
  rw [Handled.answers, Handled.closes, Handled.forwards, hkills, haccepted]
  exact ⟨rfl, rfl, rfl⟩

theorem Handled.closes_of_forwards {h : Handled} (hforwards : h.forwards = true) :
    h.closes = decide (h.mode = some .resetAfter) ∧
      h.answers = !decide (h.mode = some .resetAfter) := by
  obtain ⟨hkills, -⟩ := Handled.forwards_iff.mp hforwards
  rw [Handled.answers, Handled.closes, hkills, hforwards, decide_not]
  exact ⟨rfl, rfl⟩

theorem Conn.settled_of_not_awaiting (h : ∀ x, s.phase ≠ .awaiting x) : s.settled = s.handled := by
  unfold Conn.settled
  split
  · rename_i x hx
    exact absurd hx (h x)
  · rfl

theorem dataOf_concat (es : List Event) (e : Event) : dataOf (es ++ [e]) = dataOf es ++ dataOf [e] :=
  List.flatMap_append

theorem dataOf_data (es : List Event) (chunk : Bytes) :
    dataOf (es ++ [.data chunk]) = dataOf es ++ chunk := by
  rw [dataOf_concat]
  exact congrArg (dataOf es ++ ·) (List.append_nil chunk)

/-- An event that brings no data changes nothing by itself. -/
theorem Tracked.weaken (h : Tracked es s) (hdata : s.dead = false → dataOf [e] = []) :
    Tracked (es ++ [e]) s where
  parsed := by
    obtain ⟨received, hprefix, heq, hreads⟩ := h.parsed
    rw [dataOf_concat]
    refine ⟨received, hprefix.trans (List.prefix_append _ _), fun hdead => ?_, hreads⟩
    rw [heq hdead, hdata hdead, List.append_nil]
  onlyLast := h.onlyLast
  alive := h.alive
  current := by
    intro x hx
    obtain ⟨hlast, hforwards, hclose⟩ := h.current x hx
    exact ⟨hlast, hforwards, fun hdead => List.mem_append_left _ (hclose hdead)⟩
  cause := fun hdead => (h.cause hdead).imp_left (List.mem_append_left _)
  forwarded := h.forwarded
  inOrder := h.inOrder
  answered := fun hor =>
    h.answered (hor.imp_right fun hclose hmem => hclose (List.mem_append_left _ hmem))

/-- Data is put behind what was not read yet. -/
theorem Tracked.receive (h : Tracked es s) (chunk : Bytes) (hdead : s.dead = false) :
    Tracked (es ++ [.data chunk]) { s with buf := s.buf ++ chunk } where
  parsed := by
    obtain ⟨received, -, heq, hreads⟩ := h.parsed
    refine ⟨received ++ chunk, ?_, fun _ => ?_, hreads.append chunk⟩
    · rw [heq hdead, dataOf_data]
    · rw [heq hdead, dataOf_data]
  onlyLast := h.onlyLast
  alive := h.alive
  current := by
    intro x hx
    obtain ⟨hlast, hforwards, -⟩ := h.current x hx
    exact ⟨hlast, hforwards, fun htrue => absurd (hdead.symm.trans htrue) Bool.false_ne_true⟩
  cause := fun htrue => absurd (hdead.symm.trans htrue) Bool.false_ne_true
  forwarded := h.forwarded
  inOrder := h.inOrder
  answered := fun _ => h.answered (.inl hdead)

/-- The loop of `pump` comes to its end. -/
theorem Tracked.rest (h : Tracked es s) (hphase : ∀ x, s.phase ≠ .awaiting x) :
    Tracked es { s with phase := .idle } := by
  have hsettled := Conn.settled_of_not_awaiting hphase
  exact
    { parsed := h.parsed
      onlyLast := h.onlyLast
      alive := fun hdead x hx => h.alive hdead x (by rw [hsettled]; exact hx)
      current := fun x hx => Phase.noConfusion hx
      cause := h.cause
      forwarded := h.forwarded
      inOrder := h.inOrder
      answered := fun hor => (h.answered hor).trans (by rw [hsettled]; rfl) }

/-- A request that the proxy does not handle ends the connection. -/
theorem Tracked.refuse {error : String} (h : Tracked es s) (hphase : ∀ x, s.phase ≠ .awaiting x)
    (hdead : s.dead = false) (hrefused : parseRequest s.buf = .refused error) :
    Tracked es { s with phase := .idle, dead := true } := by
  have hsettled := Conn.settled_of_not_awaiting hphase
  obtain ⟨received, hprefix, -, hreads⟩ := h.parsed
  exact
    { parsed := ⟨received, hprefix, fun hfalse => Bool.noConfusion hfalse, hreads⟩
      onlyLast := h.onlyLast
      alive := fun hfalse => Bool.noConfusion hfalse
      current := fun x hx => Phase.noConfusion hx
      cause := fun _ => .inr (.inl ⟨error, hrefused⟩)
      forwarded := h.forwarded
      inOrder := h.inOrder
      answered := fun _ => (h.answered (.inl hdead)).trans (by rw [hsettled]; rfl) }

theorem filter_concat {h : Handled} (f : Handled → Bool) (l : List Handled) (hf : f h = false) :
    (l ++ [h]).filter f = l.filter f := by
  rw [List.filter_append, List.filter_cons_of_neg (by rw [hf]; exact Bool.false_ne_true),
    List.filter_nil, List.append_nil]

/-- `handle` is called for the request at the front of the buffer. -/
theorem Tracked.handle (h : Tracked es s) (hphase : ∀ x, s.phase ≠ .awaiting x)
    (hdead : s.dead = false) (hp : parseRequest s.buf = .request p) :
    Tracked es (Conn.handle isMatch { s with buf := s.buf.drop p.used } p) ∧
      Waiting (Conn.handle isMatch { s with buf := s.buf.drop p.used } p) := by
  have hsettled := Conn.settled_of_not_awaiting hphase
  have hanswered := h.answered (.inl hdead)
  rw [hsettled] at hanswered
  obtain ⟨received, hprefix, heq, hreads⟩ := h.parsed
  obtain ⟨x, rules, picked, rfl, -, -, hcases⟩ :=
    @handle_cases isMatch { s with buf := s.buf.drop p.used } p
  have hread : requests.Reads received ((s.handled ++ [x]).map Handled.request)
      (s.buf.drop x.request.used) := by
    rw [List.map_append]
    exact hreads.concat (requests_read hp)
  have honly : ∀ y ∈ (s.handled ++ [x]).dropLast, y.closes = false := by
    rw [List.dropLast_concat]
    intro y hy
    exact h.alive hdead y (by rw [hsettled]; exact hy)
  have hinOrder : s.answered.map Prod.fst <+: (s.handled ++ [x]).filter Handled.answers := by
    rw [List.filter_append]
    exact h.inOrder.trans (List.prefix_append _ _)
  rcases hcases with ⟨hkills, hs⟩ | ⟨hkills, haccepted, hs⟩ | ⟨hkills, haccepted, hs⟩
  · -- the rule closes the connection at once
    obtain ⟨hcloses, hforwards, hanswers⟩ := Handled.closes_of_killsBefore hkills
    rw [hs]
    refine ⟨?_, fun hidle => Phase.noConfusion hidle⟩
    exact
      { parsed := ⟨received, hprefix, fun hfalse => Bool.noConfusion hfalse, hread⟩
        onlyLast := honly
        alive := fun hfalse => Bool.noConfusion hfalse
        current := fun y hy => Phase.noConfusion hy
        cause := fun _ => .inr (.inr ⟨x, List.mem_concat_self, hcloses⟩)
        forwarded := h.forwarded.trans (by rw [filter_concat _ _ hforwards])
        inOrder := hinOrder
        answered := fun _ => hanswered.trans (filter_concat _ _ hanswers).symm }
  · -- a header is not accepted
    obtain ⟨hcloses, hforwards, hanswers⟩ := Handled.closes_of_refused hkills haccepted
    rw [hs]
    refine ⟨?_, fun _ _ => .inr ⟨x, List.mem_concat_self, haccepted⟩⟩
    exact
      { parsed := ⟨received, hprefix, heq, hread⟩
        onlyLast := honly
        alive := by
          intro _ y hy
          rcases List.mem_append.mp hy with hy | hy
          · exact h.alive hdead y (by rw [hsettled]; exact hy)
          · rw [List.mem_singleton.mp hy]
            exact hcloses
        current := fun y hy => Phase.noConfusion hy
        cause := fun htrue => absurd (hdead.symm.trans htrue) Bool.false_ne_true
        forwarded := h.forwarded.trans (by rw [filter_concat _ _ hforwards])
        inOrder := hinOrder
        answered := fun _ => hanswered.trans (filter_concat _ _ hanswers).symm }
  · -- the request is sent on
    have hforwards : x.forwards = true := Handled.forwards_iff.mpr ⟨hkills, haccepted⟩
    rw [hs]
    refine ⟨?_, fun hidle => Phase.noConfusion hidle⟩
    exact
      { parsed := ⟨received, hprefix, heq, hread⟩
        onlyLast := honly
        alive := fun _ => honly
        current := by
          intro y hy
          cases hy
          exact ⟨List.getLast?_concat, hforwards,
            fun htrue => absurd (hdead.symm.trans htrue) Bool.false_ne_true⟩
        cause := fun htrue => absurd (hdead.symm.trans htrue) Bool.false_ne_true
        forwarded := by
          show s.forwarded ++ [Forwarded.of x.request] = _
          rw [h.forwarded, List.filter_append, List.filter_cons_of_pos hforwards, List.map_append]
          rfl
        inOrder := hinOrder
        answered := by
          intro _
          show _ = ((s.handled ++ [x]).dropLast).filter Handled.answers
          rw [List.dropLast_concat]
          exact hanswered }

theorem Tracked.turn (h : Tracked es s) (hphase : ∀ x, s.phase ≠ .awaiting x)
    (hs : s.turn isMatch = some s') : Tracked es s' ∧ Waiting s' := by
  rcases turn_cases hs with ⟨hdead, rfl⟩ | ⟨hdead, hcases⟩
  · exact ⟨h.rest hphase, fun _ hfalse => absurd (hfalse.symm.trans hdead) Bool.false_ne_true⟩
  · rcases hcases with ⟨hmore, rfl⟩ | ⟨error, hrefused, rfl⟩ | ⟨p, hp, rfl⟩
    · exact ⟨h.rest hphase, fun _ _ => .inl hmore⟩
    · exact ⟨h.refuse hphase hdead hrefused, fun _ hfalse => Bool.noConfusion hfalse⟩
    · exact h.handle hphase hdead hp

/-- `handle` ends for the request in hand. -/
theorem Tracked.complete {x : Handled} {up : Option Answer} {taken : List Int} (h : Tracked es s)
    (hphase : s.phase = .awaiting x) (hs : s.complete x up taken = some s') : Tracked es s' := by
  obtain ⟨hlast, hforwards, hclose⟩ := h.current x hphase
  obtain ⟨before, hhandled⟩ := List.getLast?_eq_some_iff.mp hlast
  obtain ⟨hcloses, hanswers⟩ := Handled.closes_of_forwards hforwards
  have hsettled : s.settled = before := by
    rw [Conn.settled, hphase, hhandled]
    exact List.dropLast_concat
  obtain ⟨received, hprefix, heq, hreads⟩ := h.parsed
  rcases complete_cases hs with ⟨hmode, rfl⟩ | ⟨hmode, hdead, rfl⟩ | ⟨hmode, hdead, w, out', -, rfl⟩
  · -- reset after the answer
    rw [decide_eq_true hmode] at hcloses hanswers
    exact
      { parsed := ⟨received, hprefix, fun hfalse => Bool.noConfusion hfalse, hreads⟩
        onlyLast := h.onlyLast
        alive := fun hfalse => Bool.noConfusion hfalse
        current := fun y hy => Phase.noConfusion hy
        cause := fun _ => .inr (.inr ⟨x, List.mem_of_getLast? hlast, hcloses⟩)
        forwarded := h.forwarded
        inOrder := h.inOrder
        answered := by
          rintro (hfalse | hopen)
          · exact Bool.noConfusion hfalse
          · rw [h.answered (.inr hopen), hsettled]
            show _ = s.handled.filter Handled.answers
            rw [hhandled, filter_concat _ _ hanswers] }
  · -- the other side has closed the connection
    exact
      { parsed := ⟨received, hprefix, heq, hreads⟩
        onlyLast := h.onlyLast
        alive := fun hfalse => absurd (hfalse.symm.trans hdead) Bool.false_ne_true
        current := fun y hy => Phase.noConfusion hy
        cause := fun _ => .inl (hclose hdead)
        forwarded := h.forwarded
        inOrder := h.inOrder
        answered := by
          rintro (hfalse | hopen)
          · exact absurd (hfalse.symm.trans hdead) Bool.false_ne_true
          · exact absurd (hclose hdead) hopen }
  · -- the answer is queued
    rw [decide_eq_false hmode] at hcloses hanswers
    have hnow : (s.answered ++ [(x, up)]).map Prod.fst = s.handled.filter Handled.answers := by
      rw [List.map_append, h.answered (.inl hdead), hsettled, hhandled, List.filter_append,
        List.filter_cons_of_pos hanswers]
      rfl
    exact
      { parsed := ⟨received, hprefix, heq, hreads⟩
        onlyLast := h.onlyLast
        alive := by
          intro _ y hy
          have hy' : y ∈ before ++ [x] := hhandled ▸ hy
          rcases List.mem_append.mp hy' with hy' | hy'
          · exact h.alive hdead y (by rw [hsettled]; exact hy')
          · rw [List.mem_singleton.mp hy']
            exact hcloses
        current := fun y hy => Phase.noConfusion hy
        cause := fun htrue => absurd (hdead.symm.trans htrue) Bool.false_ne_true
        forwarded := h.forwarded
        inOrder := by
          rw [hnow]
        answered := fun _ => hnow }

theorem Tracked.closed (h : Tracked es s) (hclose : Event.close ∈ es) :
    Tracked es { s with dead := true } where
  parsed := by
    obtain ⟨received, hprefix, -, hreads⟩ := h.parsed
    exact ⟨received, hprefix, fun hfalse => Bool.noConfusion hfalse, hreads⟩
  onlyLast := h.onlyLast
  alive := fun hfalse => Bool.noConfusion hfalse
  current := by
    intro x hx
    obtain ⟨hlast, hforwards, -⟩ := h.current x hx
    exact ⟨hlast, hforwards, fun _ => hclose⟩
  cause := fun _ => .inl hclose
  forwarded := h.forwarded
  inOrder := h.inOrder
  answered := by
    rintro (hfalse | hopen)
    · exact Bool.noConfusion hfalse
    · exact absurd hclose hopen

/-- Every event keeps track. -/
theorem Tracked.step (h : Tracked es s ∧ Waiting s) (hs : s.step isMatch e = some s') :
    Tracked (es ++ [e]) s' ∧ Waiting s' := by
  obtain ⟨htracked, hwaiting⟩ := h
  cases step_moves hs with
  | ignores chunk hdead =>
    refine ⟨htracked.weaken fun hfalse => ?_, hwaiting⟩
    exact absurd (hfalse.symm.trans hdead) Bool.false_ne_true
  | buffers chunk hdead hbusy =>
    exact ⟨htracked.receive chunk hdead, fun hidle => absurd hidle hbusy⟩
  | starts chunk hdead hidle hturn =>
    refine (htracked.receive chunk hdead).turn (fun x hx => ?_) hturn
    exact Phase.noConfusion (hidle.symm.trans hx)
  | @completes _ x up taken hphase hcomplete =>
    have hweak := htracked.weaken (e := .completes up taken) fun _ => rfl
    refine ⟨hweak.complete hphase hcomplete, fun hidle => ?_⟩
    rcases complete_cases hcomplete with ⟨-, rfl⟩ | ⟨-, -, rfl⟩ | ⟨-, -, w, out', -, rfl⟩
    · exact Phase.noConfusion hidle
    · exact Phase.noConfusion hidle
    · exact Phase.noConfusion hidle
  | resumes hreturning hturn =>
    have hweak := htracked.weaken (e := .resumes) fun _ => rfl
    refine hweak.turn (fun x hx => ?_) hturn
    exact Phase.noConfusion (hreturning.symm.trans hx)
  | @drains _ taken hflush =>
    have hweak := htracked.weaken (e := .drain taken) fun _ => rfl
    obtain ⟨w, out', -, rfl⟩ := flush_cases hflush
    exact ⟨{ hweak with }, hwaiting⟩
  | closes =>
    have hweak := htracked.weaken (e := .close) fun _ => rfl
    exact ⟨hweak.closed List.mem_concat_self, fun _ hfalse => Bool.noConfusion hfalse⟩
  | picks method path =>
    have hweak := htracked.weaken (e := .elsewhere method path) fun _ => rfl
    exact ⟨{ hweak with }, hwaiting⟩
  | sets rules =>
    have hweak := htracked.weaken (e := .setRules rules) fun _ => rfl
    exact ⟨{ hweak with }, hwaiting⟩

theorem tracked_start : Tracked [] ({} : Conn) ∧ Waiting ({} : Conn) := by
  refine ⟨?_, fun _ _ => .inl rfl⟩
  exact
    { parsed := ⟨[], List.nil_prefix, fun _ => rfl, .nil []⟩
      onlyLast := fun _ h => absurd h List.not_mem_nil
      alive := fun _ _ h => absurd h List.not_mem_nil
      current := fun _ h => Phase.noConfusion h
      cause := fun h => Bool.noConfusion h
      forwarded := rfl
      inOrder := List.nil_prefix
      answered := fun _ => rfl }

end Invariant

/-! ## The bytes of the answers -/

/-- What the socket took and what is queued are the answers, one after another. -/
def Relayed (s : Conn) : Prop :=
  s.written ++ s.out.flatten = s.answered.flatMap fun a => replyBytes a.2

section Relayed

variable {isMatch : String → String → Bool} {s s' : Conn} {e : Event}

theorem turn_relayed (hs : s.turn isMatch = some s') :
    s'.written = s.written ∧ s'.out = s.out ∧ s'.answered = s.answered := by
  rcases turn_cases hs with ⟨-, rfl⟩ | ⟨-, ⟨-, rfl⟩ | ⟨_, -, rfl⟩ | ⟨p, -, rfl⟩⟩
  · exact ⟨rfl, rfl, rfl⟩
  · exact ⟨rfl, rfl, rfl⟩
  · exact ⟨rfl, rfl, rfl⟩
  · obtain ⟨x, rules, picked, -, -, -, hcases⟩ :=
      @handle_cases isMatch { s with buf := s.buf.drop p.used } p
    rcases hcases with ⟨-, hs⟩ | ⟨-, -, hs⟩ | ⟨-, -, hs⟩
    · rw [hs]
      exact ⟨rfl, rfl, rfl⟩
    · rw [hs]
      exact ⟨rfl, rfl, rfl⟩
    · rw [hs]
      exact ⟨rfl, rfl, rfl⟩

theorem Relayed.turn (h : Relayed s) (hs : s.turn isMatch = some s') : Relayed s' := by
  obtain ⟨hwritten, hout, hanswered⟩ := turn_relayed hs
  rw [Relayed, hwritten, hout, hanswered]
  exact h

theorem Relayed.step (h : Relayed s) (hs : s.step isMatch e = some s') : Relayed s' := by
  cases step_moves hs with
  | ignores | buffers | closes | picks | sets => exact h
  | starts chunk _ _ hturn => exact Relayed.turn (s := { s with buf := s.buf ++ chunk }) h hturn
  | resumes _ hturn => exact h.turn hturn
  | @completes _ x up taken _ hcomplete =>
    rcases complete_cases hcomplete with ⟨-, rfl⟩ | ⟨-, -, rfl⟩ | ⟨-, -, w, out', hbytes, rfl⟩
    · exact h
    · exact h
    · show s.written ++ w ++ out'.flatten = (s.answered ++ [(x, up)]).flatMap _
      rw [List.append_assoc, hbytes, ← List.append_assoc, h, List.flatMap_append,
        List.flatMap_singleton]
  | drains hflush =>
    obtain ⟨w, out', hbytes, rfl⟩ := flush_cases hflush
    show s.written ++ w ++ out'.flatten = _
    rw [List.append_assoc, hbytes]
    exact h

end Relayed

/-! ## The budgets of the rules -/

/-- A rule fired as often as it counts, and not more often than it may. -/
def Budgeted (s : Conn) : Prop :=
  ∀ i r, s.rules[i]? = some r → r.fired = s.picked.count i ∧
    ∀ times, r.times = some times → times ≠ 0 → r.fired ≤ times

section Budgeted

variable {isMatch : String → String → Bool} {s s' : Conn} {e : Event}

theorem lt_of_not_spent {r : ConnRule} {times : Nat} (h : r.spent = false)
    (htimes : r.times = some times) (hne : times ≠ 0) : r.fired < times := by
  rw [ConnRule.spent, htimes] at h
  simp only [Bool.and_eq_false_iff, decide_eq_false_iff_not, not_not] at h
  rcases h with h | h
  · exact absurd h hne
  · omega

/-- A rule is picked only while it has budget. -/
theorem Budgeted.pick (h : Budgeted s) (method path : String) :
    Budgeted (s.pick isMatch method path).1 := by
  unfold Conn.pick pickRule
  cases hfind : s.rules.findIdx? (ConnRule.applies isMatch method path) with
  | none =>
    intro i r hr
    dsimp only at hr ⊢
    rw [Option.toList_none, List.append_nil]
    exact h i r hr
  | some j =>
    intro i r hr
    dsimp only at hr ⊢
    rw [Option.toList_some, List.count_append, List.count_singleton]
    rw [List.getElem?_modify] at hr
    by_cases hij : j = i
    · subst hij
      obtain ⟨q, hq, rfl⟩ := Option.map_eq_some_iff.mp hr
      obtain ⟨hlt, happlies, -⟩ := List.findIdx?_eq_some_iff_getElem.mp hfind
      have hget : q = s.rules[j] := by
        rw [List.getElem?_eq_getElem hlt] at hq
        exact (Option.some.inj hq).symm
      rw [← hget, ConnRule.applies, Bool.and_eq_true, Bool.not_eq_true'] at happlies
      obtain ⟨hfired, -⟩ := h j q hq
      rw [if_pos rfl, beq_self_eq_true, if_pos rfl]
      refine ⟨congrArg (· + 1) hfired, fun times htimes hne => ?_⟩
      exact lt_of_not_spent happlies.2 htimes hne
    · simp only [if_neg hij, Option.map_eq_map, Option.map_id'] at hr
      rw [if_neg (by rw [beq_iff_eq]; exact hij), Nat.add_zero]
      exact h i r hr

theorem Budgeted.turn (h : Budgeted s) (hs : s.turn isMatch = some s') : Budgeted s' := by
  rcases turn_cases hs with ⟨-, rfl⟩ | ⟨-, ⟨-, rfl⟩ | ⟨_, -, rfl⟩ | ⟨p, -, rfl⟩⟩
  · exact h
  · exact h
  · exact h
  · have hpick := @Budgeted.pick isMatch { s with buf := s.buf.drop p.used } h p.method p.path
    obtain ⟨x, rules, picked, -, rfl, rfl, hcases⟩ :=
      @handle_cases isMatch { s with buf := s.buf.drop p.used } p
    rcases hcases with ⟨-, hs⟩ | ⟨-, -, hs⟩ | ⟨-, -, hs⟩
    · rw [hs]
      exact hpick
    · rw [hs]
      exact hpick
    · rw [hs]
      exact hpick

theorem Budgeted.step (h : Budgeted s) (hs : s.step isMatch e = some s') : Budgeted s' := by
  cases step_moves hs with
  | ignores | buffers | closes => exact h
  | starts chunk _ _ hturn => exact Budgeted.turn (s := { s with buf := s.buf ++ chunk }) h hturn
  | resumes _ hturn => exact h.turn hturn
  | completes _ hcomplete =>
    rcases complete_cases hcomplete with ⟨-, rfl⟩ | ⟨-, -, rfl⟩ | ⟨-, -, w, out', -, rfl⟩
    · exact h
    · exact h
    · exact h
  | drains hflush =>
    obtain ⟨w, out', -, rfl⟩ := flush_cases hflush
    exact h
  | picks method path => exact h.pick method path
  | sets rules =>
    intro i r hr
    rw [List.getElem?_map] at hr
    obtain ⟨q, -, rfl⟩ := Option.map_eq_some_iff.mp hr
    exact ⟨rfl, fun times _ _ => Nat.zero_le times⟩

end Budgeted

/-! ## The whole stream -/

section Stream

variable {isMatch : String → String → Bool} {s s' : Conn} {es : List Event} {stream : Bytes}
  {reqs : List ParsedRequest}

/-- The front of a stream of requests is a request, or is not whole yet. -/
theorem front_of_reads {buf later : Bytes} {more : List ParsedRequest}
    (h : requests.Reads (buf ++ later) more []) :
    parseRequest buf = .more ∨ ∃ p, parseRequest buf = .request p := by
  by_cases hmore : parseRequest buf = .more
  · exact .inl hmore
  · refine .inr ?_
    have hfront := parseRequest_append later hmore
    generalize hall : buf ++ later = all at h hfront
    cases h with
    | nil =>
      rw [(List.append_eq_nil_iff.mp hall).1] at hmore
      exact absurd rfl hmore
    | cons hread _ =>
      by_contra hnone
      rw [requests_read_none fun p hp => hnone ⟨p, hfront.symm.trans hp⟩] at hread
      cases hread

/-- What is left to read goes on with the rest of the stream. -/
theorem Tracked.left (h : Tracked es s) (hstream : requests.Reads stream reqs [])
    (hdata : dataOf es <+: stream) : ∃ later more,
      reqs = s.handled.map Handled.request ++ more ∧ requests.Reads (s.buf ++ later) more [] ∧
      (s.dead = false → stream = dataOf es ++ later) := by
  obtain ⟨received, hprefix, heq, hreads⟩ := h.parsed
  obtain ⟨later, rfl⟩ := hprefix.trans hdata
  obtain ⟨more, hmore, hrest⟩ := (hreads.append later).continues hstream requests_read_nil
  exact ⟨later, more, hmore, hrest, fun hdead => by rw [heq hdead]⟩

theorem Handled.of_accepted {h : Handled} (haccepted : h.request.accepted = true) :
    h.closes = h.kills ∧ h.forwards = !h.killsBefore ∧ h.answers = !h.kills := by
  rw [Handled.answers, Handled.closes, Handled.kills, Handled.forwards, haccepted, Bool.and_true,
    decide_not]
  cases h.killsBefore with
  | true => exact ⟨rfl, rfl, rfl⟩
  | false => exact ⟨rfl, rfl, rfl⟩

/-- When only the last can have closed the connection, it did so if any did. -/
theorem getLast?_kills {l : List Handled} {h : Handled} (honly : ∀ x ∈ l.dropLast, x.kills = false)
    (hh : h ∈ l) (hkills : h.kills = true) : ∃ last, l.getLast? = some last ∧ last.kills = true := by
  rcases List.eq_nil_or_concat l with rfl | ⟨before, last, rfl⟩
  · exact absurd hh List.not_mem_nil
  · rw [List.concat_eq_append] at hh honly ⊢
    rw [List.dropLast_concat] at honly
    rcases List.mem_append.mp hh with hbefore | hlast
    · exact absurd ((honly h hbefore).symm.trans hkills) Bool.noConfusion
    · rw [List.mem_singleton.mp hlast] at hkills
      exact ⟨last, List.getLast?_concat, hkills⟩

/-- What holds after every run of a connection. -/
theorem track (hrun : runEvents (Conn.step isMatch) {} es = some s) :
    (Tracked es s ∧ Waiting s) ∧ Relayed s ∧ Budgeted s := by
  have hinit : (Tracked [] ({} : Conn) ∧ Waiting ({} : Conn)) ∧ Relayed ({} : Conn) ∧
      Budgeted ({} : Conn) := by
    refine ⟨tracked_start, rfl, ?_⟩
    intro i r hr
    cases hr
  refine @runEvents_invariant Conn Event (Conn.step isMatch) {}
    (fun es s => (Tracked es s ∧ Waiting s) ∧ Relayed s ∧ Budgeted s) hinit ?_ es s hrun
  intro before m e m' _ hm hstep
  exact ⟨Tracked.step hm.1 hstep, hm.2.1.step hstep, hm.2.2.step hstep⟩

/-- Any piece of the stream can come in, whatever the connection is doing. -/
theorem data_taken {chunk : Bytes} (hrun : runEvents (Conn.step isMatch) {} es = some s)
    (hstream : requests.Reads stream reqs []) (hdata : dataOf es ++ chunk <+: stream) :
    ∃ s', s.step isMatch (.data chunk) = some s' := by
  obtain ⟨⟨htracked, -⟩, -, -⟩ := track hrun
  unfold Conn.step
  dsimp only
  split
  · exact ⟨s, rfl⟩
  · rename_i hdead
    split
    · -- what the loop finds now is the front of the rest of the stream
      have hreceived := htracked.receive chunk (Bool.eq_false_of_not_eq_true hdead)
      rw [← dataOf_data] at hdata
      obtain ⟨later, more, -, hreads, -⟩ := hreceived.left hstream hdata
      unfold Conn.turn
      rw [if_neg hdead]
      rcases front_of_reads hreads with hmore | ⟨p, hp⟩
      · rw [hmore]
        exact ⟨_, rfl⟩
      · rw [hp]
        exact ⟨_, rfl⟩
    · exact ⟨_, rfl⟩

/-- When the stream has come in and nothing is in hand, every request was handled,
or the last one handled closed the connection. -/
theorem Tracked.all_handled (h : Tracked es s) (hwaiting : Waiting s)
    (hstream : requests.Reads stream reqs []) (hall : dataOf es = stream) (hidle : s.phase = .idle)
    (hopen : Event.close ∉ es) (hgood : ∀ x ∈ s.handled, x.request.accepted = true)
    (honly : ∀ x ∈ s.handled.dropLast, x.kills = false) :
    s.handled.map Handled.request = reqs ∨ ∃ x, s.handled.getLast? = some x ∧ x.kills = true := by
  obtain ⟨later, more, hreqs, hrest, hlater⟩ := h.left hstream (by rw [hall])
  cases hdead : s.dead with
  | false =>
    -- the loop stopped because nothing whole is left
    rcases hwaiting hidle hdead with hmore | ⟨x, hx, hbad⟩
    · have hnone : later = [] := by
        have hlen := congrArg List.length (hall.trans (hlater hdead))
        rw [List.length_append] at hlen
        exact List.eq_nil_of_length_eq_zero (by omega)
      rw [hnone, List.append_nil] at hrest
      have hend := hrest.eq_nil (requests_read_none fun p hp => by
        rw [hmore] at hp
        cases hp)
      rw [hend, List.append_nil] at hreqs
      exact .inl hreqs.symm
    · exact absurd ((hgood x hx).symm.trans hbad) Bool.noConfusion
  | true =>
    rcases h.cause hdead with hclose | ⟨error, hrefused⟩ | ⟨x, hx, hcloses⟩
    · exact absurd hclose hopen
    · rcases front_of_reads hrest with hmore | ⟨p, hp⟩
      · exact Parsed.noConfusion (hmore.symm.trans hrefused)
      · exact Parsed.noConfusion (hp.symm.trans hrefused)
    · rw [(Handled.of_accepted (hgood x hx)).1] at hcloses
      exact .inr (getLast?_kills honly hx hcloses)

/-- A connection that receives a stream of requests, cut in any way, hands each of
them to `handle` once, in order, up to the first whose rule closes the connection;
the socket is given the answers whole and in order, and each rule fires within its
budget. -/
theorem pipeline_like_stream (hrun : runEvents (Conn.step isMatch) {} es = some s)
    (hstream : requests.Reads stream reqs []) (haccepted : ∀ p ∈ reqs, p.accepted = true)
    (hdata : dataOf es <+: stream) :
    -- the requests handled are the first ones of the stream
    s.handled.map Handled.request <+: reqs ∧
    (∀ h ∈ s.handled.dropLast, h.kills = false) ∧
    s.forwarded = (s.handled.filter fun h => !h.killsBefore).map (fun h => Forwarded.of h.request) ∧
    -- the answers go out whole and in order
    s.answered.map Prod.fst <+: s.handled.filter (fun h => !h.kills) ∧
    s.written ++ s.out.flatten = s.answered.flatMap (fun a => replyBytes a.2) ∧
    (∃ taken s', s.step isMatch (.drain taken) = some s' ∧
      s'.written = s.answered.flatMap fun a => replyBytes a.2) ∧
    -- the rules
    (∀ i r times, s.rules[i]? = some r → r.times = some times → times ≠ 0 →
      s.picked.count i ≤ times) ∧
    -- when the stream has come in and nothing is in hand
    (dataOf es = stream → s.phase = .idle → Event.close ∉ es →
      (s.handled.map Handled.request = reqs ∨
        ∃ h, s.handled.getLast? = some h ∧ h.kills = true) ∧
      s.answered.map Prod.fst = s.handled.filter fun h => !h.kills) := by
  obtain ⟨⟨htracked, hwaiting⟩, hrelayed, hbudgeted⟩ := track hrun
  obtain ⟨later, more, hreqs, -, -⟩ := htracked.left hstream hdata
  have hgood : ∀ h ∈ s.handled, h.request.accepted = true := by
    intro h hh
    refine haccepted _ ?_
    rw [hreqs]
    exact List.mem_append_left _ (List.mem_map_of_mem hh)
  have hanswers : s.handled.filter Handled.answers = s.handled.filter fun h => !h.kills :=
    List.filter_congr fun h hh => (Handled.of_accepted (hgood h hh)).2.2
  have honly : ∀ h ∈ s.handled.dropLast, h.kills = false := by
    intro h hh
    rw [← (Handled.of_accepted (hgood h (List.mem_of_mem_dropLast hh))).1]
    exact htracked.onlyLast h hh
  refine ⟨?_, honly, ?_, ?_, hrelayed, ?_, ?_, ?_⟩
  · rw [hreqs]
    exact List.prefix_append _ _
  · rw [htracked.forwarded, List.filter_congr fun h hh => (Handled.of_accepted (hgood h hh)).2.1]
  · rw [← hanswers]
    exact htracked.inOrder
  · refine ⟨s.out.map fun chunk => (chunk.length : Int),
      { s with
        written := s.written ++ s.out.flatten
        out := [] }, ?_, hrelayed⟩
    show (MgmtFaults.flush _ s.out).map _ = _
    rw [flush_whole]
    rfl
  · intro i r times hr htimes hne
    obtain ⟨hfired, hbudget⟩ := hbudgeted i r hr
    rw [← hfired]
    exact hbudget times htimes hne
  · intro hall hidle hopen
    constructor
    · exact htracked.all_handled hwaiting hstream hall hidle hopen hgood honly
    · have hsettled : s.settled = s.handled := by
        refine Conn.settled_of_not_awaiting fun x hx => ?_
        exact Phase.noConfusion (hidle.symm.trans hx)
      rw [htracked.answered (.inr hopen), hsettled, hanswers]

end Stream

/-! ## Two requests in one piece -/

/-- `"G a"` and `"G b"`, each a request without headers. -/
def twoRequests : Bytes := [71, 32, 97, 13, 10, 13, 10, 71, 32, 98, 13, 10, 13, 10]

def bareRequest (path : String) : ParsedRequest where
  method := "G"
  path := path
  headers := []
  body := []
  used := 7

theorem twoRequests_reads : requests.Reads twoRequests [bareRequest "a", bareRequest "b"] [] :=
  .cons (requests_read (p := bareRequest "a") (by decide))
    (.cons (requests_read (p := bareRequest "b") (by decide)) (.nil []))

/-- Both come in with the first cut inside the blank line; the first answer leaves in
two parts, while the second request is already there. -/
def splitRun : List Event :=
  [.setRules
      [{ id := "once"
         path := "."
         mode := .pass
         times := some 1 }],
    .data (twoRequests.take 5), .data ((twoRequests.drop 5).take 4),
    .completes (some ⟨200, "OK", [], [123, 125]⟩) [10], .data (twoRequests.drop 9), .resumes,
    .drain [-1], .completes none [0], .resumes]

theorem pipeline_like_stream_split : ∃ s,
    runEvents (Conn.step fun _ _ => true) {} splitRun = some s ∧
      (s.handled.map Handled.request = [bareRequest "a", bareRequest "b"] ∨
        ∃ h, s.handled.getLast? = some h ∧ h.kills = true) ∧
      s.answered.map Prod.fst = s.handled.filter fun h => !h.kills := by
  have hpossible : (runEvents (Conn.step fun _ _ => true) {} splitRun).isSome = true := by
    decide
  obtain ⟨s, hs⟩ := Option.isSome_iff_exists.mp hpossible
  have hphase : (runEvents (Conn.step fun _ _ => true) {} splitRun).map Conn.phase = some .idle := by
    decide
  rw [hs] at hphase
  have hlike := pipeline_like_stream hs twoRequests_reads (by decide) (by decide)
  exact ⟨s, hs, hlike.2.2.2.2.2.2.2 (by decide) (Option.some.inj hphase) (by decide)⟩

/-- A rule that closes the connection at the first request keeps the second from
being handled. -/
theorem second_request_lost : ¬ ∀ (es : List Event) (s : Conn) (reqs : List ParsedRequest),
    runEvents (Conn.step fun _ _ => true) {} es = some s → requests.Reads (dataOf es) reqs [] →
    (∀ p ∈ reqs, p.accepted = true) → s.phase = .idle → Event.close ∉ es →
    s.handled.map Handled.request = reqs := by
  intro hall
  let es : List Event :=
    [.setRules
        [{ id := "rb"
           path := "."
           mode := .resetBefore }],
      .data twoRequests, .resumes]
  have hhandled : (runEvents (Conn.step fun _ _ => true) {} es).map
      (fun s => (s.phase, s.handled.map Handled.request)) = some (.idle, [bareRequest "a"]) := by
    decide
  obtain ⟨s, hs, hpair⟩ := Option.map_eq_some_iff.mp hhandled
  obtain ⟨hidle, hone⟩ := Prod.mk.inj hpair
  have htwo := hall es s _ hs twoRequests_reads (by decide) hidle (by decide)
  rw [hone] at htwo
  exact absurd (congrArg List.length htwo) (by decide)

end SupabaseLab.MgmtFaults
