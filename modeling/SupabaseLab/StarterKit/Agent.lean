/-
  StarterKit/Agent.lean --- the assistant's tools, its loop and its confirmations.

  Source: `runTool` of experiments/governed-starter-kit/supabase/functions/agent/tools.ts,
  `sanitize`, `converse` and `confirm` of agent/index.ts.

  The model's answers are given in advance, the k-th to the k-th call; so is the key
  of the API.  What `validate` and `summarise` make of an input, what the database
  answers and what `JSON.stringify` writes are parameters.
-/
import SupabaseLab.Library.Except
import SupabaseLab.Library.JsString
import SupabaseLab.Library.Json

set_option autoImplicit false

namespace SupabaseLab.StarterKit

open Library

/-! ## Transcripts -/

inductive Block where
  | text (text : String)
  | toolUse (id name : String) (input : Option Json)
  | toolResult (toolUseId content : String) (isError : Bool)
  | other (type : String)

structure ToolUse where
  id : String
  name : String
  input : Option Json

def Block.toolUse? : Block → Option ToolUse
  | .toolUse id name input => some ⟨id, name, input⟩
  | _ => none

/-- `b.tool_use_id`, where there is one. -/
def Block.toolUseId? : Block → Option String
  | .toolResult id _ _ => some id
  | _ => none

def Block.text? : Block → Option String
  | .text t => some t
  | _ => none

def toolUses (content : List Block) : List ToolUse := content.filterMap Block.toolUse?

def textOf (content : List Block) : String :=
  jsTrim ("\n".intercalate (content.filterMap Block.text?))

inductive Speaker where
  | user
  | assistant
  deriving DecidableEq

/-- A content that is a string is one with a single block of text. -/
structure Msg where
  role : Speaker
  content : List Block

/-! ## Tools -/

def writeTools : List String := ["create_request", "decide_request"]

structure Executed where
  tool : String
  input : Json

def Executed.isWrite (x : Executed) : Bool := x.tool ∈ writeTools

/-- What the tools rest on; the database answers by what was executed before. -/
structure Tools where
  apiKey : Bool
  validate : String → Json → Except String Json
  summarise : String → Json → String
  execute : List Executed → String → Json → Except String Json
  audit : List Executed → String → Bool
  stringify : Json → String

inductive ToolOutcome where
  | ok (tool : String) (input result : Json) (audited : Bool)
  | error (tool : String) (input : Json) (error : String) (audited : Bool)
  | confirm (tool : String) (input : Json) (summary : String)

/-- The outcome, and what has been executed then. -/
def runTool (T : Tools) (done : List Executed) (tool : String) (rawInput : Json)
    (confirmed : Bool) : ToolOutcome × List Executed :=
  match T.validate tool rawInput with
  | .error e => (.error tool rawInput e false, done)
  | .ok input =>
      if tool ∈ writeTools ∧ confirmed = false then
        (.confirm tool input (T.summarise tool input), done)
      else
        let done' := done ++ [⟨tool, input⟩]
        match T.execute done tool input with
        | .ok result => (.ok tool input result (T.audit done' tool), done')
        | .error e => (.error tool input e (T.audit done' tool), done')

def toolResult (T : Tools) (id : String) : ToolOutcome → Block
  | .ok _ _ result _ => .toolResult id (T.stringify result) false
  | .error _ _ e _ => .toolResult id (T.stringify (.obj [("error", .str e)])) true
  | .confirm _ _ _ => .toolResult id (T.stringify (.obj [("declined", .bool true)])) false

/-! ## The loop -/

structure Pending where
  toolUseId : String
  tool : String
  input : Json
  summary : String
  others : List Block

structure Turn where
  messages : List Msg
  events : List ToolOutcome
  reply : Option String := none
  pending : Option Pending := none
  /-- The status and the message of the model call that failed. -/
  error : Option (Nat × String) := none

inductive AgentError where
  | http (status : Nat) (message code : String)
  | llm (status : Nat) (message : String)
  | internal

/-- A block of a model response: text, a tool call, or another kind, such as thinking. -/
inductive ModelBlock where
  | text (text : String)
  | toolUse (id name : String) (input : Option Json)
  | thinking (type : String)

def ModelBlock.block : ModelBlock → Block
  | .text t => .text t
  | .toolUse id name input => .toolUse id name input
  | .thinking type => .other type

structure ModelResponse where
  content : List ModelBlock
  stopReason : Option String

def ModelResponse.blocks (r : ModelResponse) : List Block := r.content.map ModelBlock.block

def ModelResponse.calls (r : ModelResponse) : List ToolUse := toolUses r.blocks

/-- How a model call ends: a response, an `LlmError`, or another exception. -/
inductive Answer where
  | response (r : ModelResponse)
  | llmError (status : Nat) (message : String)
  | failed

/-- The variables of a turn's loop over its calls. -/
structure CallsState where
  results : List Block := []
  pending : Option Pending := none
  events : List ToolOutcome
  executed : List Executed

/-- The reads run now, the first valid write is held, further writes are refused. -/
def runCalls (T : Tools) : List ToolUse → CallsState → CallsState
  | [], s => s
  | tu :: rest, s =>
      if tu.name ∈ writeTools ∧ s.pending.isSome then
        runCalls T rest { s with
          results := s.results ++ [.toolResult tu.id (T.stringify (.obj [("error",
            .str "Only one write per turn; propose it again after this one.")])) true] }
      else
        match runTool T s.executed tu.name (tu.input.getD (.obj [])) false with
        | (.confirm tool input summary, executed) =>
            runCalls T rest { s with pending := some ⟨tu.id, tool, input, summary, []⟩, executed }
        | (o, executed) =>
            runCalls T rest { s with
              events := s.events ++ [o]
              results := s.results ++ [toolResult T tu.id o]
              executed }

/-- What a request comes to, and the tools it has executed. -/
structure Outcome where
  result : Except AgentError Turn
  executed : List Executed

def maxTurns : Nat := 6

/-- The loop of `converse`, with so many turns left; `i` is the number of the model call. -/
def converseFrom (T : Tools) (answers : Nat → Answer) :
    Nat → Nat → List Msg → List ToolOutcome → List Executed → Outcome
  | 0, _, messages, events, executed =>
      ⟨.ok { messages, events, reply := some "Stopped after too many tool calls." }, executed⟩
  | left + 1, i, messages, events, executed =>
      match answers i with
      | .failed => ⟨.error .internal, executed⟩
      | .llmError status message =>
          if events.isEmpty then ⟨.error (.llm status message), executed⟩
          else ⟨.ok { messages, events, error := some (status, message) }, executed⟩
      | .response resp =>
          if resp.stopReason = some "refusal" then
            ⟨.ok { messages, events, reply := some "The model declined this request." }, executed⟩
          else if resp.stopReason ≠ some "tool_use" ∨ resp.calls.isEmpty then
            ⟨.ok {
              messages := messages ++ [⟨.assistant, resp.blocks⟩]
              events
              reply := some (textOf resp.blocks) }, executed⟩
          else
            let s := runCalls T resp.calls { events, executed }
            match s.pending with
            | some pending =>
                ⟨.ok {
                  messages := messages ++ [⟨.assistant, resp.blocks⟩]
                  events := s.events
                  reply := some (textOf resp.blocks)
                  pending := some { pending with others := s.results } }, s.executed⟩
            | none =>
                converseFrom T answers left (i + 1)
                  (messages ++ [⟨.assistant, resp.blocks⟩, ⟨.user, s.results⟩]) s.events s.executed

/-- `apiKey()` without a key. -/
def notConfigured : AgentError :=
  .http 503 ("The assistant is not configured: the ANTHROPIC_API_KEY function secret is not set " ++
    "(make fn-secret). The tool layer (mode: tool) works without it.") "llm_not_configured"

def converse (T : Tools) (answers : Nat → Answer) (messages : List Msg)
    (events : List ToolOutcome) (executed : List Executed) : Outcome :=
  if T.apiKey then converseFrom T answers maxTurns 0 messages events executed
  else ⟨.error notConfigured, executed⟩

/-! ## Confirmations -/

/-- `body.pending`; its `others` are there when they are an array. -/
structure PendingIn where
  toolUseId : Option String
  others : Option (List Block)

/-- `ids.sort().join(",")`: an `undefined` sorts last, and is joined as the empty text. -/
def joinIds (ids : List (Option String)) : String :=
  ",".intercalate (sortStrings (ids.filterMap id) ++
    (ids.filter Option.isNone).map fun _ => "")

/-- The tool call that a confirmation is about, with the results for the others. -/
def pendingCall (messages : List Msg) (pending : Option PendingIn) :
    Except AgentError (ToolUse × List Block) := do
  let calls := toolUses ((messages.getLast?.map Msg.content).getD [])
  let tu? := calls.find? fun c => some c.id = pending.bind PendingIn.toolUseId
  let noPending := AgentError.http 400 "no pending write tool call at the end of messages" "bad_request"
  refuseIf (messages.getLast?.map Msg.role ≠ some .assistant) noPending
  let tu ← orThrow tu? noPending
  refuseIf (tu.name ∉ writeTools) noPending
  let others := (pending.bind PendingIn.others).getD []
  let want := joinIds ((calls.filter fun c => c.id ≠ tu.id).map fun c => some c.id)
  let got := joinIds (others.map Block.toolUseId?)
  refuseIf (want ≠ got ∨ others.any (fun r => r.toolUseId?.isNone) = true)
    (.http 400 "pending.others does not match the turn's other tool calls" "bad_request")
  return (tu, others)

def confirm (T : Tools) (answers : Nat → Answer) (messages : List Msg)
    (pending : Option PendingIn) (approve : Bool) : Outcome :=
  if T.apiKey then
    match pendingCall messages pending with
    | .error e => ⟨.error e, []⟩
    | .ok (tu, others) =>
        let input := tu.input.getD (.obj [])
        let (o, executed) :=
          if approve then runTool T [] tu.name input true
          else (.error tu.name input "The user declined this action." false, [])
        converse T answers (messages ++ [⟨.user, others ++ [toolResult T tu.id o]⟩]) [o] executed
  else ⟨.error notConfigured, []⟩

/-! ## Requests -/

inductive AgentRequest where
  | chat (messages : List Msg)
  | confirm (messages : List Msg) (pending : Option PendingIn) (approve : Bool)

def AgentRequest.messages : AgentRequest → List Msg
  | .chat messages => messages
  | .confirm messages _ _ => messages

def AgentRequest.handle (T : Tools) (answers : Nat → Answer) (req : AgentRequest) : Outcome :=
  if req.messages.isEmpty ∨ 60 < req.messages.length then
    ⟨.error (.http 400 "messages must be a non-empty array of at most 60 entries" "bad_request"), []⟩
  else
    match req with
    | .chat messages => converse T answers messages [] []
    | .confirm messages pending approve => StarterKit.confirm T answers messages pending approve

/-! ## Balanced transcripts -/

/-- The ids of the tool calls of a message, and those its results name. -/
def Msg.calls (m : Msg) : List String := (toolUses m.content).map ToolUse.id

def Msg.results (m : Msg) : List String := m.content.filterMap Block.toolUseId?

/-- Each tool call of an assistant turn has exactly one result, in the user message
that comes next, and a result is for a call of the assistant turn before it. -/
structure Balanced (ms : List Msg) : Prop where
  answered : ∀ before m after, ms = before ++ m :: after → m.role = .assistant →
    ∀ id ∈ m.calls, ∃ next rest, after = next :: rest ∧ next.role = .user ∧
      next.results.count id = 1
  answers : ∀ before m after, ms = before ++ m :: after → ∀ id ∈ m.results,
    ∃ earlier prev, before = earlier ++ [prev] ∧ prev.role = .assistant ∧ id ∈ prev.calls

/-- The results answer the calls that are open, each once. -/
def Answers (calls results : List String) : Prop :=
  (∀ id ∈ calls, results.count id = 1) ∧ ∀ id ∈ results, id ∈ calls

instance (calls results : List String) : Decidable (Answers calls results) :=
  inferInstanceAs (Decidable (_ ∧ _))

/-- The calls open after a message, given those open before it. -/
def Msg.next (calls : List String) (m : Msg) : Option (List String) :=
  match m.role with
  | .user => if Answers calls m.results then some [] else none
  | .assistant => if calls = [] ∧ m.results = [] then some m.calls else none

def openCalls (calls : List String) (ms : List Msg) : Option (List String) :=
  ms.foldlM Msg.next calls

section Balance

variable {calls results : List String} {ms : List Msg} {m : Msg}

/-- `Balanced`, after a message that left `calls` open. -/
structure BalancedAfter (calls : List String) (ms : List Msg) : Prop where
  first : ∀ id ∈ calls, ∃ next rest, ms = next :: rest ∧ next.role = .user ∧
    next.results.count id = 1
  answered : ∀ before m after, ms = before ++ m :: after → m.role = .assistant →
    ∀ id ∈ m.calls, ∃ next rest, after = next :: rest ∧ next.role = .user ∧
      next.results.count id = 1
  answers : ∀ before m after, ms = before ++ m :: after → ∀ id ∈ m.results,
    (before = [] ∧ id ∈ calls) ∨
      ∃ earlier prev, before = earlier ++ [prev] ∧ prev.role = .assistant ∧ id ∈ prev.calls

theorem balanced_iff_after : Balanced ms ↔ BalancedAfter [] ms := by
  refine ⟨fun h => ⟨fun id hid => absurd hid List.not_mem_nil, h.answered,
    fun before m after hms id hid => .inr (h.answers before m after hms id hid)⟩,
    fun h => ⟨h.answered, fun before m after hms id hid => ?_⟩⟩
  obtain ⟨-, hmem⟩ | hprev := h.answers before m after hms id hid
  · exact absurd hmem List.not_mem_nil
  · exact hprev

theorem balancedAfter_nil : BalancedAfter calls [] ↔ calls = [] := by
  refine ⟨fun h => List.eq_nil_iff_forall_not_mem.mpr fun id hid => ?_, fun h => ?_⟩
  · obtain ⟨next, rest, hms, -⟩ := h.first id hid
    cases hms
  · subst h
    refine ⟨fun id hid => absurd hid List.not_mem_nil, fun before m after hms => ?_,
      fun before m after hms => ?_⟩
    · exact absurd hms.symm (List.append_ne_nil_of_right_ne_nil _ (List.cons_ne_nil _ _))
    · exact absurd hms.symm (List.append_ne_nil_of_right_ne_nil _ (List.cons_ne_nil _ _))

/-- What the rest of a transcript owes, after its first message. -/
theorem balancedAfter_cons : BalancedAfter calls (m :: ms) ↔
    (∀ id ∈ calls, m.role = .user ∧ m.results.count id = 1) ∧ (∀ id ∈ m.results, id ∈ calls) ∧
      BalancedAfter (if m.role = .assistant then m.calls else []) ms := by
  refine ⟨fun h => ⟨fun id hid => ?_, fun id hid => ?_, ?_⟩, fun ⟨hfirst, hown, hrest⟩ => ?_⟩
  · obtain ⟨next, rest, hms, hrole, hcount⟩ := h.first id hid
    cases hms
    exact ⟨hrole, hcount⟩
  · obtain ⟨-, hmem⟩ | ⟨earlier, prev, hnil, -⟩ := h.answers [] m ms rfl id hid
    · exact hmem
    · exact absurd hnil.symm (List.append_ne_nil_of_right_ne_nil _ (List.cons_ne_nil _ _))
  · refine ⟨fun id hid => ?_, fun before x after hms => ?_, fun before x after hms id hid => ?_⟩
    · split at hid
      · rename_i hrole
        exact h.answered [] m ms rfl hrole id hid
      · exact absurd hid List.not_mem_nil
    · exact h.answered (m :: before) x after (by rw [hms, List.cons_append])
    · obtain ⟨hnil, -⟩ | ⟨earlier, prev, hbefore, hrole, hprev⟩ :=
        h.answers (m :: before) x after (by rw [hms, List.cons_append]) id hid
      · cases hnil
      · cases earlier with
        | nil =>
          obtain ⟨rfl, hnil⟩ := List.cons.inj hbefore
          rw [if_pos hrole]
          exact .inl ⟨hnil, hprev⟩
        | cons e earlier =>
          obtain ⟨-, hbefore⟩ := List.cons.inj hbefore
          exact .inr ⟨earlier, prev, hbefore, hrole, hprev⟩
  · refine ⟨fun id hid => ⟨m, ms, rfl, hfirst id hid⟩, fun before x after hms hrole id hid => ?_,
      fun before x after hms id hid => ?_⟩
    · cases before with
      | nil =>
        obtain ⟨rfl, rfl⟩ := List.cons.inj hms
        rw [if_pos hrole] at hrest
        exact hrest.first id hid
      | cons b before =>
        obtain ⟨-, hms⟩ := List.cons.inj hms
        exact hrest.answered before x after hms hrole id hid
    · cases before with
      | nil =>
        obtain ⟨rfl, -⟩ := List.cons.inj hms
        exact .inl ⟨rfl, hown id hid⟩
      | cons b before =>
        obtain ⟨rfl, hsplit⟩ := List.cons.inj hms
        obtain ⟨rfl, hmem⟩ | ⟨earlier, prev, rfl, hrole, hprev⟩ :=
          hrest.answers before x after hsplit id hid
        · split at hmem
          · rename_i hrole
            exact .inr ⟨[], m, rfl, hrole, hmem⟩
          · exact absurd hmem List.not_mem_nil
        · exact .inr ⟨m :: earlier, prev, rfl, hrole, hprev⟩

theorem balancedAfter_iff : BalancedAfter calls ms ↔ openCalls calls ms = some [] := by
  induction ms generalizing calls with
  | nil =>
    rw [balancedAfter_nil]
    exact Option.some_inj.symm
  | cons m ms ih =>
    have hcons : openCalls calls (m :: ms) = (m.next calls).bind fun calls => openCalls calls ms :=
      List.foldlM_cons
    rw [balancedAfter_cons, hcons, ih]
    unfold Msg.next
    cases hrole : m.role with
    | user =>
      rw [if_neg (by decide)]
      by_cases hanswers : Answers calls m.results
      · rw [if_pos hanswers]
        exact ⟨fun h => h.2.2, fun h => ⟨fun id hid => ⟨rfl, hanswers.1 id hid⟩, hanswers.2, h⟩⟩
      · rw [if_neg hanswers]
        refine iff_of_false (fun h => hanswers ⟨fun id hid => (h.1 id hid).2, h.2.1⟩) fun h => ?_
        cases h
    | assistant =>
      rw [if_pos rfl]
      by_cases hclean : calls = [] ∧ m.results = []
      · rw [if_pos hclean]
        refine ⟨fun h => h.2.2, fun h => ⟨fun id hid => ?_, fun id hid => ?_, h⟩⟩
        · rw [hclean.1] at hid
          cases hid
        · rw [hclean.2] at hid
          cases hid
      · rw [if_neg hclean]
        refine iff_of_false (fun h => hclean ?_) (fun h => by cases h)
        have hcalls : calls = [] := List.eq_nil_iff_forall_not_mem.mpr fun id hid => by
          cases (h.1 id hid).1
        refine ⟨hcalls, List.eq_nil_iff_forall_not_mem.mpr fun id hid => ?_⟩
        have hmem := h.2.1 id hid
        rw [hcalls] at hmem
        cases hmem

theorem balanced_iff : Balanced ms ↔ openCalls [] ms = some [] :=
  balanced_iff_after.trans balancedAfter_iff

theorem openCalls_concat : openCalls calls (ms ++ [m]) =
    (openCalls calls ms).bind fun calls => m.next calls := by
  unfold openCalls
  rw [List.foldlM_append]
  cases ms.foldlM Msg.next calls with
  | none => rfl
  | some calls =>
    show (m.next calls).bind some = m.next calls
    exact Option.bind_fun_some _

end Balance

/-! ## The loop keeps its transcript -/

section Loop

variable {T : Tools} {answers : Nat → Answer} {ms : List Msg} {s : CallsState}

/-- A tool that is not confirmed is executed only when it does not write. -/
theorem runTool_unconfirmed {done : List Executed} {tool : String} {input : Json} :
    (runTool T done tool input false).2.filter Executed.isWrite = done.filter Executed.isWrite := by
  unfold runTool
  split
  · rfl
  · rename_i input' _
    by_cases hwrite : tool ∈ writeTools
    · rw [if_pos ⟨hwrite, rfl⟩]
    · rw [if_neg fun h => hwrite h.1]
      have hread : ([⟨tool, input'⟩] : List Executed).filter Executed.isWrite = [] := by
        rw [List.filter_cons_of_neg, List.filter_nil]
        exact fun h => hwrite (of_decide_eq_true h)
      dsimp only
      split
      · rw [List.filter_append, hread, List.append_nil]
      · rw [List.filter_append, hread, List.append_nil]

theorem runCalls_writes (calls : List ToolUse) :
    (runCalls T calls s).executed.filter Executed.isWrite = s.executed.filter Executed.isWrite := by
  induction calls generalizing s with
  | nil => rfl
  | cons tu rest ih =>
    have htool := @runTool_unconfirmed T s.executed tu.name (tu.input.getD (.obj []))
    unfold runCalls
    split
    · exact ih
    · split
      · rename_i hrun
        rw [hrun] at htool
        exact ih.trans htool
      · rename_i hrun
        rw [hrun] at htool
        exact ih.trans htool

theorem runCalls_pending {calls : List ToolUse} (h : (runCalls T calls s).pending = none) :
    s.pending = none := by
  induction calls generalizing s with
  | nil => exact h
  | cons tu rest ih =>
    unfold runCalls at h
    split at h
    · have hrest := ih h
      exact hrest
    · split at h
      · cases ih h
      · have hrest := ih h
        exact hrest

theorem toolUseId?_toolResult (id : String) (o : ToolOutcome) :
    (toolResult T id o).toolUseId? = some id := by
  cases o with
  | ok => rfl
  | error => rfl
  | confirm => rfl

/-- When no write is held, each call has its result, in the order of the calls. -/
theorem runCalls_results {calls : List ToolUse} (h : (runCalls T calls s).pending = none) :
    (runCalls T calls s).results.filterMap Block.toolUseId? =
      s.results.filterMap Block.toolUseId? ++ calls.map ToolUse.id := by
  induction calls generalizing s with
  | nil => exact (List.append_nil _).symm
  | cons tu rest ih =>
    have hnone := runCalls_pending h
    unfold runCalls at h ⊢
    rw [hnone] at h ⊢
    rw [if_neg (fun hp => Bool.false_ne_true hp.2)] at h ⊢
    split at h
    · cases runCalls_pending h
    · rename_i o executed hrun hnot
      rw [ih h, List.filterMap_append, List.map_cons, List.append_assoc]
      congr 1
      rw [List.filterMap_cons_some (toolUseId?_toolResult tu.id o)]
      rfl

/-- The responses of a request, as far as they are asked for: each is a refusal, or
stops for tools whose ids differ, or calls no tool. -/
def WellAnswered (answers : Nat → Answer) : Nat → Nat → Prop
  | 0, _ => True
  | left + 1, i =>
      match answers i with
      | .response resp =>
          if resp.stopReason = some "refusal" then True
          else if resp.stopReason ≠ some "tool_use" ∨ resp.calls.isEmpty then resp.calls = []
          else (resp.calls.map ToolUse.id).Nodup ∧ WellAnswered answers left (i + 1)
      | _ => True

theorem toolUseId?_blocks (resp : ModelResponse) :
    resp.blocks.filterMap Block.toolUseId? = [] := by
  unfold ModelResponse.blocks
  rw [List.filterMap_map, List.filterMap_eq_nil_iff]
  intro b _
  cases b with
  | text => rfl
  | toolUse => rfl
  | thinking => rfl

/-- Results in the order of the calls answer them when no two calls share an id. -/
theorem answers_self {ids : List String} : Answers ids ids ↔ ids.Nodup := by
  refine ⟨fun h => ?_, fun h => ⟨fun id hid => List.count_eq_one_of_mem h hid, fun _ h => h⟩⟩
  rw [List.nodup_iff_count_le_one]
  intro id
  by_cases hid : id ∈ ids
  · exact le_of_eq (h.1 id hid)
  · rw [List.count_eq_zero.mpr hid]
    exact Nat.zero_le _

/-- A response opens its calls. -/
theorem openCalls_response (resp : ModelResponse) :
    openCalls [] (ms ++ [⟨.assistant, resp.blocks⟩]) =
      (openCalls [] ms).bind fun calls =>
        if calls = [] then some (resp.calls.map ToolUse.id) else none := by
  rw [openCalls_concat]
  congr
  funext calls
  unfold Msg.next Msg.results
  dsimp only
  rw [toolUseId?_blocks]
  simp only [and_true]
  rfl

theorem converseFrom_writes (left i : Nat) (messages : List Msg) (events : List ToolOutcome)
    (executed : List Executed) :
    (converseFrom T answers left i messages events executed).executed.filter Executed.isWrite =
      executed.filter Executed.isWrite := by
  induction left generalizing i messages events executed with
  | zero => rfl
  | succ left ih =>
    unfold converseFrom
    split
    · rfl
    · split
      · rfl
      · rfl
    · rename_i resp _
      split
      · rfl
      · split
        · rfl
        · have hcalls := @runCalls_writes T { events, executed } resp.calls
          dsimp only
          split
          · exact hcalls
          · rw [ih]
            exact hcalls

/-- A transcript that is returned without a proposal is balanced exactly when the one
it began with was, and the model answered well. -/
theorem converseFrom_balanced {left i : Nat} {events : List ToolOutcome} {executed : List Executed}
    {turn : Turn} (hok : (converseFrom T answers left i ms events executed).result = .ok turn)
    (hpending : turn.pending = none) :
    openCalls [] turn.messages = some [] ↔
      openCalls [] ms = some [] ∧ WellAnswered answers left i := by
  induction left generalizing i ms events executed with
  | zero =>
    cases hok
    exact (and_iff_left trivial).symm
  | succ left ih =>
    unfold converseFrom at hok
    unfold WellAnswered
    split at hok
    · cases hok
    · rename_i hanswer
      rw [hanswer]
      split at hok
      · cases hok
      · cases hok
        exact (and_iff_left trivial).symm
    · rename_i resp hanswer
      rw [hanswer]
      dsimp only
      split at hok
      · rename_i hrefusal
        rw [if_pos hrefusal]
        cases hok
        exact (and_iff_left trivial).symm
      · rename_i hrefusal
        rw [if_neg hrefusal]
        split at hok
        · rename_i hends
          rw [if_pos hends]
          cases hok
          dsimp only
          rw [openCalls_response, Option.bind_eq_some_iff]
          refine ⟨fun ⟨calls, hms, hcalls⟩ => ?_, fun ⟨hms, hcalls⟩ => ⟨[], hms, ?_⟩⟩
          · split at hcalls
            · rename_i hnil
              rw [hnil] at hms
              exact ⟨hms, List.map_eq_nil_iff.mp (Option.some.inj hcalls)⟩
            · cases hcalls
          · rw [if_pos rfl, hcalls]
            rfl
        · rename_i hends
          rw [if_neg hends]
          dsimp only at hok
          split at hok
          · cases hok
            cases hpending
          · rename_i hnone
            have hresults := runCalls_results hnone
            rw [List.filterMap_nil, List.nil_append] at hresults
            rw [ih hok]
            -- the results answer the calls when the ids differ
            have hopen : openCalls [] (ms ++ [⟨.assistant, resp.blocks⟩,
                ⟨.user, (runCalls T resp.calls { events, executed }).results⟩]) = some [] ↔
                openCalls [] ms = some [] ∧ (resp.calls.map ToolUse.id).Nodup := by
              rw [List.append_cons ms, openCalls_concat, openCalls_response]
              cases openCalls [] ms with
              | none => simp
              | some calls =>
                rw [Option.bind_some]
                by_cases hcalls : calls = []
                · rw [if_pos hcalls, Option.bind_some, hcalls]
                  unfold Msg.next Msg.results
                  dsimp only
                  rw [hresults]
                  by_cases hnodup : (resp.calls.map ToolUse.id).Nodup
                  · rw [if_pos (answers_self.mpr hnodup)]
                    simp [hnodup]
                  · rw [if_neg fun h => hnodup (answers_self.mp h)]
                    simp [hnodup]
                · rw [if_neg hcalls]
                  simp [hcalls]
            rw [hopen, and_assoc]

/-! ## Requests -/

/-- The transcript a request begins with: for a confirmation, with the results it
brings and one for the pending call. -/
def AgentRequest.opening : AgentRequest → List Msg
  | .chat messages => messages
  | .confirm messages pending _ =>
      messages ++ [⟨.user, (pending.bind PendingIn.others).getD [] ++
        [.toolResult ((pending.bind PendingIn.toolUseId).getD "") "" false]⟩]

/-- The write a confirmation may execute: the proposed call, if it is approved. -/
def Approved (T : Tools) (messages : List Msg) (pending : Option PendingIn) (approve : Bool)
    (writes : List Executed) : Prop :=
  approve = true ∧
    ∃ tu ∈ toolUses ((messages.getLast?.map Msg.content).getD []),
      some tu.id = pending.bind PendingIn.toolUseId ∧ tu.name ∈ writeTools ∧
        ∃ input, T.validate tu.name (tu.input.getD (.obj [])) = .ok input ∧
          writes = [⟨tu.name, input⟩]

theorem pendingCall_ok {messages : List Msg} {pending : Option PendingIn} {tu : ToolUse}
    {others : List Block} (h : pendingCall messages pending = .ok (tu, others)) :
    tu ∈ toolUses ((messages.getLast?.map Msg.content).getD []) ∧
      some tu.id = pending.bind PendingIn.toolUseId ∧ tu.name ∈ writeTools ∧
        others = (pending.bind PendingIn.others).getD [] := by
  obtain ⟨_, -, h⟩ := bind_eq_ok.mp h
  obtain ⟨tu', hfind, h⟩ := bind_eq_ok.mp h
  have hfind := orThrow_eq_ok.mp hfind
  obtain ⟨_, hwrite, h⟩ := bind_eq_ok.mp h
  obtain ⟨_, -, h⟩ := bind_eq_ok.mp h
  cases h
  refine ⟨List.mem_of_find?_eq_some hfind, ?_, not_not.mp (refuseIf_eq_ok.mp hwrite), rfl⟩
  have hid := List.find?_some hfind
  exact of_decide_eq_true hid

theorem converse_writes (messages : List Msg) (events : List ToolOutcome)
    (executed : List Executed) :
    (converse T answers messages events executed).executed.filter Executed.isWrite =
      executed.filter Executed.isWrite := by
  unfold converse
  split
  · exact converseFrom_writes ..
  · rfl

theorem converse_balanced {events : List ToolOutcome} {executed : List Executed} {turn : Turn}
    (hok : (converse T answers ms events executed).result = .ok turn)
    (hpending : turn.pending = none) :
    openCalls [] turn.messages = some [] ↔
      openCalls [] ms = some [] ∧ WellAnswered answers maxTurns 0 := by
  unfold converse at hok
  split at hok
  · exact converseFrom_balanced hok hpending
  · cases hok

/-- The tool of a confirmation is executed once, if at all. -/
theorem runTool_confirmed {tool : String} {input : Json} (hwrite : tool ∈ writeTools) :
    (runTool T [] tool input true).2.filter Executed.isWrite = [] ∨
      ∃ input', T.validate tool input = .ok input' ∧
        (runTool T [] tool input true).2.filter Executed.isWrite = [⟨tool, input'⟩] := by
  unfold runTool
  split
  · exact .inl rfl
  · rename_i input' hvalid
    refine .inr ⟨input', hvalid, ?_⟩
    have hone : ([⟨tool, input'⟩] : List Executed).filter Executed.isWrite = [⟨tool, input'⟩] := by
      rw [List.filter_cons_of_pos, List.filter_nil]
      exact decide_eq_true hwrite
    rw [if_neg (fun h => Bool.noConfusion h.2)]
    dsimp only
    split
    · exact hone
    · exact hone

theorem confirm_writes (messages : List Msg) (pending : Option PendingIn) (approve : Bool) :
    (confirm T answers messages pending approve).executed.filter Executed.isWrite = [] ∨
      Approved T messages pending approve
        ((confirm T answers messages pending approve).executed.filter Executed.isWrite) := by
  unfold confirm
  split
  · split
    · exact .inl rfl
    · rename_i tu others hcall
      obtain ⟨hmem, hid, hwrite, -⟩ := pendingCall_ok hcall
      cases approve with
      | false => exact .inl (converse_writes ..)
      | true =>
        have htool := @runTool_confirmed T tu.name (tu.input.getD (.obj [])) hwrite
        simp only [if_true]
        generalize runTool T [] tu.name (tu.input.getD (.obj [])) true = ran at htool
        obtain ⟨o, executed⟩ := ran
        dsimp only at htool ⊢
        rw [converse_writes]
        obtain hnone | ⟨input, hvalid, hone⟩ := htool
        · exact .inl hnone
        · exact .inr ⟨rfl, tu, hmem, hid, hwrite, input, hvalid, hone⟩
  · exact .inl rfl

theorem confirm_balanced {messages : List Msg} {pending : Option PendingIn} {approve : Bool}
    {turn : Turn} (hok : (confirm T answers messages pending approve).result = .ok turn)
    (hpending : turn.pending = none) :
    Balanced turn.messages ↔
      Balanced (AgentRequest.confirm messages pending approve).opening ∧
        WellAnswered answers maxTurns 0 := by
  unfold confirm at hok
  split at hok
  · split at hok
    · cases hok
    · rename_i tu others hcall
      obtain ⟨-, hid, -, hothers⟩ := pendingCall_ok hcall
      rw [balanced_iff, balanced_iff, converse_balanced hok hpending]
      -- the ids are those of the opening, whatever the results say
      unfold AgentRequest.opening
      rw [openCalls_concat, openCalls_concat, ← hothers, ← hid]
      have hsame : ∀ (calls : List String) (o : ToolOutcome),
          Msg.next calls ⟨.user, others ++ [toolResult T tu.id o]⟩ =
            Msg.next calls ⟨.user, others ++ [.toolResult tu.id "" false]⟩ := by
        intro calls o
        unfold Msg.next Msg.results
        dsimp only
        rw [List.filterMap_append, List.filterMap_append,
          List.filterMap_cons_some (toolUseId?_toolResult tu.id o)]
        rfl
      simp only [hsame, Option.getD_some]
  · cases hok

/-- A chat writes nothing, a confirmation at most the approved call; and a transcript
that comes back without a proposal is balanced exactly when the one the client sent
is, and no response ends with calls that are left open or share an id. -/
theorem agent_transcripts (T : Tools) (answers : Nat → Answer) (req : AgentRequest) :
    (∀ messages, req = .chat messages →
      (req.handle T answers).executed.filter Executed.isWrite = []) ∧
    (∀ messages pending approve, req = .confirm messages pending approve →
      (req.handle T answers).executed.filter Executed.isWrite = [] ∨
        Approved T messages pending approve
          ((req.handle T answers).executed.filter Executed.isWrite)) ∧
    ∀ turn, (req.handle T answers).result = .ok turn → turn.pending = none →
      (Balanced turn.messages ↔ Balanced req.opening ∧ WellAnswered answers maxTurns 0) := by
  unfold AgentRequest.handle
  refine ⟨fun messages hreq => ?_, fun messages pending approve hreq => ?_,
    fun turn hok hpending => ?_⟩
  · subst hreq
    split
    · rfl
    · exact converse_writes ..
  · subst hreq
    split
    · exact .inl rfl
    · exact confirm_writes ..
  · split at hok
    · cases hok
    · cases req with
      | chat messages =>
        rw [balanced_iff, balanced_iff]
        exact converse_balanced hok hpending
      | confirm messages pending approve => exact confirm_balanced hok hpending

end Loop

/-! ### A response that is cut off -/

/-- Tools over a database that answers nothing. -/
def idleTools : Tools where
  apiKey := true
  validate := fun _ input => .ok input
  summarise := fun tool _ => tool
  execute := fun _ _ _ => .ok .null
  audit := fun _ _ => true
  stringify := fun _ => "null"

def askPolicy : AgentRequest := .chat [⟨.user, [.text "What is the limit for laptops?"]⟩]

/-- The model calls a read and reaches its limit of tokens in the same response. -/
def cutOff : Nat → Answer := fun _ =>
  .response ⟨[.toolUse "toolu_1" "search_kb" none], some "max_tokens"⟩

/-- The call is returned without a result. -/
theorem call_left_open : ∃ turn, (askPolicy.handle idleTools cutOff).result = .ok turn ∧
    turn.pending = none ∧ ¬ Balanced turn.messages := by
  refine ⟨_, rfl, rfl, fun h => ?_⟩
  have hopen := balanced_iff.mp h
  revert hopen
  decide

/-- The model calls a read, and then answers. -/
def readThenReply : Nat → Answer
  | 0 => .response ⟨[.toolUse "toolu_1" "search_kb" none], some "tool_use"⟩
  | _ => .response ⟨[.text "2000"], some "end_turn"⟩

theorem agent_transcripts_read : ∃ turn,
    (askPolicy.handle idleTools readThenReply).result = .ok turn ∧ turn.pending = none ∧
      Balanced turn.messages ∧
      (askPolicy.handle idleTools readThenReply).executed.filter Executed.isWrite = [] := by
  obtain ⟨hchat, -, hturns⟩ := agent_transcripts idleTools readThenReply askPolicy
  refine ⟨_, rfl, rfl, (hturns _ rfl rfl).mpr ⟨balanced_iff.mpr (by decide), ?_⟩, hchat _ rfl⟩
  simp [WellAnswered, maxTurns, readThenReply, ModelResponse.calls, ModelResponse.blocks,
    ModelBlock.block, toolUses, Block.toolUse?]

end SupabaseLab.StarterKit
