import Mathlib.Data.List.Chain
import Tagsmaxxing.Core.Json

/-! # The tool loop of a chat turn (`tools/executor.rs`, `tools/registry.rs`)

`run_with_tools` sends the conversation to the model, executes the tool calls of its reply, adds each call and its
result to the conversation, and goes on until a reply has no tool calls or the rounds are used up.

The model and the tools are any functions on a world `ω` that they may read and change, so that any sequence of replies
and of failing tools is some run. A run keeps the calls it made of the model, each with the world it was made in. Token
counts do not overflow. -/

namespace Tagsmaxxing.ToolLoop

/-! ## Messages (`provider.rs`) -/

inductive ChatRole
  | system
  | user
  | assistant
  | tool

structure ToolDef where
  name : String
  description : String
  parameters : Json

inductive ToolChoice
  | auto
  | required
  | specific (name : String)
  | none

structure FunctionCall where
  name : String
  arguments : String

structure ToolCall where
  id : String
  function : FunctionCall

structure ChatMessage where
  role : ChatRole
  content : String
  toolCalls : Option (List ToolCall)
  toolCallId : Option String

/-- The fields of `ChatReq` that the loop sets. -/
structure ChatReq where
  messages : List ChatMessage
  tools : Option (List ToolDef)
  toolChoice : Option ToolChoice
  maxTokens : Option ℕ

structure Usage where
  promptTokens : ℕ
  completionTokens : ℕ

def Usage.add (u v : Usage) : Usage := ⟨u.promptTokens + v.promptTokens, u.completionTokens + v.completionTokens⟩

structure ChatResp where
  text : String
  usage : Usage
  toolCalls : List ToolCall

/-! ## Tools -/

structure ToolContext where
  tenantId : Int
  userId : Option Int

section
variable {ω : Type}

structure Tool (ω : Type) where
  definition : ToolDef
  execute : String → ToolContext → ω → Except String String × ω

/-- `ToolRegistry`. -/
abbrev Registry (ω : Type) := List (Tool ω)

def Registry.definitions (registry : Registry ω) : List ToolDef := registry.map Tool.definition

def Registry.find (registry : Registry ω) (name : String) : Option (Tool ω) :=
  List.find? (fun t => t.definition.name == name) registry

/-! ## The loop -/

/-- `LlamaClient::chat`, always for `Role::Text` with priority 0: the model, the request and `local_only`. -/
abbrev Client (ω : Type) := String → ChatReq → Bool → ω → Except String ChatResp × ω

structure RunWithToolsResult where
  text : String
  toolCalls : List ToolCall
  usage : Usage

/-- A call of the model in a world, and what it returned. -/
structure Exchange (ω : Type) where
  world : ω
  req : ChatReq
  reply : Except String ChatResp

/-- A whole run: the calls of the model in order, `all_tool_calls` at its end, and what it leaves and returns. -/
structure Run (ω : Type) where
  sent : List (Exchange ω)
  allToolCalls : List ToolCall
  messages : List ChatMessage
  world : ω
  result : Except String RunWithToolsResult

/-- What is said of one tool call: its result, or an error as JSON text. -/
def toolResult (registry : Registry ω) (ctx : ToolContext) (tc : ToolCall) (world : ω) : String × ω :=
  match registry.find tc.function.name with
  | some tool =>
      match tool.execute tc.function.arguments ctx world with
      | (.ok text, world) => (text, world)
      | (.error e, world) => ("\x7b\"error\":\"" ++ e ++ "\",\"tool\":\"" ++ tc.function.name ++ "\"\x7d", world)
  | none => ("\x7b\"error\":\"unknown tool\",\"tool\":\"" ++ tc.function.name ++ "\"\x7d", world)

def assistantMessage (tc : ToolCall) : ChatMessage := ⟨.assistant, "", some [tc], none⟩

def toolMessage (tc : ToolCall) (result : String) : ChatMessage := ⟨.tool, result, none, some tc.id⟩

/-- The loop over the tool calls of a reply: `all_tool_calls`, `messages` and the world. -/
def executeCalls (registry : Registry ω) (ctx : ToolContext) :
    List ToolCall → List ToolCall → List ChatMessage → ω → List ToolCall × List ChatMessage × ω
  | [], all, messages, world => (all, messages, world)
  | tc :: tcs, all, messages, world =>
      let (result, world) := toolResult registry ctx tc world
      executeCalls registry ctx tcs (all ++ [tc]) (messages ++ [assistantMessage tc] ++ [toolMessage tc result]) world

def outOfSteps : String := "I ran out of steps while processing your request. Please try again."

/-- The rounds that are left. -/
def rounds (client : Client ω) (registry : Registry ω) (ctx : ToolContext) (model : String) (localOnly : Bool) :
    ℕ → List ToolCall → Usage → List ChatMessage → ω → Run ω
  | 0, all, usage, messages, world =>
      ⟨[], all, messages, world, .ok ⟨outOfSteps, all, usage⟩⟩
  | n + 1, all, usage, messages, world =>
      let req : ChatReq := ⟨messages, some registry.definitions, some .auto, some 1024⟩
      match client model req localOnly world with
      | (.error e, world') => ⟨[⟨world, req, .error e⟩], all, messages, world', .error e⟩
      | (.ok resp, world') =>
          let usage := usage.add resp.usage
          if resp.toolCalls.isEmpty then
            ⟨[⟨world, req, .ok resp⟩], all, messages, world', .ok ⟨resp.text, all, usage⟩⟩
          else
            let (all, messages, world') := executeCalls registry ctx resp.toolCalls all messages world'
            let run := rounds client registry ctx model localOnly n all usage messages world'
            { run with sent := ⟨world, req, .ok resp⟩ :: run.sent }

def runWithTools (client : Client ω) (registry : Registry ω) (ctx : ToolContext) (model : String)
    (messages : List ChatMessage) (localOnly : Bool) (maxRounds : ℕ) (world : ω) : Run ω :=
  rounds client registry ctx model localOnly maxRounds [] ⟨0, 0⟩ messages world

/-! ## The transcript -/

/-- For each tool call in order, an assistant message with the call and a tool message with its id and its result in
    the world as it is then; and the world after the last. -/
inductive Answers (registry : Registry ω) (ctx : ToolContext) : ω → List ToolCall → List ChatMessage → ω → Prop
  | nil (world : ω) : Answers registry ctx world [] [] world
  | cons (tc : ToolCall) {tcs : List ToolCall} {messages : List ChatMessage} {world world' : ω}
      (h : Answers registry ctx (toolResult registry ctx tc world).2 tcs messages world') :
      Answers registry ctx world (tc :: tcs)
        (assistantMessage tc :: toolMessage tc (toolResult registry ctx tc world).1 :: messages) world'

/-- The tool calls of a reply. -/
def Exchange.toolCalls (x : Exchange ω) : List ToolCall :=
  match x.reply with
  | .ok resp => resp.toolCalls
  | .error _ => []

/-- The tokens used by the calls that returned a reply. -/
def totalUsage : List (Exchange ω) → Usage
  | [] => ⟨0, 0⟩
  | ⟨_, _, .ok resp⟩ :: xs => resp.usage.add (totalUsage xs)
  | ⟨_, _, .error _⟩ :: xs => totalUsage xs

theorem Usage.add_assoc (u v w : Usage) : (u.add v).add w = u.add (v.add w) := by
  simp [Usage.add, Nat.add_assoc]

/-- The loop over the tool calls adds the calls and their answers. -/
theorem executeCalls_spec (registry : Registry ω) (ctx : ToolContext) (tcs : List ToolCall) :
    ∀ (all : List ToolCall) (messages : List ChatMessage) (world : ω),
      ∃ answers world', Answers registry ctx world tcs answers world' ∧
        executeCalls registry ctx tcs all messages world = (all ++ tcs, messages ++ answers, world') := by
  induction tcs with
  | nil =>
    intro all messages world
    exact ⟨[], world, .nil world, by simp [executeCalls]⟩
  | cons tc tcs ih =>
    intro all messages world
    obtain ⟨answers, world', hanswers, heq⟩ := ih (all ++ [tc])
      (messages ++ [assistantMessage tc] ++ [toolMessage tc (toolResult registry ctx tc world).1])
      (toolResult registry ctx tc world).2
    refine ⟨_, world', .cons tc hanswers, ?_⟩
    simp only [executeCalls]
    rw [heq]
    simp only [List.append_assoc, List.cons_append, List.nil_append]

variable (client : Client ω) (registry : Registry ω) (ctx : ToolContext) (model : String) (localOnly : Bool)

/-- The conversation and the world after a call and the tool calls of its reply. -/
def Exchange.Leaves (x : Exchange ω) (messages : List ChatMessage) (world : ω) : Prop :=
  ∃ answers, messages = x.req.messages ++ answers ∧
    Answers registry ctx (client model x.req localOnly x.world).2 x.toolCalls answers world

/-- The second call is made with what the first left, which had tool calls in its reply. -/
def Exchange.Extends (x y : Exchange ω) : Prop :=
  x.toolCalls ≠ [] ∧ x.Leaves client registry ctx model localOnly y.req.messages y.world

/-- The transcript of `n` rounds on a conversation in a world, with the tool calls and the usage so far. -/
structure Run.Transcript (n : ℕ) (all : List ToolCall) (usage : Usage) (messages : List ChatMessage) (world : ω)
    (run : Run ω) : Prop where
  length : run.sent.length ≤ n
  /-- Every reply is the model's, to what was sent and in the world in which it was sent. -/
  answered : ∀ x ∈ run.sent, x.reply = (client model x.req localOnly x.world).1
  /-- The first call sends the conversation as it was, in the world as it was. -/
  first : ∀ x ∈ run.sent.head?, x.req.messages = messages ∧ x.world = world
  /-- Each further one sends what the one before it sent and, for each tool call of the reply, the call and its
      answer. -/
  chain : run.sent.IsChain (Exchange.Extends client registry ctx model localOnly)
  idle : run.sent = [] → run.messages = messages ∧ run.world = world
  last : ∀ x ∈ run.sent.getLast?, x.Leaves client registry ctx model localOnly run.messages run.world
  /-- However the run ends, it has collected the tool calls of the replies in order. -/
  toolCalls : run.allToolCalls = all ++ run.sent.flatMap Exchange.toolCalls
  /-- It fails only with the error of the last call. -/
  failed : ∀ e, run.result = .error e → ∃ x ∈ run.sent.getLast?, x.reply = .error e
  /-- What it returns has the tool calls and the sum of the usage over the calls. It ended because the last reply had
      no tool calls, or because all rounds were used up by replies that had some. -/
  result : ∀ r, run.result = .ok r → r.toolCalls = run.allToolCalls ∧ r.usage = usage.add (totalUsage run.sent) ∧
    ((∃ x ∈ run.sent.getLast?, ∃ resp, x.reply = .ok resp ∧ resp.toolCalls = [] ∧ r.text = resp.text) ∨
      run.sent.length = n ∧ (∀ x ∈ run.sent.getLast?, x.toolCalls ≠ []) ∧ r.text = outOfSteps)

variable {client registry ctx model localOnly}

theorem forall_mem_getLast?_cons {α : Type} {P : α → Prop} {a : α} {l : List α} (hnil : l = [] → P a)
    (hlast : ∀ x ∈ l.getLast?, P x) : ∀ x ∈ (a :: l).getLast?, P x := by
  cases l with
  | nil => simpa using hnil rfl
  | cons b l => rwa [List.getLast?_cons_cons]

/-- A call without tool calls in its reply leaves the conversation as it was. -/
theorem Exchange.leaves_of_toolCalls_eq_nil {x : Exchange ω} {reply : Except String ChatResp} {world' : ω}
    (hreply : client model x.req localOnly x.world = (reply, world')) (hnone : x.toolCalls = []) :
    ∀ y ∈ [x].getLast?, y.Leaves client registry ctx model localOnly x.req.messages world' := by
  refine forall_mem_getLast?_cons (fun _ => ⟨[], (List.append_nil _).symm, ?_⟩) (by simp)
  rw [hnone, hreply]
  exact .nil world'

/-- A call whose reply has tool calls, before the rounds that go on with what it left. -/
theorem Run.Transcript.cons {n : ℕ} {all : List ToolCall} {usage : Usage} {req : ChatReq} {resp : ChatResp}
    {answers : List ChatMessage} {world world₁ world₂ : ω} {run : Run ω}
    (hreply : client model req localOnly world = (.ok resp, world₁)) (hcalls : resp.toolCalls ≠ [])
    (hanswers : Answers registry ctx world₁ resp.toolCalls answers world₂)
    (h : run.Transcript client registry ctx model localOnly n (all ++ resp.toolCalls) (usage.add resp.usage)
      (req.messages ++ answers) world₂) :
    Run.Transcript client registry ctx model localOnly (n + 1) all usage req.messages world
      { run with sent := ⟨world, req, .ok resp⟩ :: run.sent } where
  length := Nat.succ_le_succ h.length
  answered := List.forall_mem_cons.2 ⟨by rw [hreply], h.answered⟩
  first := by simp
  chain := by
    refine List.isChain_cons.2 ⟨?_, h.chain⟩
    intro y hy
    obtain ⟨hmessages, hworld⟩ := h.first y hy
    exact ⟨hcalls, answers, hmessages, by rwa [hreply, hworld]⟩
  idle := by simp
  last := by
    refine forall_mem_getLast?_cons ?_ h.last
    intro hnil
    obtain ⟨hmessages, hworld⟩ := h.idle hnil
    exact ⟨answers, hmessages, by rwa [hreply, hworld]⟩
  toolCalls := by simpa [Exchange.toolCalls] using h.toolCalls
  failed := by
    intro e he
    obtain ⟨x, hx, herror⟩ := h.failed e he
    exact ⟨x, List.mem_getLast?_cons hx, herror⟩
  result := by
    intro r hr
    obtain ⟨hall, husage, hends⟩ := h.result r hr
    refine ⟨hall, ?_, ?_⟩
    · rw [husage, Usage.add_assoc]
      rfl
    · rcases hends with ⟨x, hx, hresp⟩ | ⟨hlength, hlast, htext⟩
      · exact .inl ⟨x, List.mem_getLast?_cons hx, hresp⟩
      · exact .inr ⟨congrArg Nat.succ hlength, forall_mem_getLast?_cons (fun _ => hcalls) hlast, htext⟩

variable (client registry ctx model localOnly)

theorem rounds_transcript (n : ℕ) :
    ∀ (all : List ToolCall) (usage : Usage) (messages : List ChatMessage) (world : ω),
      (rounds client registry ctx model localOnly n all usage messages world).Transcript client registry ctx model
        localOnly n all usage messages world := by
  induction n with
  | zero =>
    intro all usage messages world
    refine ⟨le_refl 0, by simp [rounds], by simp [rounds], .nil, fun _ => ⟨rfl, rfl⟩, by simp [rounds],
      by simp [rounds], ?_, ?_⟩
    · rintro e ⟨⟩
    · rintro r ⟨⟩
      exact ⟨rfl, rfl, .inr ⟨rfl, by simp [rounds], rfl⟩⟩
  | succ n ih =>
    intro all usage messages world
    simp only [rounds]
    split
    next e world' hreply =>
      -- the model fails, and so does the run
      refine ⟨by simp, by simp [hreply], by simp, .singleton _, by simp,
        Exchange.leaves_of_toolCalls_eq_nil hreply rfl,
        by simp [Exchange.toolCalls], ?_, ?_⟩
      · rintro e ⟨⟩
        exact ⟨_, rfl, rfl⟩
      · rintro r ⟨⟩
    next resp world' hreply =>
      split
      · next hempty =>
        have hnone : resp.toolCalls = [] := List.isEmpty_iff.1 hempty
        refine ⟨by simp, by simp [hreply], by simp, .singleton _, by simp,
        Exchange.leaves_of_toolCalls_eq_nil hreply hnone,
          by simp [Exchange.toolCalls, hnone], ?_, ?_⟩
        · rintro e ⟨⟩
        · rintro r ⟨⟩
          exact ⟨rfl, rfl, .inl ⟨_, rfl, resp, rfl, hnone, rfl⟩⟩
      · next hcalls =>
        obtain ⟨answers, world'', hanswers, heq⟩ := executeCalls_spec registry ctx resp.toolCalls all messages world'
        have hrest := ih (all ++ resp.toolCalls) (usage.add resp.usage) (messages ++ answers) world''
        simp only [heq]
        exact .cons hreply (by simpa using hcalls) hanswers hrest

/-- Every run has its transcript: for every model, tools and number of rounds. -/
theorem runWithTools_transcript (client : Client ω) (registry : Registry ω) (ctx : ToolContext) (model : String)
    (messages : List ChatMessage) (localOnly : Bool) (maxRounds : ℕ) (world : ω) :
    (runWithTools client registry ctx model messages localOnly maxRounds world).Transcript client registry ctx model
      localOnly maxRounds [] ⟨0, 0⟩ messages world :=
  rounds_transcript client registry ctx model localOnly maxRounds [] ⟨0, 0⟩ messages world

end

end Tagsmaxxing.ToolLoop
