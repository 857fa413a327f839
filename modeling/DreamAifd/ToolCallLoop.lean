import DreamAifd.Dict

/-! Regenerating one conversation on policy. The user turns of a source row are sent again, one request
for each generation; a tool call is answered by the next cached result of the row, and the conversation
is truncated where a call and a result cannot be paired. -/
namespace DreamAifd.ConversationRegeneration

inductive Role
  | system
  | user
  deriving DecidableEq

/-- A turn of the source conversation that drives the regeneration. -/
structure Turn (ν : Type) where
  role : Role
  content : ν
  deriving DecidableEq

/-- A cached tool result and the tools it answers; no names where none could be read. -/
structure ToolResult (ν : Type) where
  content : ν
  names : List String
  deriving DecidableEq

/-- A message of a source row; `source` is its `from`. -/
structure RawMessage (ν : Type) where
  role : Option String
  source : Option String
  content : Option ν
  value : Option ν

/-- A source row: its two lists of messages, in which `none` is a member that is no dictionary, and what
it has under the prompt field. -/
structure Row (ν : Type) where
  messages : Option (List (Option (RawMessage ν)))
  conversations : Option (List (Option (RawMessage ν)))
  prompt : Option ν

variable {ν ε : Type}

def conversationMessages (row : Row ν) : List (Option (RawMessage ν)) :=
  match row.messages with
  | some (message :: messages) => message :: messages
  | _ => row.conversations.getD []

def messageRoleContent (m : RawMessage ν) : Option String × Option ν :=
  let role := if m.role.any (· ≠ "") then m.role else m.source
  let content := m.content.orElse fun _ => m.value
  if role = some "user" ∨ role = some "human" then (some "user", content)
  else if role = some "system" ∨ role = some "tool" then (role, content)
  else (none, content)

/-- `extract_conversation`, over what counts as content and the names read from a result. -/
def extractConversation (truthy : ν → Bool) (toolResultNames : ν → List String) (row : Row ν) :
    List (Turn ν) × List (ToolResult ν) :=
  let messages := ((conversationMessages row).filterMap id).map messageRoleContent
  let turns := messages.filterMap fun
    | (some "system", some content) => if truthy content then some ⟨.system, content⟩ else none
    | (some "user", some content) => if truthy content then some ⟨.user, content⟩ else none
    | _ => none
  let results := messages.filterMap fun
    | (some "tool", some content) => some ⟨content, toolResultNames content⟩
    | _ => none
  if turns.any (·.role = .user) then (turns, results)
  else
    match row.prompt with
    | some prompt => if truthy prompt then ([⟨.user, prompt⟩], []) else ([], [])
    | none => ([], [])

/-- A row without a usable user turn is skipped whole. -/
theorem user_mem_extractConversation {truthy : ν → Bool} {toolResultNames : ν → List String} {row : Row ν}
    (kept : (extractConversation truthy toolResultNames row).1 ≠ []) :
    ∃ turn ∈ (extractConversation truthy toolResultNames row).1, turn.role = .user := by
  unfold extractConversation at kept ⊢
  dsimp only at kept ⊢
  split
  next found =>
    obtain ⟨turn, member, user⟩ := List.any_eq_true.mp found
    exact ⟨turn, member, of_decide_eq_true user⟩
  next missing =>
    rw [if_neg missing] at kept
    cases prompt : row.prompt with
    | none => simp [prompt] at kept
    | some content =>
      rw [prompt] at kept
      by_cases usable : truthy content = true
      · simp [usable]
      · simp [usable] at kept

structure ToolFunction where
  name : Option String
  arguments : String
  deriving DecidableEq

structure ToolCall where
  id : Option String
  function : Option ToolFunction
  deriving DecidableEq

def ToolCall.name (call : ToolCall) : Option String := call.function.bind (·.name)

inductive Message (ν : Type)
  | system (content : ν)
  | user (content : ν)
  | assistant (content : String) (toolCalls : Option (List ToolCall))
  | tool (content : ν) (toolCallId : Option String)
  deriving DecidableEq

/-- A value of a request. -/
inductive Value (ν : Type)
  | string (value : String)
  | number (value : Nat)
  | bool (value : Bool)
  | messages (value : List (Message ν))
  | tools (value : List ν)
  | other (value : ν)
  deriving DecidableEq

abbrev Payload (ν : Type) := Dict String (Value ν)

structure ResponseMessage where
  content : Option String
  toolCalls : Option (List ToolCall)
  deriving DecidableEq

structure Choice where
  message : Option ResponseMessage
  finishReason : Option String
  tokenIds : Option (List Nat)
  deriving DecidableEq

/-- A response that was received and parsed; `none` is a key it does not have. -/
structure ChatResponse (ν : Type) where
  choices : Option (List Choice)
  promptTokenIds : Option (List Nat)
  usage : Option (Dict String ν)

structure Metadata (ν : Type) where
  idx : Nat
  finishReason : Option String
  isToolCall : Bool
  usage : Dict String ν
  endpoint : String
  samplingParams : Dict String (Value ν)

structure Sample (ν : Type) where
  id : String
  primaryId : String
  inputIds : List Nat
  lossMask : List Nat
  conversations : List (Message ν)
  metadata : Metadata ν

structure Item (ν : Type) where
  idx : Nat
  primaryId : String
  turns : List (Turn ν)
  tools : Option (List ν)
  toolResults : Option (List (ToolResult ν))

def Item.results (item : Item ν) : List (ToolResult ν) := item.toolResults.getD []

structure Settings (ν : Type) where
  model : String
  maxTokens : Nat
  endpoint : String
  samplingParams : Dict String (Value ν)

/-- Why a response gives no sample. -/
inductive Rejection
  | keyError (key : String)
  | indexError
  | valueError (message : String)
  deriving DecidableEq

inductive Failure (ε : Type)
  | request (error : ε)
  | rejected (reason : Rejection)
  deriving DecidableEq

/-- The payload of a request. The sampling parameters come first, and the keys after them are not theirs. -/
def payload (settings : Settings ν) (item : Item ν) (messages : List (Message ν)) : Payload ν :=
  let request := (((settings.samplingParams.set "model" (.string settings.model)).set
    "messages" (.messages messages)).set
    "max_tokens" (.number settings.maxTokens)).set
    "return_token_ids" (.bool true)
  match item.tools with
  | some (tool :: tools) => (request.set "tools" (.tools (tool :: tools))).set "tool_choice" (.string "auto")
  | _ => request

/-- No sampling parameter takes the place of the conversation. -/
theorem get?_payload_messages (settings : Settings ν) (item : Item ν) (messages : List (Message ν)) :
    (payload settings item messages).get? "messages" = some (.messages messages) := by
  unfold payload
  dsimp only
  split <;> simp [Dict.get?_set]

def buildBoundarySample (promptTokenIds completionTokenIds : List Nat) : List Nat × List Nat :=
  (promptTokenIds ++ completionTokenIds,
    List.replicate promptTokenIds.length 0 ++ List.replicate completionTokenIds.length 1)

def toolResultMessage (call : ToolCall) (content : ν) : Message ν :=
  .tool content (call.id.filter (· ≠ ""))

def sampleId (convId : String) (sampleIndex : Nat) : String := convId ++ "_gen" ++ toString sampleIndex

/-- `_sample_from_response`: the sample, the message to append, and its tool calls, `[]` where it has none. -/
def sampleFromResponse (settings : Settings ν) (item : Item ν) (messages : List (Message ν))
    (sampleIndex : Nat) (data : ChatResponse ν) : Except Rejection (Sample ν × Message ν × List ToolCall) :=
  match data.choices with
  | none => .error (.keyError "choices")
  | some [] => .error .indexError
  | some (choice :: _) =>
    match choice.message with
    | none => .error (.keyError "message")
    | some message =>
      let content := message.content.getD ""
      let toolCalls := message.toolCalls.getD []
      let promptTokenIds := data.promptTokenIds.getD []
      let completionTokenIds := choice.tokenIds.getD []
      if content = "" ∧ toolCalls = [] then
        .error (.valueError s!"empty assistant generation (sample {sampleIndex})")
      else if promptTokenIds = [] ∨ completionTokenIds = [] then
        .error (.valueError "endpoint returned no token ids; it must support return_token_ids")
      else
        let (inputIds, lossMask) := buildBoundarySample promptTokenIds completionTokenIds
        let assistant := .assistant content (if toolCalls = [] then none else some toolCalls)
        let metadata := {
          idx := item.idx
          finishReason := choice.finishReason
          isToolCall := toolCalls ≠ []
          usage := data.usage.getD .empty
          endpoint := settings.endpoint
          samplingParams := settings.samplingParams }
        .ok ({
          id := sampleId item.primaryId sampleIndex
          primaryId := item.primaryId
          inputIds
          lossMask
          conversations := messages ++ [assistant]
          metadata }, assistant, toolCalls)

/-- What a response that is accepted gives. -/
theorem sampleFromResponse_ok {settings : Settings ν} {item : Item ν} {messages : List (Message ν)}
    {sampleIndex : Nat} {data : ChatResponse ν} {sample : Sample ν} {message : Message ν}
    {toolCalls : List ToolCall}
    (accepted : sampleFromResponse settings item messages sampleIndex data =
      .ok (sample, message, toolCalls)) :
    sample.id = sampleId item.primaryId sampleIndex ∧ sample.conversations = messages ++ [message] ∧
      ∃ content, message = .assistant content (if toolCalls = [] then none else some toolCalls) := by
  unfold sampleFromResponse at accepted
  split at accepted
  · cases accepted
  · cases accepted
  · split at accepted
    · cases accepted
    · dsimp only at accepted
      split at accepted
      · cases accepted
      · split at accepted
        · cases accepted
        · cases accepted
          exact ⟨rfl, rfl, _, rfl⟩

/-- A regeneration under way: the requests made and the responses received so far, the samples, and the
running prefix of messages. -/
structure Progress (ν : Type) where
  sent : List (Payload ν)
  received : List (ChatResponse ν)
  samples : List (Sample ν)
  messages : List (Message ν)

def Progress.push (p : Progress ν) (message : Message ν) : Progress ν :=
  { p with messages := p.messages ++ [message] }

variable (postFn : List (Payload ν) → Except ε (ChatResponse ν)) (settings : Settings ν) (item : Item ν)

/-- One request and what comes of it, up to the message appended. -/
def generate (p : Progress ν) : Progress ν × Except (Failure ε) (List ToolCall) :=
  let sent := p.sent ++ [payload settings item p.messages]
  match postFn sent with
  | .error error => ({ p with sent }, .error (.request error))
  | .ok data =>
    let received := p.received ++ [data]
    match sampleFromResponse settings item p.messages p.samples.length data with
    | .error reason => ({ p with sent, received }, .error (.rejected reason))
    | .ok (sample, message, toolCalls) =>
      ({ sent, received, samples := p.samples ++ [sample], messages := p.messages ++ [message] }, .ok toolCalls)

/-- The tool-call loop of a user turn, over the cached results left. After a final answer it gives the
results that are still left, and `none` where the conversation is truncated. -/
def toolLoop : List (ToolResult ν) → Progress ν →
    Progress ν × Except (Failure ε) (Option (List (ToolResult ν)))
  | toolResults, p =>
    match generate postFn settings item p with
    | (p, .error failure) => (p, .error failure)
    | (p, .ok []) => (p, .ok (some toolResults))
    | (p, .ok (call :: others)) =>
      match others, toolResults with
      | [], result :: rest =>
        if result.names ≠ [] ∧ ¬ call.name.any (· ∈ result.names) then (p, .ok none)
        else toolLoop rest (p.push (toolResultMessage call result.content))
      | _, _ => (p, .ok none)

/-- The loop over the turns; whether the conversation was truncated. -/
def turnLoop : List (Turn ν) → List (ToolResult ν) → Progress ν → Progress ν × Except (Failure ε) Bool
  | [], _, p => (p, .ok false)
  | turn :: turns, toolResults, p =>
    match turn.role with
    | .system => turnLoop turns toolResults (p.push (.system turn.content))
    | .user =>
      match toolLoop postFn settings item toolResults (p.push (.user turn.content)) with
      | (p, .error failure) => (p, .error failure)
      | (p, .ok none) => (p, .ok true)
      | (p, .ok (some toolResults)) => turnLoop turns toolResults p

/-- `regenerate_conversation`; what `postFn` answers may depend on every request made so far. -/
def regenerateConversation (samples : List (Sample ν)) : Progress ν × Except (Failure ε) Bool :=
  turnLoop postFn settings item item.turns item.results ⟨[], [], samples, []⟩

end DreamAifd.ConversationRegeneration
