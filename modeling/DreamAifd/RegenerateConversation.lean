import DreamAifd.AppendOnly
import DreamAifd.ToolCallLoop

/-! What a regeneration leaves behind, whatever the endpoint answers: the number of its requests, the
samples, and the messages of every request. -/
namespace DreamAifd.ConversationRegeneration

open AppendOnly

variable {ν ε : Type}

def Message.isTool : Message ν → Bool
  | .tool .. => true
  | _ => false

/-- The source turn a message repeats. -/
def Message.turn? : Message ν → Option (Turn ν)
  | .system content => some ⟨.system, content⟩
  | .user content => some ⟨.user, content⟩
  | _ => none

def turnsOf (messages : List (Message ν)) : List (Turn ν) := messages.filterMap (·.turn?)

def userTurns (turns : List (Turn ν)) : Nat := turns.countP (·.role = .user)

def splices (messages : List (Message ν)) : Nat := messages.countP (·.isTool)

/-- A tool message follows the one call it answers, and is the next cached result. -/
def Pairs (results : List (ToolResult ν)) (before : List (Message ν)) : Message ν → Prop
  | .tool content callId => ∃ earlier text call result,
      before = earlier ++ [.assistant text (some [call])] ∧ callId = call.id.filter (· ≠ "") ∧
      results[splices before]? = some result ∧ content = result.content ∧
      (result.names ≠ [] → ∃ name ∈ result.names, call.name = some name)
  | _ => True

structure WellFormed (item : Item ν) (messages : List (Message ν)) : Prop where
  paired : EachAfter (Pairs item.results) messages
  inOrder : turnsOf messages <+: item.turns

/-- A new sample comes from the request and the response of its position among them, and is numbered on
from the samples there were. -/
def FromResponse (settings : Settings ν) (item : Item ν) (start : Nat) (p : Progress ν)
    (before : List (Sample ν)) (sample : Sample ν) : Prop :=
  sample.id = sampleId item.primaryId (start + before.length) ∧
    ∃ messages data message toolCalls,
      p.sent[before.length]? = some (payload settings item messages) ∧
      p.received[before.length]? = some data ∧
      sampleFromResponse settings item messages (start + before.length) data =
        .ok (sample, message, toolCalls)

/-- The samples of a regeneration after those it started with, and the messages it sent. -/
structure Recorded (settings : Settings ν) (item : Item ν) (start new : List (Sample ν))
    (p : Progress ν) : Prop where
  kept : p.samples = start ++ new
  rows : EachAfter (FromResponse settings item start.length p) new
  requests : ∀ request ∈ p.sent, ∃ messages,
    request.get? "messages" = some (.messages messages) ∧ WellFormed item messages

/-- How a regeneration ends. Every response has given a sample, but for the last where it was rejected. -/
def Settled (settings : Settings ν) (item : Item ν) (start new : List (Sample ν)) :
    Progress ν × Except (Failure ε) Bool → Prop
  | (p, .ok truncated) => p.sent.length = new.length ∧ p.received.length = new.length ∧
      (truncated = false → turnsOf p.messages = item.turns)
  | (p, .error (.request _)) => p.sent.length = new.length + 1 ∧ p.received.length = new.length
  | (p, .error (.rejected reason)) => p.sent.length = new.length + 1 ∧
      ∃ earlier data messages, p.received = earlier ++ [data] ∧ earlier.length = new.length ∧
        p.sent[new.length]? = some (payload settings item messages) ∧
        sampleFromResponse settings item messages (start.length + new.length) data = .error reason

/-- What is promised of a regeneration, whether it returns or raises. -/
structure Regenerated (settings : Settings ν) (item : Item ν) (start : List (Sample ν))
    (run : Progress ν × Except (Failure ε) Bool) : Prop where
  bounded : run.1.sent.length ≤ userTurns item.turns + item.results.length
  recorded : ∃ new, Recorded settings item start new run.1 ∧ Settled settings item start new run

/-- Between requests: every one of them has given its sample, and there is room for what is queued. -/
structure Running (settings : Settings ν) (item : Item ν) (start new : List (Sample ν))
    (queue : List (ToolResult ν)) (p : Progress ν) : Prop where
  recorded : Recorded settings item start new p
  asked : p.sent.length = new.length
  answered : p.received.length = new.length
  wellFormed : WellFormed item p.messages
  queued : queue = item.results.drop (splices p.messages)
  room : p.sent.length + queue.length ≤ userTurns (turnsOf p.messages) + item.results.length

theorem turnsOf_concat (messages : List (Message ν)) (message : Message ν) :
    turnsOf (messages ++ [message]) = turnsOf messages ++ message.turn?.toList := by
  unfold turnsOf
  cases repeated : message.turn? <;> simp [List.filterMap_append, repeated]

theorem splices_concat (messages : List (Message ν)) (message : Message ν) :
    splices (messages ++ [message]) = splices messages + if message.isTool then 1 else 0 := by
  simp [splices, List.countP_append, List.countP_cons]

theorem userTurns_le {first all : List (Turn ν)} (inOrder : first <+: all) : userTurns first ≤ userTurns all :=
  inOrder.sublist.countP_le

theorem WellFormed.concat {item : Item ν} {messages : List (Message ν)} {message : Message ν}
    (wellFormed : WellFormed item messages) (pairs : Pairs item.results messages message)
    (inOrder : turnsOf messages ++ message.turn?.toList <+: item.turns) :
    WellFormed item (messages ++ [message]) :=
  ⟨eachAfter_concat.mpr ⟨wellFormed.paired, pairs⟩, turnsOf_concat messages message ▸ inOrder⟩

/-- Later requests and responses leave the samples recorded. -/
theorem Recorded.grow {settings : Settings ν} {item : Item ν} {start new : List (Sample ν)}
    {p later : Progress ν} {request : Payload ν} {received : List (ChatResponse ν)} {messages : List (Message ν)}
    (recorded : Recorded settings item start new p) (samples : later.samples = p.samples)
    (sent : later.sent = p.sent ++ [request]) (responses : later.received = p.received ++ received)
    (carried : request.get? "messages" = some (.messages messages)) (wellFormed : WellFormed item messages) :
    Recorded settings item start new later where
  kept := samples.trans recorded.kept
  rows := recorded.rows.mono fun before sample made => by
    obtain ⟨id, messages, data, message, toolCalls, request, response, accepted⟩ := made
    refine ⟨id, messages, data, message, toolCalls, ?_, ?_, accepted⟩
    · rw [sent]
      exact getElem?_append_old request _
    · rw [responses]
      exact getElem?_append_old response _
  requests := by
    intro other member
    rw [sent, List.mem_append, List.mem_singleton] at member
    rcases member with earlier | rfl
    · exact recorded.requests other earlier
    · exact ⟨messages, carried, wellFormed⟩

/-- One more sample, made from the latest request and response. -/
theorem Recorded.concat {settings : Settings ν} {item : Item ν} {start new : List (Sample ν)} {p : Progress ν}
    {sample : Sample ν} (recorded : Recorded settings item start new p)
    (made : FromResponse settings item start.length p new sample) (messages : List (Message ν)) :
    Recorded settings item start (new ++ [sample]) ⟨p.sent, p.received, p.samples ++ [sample], messages⟩ where
  kept := by rw [recorded.kept, List.append_assoc]
  rows := eachAfter_concat.mpr ⟨recorded.rows, made⟩
  requests := recorded.requests

theorem Recorded.push {settings : Settings ν} {item : Item ν} {start new : List (Sample ν)} {p : Progress ν}
    (recorded : Recorded settings item start new p) (message : Message ν) :
    Recorded settings item start new (p.push message) :=
  ⟨recorded.kept, recorded.rows, recorded.requests⟩

variable {settings : Settings ν} {item : Item ν} {start new : List (Sample ν)} {queue : List (ToolResult ν)}
  {p : Progress ν}

theorem Running.userTurns_le (running : Running settings item start new queue p) :
    userTurns (turnsOf p.messages) ≤ userTurns item.turns :=
  ConversationRegeneration.userTurns_le running.wellFormed.inOrder

/-- A turn of the source goes to the end of the messages. -/
theorem Running.turn (running : Running settings item start new queue p) {message : Message ν} {turn : Turn ν}
    (repeats : message.turn? = some turn) (next : turnsOf p.messages ++ [turn] <+: item.turns) :
    Running settings item start new queue (p.push message) := by
  have plain : message.isTool = false := by cases message <;> simp [Message.turn?] at repeats <;> rfl
  have pairs : Pairs item.results p.messages message := by
    cases message <;> first | exact trivial | cases plain
  refine ⟨running.recorded.push _, running.asked, running.answered, ?_, ?_, ?_⟩
  · exact running.wellFormed.concat pairs (by simpa [repeats] using next)
  · rw [Progress.push, splices_concat, plain]
    exact running.queued
  · have room := running.room
    simp only [Progress.push, turnsOf_concat, userTurns, List.countP_append] at room ⊢
    omega

/-- The next cached result answers the call at the end of the messages. -/
theorem Running.splice {result : ToolResult ν} {rest : List (ToolResult ν)}
    (running : Running settings item start new (result :: rest) p) {text : String} {call : ToolCall}
    {earlier : List (Message ν)} (called : p.messages = earlier ++ [.assistant text (some [call])])
    (named : result.names ≠ [] → ∃ name ∈ result.names, call.name = some name) :
    Running settings item start new rest (p.push (toolResultMessage call result.content)) := by
  have next : item.results[splices p.messages]? = some result := by
    rw [← List.head?_drop, ← running.queued, List.head?_cons]
  refine ⟨running.recorded.push _, running.asked, running.answered, ?_, ?_, ?_⟩
  · refine running.wellFormed.concat ⟨earlier, text, call, result, called, rfl, next, rfl, named⟩ ?_
    simpa [toolResultMessage, Message.turn?] using running.wellFormed.inOrder
  · rw [Progress.push, splices_concat, toolResultMessage, Message.isTool, if_pos rfl, ← List.tail_drop,
      ← running.queued, List.tail_cons]
  · have room := running.room
    simp only [Progress.push, turnsOf_concat, toolResultMessage, Message.turn?, Option.toList_none,
      List.append_nil, List.length_cons] at room ⊢
    omega

variable (postFn : List (Payload ν) → Except ε (ChatResponse ν))

/-- What one request does: it fails, its response is rejected, or there is one more sample and the
assistant's message. -/
theorem generate_cases (settings : Settings ν) (item : Item ν) (p : Progress ν) :
    (∃ error, generate postFn settings item p =
      ({ p with sent := p.sent ++ [payload settings item p.messages] }, .error (.request error))) ∨
    (∃ data reason, sampleFromResponse settings item p.messages p.samples.length data = .error reason ∧
      generate postFn settings item p = ({ p with
        sent := p.sent ++ [payload settings item p.messages]
        received := p.received ++ [data] }, .error (.rejected reason))) ∨
    ∃ data sample message toolCalls, sampleFromResponse settings item p.messages p.samples.length data =
        .ok (sample, message, toolCalls) ∧
      generate postFn settings item p = (⟨p.sent ++ [payload settings item p.messages],
        p.received ++ [data], p.samples ++ [sample], p.messages ++ [message]⟩, .ok toolCalls) := by
  unfold generate
  cases answer : postFn (p.sent ++ [payload settings item p.messages]) with
  | error error => exact .inl ⟨error, by simp only [answer]⟩
  | ok data =>
    cases result : sampleFromResponse settings item p.messages p.samples.length data with
    | error reason => exact .inr (.inl ⟨data, reason, result, by simp only [answer, result]⟩)
    | ok made =>
      obtain ⟨sample, message, toolCalls⟩ := made
      exact .inr (.inr ⟨data, sample, message, toolCalls, result, by simp only [answer, result]⟩)

/-- The request a running regeneration makes next, where it has not used up what it may make. -/
theorem generate_running (running : Running settings item start new queue p)
    (spare : p.sent.length + queue.length < userTurns (turnsOf p.messages) + item.results.length) :
    match generate postFn settings item p with
    | (after, .error failure) => Regenerated settings item start (after, .error failure)
    | (after, .ok toolCalls) => ∃ sample text,
        Running settings item start (new ++ [sample]) queue after ∧
        after.messages = p.messages ++ [.assistant text (if toolCalls = [] then none else some toolCalls)] := by
  have carried := get?_payload_messages settings item p.messages
  have within := running.userTurns_le
  have position : p.samples.length = start.length + new.length := by
    rw [running.recorded.kept, List.length_append]
  rcases generate_cases postFn settings item p with
    ⟨error, same⟩ | ⟨data, reason, rejected, same⟩ | ⟨data, sample, message, toolCalls, accepted, same⟩
  · rw [same]
    refine ⟨?_, new, running.recorded.grow rfl rfl (List.append_nil _).symm carried running.wellFormed, ?_⟩
    · simp only [List.length_append, List.length_singleton]
      omega
    · exact ⟨by simp [running.asked], running.answered⟩
  · rw [same]
    refine ⟨?_, new, running.recorded.grow rfl rfl rfl carried running.wellFormed, ?_⟩
    · simp only [List.length_append, List.length_singleton]
      omega
    · refine ⟨by simp [running.asked], p.received, data, p.messages, rfl, running.answered, ?_,
        position ▸ rejected⟩
      rw [← running.asked]
      exact List.getElem?_concat_length
  · rw [same]
    rw [position] at accepted
    obtain ⟨id, _, text, rfl⟩ := sampleFromResponse_ok accepted
    have sent : Recorded settings item start new { p with
        sent := p.sent ++ [payload settings item p.messages]
        received := p.received ++ [data] } :=
      running.recorded.grow rfl rfl rfl carried running.wellFormed
    refine ⟨sample, text, ⟨sent.concat ⟨id, p.messages, data, _, toolCalls, ?_, ?_, accepted⟩ _,
      ?_, ?_, ?_, ?_, ?_⟩, rfl⟩
    · rw [← running.asked]
      exact List.getElem?_concat_length
    · rw [← running.answered]
      exact List.getElem?_concat_length
    · simp [running.asked]
    · simp [running.answered]
    · exact running.wellFormed.concat trivial (by simpa [Message.turn?] using running.wellFormed.inOrder)
    · rw [splices_concat]
      exact running.queued
    · simp only [turnsOf_concat, Message.turn?, Option.toList_none, List.append_nil, List.length_append,
        List.length_singleton]
      omega

/-- A conversation may return between requests, and is truncated unless it has all turns. -/
theorem Running.returns (running : Running settings item start new queue p) {truncated : Bool}
    (whole : truncated = false → turnsOf p.messages = item.turns) :
    Regenerated settings item start (p, (.ok truncated : Except (Failure ε) Bool)) := by
  refine ⟨?_, new, running.recorded, running.asked, running.answered, whole⟩
  have room := running.room
  have within := running.userTurns_le
  dsimp only
  omega

/-- What a turn's tool-call loop leaves: an end of the regeneration, or a running one to go on from. -/
def Leaves (settings : Settings ν) (item : Item ν) (start : List (Sample ν)) (turns : List (Turn ν)) :
    Progress ν × Except (Failure ε) (Option (List (ToolResult ν))) → Prop
  | (p, .error failure) => Regenerated settings item start (p, .error failure)
  | (p, .ok none) => Regenerated settings item start (p, (.ok true : Except (Failure ε) Bool))
  | (p, .ok (some rest)) => turnsOf p.messages = turns ∧ ∃ new, Running settings item start new rest p

/-- One round of the tool-call loop goes on only by answering a call with the next cached result. -/
theorem toolLoop_round (running : Running settings item start new queue p)
    (spare : p.sent.length + queue.length < userTurns (turnsOf p.messages) + item.results.length)
    (next : ∀ result rest all after, queue = result :: rest → Running settings item start all rest after →
      turnsOf after.messages = turnsOf p.messages → after.sent.length = p.sent.length + 1 →
      Leaves settings item start (turnsOf p.messages) (toolLoop postFn settings item rest after)) :
    Leaves settings item start (turnsOf p.messages) (toolLoop postFn settings item queue p) := by
  have step := generate_running postFn running spare
  unfold toolLoop
  rcases made : generate postFn settings item p with ⟨after, failure | toolCalls⟩
  · rw [made] at step
    exact step
  · rw [made] at step
    obtain ⟨sample, text, answered, appended⟩ := step
    have turns : turnsOf after.messages = turnsOf p.messages := by
      simp [appended, turnsOf_concat, Message.turn?]
    match toolCalls, queue with
    | [], queue => exact ⟨turns, _, answered⟩
    | [call], [] => exact answered.returns nofun
    | call :: second :: others, queue => exact answered.returns nofun
    | [call], result :: rest =>
      dsimp only
      split
      next => exact answered.returns nofun
      next fits =>
        -- the guard lets a call without a name pass where the result names no tool
        have named : result.names ≠ [] → ∃ name ∈ result.names, call.name = some name := by
          intro names
          have known : call.name.any (· ∈ result.names) := by
            by_contra unknown
            exact fits ⟨names, unknown⟩
          obtain ⟨name, called, member⟩ := (Option.any_eq_true _ _).mp known
          exact ⟨name, of_decide_eq_true member, called⟩
        rw [if_neg (List.cons_ne_nil call [])] at appended
        refine next result rest _ _ rfl (answered.splice appended named) ?_ ?_
        · rw [Progress.push, turnsOf_concat, turns]
          exact List.append_nil _
        · have := answered.asked
          have := running.asked
          simp only [Progress.push]
          grind

/-- The loop ends for every endpoint: each round but the last takes a cached result. -/
theorem toolLoop_leaves (running : Running settings item start new queue p)
    (spare : p.sent.length + queue.length < userTurns (turnsOf p.messages) + item.results.length) :
    Leaves settings item start (turnsOf p.messages) (toolLoop postFn settings item queue p) := by
  induction queue generalizing p new with
  | nil => exact toolLoop_round postFn running spare fun _ _ _ _ shape => by cases shape
  | cons result rest ih =>
    refine toolLoop_round postFn running spare fun _ _ all after shape spliced turns once => ?_
    cases shape
    rw [← turns]
    refine ih spliced ?_
    rw [turns, once]
    rw [List.length_cons] at spare
    omega

/-- The loop over the turns, by induction on those left; the queue is handed on from turn to turn. -/
theorem turnLoop_regenerated {turns : List (Turn ν)} (running : Running settings item start new queue p)
    (left : turnsOf p.messages ++ turns = item.turns) :
    Regenerated settings item start (turnLoop postFn settings item turns queue p) := by
  induction turns generalizing queue p new with
  | nil =>
    rw [List.append_nil] at left
    exact running.returns fun _ => left
  | cons turn turns ih =>
    obtain ⟨role, content⟩ := turn
    have next (message : Message ν) (repeats : message.turn? = some ⟨role, content⟩) :
        Running settings item start new queue (p.push message) ∧
          turnsOf (p.push message).messages = turnsOf p.messages ++ [⟨role, content⟩] := by
      refine ⟨running.turn repeats ⟨turns, ?_⟩, ?_⟩
      · rw [List.append_assoc]
        exact left
      · rw [Progress.push, turnsOf_concat, repeats, Option.toList_some]
    cases role with
    | system =>
      obtain ⟨pushed, repeated⟩ := next (.system content) rfl
      refine ih pushed ?_
      rw [repeated, List.append_assoc]
      exact left
    | user =>
      obtain ⟨pushed, repeated⟩ := next (.user content) rfl
      have spare : (p.push (.user content)).sent.length + queue.length <
          userTurns (turnsOf (p.push (.user content)).messages) + item.results.length := by
        have room := running.room
        simp only [repeated, userTurns, List.countP_append] at room ⊢
        simp [Progress.push]
        omega
      have step := toolLoop_leaves postFn pushed spare
      unfold turnLoop
      rcases ended : toolLoop postFn settings item queue (p.push (.user content)) with
        ⟨after, failure | _ | rest⟩
      · rw [ended] at step
        exact step
      · rw [ended] at step
        exact step
      · rw [ended] at step
        obtain ⟨same, all, resumed⟩ := step
        refine ih resumed ?_
        rw [same, repeated, List.append_assoc]
        exact left

variable (settings item)

/-- Whatever the endpoint answers, a regeneration ends, within one request for each user turn and each
cached result. -/
theorem regenerateConversation_regenerated (samples : List (Sample ν)) :
    Regenerated settings item samples (regenerateConversation postFn settings item samples) := by
  have nothing : Running settings item samples [] item.results ⟨[], [], samples, []⟩ := {
    recorded := ⟨(List.append_nil samples).symm, eachAfter_nil, by simp⟩
    asked := rfl
    answered := rfl
    wellFormed := ⟨eachAfter_nil, List.nil_prefix⟩
    queued := rfl
    room := by simp [turnsOf, userTurns] }
  exact turnLoop_regenerated postFn nothing rfl

/-- One question, with one cached result that names no tool. -/
def oneQuestion : Item String := ⟨0, "u", [⟨.user, "q"⟩], none, some [⟨"r", []⟩]⟩

def defaults : Settings String := ⟨"m", 64, "ep", .empty⟩

def respond (content : String) (toolCalls : List ToolCall) : ChatResponse String :=
  ⟨some [⟨some ⟨some content, some toolCalls⟩, none, some [2]⟩], some [1], none⟩

/-- A call that came with an empty id. -/
def emptyIdCall : ToolCall := ⟨some "", some ⟨some "f", ""⟩⟩

/-- An endpoint that generates nothing, and one that answers after a first call. -/
def silent (_ : List (Payload String)) : Except Unit (ChatResponse String) := .ok (respond "" [])

def callsOnce (sent : List (Payload String)) : Except Unit (ChatResponse String) :=
  .ok (if sent.length = 1 then respond "" [emptyIdCall] else respond "a" [])

/-- An empty generation is a response without a sample, and a call whose id is empty gets a result that
carries no id. -/
theorem regenerateConversation_emptyAnswers :
    (regenerateConversation silent defaults oneQuestion []).1.received.length = 1 ∧
      (regenerateConversation silent defaults oneQuestion []).1.samples.length = 0 ∧
      ∃ request ∈ (regenerateConversation callsOnce defaults oneQuestion []).1.sent,
        request.get? "messages" = some (.messages
          [.user "q", .assistant "" (some [emptyIdCall]), .tool "r" none]) := by
  refine ⟨rfl, rfl, payload defaults oneQuestion _, ?_, get?_payload_messages ..⟩
  exact List.mem_cons_of_mem _ (List.mem_singleton_self _)

end DreamAifd.ConversationRegeneration
