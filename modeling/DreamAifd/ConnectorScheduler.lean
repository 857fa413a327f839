import DreamAifd.Dict
import DreamAifd.Machine

/-! The scheduler side of the hidden-states connector: requests from their arrival to the release of their
blocks, the file names the connector gives them, and the saves it hands to the worker with the next step. -/
namespace DreamAifd.ConnectorScheduler

open Machine

structure Config where
  storagePath : String
  allowCustomSavePath : Bool
  useV2ModelRunner : Bool
  blockSize : Nat
  positive : 0 < blockSize

inductive Prompt where
  | tokenIds (ids : List Int)
  | embeds (length : Nat)
  deriving DecidableEq, Repr

def Prompt.allTokenIds : Prompt → List Int
  | .tokenIds ids => ids
  | .embeds length => List.replicate length 0

/-- What a request brings along, the entries of its `kv_transfer_params` included. -/
structure Params where
  prompt : Prompt
  hiddenStatesPath : Option String
  includeOutputTokens : Bool
  structuredOutput : Bool
  deriving DecidableEq, Repr

/-- The connector loads nothing, so no request waits for a remote cache; the ways to finish are one. -/
inductive RequestStatus where
  | waiting | waitingForStructuredOutputGrammar | running | preempted | finished
  deriving DecidableEq, Repr

/-- A request has been scheduled and is not finished. -/
def RequestStatus.active (status : RequestStatus) : Bool := status = .running || status = .preempted

/-- `blockIds` are the blocks it holds in the group of the hidden states. -/
structure Request where
  params : Params
  status : RequestStatus
  allTokenIds : List Int
  numComputedTokens : Nat
  blockIds : List Nat
  deriving DecidableEq, Repr

def Params.request (params : Params) : Request where
  params := params
  status := if params.structuredOutput then .waitingForStructuredOutputGrammar else .waiting
  allTokenIds := params.prompt.allTokenIds
  numComputedTokens := 0
  blockIds := []

structure PendingSave where
  reqId : String
  filename : String
  tokenIds : List Int
  blockIds : List Nat
  deriving DecidableEq, Repr

def joinPath (directory name : String) : String :=
  if name.toList.head? = some '/' then name
  else if directory = "" ∨ directory.toList.getLast? = some '/' then directory ++ name
  else directory ++ "/" ++ name

/-- A path of the request's own counts where it is allowed and not empty. -/
def filename (config : Config) (reqId : String) (params : Params) : String :=
  let defaultPath := joinPath config.storagePath (reqId ++ ".safetensors")
  match params.hiddenStatesPath with
  | some customPath => if config.allowCustomSavePath ∧ customPath ≠ "" then customPath else defaultPath
  | none => defaultPath

/-- The tokens saved with the hidden states; the last token never was an input. -/
def Request.savedTokenIds (request : Request) : List Int :=
  if request.params.includeOutputTokens then request.allTokenIds.dropLast
  else match request.params.prompt with
    | .tokenIds ids => ids
    | .embeds _ => []

def getBlockIdsForComputedTokens (config : Config) (request : Request) : List Nat :=
  request.blockIds.take ((request.numComputedTokens + config.blockSize - 1) / config.blockSize)

def saveOf (config : Config) (reqId : String) (request : Request) : PendingSave :=
  ⟨reqId, filename config reqId request.params, request.savedTokenIds, getBlockIdsForComputedTokens config request⟩

structure Connector where
  pendingSaves : List PendingSave
  requestFilenames : Dict String String

/-- An assignment to a dictionary of saves, which keeps the place of an old entry. -/
def insertSave (saves : List PendingSave) (save : PendingSave) : List PendingSave :=
  if save.reqId ∈ saves.map (·.reqId) then
    saves.map fun old => if old.reqId = save.reqId then save else old
  else saves ++ [save]

/-- Raises when the connector has no file name of the request. -/
def requestFinished (connector : Connector) (reqId : String) (request : Request) (blockIds : List Nat) :
    Option Connector :=
  (connector.requestFilenames.get? reqId).map fun filename =>
    { pendingSaves := insertSave connector.pendingSaves ⟨reqId, filename, request.savedTokenIds, blockIds⟩
      requestFilenames := connector.requestFilenames.erase reqId }

/-- A step of the worker: the requests it runs, those that finished since the step before, and the
connector's metadata. -/
structure SchedulerOutput where
  scheduledReqIds : List String
  finishedReqIds : List String
  newReqFilenames : List (String × String)
  pendingSaves : List PendingSave
  deriving DecidableEq, Repr

/-- The scheduler. `arrived` tells what every request came with, `outputs` are all steps so far, and `finished`
the requests as they were when they finished; `raised` names a request whose `request_finished` raised. -/
structure State where
  requests : Dict String Request
  finishedReqIds : List String
  connector : Connector
  arrived : Dict String Params
  outputs : List SchedulerOutput
  finished : List (String × Request)
  raised : Option String

def initial : State := ⟨Dict.empty, [], ⟨[], Dict.empty⟩, Dict.empty, [], [], none⟩

/-- What a step gives a request: blocks found in the prefix cache, new blocks, and tokens to compute. -/
structure Allocation where
  reqId : String
  cachedBlockIds : List Nat
  newBlockIds : List Nat
  numTokens : Nat
  deriving DecidableEq, Repr

/-- Every request's identifier is its own. -/
inductive Event where
  | addRequest (reqId : String) (params : Params)
  | grammarReady (reqId : String)
  | preempt (reqId : String)
  | schedule (allocations : List Allocation)
  | updateFromOutput (reqId : String) (newTokenIds : List Int) (numRejected : Nat) (stopped : Bool)
  | finishRequests (reqIds : List String)
  | finishedSending (reqId : String)
  deriving DecidableEq, Repr

def freeRequest (config : Config) (s : State) (reqId : String) (request : Request) : State :=
  let s := { s with requests := s.requests.set reqId { request with status := .finished } }
  match requestFinished s.connector reqId request (getBlockIdsForComputedTokens config request) with
  | none => { s with raised := some reqId }
  | some connector => { s with
      connector
      finishedReqIds := s.finishedReqIds ++ [reqId]
      finished := s.finished ++ [(reqId, request)] }

/-- An identifier of no request, or of a finished one, is passed over. -/
def isValid (s : State) (reqId : String) : Bool :=
  (s.requests.get? reqId).any fun request => request.status ≠ .finished

/-- The second pass of `finish_requests`, left at the first exception. -/
def freeRequests (config : Config) : List String → State → State
  | [], s => s
  | reqId :: reqIds, s =>
    match s.requests.get? reqId with
    | none => freeRequests config reqIds s
    | some request =>
      let next := freeRequest config s reqId request
      if next.raised = none then freeRequests config reqIds next else next

def finishRequests (config : Config) (s : State) (reqIds : List String) : State :=
  freeRequests config (reqIds.dedup.filter (isValid s)) s

/-- New blocks are held by no request. -/
def unheld (requests : Dict String Request) (blockIds : List Nat) : Bool :=
  ∀ reqId ∈ requests.keys, ∀ block ∈ blockIds, block ∉ ((requests.get? reqId).elim [] (·.blockIds))

def Request.allocate (request : Request) (a : Allocation) : Request := { request with
  status := .running
  numComputedTokens := request.numComputedTokens + a.numTokens
  blockIds := request.blockIds ++ a.cachedBlockIds ++ a.newBlockIds }

def scheduleRequest (requests : Dict String Request) (a : Allocation) : Option (Dict String Request) :=
  (requests.get? a.reqId).bind fun request =>
    if (request.status = .waiting ∨ request.status.active) ∧ unheld requests a.newBlockIds then
      some (requests.set a.reqId (request.allocate a))
    else none

def scheduleRequests : List Allocation → Dict String Request → Option (Dict String Request)
  | [], requests => some requests
  | a :: allocations, requests => (scheduleRequest requests a).bind (scheduleRequests allocations)

def withStatus (requests : Dict String Request) (status : RequestStatus) (allocations : List Allocation) :
    List (String × Params) :=
  allocations.filterMap fun a =>
    ((requests.get? a.reqId).filter fun request => request.status = status).map fun request =>
      (a.reqId, request.params)

/-- `scheduled_new_reqs`, of which the newer model runner makes the resumed requests a part. -/
def scheduledNewReqs (config : Config) (requests : Dict String Request) (allocations : List Allocation) :
    List (String × Params) :=
  withStatus requests .waiting allocations ++
    if config.useV2ModelRunner then withStatus requests .preempted allocations else []

def recordFilenames (config : Config) (filenames : Dict String String) (newReqs : List (String × Params)) :
    Dict String String :=
  newReqs.foldl (fun filenames new => filenames.set new.1 (filename config new.1 new.2)) filenames

def schedule (config : Config) (s : State) (allocations : List Allocation) : Option State :=
  if (allocations.map (·.reqId)).Nodup then
    (scheduleRequests allocations s.requests).map fun requests =>
      let newReqs := scheduledNewReqs config s.requests allocations
      { s with
        requests
        finishedReqIds := []
        connector := ⟨[], recordFilenames config s.connector.requestFilenames newReqs⟩
        outputs := s.outputs ++ [
          { scheduledReqIds := allocations.map (·.reqId)
            finishedReqIds := s.finishedReqIds
            newReqFilenames := newReqs.map fun new => (new.1, filename config new.1 new.2)
            pendingSaves := s.connector.pendingSaves }] }
  else none

/-- A request's output of a step, after which it may stop. -/
def updateFromOutput (config : Config) (s : State) (reqId : String) (request : Request) (newTokenIds : List Int)
    (numRejected : Nat) (stopped : Bool) : State :=
  let request := { request with
    allTokenIds := request.allTokenIds ++ newTokenIds
    numComputedTokens := request.numComputedTokens - numRejected }
  if stopped then freeRequest config s reqId request
  else { s with requests := s.requests.set reqId request }

/-- Nothing happens any more once a call has raised inside the engine. -/
def step (config : Config) (s : State) (event : Event) : Option State :=
  if s.raised ≠ none then none
  else match event with
    | .addRequest reqId params =>
      if s.arrived.get? reqId = none then some { s with
        requests := s.requests.set reqId params.request
        arrived := s.arrived.set reqId params }
      else none
    | .grammarReady reqId => (s.requests.get? reqId).bind fun request =>
        if request.status = .waitingForStructuredOutputGrammar then
          some { s with requests := s.requests.set reqId { request with status := .waiting } }
        else none
    | .preempt reqId => (s.requests.get? reqId).bind fun request =>
        if request.status = .running then
          some { s with requests := s.requests.set reqId { request with
            status := .preempted, numComputedTokens := 0, blockIds := [] } }
        else none
    | .schedule allocations => schedule config s allocations
    | .updateFromOutput reqId newTokenIds numRejected stopped => (s.requests.get? reqId).bind fun request =>
        if request.status.active then
          some (updateFromOutput config s reqId request newTokenIds numRejected stopped)
        else none
    | .finishRequests reqIds => some (finishRequests config s reqIds)
    | .finishedSending reqId => (s.requests.get? reqId).bind fun request =>
        if request.status = .finished ∧ reqId ∈ s.outputs.flatMap (·.finishedReqIds) then
          some { s with requests := s.requests.erase reqId }
        else none

def State.scheduledReqIds (s : State) : List String := s.outputs.flatMap (·.scheduledReqIds)

def State.finishedIds (s : State) : List String := s.finished.map (·.1)

def State.handedSaves (s : State) : List PendingSave := s.outputs.flatMap (·.pendingSaves)

/-- Nothing has raised; every request that was scheduled and finished is handed over once, with its own file
name and the blocks it held, by the next step at the latest; no other request has a save, and only requests that
are scheduled and not finished have a file name. -/
structure HandedOver (config : Config) (s : State) : Prop where
  quiet : s.raised = none
  handed : s.handedSaves ++ s.connector.pendingSaves = s.finished.map fun ended => saveOf config ended.1 ended.2
  once : s.finishedIds.Nodup
  next : ∀ allocations t, step config s (.schedule allocations) = some t → t.connector.pendingSaves = []
  scheduled : ∀ reqId ∈ s.scheduledReqIds, reqId ∈ s.finishedIds ∨
    ∃ request, s.requests.get? reqId = some request ∧ request.status.active
  unscheduled : ∀ reqId ∉ s.scheduledReqIds, reqId ∉ s.finishedIds
  filenames : ∀ reqId name, s.connector.requestFilenames.get? reqId = some name →
    ∃ request, s.requests.get? reqId = some request ∧ request.status.active ∧
      reqId ∈ s.scheduledReqIds ∧ name = filename config reqId request.params

/-- No request that is still waiting to be scheduled is finished. -/
def reachesScheduled (s : State) : Event → Bool
  | .finishRequests reqIds => reqIds.all fun reqId =>
      (s.requests.get? reqId).all fun request => request.status.active || request.status = .finished
  | _ => true

/-- What the scheduler, the connector and the history say of one request. -/
inductive Tracked (config : Config) (s : State) (reqId : String) : Prop where
  | unscheduled (never : reqId ∉ s.scheduledReqIds) (unfinished : reqId ∉ s.finishedIds)
      (unnamed : s.connector.requestFilenames.get? reqId = none)
      (inactive : ∀ request, s.requests.get? reqId = some request → s.arrived.get? reqId = some request.params ∧
        (request.status = .waiting ∨ request.status = .waitingForStructuredOutputGrammar))
  | active (scheduled : reqId ∈ s.scheduledReqIds) (unfinished : reqId ∉ s.finishedIds) (request : Request)
      (present : s.requests.get? reqId = some request) (status : request.status.active)
      (arrived : s.arrived.get? reqId = some request.params)
      (named : s.connector.requestFilenames.get? reqId = some (filename config reqId request.params))
  | ended (arrived : s.arrived.get? reqId ≠ none) (scheduled : reqId ∈ s.scheduledReqIds)
      (finished : reqId ∈ s.finishedIds) (unnamed : s.connector.requestFilenames.get? reqId = none)
      (gone : ∀ request, s.requests.get? reqId = some request → request.status = .finished)

structure Invariant (config : Config) (s : State) : Prop where
  quiet : s.raised = none
  handed : s.handedSaves ++ s.connector.pendingSaves = s.finished.map fun ended => saveOf config ended.1 ended.2
  once : s.finishedIds.Nodup
  told : s.finishedReqIds = s.connector.pendingSaves.map (·.reqId)
  known : ∀ ended ∈ s.finished, s.arrived.get? ended.1 = some ended.2.params
  tracked : ∀ reqId, Tracked config s reqId

variable {config : Config} {s t : State} {reqId : String}

theorem schedule_cases {allocations : List Allocation} (stepped : schedule config s allocations = some t) :
    (allocations.map (·.reqId)).Nodup ∧ ∃ requests, scheduleRequests allocations s.requests = some requests ∧
      t = { s with
        requests
        finishedReqIds := []
        connector := ⟨[], recordFilenames config s.connector.requestFilenames
          (scheduledNewReqs config s.requests allocations)⟩
        outputs := s.outputs ++ [
          { scheduledReqIds := allocations.map (·.reqId)
            finishedReqIds := s.finishedReqIds
            newReqFilenames := (scheduledNewReqs config s.requests allocations).map fun new =>
              (new.1, filename config new.1 new.2)
            pendingSaves := s.connector.pendingSaves }] } := by
  unfold schedule at stepped
  split at stepped
  next distinct =>
    obtain ⟨requests, allocated, rfl⟩ := Option.map_eq_some_iff.mp stepped
    exact ⟨distinct, requests, allocated, rfl⟩
  next => cases stepped

/-- What an event does where nothing has raised. -/
def Outcome (config : Config) (s t : State) : Event → Prop
  | .addRequest reqId params => s.arrived.get? reqId = none ∧
      t = { s with requests := s.requests.set reqId params.request, arrived := s.arrived.set reqId params }
  | .grammarReady reqId => ∃ request, s.requests.get? reqId = some request ∧
      request.status = .waitingForStructuredOutputGrammar ∧
      t = { s with requests := s.requests.set reqId { request with status := .waiting } }
  | .preempt reqId => ∃ request, s.requests.get? reqId = some request ∧ request.status = .running ∧
      t = { s with requests := s.requests.set reqId { request with
        status := .preempted, numComputedTokens := 0, blockIds := [] } }
  | .schedule allocations => schedule config s allocations = some t
  | .updateFromOutput reqId newTokenIds numRejected stopped => ∃ request, s.requests.get? reqId = some request ∧
      request.status.active ∧ t = updateFromOutput config s reqId request newTokenIds numRejected stopped
  | .finishRequests reqIds => t = finishRequests config s reqIds
  | .finishedSending reqId => ∃ request, s.requests.get? reqId = some request ∧ request.status = .finished ∧
      t = { s with requests := s.requests.erase reqId }

theorem step_cases {event : Event} (quiet : s.raised = none) (stepped : step config s event = some t) :
    Outcome config s t event := by
  unfold step at stepped
  rw [if_neg (not_not.mpr quiet)] at stepped
  cases event with
  | addRequest reqId params =>
    simp only at stepped
    split at stepped
    next fresh => exact ⟨fresh, (Option.some.inj stepped).symm⟩
    next => cases stepped
  | schedule allocations => exact stepped
  | finishRequests reqIds => exact (Option.some.inj stepped).symm
  | grammarReady reqId | preempt reqId | updateFromOutput reqId =>
    obtain ⟨request, present, rest⟩ := Option.bind_eq_some_iff.mp stepped
    split at rest
    next status => exact ⟨request, present, status, (Option.some.inj rest).symm⟩
    next => cases rest
  | finishedSending reqId =>
    obtain ⟨request, present, rest⟩ := Option.bind_eq_some_iff.mp stepped
    split at rest
    next status => exact ⟨request, present, status.1, (Option.some.inj rest).symm⟩
    next => cases rest

theorem Tracked.congr (tracked : Tracked config s reqId)
    (requests : t.requests.get? reqId = s.requests.get? reqId)
    (filenames : t.connector.requestFilenames.get? reqId = s.connector.requestFilenames.get? reqId)
    (scheduled : reqId ∈ t.scheduledReqIds ↔ reqId ∈ s.scheduledReqIds)
    (finished : reqId ∈ t.finishedIds ↔ reqId ∈ s.finishedIds)
    (arrived : t.arrived.get? reqId = s.arrived.get? reqId) :
    Tracked config t reqId := by
  cases tracked with
  | unscheduled never unfinished unnamed inactive =>
    refine .unscheduled (mt scheduled.mp never) (mt finished.mp unfinished) (filenames.trans unnamed) ?_
    intro request present
    obtain ⟨came, waits⟩ := inactive request (requests.symm.trans present)
    exact ⟨arrived.trans came, waits⟩
  | active before unfinished request present status came named =>
    exact .active (scheduled.mpr before) (mt finished.mp unfinished) request (requests.trans present) status
      (arrived.trans came) (filenames.trans named)
  | ended came before past unnamed gone =>
    exact .ended (arrived ▸ came) (scheduled.mpr before) (finished.mpr past) (filenames.trans unnamed)
      (requests ▸ gone)

theorem Tracked.of_active (tracked : Tracked config s reqId) {request : Request}
    (present : s.requests.get? reqId = some request) (status : request.status.active) :
    s.arrived.get? reqId = some request.params ∧ reqId ∈ s.scheduledReqIds ∧ reqId ∉ s.finishedIds ∧
      s.connector.requestFilenames.get? reqId = some (filename config reqId request.params) := by
  cases tracked with
  | unscheduled _ _ _ inactive =>
    rcases (inactive request present).2 with waits | waits <;> simp [waits, RequestStatus.active] at status
  | active scheduled unfinished other same _ arrived named =>
    obtain rfl := Option.some.inj (present.symm.trans same)
    exact ⟨arrived, scheduled, unfinished, named⟩
  | ended _ _ _ _ gone =>
    simp [gone request present, RequestStatus.active] at status

theorem Tracked.of_waiting (tracked : Tracked config s reqId) {request : Request}
    (present : s.requests.get? reqId = some request)
    (status : request.status = .waiting ∨ request.status = .waitingForStructuredOutputGrammar) :
    s.arrived.get? reqId = some request.params ∧ reqId ∉ s.scheduledReqIds ∧ reqId ∉ s.finishedIds ∧
      s.connector.requestFilenames.get? reqId = none := by
  cases tracked with
  | unscheduled never unfinished unnamed inactive => exact ⟨(inactive request present).1, never, unfinished, unnamed⟩
  | active _ _ other same running =>
    obtain rfl := Option.some.inj (present.symm.trans same)
    rcases status with waits | waits <;> simp [waits, RequestStatus.active] at running
  | ended _ _ _ _ gone =>
    rcases status with waits | waits <;> simp [gone request present] at waits

theorem handedOver_of_invariant (invariant : Invariant config s) : HandedOver config s where
  quiet := invariant.quiet
  handed := invariant.handed
  once := invariant.once
  next allocations t stepped := by
    obtain ⟨-, requests, -, rfl⟩ := schedule_cases (step_cases invariant.quiet stepped)
    rfl
  scheduled reqId before := by
    cases invariant.tracked reqId with
    | unscheduled never => exact absurd before never
    | active _ _ request present status => exact .inr ⟨request, present, status⟩
    | ended _ _ finished => exact .inl finished
  unscheduled reqId never := by
    cases invariant.tracked reqId with
    | unscheduled _ unfinished => exact unfinished
    | active before => exact absurd before never
    | ended _ before => exact absurd before never
  filenames reqId name named := by
    cases invariant.tracked reqId with
    | unscheduled _ _ unnamed => exact absurd (named.symm.trans unnamed) (Option.some_ne_none name)
    | active before _ request present status _ own =>
      exact ⟨request, present, status, before, Option.some.inj (named.symm.trans own)⟩
    | ended _ _ _ unnamed => exact absurd (named.symm.trans unnamed) (Option.some_ne_none name)

theorem insertSave_fresh {saves : List PendingSave} {save : PendingSave}
    (fresh : save.reqId ∉ saves.map (·.reqId)) : insertSave saves save = saves ++ [save] := if_neg fresh

/-- The finished requests are those whose saves were handed over or are pending. -/
theorem Invariant.savedIds (invariant : Invariant config s) :
    s.handedSaves.map (·.reqId) ++ s.connector.pendingSaves.map (·.reqId) = s.finishedIds := by
  rw [← List.map_append, invariant.handed, List.map_map]
  rfl

theorem Invariant.pending_fresh (invariant : Invariant config s) (unfinished : reqId ∉ s.finishedIds) :
    reqId ∉ s.connector.pendingSaves.map (·.reqId) := fun member =>
  unfinished (invariant.savedIds ▸ List.mem_append_right _ member)

/-- Finishing a request that has a file name records its save, and nothing else changes. -/
theorem freeRequest_eq (invariant : Invariant config s) {request : Request} (unfinished : reqId ∉ s.finishedIds)
    (named : s.connector.requestFilenames.get? reqId = some (filename config reqId request.params)) :
    freeRequest config s reqId request = { s with
      requests := s.requests.set reqId { request with status := .finished }
      connector := ⟨s.connector.pendingSaves ++ [saveOf config reqId request],
        s.connector.requestFilenames.erase reqId⟩
      finishedReqIds := s.finishedReqIds ++ [reqId]
      finished := s.finished ++ [(reqId, request)] } := by
  simp only [freeRequest, requestFinished, named, Option.map_some]
  rw [insertSave_fresh (invariant.pending_fresh unfinished)]
  rfl

theorem invariant_freeRequest (invariant : Invariant config s) {request : Request}
    (arrived : s.arrived.get? reqId = some request.params) (scheduled : reqId ∈ s.scheduledReqIds)
    (unfinished : reqId ∉ s.finishedIds)
    (named : s.connector.requestFilenames.get? reqId = some (filename config reqId request.params)) :
    Invariant config (freeRequest config s reqId request) := by
  rw [freeRequest_eq invariant unfinished named]
  refine ⟨invariant.quiet, ?_, ?_, ?_, fun ended member => ?_, fun other => ?_⟩
  · rw [← List.append_assoc]
    simp only [List.map_append, List.map_cons, List.map_nil, ← invariant.handed]
    rfl
  · simpa [State.finishedIds, List.nodup_append] using ⟨invariant.once, fun id request member same =>
      unfinished (List.mem_map.mpr ⟨(id, request), member, same⟩)⟩
  · simp [invariant.told, saveOf]
  · rcases List.mem_append.mp member with earlier | now
    · exact invariant.known ended earlier
    · rw [List.mem_singleton.mp now]
      exact arrived
  · by_cases same : other = reqId
    · subst same
      refine .ended (arrived ▸ Option.some_ne_none _) scheduled (by simp [State.finishedIds])
        (by simp [Dict.get?_erase]) ?_
      intro ended present
      rw [Dict.get?_set_self] at present
      rw [← Option.some.inj present]
    · refine (invariant.tracked other).congr (Dict.get?_set_ne _ _ same) ?_ Iff.rfl ?_ rfl
      · rw [Dict.get?_erase, if_neg same]
      · simp [State.finishedIds, same]

/-- A request without a file name raises. -/
theorem freeRequest_raises {request : Request} (unnamed : s.connector.requestFilenames.get? reqId = none) :
    (freeRequest config s reqId request).raised = some reqId := by
  simp [freeRequest, requestFinished, unnamed]

theorem freeRequest_requests_ne {request : Request} {other : String} (different : other ≠ reqId) :
    (freeRequest config s reqId request).requests.get? other = s.requests.get? other := by
  simp only [freeRequest]
  split <;> exact Dict.get?_set_ne _ _ different

theorem freeRequest_filenames_ne {request : Request} {other : String} (different : other ≠ reqId) :
    (freeRequest config s reqId request).connector.requestFilenames.get? other =
      s.connector.requestFilenames.get? other := by
  simp only [freeRequest, requestFinished]
  cases s.connector.requestFilenames.get? reqId with
  | none => rfl
  | some name => exact (Dict.get?_erase _ _ _).trans (if_neg different)

/-- Finishing scheduled requests one after the other. -/
theorem invariant_freeRequests (reqIds : List String) (distinct : reqIds.Nodup) (invariant : Invariant config s)
    (active : ∀ reqId ∈ reqIds, ∃ request, s.requests.get? reqId = some request ∧ request.status.active) :
    Invariant config (freeRequests config reqIds s) := by
  induction reqIds generalizing s with
  | nil => exact invariant
  | cons reqId reqIds ih =>
    obtain ⟨request, present, status⟩ := active reqId List.mem_cons_self
    obtain ⟨arrived, scheduled, unfinished, named⟩ := (invariant.tracked reqId).of_active present status
    have next := invariant_freeRequest invariant arrived scheduled unfinished named
    simp only [freeRequests, present, next.quiet, if_true]
    refine ih (List.nodup_cons.mp distinct).2 next fun other member => ?_
    have different : other ≠ reqId := fun same => (List.nodup_cons.mp distinct).1 (same ▸ member)
    rw [freeRequest_requests_ne different]
    exact active other (List.mem_cons_of_mem _ member)

/-- A request without a file name among them raises, unless one before it does. -/
theorem freeRequests_raises (reqIds : List String) (distinct : reqIds.Nodup) {waiting : String}
    (member : waiting ∈ reqIds) {request : Request} (present : s.requests.get? waiting = some request)
    (unnamed : s.connector.requestFilenames.get? waiting = none) :
    (freeRequests config reqIds s).raised ≠ none := by
  induction reqIds generalizing s with
  | nil => exact absurd member List.not_mem_nil
  | cons reqId reqIds ih =>
    by_cases same : waiting = reqId
    · subst same
      simp [freeRequests, present, freeRequest_raises unnamed]
    · have later := (List.mem_cons.mp member).resolve_left same
      have tail := (List.nodup_cons.mp distinct).2
      simp only [freeRequests]
      split
      next => exact ih tail later present unnamed
      next first _ =>
        split
        next =>
          exact ih tail later ((freeRequest_requests_ne same).trans present)
            ((freeRequest_filenames_ne same).trans unnamed)
        next raised => exact raised

theorem invariant_finishRequests (invariant : Invariant config s) {reqIds : List String}
    (allowed : reachesScheduled s (.finishRequests reqIds)) : Invariant config (finishRequests config s reqIds) := by
  refine invariant_freeRequests _ (reqIds.nodup_dedup.filter _) invariant fun reqId member => ?_
  obtain ⟨requested, valid⟩ := List.mem_filter.mp member
  have reached := List.all_eq_true.mp allowed reqId (List.mem_dedup.mp requested)
  unfold isValid at valid
  cases present : s.requests.get? reqId with
  | none => simp [present] at valid
  | some request =>
    simp only [present, Option.any_some, Option.all_some, Bool.or_eq_true, decide_eq_true_eq] at valid reached
    exact ⟨request, rfl, reached.resolve_right valid⟩

theorem finishRequests_raises (invariant : Invariant config s) {reqIds : List String}
    (refused : reachesScheduled s (.finishRequests reqIds) = false) :
    (finishRequests config s reqIds).raised ≠ none := by
  obtain ⟨reqId, requested, waits⟩ := List.all_eq_false.mp refused
  cases present : s.requests.get? reqId with
  | none => simp [present] at waits
  | some request =>
    simp only [present, Option.all_some, Bool.or_eq_true, not_or] at waits
    have waiting : request.status = .waiting ∨ request.status = .waitingForStructuredOutputGrammar := by
      cases status : request.status <;> simp [status, RequestStatus.active] at waits ⊢
    obtain ⟨-, -, -, unnamed⟩ := (invariant.tracked reqId).of_waiting present waiting
    refine freeRequests_raises _ (reqIds.nodup_dedup.filter _) ?_ present unnamed
    rw [List.mem_filter, isValid, present]
    exact ⟨List.mem_dedup.mpr requested, by rcases waiting with status | status <;> simp [status]⟩

theorem scheduleRequest_cases {requests next : Dict String Request} {a : Allocation}
    (stepped : scheduleRequest requests a = some next) : ∃ request, requests.get? a.reqId = some request ∧
      (request.status = .waiting ∨ request.status.active) ∧ unheld requests a.newBlockIds ∧
      next = requests.set a.reqId (request.allocate a) := by
  obtain ⟨request, present, allocated⟩ := Option.bind_eq_some_iff.mp stepped
  split at allocated
  next allows => exact ⟨request, present, allows.1, allows.2, (Option.some.inj allocated).symm⟩
  next => exact absurd allocated (Option.some_ne_none next).symm

/-- Every scheduled request gets its allocation, and no other one changes. -/
theorem scheduleRequests_get? {allocations : List Allocation} (distinct : (allocations.map (·.reqId)).Nodup)
    {requests next : Dict String Request} (stepped : scheduleRequests allocations requests = some next) :
    (∀ other ∉ allocations.map (·.reqId), next.get? other = requests.get? other) ∧
      ∀ a ∈ allocations, ∃ request, requests.get? a.reqId = some request ∧
        (request.status = .waiting ∨ request.status.active) ∧ next.get? a.reqId = some (request.allocate a) := by
  induction allocations generalizing requests with
  | nil =>
    cases stepped
    exact ⟨fun _ _ => rfl, fun _ member => absurd member List.not_mem_nil⟩
  | cons a allocations ih =>
    obtain ⟨middle, first, rest⟩ := Option.bind_eq_some_iff.mp stepped
    obtain ⟨request, present, status, -, rfl⟩ := scheduleRequest_cases first
    obtain ⟨fresh, tail⟩ := List.nodup_cons.mp distinct
    obtain ⟨unchanged, allocated⟩ := ih tail rest
    constructor
    · intro other absent
      obtain ⟨different, later⟩ := not_or.mp (List.mem_cons.not.mp absent)
      rw [unchanged other later, Dict.get?_set_ne _ _ different]
    · intro b member
      rcases List.mem_cons.mp member with rfl | later
      · exact ⟨request, present, status, (unchanged _ fresh).trans (Dict.get?_set_self _ _ _)⟩
      · have different : b.reqId ≠ a.reqId := fun same =>
          fresh (List.mem_map.mpr ⟨b, later, same⟩)
        obtain ⟨other, before, may, after⟩ := allocated b later
        exact ⟨other, (Dict.get?_set_ne _ _ different).symm.trans before, may, after⟩

theorem mem_withStatus {requests : Dict String Request} {status : RequestStatus} {allocations : List Allocation}
    {new : String × Params} : new ∈ withStatus requests status allocations ↔
      ∃ a ∈ allocations, ∃ request, requests.get? a.reqId = some request ∧ request.status = status ∧
        (a.reqId, request.params) = new := by
  simp [withStatus, Option.filter_eq_some_iff, and_assoc]

/-- The new requests of a step, in terms of what they were before it. -/
theorem mem_scheduledNewReqs {requests : Dict String Request} {allocations : List Allocation}
    {new : String × Params} : new ∈ scheduledNewReqs config requests allocations ↔
      ∃ a ∈ allocations, ∃ request, requests.get? a.reqId = some request ∧
        (request.status = .waiting ∨ config.useV2ModelRunner ∧ request.status = .preempted) ∧
        (a.reqId, request.params) = new := by
  unfold scheduledNewReqs
  by_cases v2 : config.useV2ModelRunner
  · simp only [v2, if_true, List.mem_append, mem_withStatus, true_and]
    constructor
    · rintro (⟨a, member, request, present, status, same⟩ | ⟨a, member, request, present, status, same⟩)
      · exact ⟨a, member, request, present, .inl status, same⟩
      · exact ⟨a, member, request, present, .inr status, same⟩
    · rintro ⟨a, member, request, present, status | status, same⟩
      · exact .inl ⟨a, member, request, present, status, same⟩
      · exact .inr ⟨a, member, request, present, status, same⟩
  · simp [v2, mem_withStatus]

/-- A recorded name is the request's own; the names of other requests stay. -/
theorem recordFilenames_get? {newReqs : List (String × Params)} {params : Params}
    (own : ∀ new ∈ newReqs, new.1 = reqId → new.2 = params) (filenames : Dict String String) :
    (recordFilenames config filenames newReqs).get? reqId =
      if reqId ∈ newReqs.map (·.1) then some (filename config reqId params) else filenames.get? reqId := by
  induction newReqs using List.reverseRecOn with
  | nil => simp [recordFilenames]
  | append_singleton newReqs new ih =>
    have last : recordFilenames config filenames (newReqs ++ [new]) =
        (recordFilenames config filenames newReqs).set new.1 (filename config new.1 new.2) := by
      simp [recordFilenames]
    rw [last, Dict.get?_set, ih fun old member => own old (List.mem_append_left _ member)]
    by_cases same : reqId = new.1
    · subst same
      simp [own new (List.mem_append_right _ (List.mem_singleton_self _)) rfl]
    · rw [if_neg same]
      exact if_congr (by simp [same]) rfl rfl

theorem invariant_schedule (invariant : Invariant config s) {allocations : List Allocation}
    (stepped : schedule config s allocations = some t) : Invariant config t := by
  obtain ⟨distinct, requests, allocated, rfl⟩ := schedule_cases stepped
  obtain ⟨unchanged, given⟩ := scheduleRequests_get? distinct allocated
  refine ⟨invariant.quiet, ?_, invariant.once, rfl, invariant.known, fun reqId => ?_⟩
  · simpa [State.handedSaves] using invariant.handed
  · by_cases member : reqId ∈ allocations.map (·.reqId)
    · obtain ⟨a, among, rfl⟩ := List.mem_map.mp member
      obtain ⟨request, present, status, after⟩ := given a among
      have own : ∀ new ∈ scheduledNewReqs config s.requests allocations,
          new.1 = a.reqId → new.2 = request.params := by
        intro new listed same
        obtain ⟨b, -, other, before, -, rfl⟩ := mem_scheduledNewReqs.mp listed
        obtain rfl := Option.some.inj (before.symm.trans (same ▸ present))
        rfl
      have facts : s.arrived.get? a.reqId = some request.params ∧ a.reqId ∉ s.finishedIds ∧
          (recordFilenames config s.connector.requestFilenames
            (scheduledNewReqs config s.requests allocations)).get? a.reqId =
              some (filename config a.reqId request.params) := by
        rw [recordFilenames_get? own]
        rcases status with waits | active
        · obtain ⟨arrived, -, unfinished, -⟩ := (invariant.tracked a.reqId).of_waiting present (.inl waits)
          have listed : (a.reqId, request.params) ∈ scheduledNewReqs config s.requests allocations :=
            mem_scheduledNewReqs.mpr ⟨a, among, request, present, .inl waits, rfl⟩
          exact ⟨arrived, unfinished, if_pos (List.mem_map.mpr ⟨_, listed, rfl⟩)⟩
        · obtain ⟨arrived, -, unfinished, named⟩ := (invariant.tracked a.reqId).of_active present active
          exact ⟨arrived, unfinished, by rw [named, ite_self]⟩
      refine .active ?_ facts.2.1 (request.allocate a) after rfl facts.1 facts.2.2
      simp only [State.scheduledReqIds, List.flatMap_append, List.flatMap_singleton]
      exact List.mem_append_right _ member
    · refine (invariant.tracked reqId).congr (unchanged reqId member) ?_ ?_ Iff.rfl rfl
      · have unlisted : reqId ∉ (scheduledNewReqs config s.requests allocations).map (·.1) := by
          intro listed
          obtain ⟨new, among, same⟩ := List.mem_map.mp listed
          obtain ⟨a, allocation, request, -, -, rfl⟩ := mem_scheduledNewReqs.mp among
          exact member (List.mem_map.mpr ⟨a, allocation, same⟩)
        have own : ∀ new ∈ scheduledNewReqs config s.requests allocations,
            new.1 = reqId → new.2 = (⟨.embeds 0, none, false, false⟩ : Params) :=
          fun new among same => absurd (List.mem_map.mpr ⟨new, among, same⟩) unlisted
        rw [recordFilenames_get? own, if_neg unlisted]
      · simp only [State.scheduledReqIds, List.flatMap_append, List.flatMap_singleton, List.mem_append]
        exact or_iff_left member

theorem invariant_initial (config : Config) : Invariant config initial where
  quiet := rfl
  handed := rfl
  once := List.nodup_nil
  told := rfl
  known _ member := absurd member List.not_mem_nil
  tracked reqId := .unscheduled List.not_mem_nil List.not_mem_nil (Dict.get?_empty _) fun request present => by
    simp [initial] at present

/-- A request changes, and neither its parameters nor whether it is active does. -/
theorem invariant_set (invariant : Invariant config s) {request changed : Request}
    (present : s.requests.get? reqId = some request) (params : changed.params = request.params)
    (status : changed.status = request.status ∨ request.status.active ∧ changed.status.active ∨
      request.status = .waitingForStructuredOutputGrammar ∧ changed.status = .waiting) :
    Invariant config { s with requests := s.requests.set reqId changed } := by
  refine ⟨invariant.quiet, invariant.handed, invariant.once, invariant.told, invariant.known, fun other => ?_⟩
  by_cases same : other = reqId
  · subst same
    have after : ∀ now, (s.requests.set other changed).get? other = some now → now = changed := fun now found =>
      (Option.some.inj ((Dict.get?_set_self _ _ _).symm.trans found)).symm
    cases invariant.tracked other with
    | unscheduled never unfinished unnamed inactive =>
      refine .unscheduled never unfinished unnamed fun now found => ?_
      obtain rfl := after now found
      obtain ⟨arrived, waits⟩ := inactive request present
      refine ⟨params ▸ arrived, ?_⟩
      rcases status with unchanged | ⟨active, -⟩ | ⟨-, waiting⟩
      · exact unchanged ▸ waits
      · rcases waits with waits | waits <;> simp [waits, RequestStatus.active] at active
      · exact .inl waiting
    | active scheduled unfinished before found active arrived named =>
      obtain rfl := Option.some.inj (present.symm.trans found)
      refine .active scheduled unfinished changed (Dict.get?_set_self _ _ _) ?_ (params ▸ arrived) (params ▸ named)
      rcases status with unchanged | ⟨-, still⟩ | ⟨waits, -⟩
      · exact unchanged ▸ active
      · exact still
      · simp [waits, RequestStatus.active] at active
    | ended arrived scheduled finished unnamed gone =>
      refine .ended arrived scheduled finished unnamed fun now found => ?_
      obtain rfl := after now found
      rcases status with unchanged | ⟨active, -⟩ | ⟨waits, -⟩
      · exact unchanged.trans (gone request present)
      · simp [gone request present, RequestStatus.active] at active
      · simp [gone request present] at waits
  · exact (invariant.tracked other).congr (Dict.get?_set_ne _ _ same) rfl Iff.rfl Iff.rfl rfl

theorem invariant_addRequest (invariant : Invariant config s) (fresh : s.arrived.get? reqId = none)
    (params : Params) : Invariant config { s with
      requests := s.requests.set reqId params.request, arrived := s.arrived.set reqId params } := by
  refine ⟨invariant.quiet, invariant.handed, invariant.once, invariant.told, fun ended member => ?_,
    fun other => ?_⟩
  · have known := invariant.known ended member
    rw [Dict.get?_set_ne _ _ fun same => by simp [same, fresh] at known, known]
  by_cases same : other = reqId
  · subst same
    cases invariant.tracked other with
    | unscheduled never unfinished unnamed =>
      refine .unscheduled never unfinished unnamed fun now found => ?_
      obtain rfl := Option.some.inj ((Dict.get?_set_self _ _ _).symm.trans found)
      refine ⟨Dict.get?_set_self _ _ _, ?_⟩
      simp only [Params.request]
      split <;> simp
    | active _ _ _ _ _ arrived => exact absurd (arrived.symm.trans fresh) (Option.some_ne_none _)
    | ended arrived => exact absurd fresh arrived
  · exact (invariant.tracked other).congr (Dict.get?_set_ne _ _ same) rfl Iff.rfl Iff.rfl
      (Dict.get?_set_ne _ _ same)

theorem invariant_updateFromOutput (invariant : Invariant config s) {request : Request}
    (present : s.requests.get? reqId = some request) (status : request.status.active) (newTokenIds : List Int)
    (numRejected : Nat) (stopped : Bool) :
    Invariant config (updateFromOutput config s reqId request newTokenIds numRejected stopped) := by
  obtain ⟨arrived, scheduled, unfinished, named⟩ := (invariant.tracked reqId).of_active present status
  unfold updateFromOutput
  split
  next => exact invariant_freeRequest invariant arrived scheduled unfinished named
  next => exact invariant_set invariant present rfl (.inl rfl)

theorem invariant_finishedSending (invariant : Invariant config s) {request : Request}
    (present : s.requests.get? reqId = some request) (status : request.status = .finished) :
    Invariant config { s with requests := s.requests.erase reqId } := by
  refine ⟨invariant.quiet, invariant.handed, invariant.once, invariant.told, invariant.known, fun other => ?_⟩
  by_cases same : other = reqId
  · subst same
    cases invariant.tracked other with
    | unscheduled _ _ _ inactive =>
      rcases (inactive request present).2 with waits | waits <;> simp [waits] at status
    | active _ _ before found active =>
      obtain rfl := Option.some.inj (present.symm.trans found)
      simp [status, RequestStatus.active] at active
    | ended arrived scheduled finished unnamed =>
      refine .ended arrived scheduled finished unnamed fun now found => ?_
      rw [Dict.get?_erase, if_pos rfl] at found
      cases found
  · exact (invariant.tracked other).congr ((Dict.get?_erase _ _ _).trans (if_neg same)) rfl Iff.rfl Iff.rfl rfl

theorem invariant_step {event : Event} (invariant : Invariant config s) (allowed : reachesScheduled s event)
    (stepped : step config s event = some t) : Invariant config t := by
  have outcome := step_cases invariant.quiet stepped
  cases event with
  | addRequest reqId params =>
    obtain ⟨fresh, rfl⟩ := outcome
    exact invariant_addRequest invariant fresh params
  | grammarReady reqId =>
    obtain ⟨request, present, status, rfl⟩ := outcome
    exact invariant_set invariant present rfl (.inr (.inr ⟨status, rfl⟩))
  | preempt reqId =>
    obtain ⟨request, present, status, rfl⟩ := outcome
    exact invariant_set invariant present rfl (.inr (.inl ⟨by simp [status, RequestStatus.active], rfl⟩))
  | schedule allocations => exact invariant_schedule invariant outcome
  | updateFromOutput reqId newTokenIds numRejected stopped =>
    obtain ⟨request, present, status, rfl⟩ := outcome
    exact invariant_updateFromOutput invariant present status newTokenIds numRejected stopped
  | finishRequests reqIds =>
    obtain rfl := outcome
    exact invariant_finishRequests invariant allowed
  | finishedSending reqId =>
    obtain ⟨request, present, status, rfl⟩ := outcome
    exact invariant_finishedSending invariant present status

/-- Finishing a request that was never scheduled raises, and the run ends there. -/
theorem raises_of_unscheduled {event : Event} (invariant : Invariant config s)
    (refused : reachesScheduled s event = false) (stepped : step config s event = some t) :
    ¬ t.raised = none ∧ ∀ later, step config t later = none := by
  cases event with
  | finishRequests reqIds =>
    rw [step, if_neg (not_not.mpr invariant.quiet)] at stepped
    cases stepped
    have raised := finishRequests_raises invariant refused
    exact ⟨raised, fun later => by simp [step, raised]⟩
  | addRequest | grammarReady | preempt | schedule | updateFromOutput | finishedSending =>
    simp [reachesScheduled] at refused

def tmpStorage : Config := ⟨"/tmp", false, false, 16, by decide⟩

def shortPrompt : Params := ⟨.tokenIds [1, 2, 3], none, false, false⟩

/-- One request stops by itself; the other is preempted, resumed and then aborted. -/
def stopAndAbort : List Event :=
  [.addRequest "a" shortPrompt, .schedule [⟨"a", [], [4], 3⟩], .preempt "a", .addRequest "b" shortPrompt,
    .schedule [⟨"a", [], [5], 3⟩, ⟨"b", [], [6], 3⟩], .updateFromOutput "b" [7] 0 true, .finishRequests ["a"],
    .schedule [], .finishedSending "b"]

end DreamAifd.ConnectorScheduler
