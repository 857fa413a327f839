import DreamAifd.ConnectorSteps
import DreamAifd.LockHandoff

/-! The hidden-states connector as a system: the scheduler, the worker that carries out its steps in order, the
copies out of the cache, the writer threads, and the clients that wait for a file's lock. -/
namespace DreamAifd.HiddenStatesWorker

open Machine ConnectorScheduler LockHandoff

structure Config where
  scheduler : ConnectorScheduler.Config
  useLock : Bool

/-- What the worker does in a step. Opening a lock file and taking its lock are two calls, and so are those of
`_submit_async_write` when no lock was taken before. -/
inductive Task where
  | openLock (reqId filename : String)
  | flock (reqId : String) (fd : Nat)
  | submit (save : PendingSave)
  | flockSubmit (save : PendingSave) (fd : Nat)
  | getFinished (finishedReqIds : List String)
  | output (scheduledReqIds : List String)
  deriving DecidableEq, Repr

/-- `wait_for_save` follows the saves of `get_finished` where the connector is finalized behind the drafter, and
precedes them in the newer model runner. -/
def tasks (config : Config) (output : SchedulerOutput) : List Task :=
  let locks := if config.useLock then output.newReqFilenames.map fun new => .openLock new.1 new.2 else []
  let saves := output.pendingSaves.map .submit ++ [.getFinished output.finishedReqIds]
  (if config.scheduler.useV2ModelRunner then locks ++ saves else saves ++ locks) ++
    [.output output.scheduledReqIds]

inductive WriterStage where
  | queued | attempted | done
  deriving DecidableEq, Repr

/-- A call of `_write_tensors` with the descriptor it closes at its end. -/
structure Writer where
  lockFd : Option Nat
  stage : WriterStage
  deriving DecidableEq, Repr

/-- `todo` is what the worker has been handed and not done yet, `copied` the copies that are complete, `computed`
the requests of the steps whose output is there, and `published` those whose clients were told the path. -/
structure State where
  scheduler : ConnectorScheduler.State
  todo : List Task
  lockFds : Dict String Nat
  writers : Dict String Writer
  reqCopyEvents : List String
  accumulatedFinishedReqIds : List String
  submitted : List String
  doneSending : List String
  copied : List String
  computed : List String
  published : List String
  files : LockFiles
  clients : List (Client String)

def initial : State :=
  ⟨ConnectorScheduler.initial, [], Dict.empty, Dict.empty, [], [], [], [], [], [], [], .empty, []⟩

inductive Event where
  | scheduler (event : ConnectorScheduler.Event)
  | worker
  | copied (reqId : String)
  | attempted (reqId : String) (synchronized : Bool)
  | closed (reqId : String)
  | clientOpens (reqId : String)
  | clientLocks (client : Nat)
  | clientFails (client : Nat)
  | clientCloses (client : Nat)
  | clientRemoves (client : Nat)
  deriving DecidableEq, Repr

def lockPath (config : Config) (s : State) (reqId : String) : String :=
  (s.scheduler.arrived.get? reqId).elim "" (filename config.scheduler reqId) ++ ".lock"

/-- Outputs are processed once they are there, and blocks released once the worker has reported them. -/
def timely (s : State) : ConnectorScheduler.Event → Bool
  | .updateFromOutput reqId _ _ _ => reqId ∈ s.computed
  | .finishedSending reqId => reqId ∈ s.doneSending
  | _ => true

/-- A client is told the path with the last output of its request. -/
def told : ConnectorScheduler.Event → List String
  | .updateFromOutput reqId _ _ true => [reqId]
  | _ => []

/-- A step of the scheduler, whose outputs go to the worker. One that raises ends the engine. -/
def schedulerStep (config : Config) (s : State) (event : ConnectorScheduler.Event) : Option State :=
  if timely s event then
    (ConnectorScheduler.step config.scheduler s.scheduler event).bind fun next =>
      if next.raised = none then some { s with
        scheduler := next
        todo := s.todo ++ (next.outputs.drop s.scheduler.outputs.length).flatMap (tasks config)
        published := s.published ++ told event }
      else none
  else none

/-- The last lines of `_submit_async_write`. -/
def startWriter (s : State) (reqId : String) (lockFd : Option Nat) : State := { s with
  writers := s.writers.set reqId ⟨lockFd, .queued⟩
  reqCopyEvents := s.reqCopyEvents ++ [reqId]
  submitted := s.submitted ++ [reqId] }

/-- Raises when a write of the same request is still under way. -/
def submitAsyncWrite (config : Config) (s : State) (save : PendingSave) : Option State :=
  if (s.writers.get? save.reqId).all (·.stage = .done) then
    match s.lockFds.get? save.reqId with
    | some fd => some (startWriter { s with lockFds := s.lockFds.erase save.reqId } save.reqId (some fd))
    | none =>
      if config.useLock then some { s with
        files := s.files.create (save.filename ++ ".lock")
        todo := .flockSubmit save s.files.descriptions.length :: s.todo }
      else some (startWriter s save.reqId none)
  else none

/-- The lock descriptors that are left of requests that are done. -/
def closeLeftovers : List String → State → State
  | [], s => s
  | reqId :: reqIds, s =>
    match s.lockFds.get? reqId with
    | some fd => closeLeftovers reqIds
        { s with files := s.files.close fd, lockFds := s.lockFds.erase reqId }
    | none => closeLeftovers reqIds s

def getFinished (s : State) (finishedReqIds : List String) : State :=
  let accumulated := s.accumulatedFinishedReqIds ++
    finishedReqIds.filter (· ∉ s.accumulatedFinishedReqIds)
  let done := accumulated.filter fun reqId => reqId ∉ s.reqCopyEvents || reqId ∈ s.copied
  closeLeftovers done { s with
    reqCopyEvents := s.reqCopyEvents.filter (· ∉ done)
    accumulatedFinishedReqIds := accumulated.filter (· ∉ done)
    doneSending := s.doneSending ++ done }

def perform (config : Config) (s : State) : Task → Option State
  | .openLock reqId filename =>
    if (s.lockFds.get? reqId).isSome then some s
    else some { s with
      files := s.files.create (filename ++ ".lock")
      todo := .flock reqId s.files.descriptions.length :: s.todo }
  | .flock reqId fd => (s.files.lock fd).map fun files => { s with files, lockFds := s.lockFds.set reqId fd }
  | .submit save => submitAsyncWrite config s save
  | .flockSubmit save fd => (s.files.lock fd).map fun files => startWriter { s with files } save.reqId (some fd)
  | .getFinished finishedReqIds => some (getFinished s finishedReqIds)
  | .output scheduledReqIds => some { s with computed := s.computed ++ scheduledReqIds }

def workerStep (config : Config) (s : State) : Option State :=
  match s.todo with
  | [] => none
  | task :: todo => perform config { s with todo } task

def setWriter (s : State) (reqId : String) (writer : Writer) : State :=
  { s with writers := s.writers.set reqId writer }

def setClient (s : State) (i : Nat) (client : Client String) (files : LockFiles) : State :=
  { s with files, clients := s.clients.set i client }

/-- `wait_for_lock`: a missing file raises, and so does the end of the timeout. -/
def clientStep (s : State) (i : Nat) (client : Client String) : Event → Option State
  | .clientLocks _ =>
    if client.stage = .opened then
      (s.files.lock client.fd).map fun files => setClient s i { client with stage := .locked } files
    else none
  | .clientFails _ =>
    if client.stage.isOpen then some (setClient s i { client with stage := .failed } (s.files.close client.fd))
    else none
  | .clientCloses _ =>
    if client.stage = .locked then some (setClient s i { client with stage := .closed } (s.files.close client.fd))
    else none
  | .clientRemoves _ =>
    if client.stage = .closed then
      (s.files.remove client.path).map fun files => setClient s i { client with stage := .returned } files
    else none
  | _ => none

def step (config : Config) (s : State) : Event → Option State
  | .scheduler event => schedulerStep config s event
  | .worker => workerStep config s
  | .copied reqId => if reqId ∈ s.submitted then some { s with copied := s.copied ++ [reqId] } else none
  | .attempted reqId synchronized => (s.writers.get? reqId).bind fun writer =>
      if writer.stage = .queued ∧ (synchronized → reqId ∈ s.copied) then
        some (setWriter s reqId { writer with stage := .attempted })
      else none
  | .closed reqId => (s.writers.get? reqId).bind fun writer =>
      if writer.stage = .attempted then
        some { setWriter s reqId { writer with stage := .done } with
          files := writer.lockFd.elim s.files s.files.close }
      else none
  | .clientOpens reqId =>
    if reqId ∈ s.published then
      (s.files.openExisting (lockPath config s reqId)).map fun files => { s with
        files
        clients := s.clients ++ [⟨reqId, lockPath config s reqId, s.files.descriptions.length, .opened⟩] }
    else none
  | .clientLocks i => (s.clients[i]?).bind fun client => clientStep s i client (.clientLocks i)
  | .clientFails i => (s.clients[i]?).bind fun client => clientStep s i client (.clientFails i)
  | .clientCloses i => (s.clients[i]?).bind fun client => clientStep s i client (.clientCloses i)
  | .clientRemoves i => (s.clients[i]?).bind fun client => clientStep s i client (.clientRemoves i)

/-- A descriptor that somebody has still to close: it waits for its request's save, a writer has it, the worker is
about to lock it, or a client is in `wait_for_lock`. -/
inductive InUse (s : State) (fd : Nat) : Prop where
  | held (reqId : String) (kept : s.lockFds.get? reqId = some fd) (unsent : reqId ∉ s.doneSending)
  | writing (reqId : String) (writer : Writer) (present : s.writers.get? reqId = some writer)
      (own : writer.lockFd = some fd) (unfinished : writer.stage ≠ .done)
  | locking (reqId : String) (next : s.todo.head? = some (.flock reqId fd))
  | waiting (client : Client String) (member : client ∈ s.clients) (own : client.fd = fd)
      (isOpen : client.stage.isOpen)

/-- Every descriptor is closed once and no more once its writer or client is done, and a request is reported, and
its blocks given out, only behind its copy. -/
structure Released (config : Config) (s : State) : Prop where
  closedOnce : s.files.closed.Nodup
  closed : ∀ fd < s.files.descriptions.length, fd ∈ s.files.closed ∨ InUse s fd
  written : ∀ reqId writer fd, s.writers.get? reqId = some writer → writer.lockFd = some fd →
    (fd ∈ s.files.closed ↔ writer.stage = .done)
  sent : ∀ reqId ∈ s.doneSending, reqId ∈ s.copied
  reused : ∀ allocations t, step config s (.scheduler (.schedule allocations)) = some t →
    ∀ a ∈ allocations, ∀ block ∈ a.newBlockIds, ∀ ended ∈ s.scheduler.finished, ended.1 ∉ s.copied →
      block ∉ ended.2.blockIds

/-- And a client returns only behind the save attempt of its request. -/
structure HandedOff (config : Config) (s : State) : Prop extends Released config s where
  returned : ∀ client ∈ s.clients, client.stage = .returned →
    ∃ writer, s.writers.get? client.key = some writer ∧ writer.stage ≠ .queued

def distinctNames (config : Config) (s : State) : Event → Bool
  | .scheduler (.addRequest reqId params) => ∀ other ∈ s.scheduler.arrived.keys, other = reqId ∨
      (s.scheduler.arrived.get? other).all fun known =>
        filename config.scheduler other known ≠ filename config.scheduler reqId params
  | _ => true

/-- The lock the worker is about to take, where it is the request's. -/
def flocking (s : State) (reqId : String) : Option Nat :=
  match s.todo with
  | .flock other fd :: _ => if other = reqId then some fd else none
  | _ => none

/-- The descriptor of a request's lock file, from its opening on. -/
def lockState (s : State) (reqId : String) : Option (Nat × OwnerStage) :=
  match s.lockFds.get? reqId with
  | some fd => some (fd, .locked)
  | none =>
    match (s.writers.get? reqId).bind fun writer => writer.lockFd.map fun fd => (fd, writer.stage) with
    | some (fd, stage) => some (fd, if stage = .done then .finished else .locked)
    | none => (flocking s reqId).map fun fd => (fd, .opened)

/-- What the system is as a hand-over of lock files by requests. -/
def handoff (config : Config) (s : State) : LockHandoff.State String where
  files := s.files
  owner reqId := (lockState s reqId).map fun own => ⟨lockPath config s reqId, own.1, own.2⟩
  clients := s.clients

section LockState

variable {s t : State} {reqId : String} {fd : Nat}

theorem lockState_held (held : s.lockFds.get? reqId = some fd) : lockState s reqId = some (fd, .locked) := by
  rw [lockState, held]

/-- Where no descriptor is in the tables, the worker may be about to lock one. -/
theorem lockState_opening (unheld : s.lockFds.get? reqId = none)
    (unwritten : ∀ writer, s.writers.get? reqId = some writer → writer.lockFd = none) :
    lockState s reqId = (flocking s reqId).map fun fd => (fd, .opened) := by
  have nothing : ((s.writers.get? reqId).bind fun writer => writer.lockFd.map fun fd => (fd, writer.stage)) = none := by
    cases present : s.writers.get? reqId with
    | none => rfl
    | some writer => rw [Option.bind_some, unwritten writer present, Option.map_none]
  simp only [lockState, unheld, nothing]

/-- A saved request's descriptor is its writer's. -/
theorem lockState_writer {writer : Writer} (unheld : s.lockFds.get? reqId = none) (unlocked : flocking s reqId = none)
    (present : s.writers.get? reqId = some writer) : lockState s reqId =
      writer.lockFd.map fun fd => (fd, if writer.stage = .done then .finished else .locked) := by
  simp only [lockState, unheld, unlocked, present, Option.bind_some, Option.map_none]
  cases writer.lockFd <;> rfl

theorem lockState_cases {stage : OwnerStage} (state : lockState s reqId = some (fd, stage)) :
    (s.lockFds.get? reqId = some fd ∧ stage = .locked) ∨
      (∃ writer, s.writers.get? reqId = some writer ∧ writer.lockFd = some fd ∧
        stage = if writer.stage = .done then .finished else .locked) ∨
      (flocking s reqId = some fd ∧ stage = .opened) := by
  unfold lockState at state
  split at state
  next own held =>
    cases state
    exact .inl ⟨held, rfl⟩
  next =>
    split at state
    next own current written =>
      cases state
      obtain ⟨writer, present, same⟩ := Option.bind_eq_some_iff.mp written
      obtain ⟨own, lockFd, pair⟩ := Option.map_eq_some_iff.mp same
      cases pair
      exact .inr (.inl ⟨writer, present, lockFd, rfl⟩)
    next =>
      obtain ⟨own, opening, pair⟩ := Option.map_eq_some_iff.mp state
      cases pair
      exact .inr (.inr ⟨opening, rfl⟩)

theorem lockState_congr (lockFds : t.lockFds.get? reqId = s.lockFds.get? reqId)
    (writers : t.writers.get? reqId = s.writers.get? reqId) (todo : flocking t reqId = flocking s reqId) :
    lockState t reqId = lockState s reqId := by
  simp only [lockState, lockFds, writers, todo]

theorem flocking_iff : flocking s reqId = some fd ↔ s.todo.head? = some (.flock reqId fd) := by
  unfold flocking
  split
  next other own todo rest =>
    rw [rest, List.head?_cons, Option.some.injEq, Task.flock.injEq]
    split
    next same => simp [same]
    next different => simp [different]
  next noFlock =>
    refine ⟨fun absurdity => absurd absurdity (Option.some_ne_none fd).symm, fun first => ?_⟩
    obtain ⟨todo, rest⟩ := List.head?_eq_some_iff.mp first
    exact absurd rest (noFlock reqId fd todo)

theorem flocking_none (noFlock : ∀ fd, s.todo.head? ≠ some (.flock reqId fd)) : flocking s reqId = none :=
  Option.eq_none_iff_forall_ne_some.mpr fun fd first => noFlock fd (flocking_iff.mp first)

end LockState

end DreamAifd.HiddenStatesWorker
