import DreamAifd.Machine

/-! The tasks of offline generation: a feeder and its shutdown, a bounded queue, a pool of
workers and the tracker that aborts the run. An event takes one task from where it waits to
where it waits next. -/
namespace DreamAifd.OfflineGeneration

structure FailureTracker where
  threshold : Int
  consecutive : Nat
  deriving DecidableEq, Repr

def FailureTracker.recordSuccess (tracker : FailureTracker) : FailureTracker := { tracker with consecutive := 0 }

/-- Whether the threshold is reached comes with the tracker. -/
def FailureTracker.recordFailure (tracker : FailureTracker) : FailureTracker × Bool :=
  let consecutive := tracker.consecutive + 1
  ({ tracker with consecutive }, tracker.threshold ≤ consecutive)

structure Args where
  concurrency : Nat
  maxConsecutiveErrors : Option Int

namespace Args

def threshold (args : Args) : Int := args.maxConsecutiveErrors.getD args.concurrency

def maxsize (args : Args) : Nat := args.concurrency * 4

/-- `queue.full()`; a size of 0 is no bound. -/
def full (args : Args) (queue : List (Option Nat)) : Bool :=
  0 < args.maxsize && args.maxsize ≤ queue.length

end Args

/-- Where a worker waits while it has a sample. -/
inductive Phase where
  | acquiring
  | requesting
  | unlocking
  | acquiringWrite
  | writing
  deriving DecidableEq, Repr

inductive Worker where
  | getting
  | busy (idx : Nat) (phase : Phase)
  | returned
  | raised
  | cancelled
  deriving DecidableEq, Repr

namespace Worker

def isBusy : Worker → Bool
  | .busy .. => true
  | _ => false

def done : Worker → Bool
  | .getting | .busy .. => false
  | .returned | .raised | .cancelled => true

def isIn (phase : Phase) : Worker → Bool
  | .busy _ here => here = phase
  | _ => false

def cancel (w : Worker) : Worker := if w.done then w else .cancelled

end Worker

inductive Outcome where
  /-- The `RuntimeError` of a worker. -/
  | aborted (threshold : Int)
  | completed (skippedIndices : List Nat)
  deriving DecidableEq, Repr

/-- Where the main task waits. -/
inductive Main where
  /-- Asleep in `_feed_queue` with these samples left. -/
  | feeding (rest : List Nat)
  /-- In `queue.put` of the first of these many sentinels. -/
  | sending (left : Nat)
  | gathering
  | finished (outcome : Outcome)
  deriving DecidableEq, Repr

/-- A sentinel in the queue is `none`. -/
structure State where
  queue : List (Option Nat)
  workers : List Worker
  main : Main
  tracker : FailureTracker
  cancelEvent : Bool
  skippedIndices : List Nat
  pbar : Nat
  deriving DecidableEq, Repr

section Main

variable (args : Args)

/-- `_feed_queue` up to where it sleeps: the queue, and the samples left if it does. -/
def feedQueue (cancelEvent : Bool) : List Nat → List (Option Nat) → List (Option Nat) × Option (List Nat)
  | [], queue => (queue, none)
  | i :: rest, queue =>
    if cancelEvent then (queue, none)
    else if args.full queue then (queue, some (i :: rest))
    else feedQueue cancelEvent rest (queue ++ [some i])

/-- The puts of `None` up to the one that has to wait: the queue, and how many are left. -/
def sendSentinels : Nat → List (Option Nat) → List (Option Nat) × Nat
  | 0, queue => (queue, 0)
  | left + 1, queue =>
    if args.full queue then (queue, left + 1) else sendSentinels left (queue ++ [none])

def resumeSending (s : State) (left : Nat) : State :=
  let (queue, left) := sendSentinels args left s.queue
  { s with queue, main := if left = 0 then .gathering else .sending left }

/-- `_shutdown_workers` up to where it waits. -/
def shutdownWorkers (s : State) : State :=
  if s.cancelEvent then
    { s with
      workers := s.workers.map Worker.cancel
      pbar := s.pbar + s.workers.countP Worker.isBusy
      main := .gathering }
  else resumeSending args s s.workers.length

def resumeFeeding (s : State) (rest : List Nat) : State :=
  match feedQueue args s.cancelEvent rest s.queue with
  | (queue, some rest) => { s with queue, main := .feeding rest }
  | (queue, none) => shutdownWorkers args { s with queue }

/-- The first real exception among the results is raised. -/
def gathered (s : State) : Outcome :=
  if s.workers.contains .raised then .aborted s.tracker.threshold else .completed s.skippedIndices

/-- The main task goes on. A poll that finds the queue full and the event unset changes
nothing, so it is no step. -/
def mainStep (s : State) : Option State :=
  match s.main with
  | .feeding rest => if !s.cancelEvent && args.full s.queue then none else some (resumeFeeding args s rest)
  | .sending left => if args.full s.queue then none else some (resumeSending args s left)
  | .gathering => if s.workers.all Worker.done then some { s with main := .finished (gathered s) } else none
  | .finished _ => none

def fresh (toProcess : List Nat) : State where
  queue := []
  workers := List.replicate (args.concurrency * 2) .getting
  main := .feeding toProcess
  tracker := ⟨args.threshold, 0⟩
  cancelEvent := false
  skippedIndices := []
  pbar := 0

/-- `generate_and_save_hidden_states` up to where it first waits for the workers. -/
def start (toProcess : List Nat) : State :=
  if toProcess = [] then { fresh args [] with workers := [], main := .finished (.completed []) }
  else resumeFeeding args (fresh args toProcess) toProcess

end Main

section Workers

variable (args : Args)

inductive Event where
  | main
  | get (worker : Nat)
  | move (worker : Nat) (next : Phase)
  | save (worker : Nat)
  | fail (worker : Nat)
  deriving DecidableEq, Repr

def State.setWorker (s : State) (i : Nat) (w : Worker) : State := { s with workers := s.workers.set i w }

/-- A permit of a semaphore is free unless as many workers are in the phase it guards. -/
def permits (s : State) (phase : Phase) : Bool := s.workers.countP (Worker.isIn phase) < args.concurrency

/-- From one wait of the `try` block to the next. Only some outputs have a lock file. -/
def mayMove (s : State) : Phase → Phase → Bool
  | .acquiring, .requesting => permits args s .requesting
  | .requesting, .unlocking => true
  | .requesting, .acquiringWrite => true
  | .unlocking, .acquiringWrite => true
  | .acquiringWrite, .writing => permits args s .writing
  | _, _ => false

/-- Where the `try` block can raise. -/
def Phase.mayFail : Phase → Bool
  | .requesting | .unlocking | .writing => true
  | .acquiring | .acquiringWrite => false

/-- `queue.get()` returns; after a cancellation samples are drained. -/
def took (s : State) (i : Nat) (item : Option Nat) (queue : List (Option Nat)) : State :=
  match item with
  | none => { s with queue }.setWorker i .returned
  | some idx => if s.cancelEvent then { s with queue } else { s with queue }.setWorker i (.busy idx .acquiring)

def failed (s : State) (i idx : Nat) : State :=
  let (tracker, reached) := s.tracker.recordFailure
  { s with
    tracker
    skippedIndices := s.skippedIndices ++ [idx]
    cancelEvent := s.cancelEvent || reached
    pbar := s.pbar + 1 }.setWorker i (if reached then .raised else .getting)

def saved (s : State) (i : Nat) : State :=
  { s with tracker := s.tracker.recordSuccess, pbar := s.pbar + 1 }.setWorker i .getting

def step (s : State) : Event → Option State
  | .main => mainStep args s
  | .get i =>
    match s.workers[i]?, s.queue with
    | some .getting, item :: queue => some (took s i item queue)
    | _, _ => none
  | .move i next =>
    match s.workers[i]? with
    | some (.busy idx phase) => if mayMove args s phase next then some (s.setWorker i (.busy idx next)) else none
    | _ => none
  | .save i =>
    match s.workers[i]? with
    | some (.busy _ .writing) => some (saved s i)
    | _ => none
  | .fail i =>
    match s.workers[i]? with
    | some (.busy idx phase) => if phase.mayFail then some (failed s i idx) else none
    | _ => none

/-- The ways on from a state, with what each needs. -/
inductive Step (args : Args) (s : State) : Event → State → Prop where
  | main {t : State} (moved : mainStep args s = some t) : Step args s .main t
  | get {i : Nat} {item : Option Nat} {queue : List (Option Nat)} (found : s.workers[i]? = some .getting)
      (head : s.queue = item :: queue) : Step args s (.get i) (took s i item queue)
  | move {i idx : Nat} {phase next : Phase} (found : s.workers[i]? = some (.busy idx phase))
      (may : mayMove args s phase next = true) : Step args s (.move i next) (s.setWorker i (.busy idx next))
  | save {i idx : Nat} (found : s.workers[i]? = some (.busy idx .writing)) : Step args s (.save i) (saved s i)
  | fail {i idx : Nat} {phase : Phase} (found : s.workers[i]? = some (.busy idx phase))
      (may : phase.mayFail = true) : Step args s (.fail i) (failed s i idx)

theorem step_eq_some {args : Args} {s t : State} {event : Event} :
    step args s event = some t ↔ Step args s event t := by
  constructor
  · intro stepped
    cases event with
    | main => exact .main stepped
    | get i =>
      rw [step] at stepped
      split at stepped
      next found head =>
        cases stepped
        exact .get found head
      next => contradiction
    | move i next =>
      rw [step] at stepped
      split at stepped
      next found =>
        obtain ⟨may, moved⟩ := Option.ite_none_right_eq_some.mp stepped
        cases moved
        exact .move found may
      next => contradiction
    | save i =>
      rw [step] at stepped
      split at stepped
      next found =>
        cases stepped
        exact .save found
      next => contradiction
    | fail i =>
      rw [step] at stepped
      split at stepped
      next found =>
        obtain ⟨may, moved⟩ := Option.ite_none_right_eq_some.mp stepped
        cases moved
        exact .fail found may
      next => contradiction
  · intro stepped
    cases stepped with
    | main moved => exact moved
    | get found head => simp only [step, found, head]
    | move found may => simp only [step, found, may, if_true]
    | save found => simp only [step, found]
    | fail found may => simp only [step, found, may, if_true]

end Workers

end DreamAifd.OfflineGeneration
