import DreamAifd.Checkpoint
import DreamAifd.Windows

/-! One training process: the epoch loop with its gradient accumulation, its mid-epoch
saves and the batch list it skips into when it resumes. Beside the gradient buffer a ledger
records which micro-batches are in it and which ones every optimizer step consumes. -/
namespace DreamAifd.Training

open Checkpoint

/-- `MultipackDistributedBatchSamplerV2`; `packed` is its batch list by epoch, a function
of the seed. -/
structure Sampler (β : Type*) where
  packed : Nat → List β
  epoch : Nat
  cached : Option (Nat × List β)

namespace Sampler

variable {β : Type*}

def setEpoch (s : Sampler β) (epoch : Nat) : Sampler β := { s with epoch := epoch }

def generateBatches (s : Sampler β) (epoch : Nat) : List β × Sampler β :=
  match s.cached with
  | some (cachedEpoch, batches) =>
    if cachedEpoch = epoch then (batches, s)
    else (s.packed epoch, { s with cached := some (epoch, s.packed epoch) })
  | none => (s.packed epoch, { s with cached := some (epoch, s.packed epoch) })

/-- The cache holds no shortened list for the epoch. -/
def Fresh (s : Sampler β) (epoch : Nat) : Prop :=
  ∀ batches, s.cached = some (epoch, batches) → batches = s.packed epoch

theorem generateBatches_of_fresh {s : Sampler β} {epoch : Nat} (fresh : s.Fresh epoch) :
    s.generateBatches epoch = (s.packed epoch, { s with cached := some (epoch, s.packed epoch) }) := by
  unfold generateBatches
  split
  next cachedEpoch batches cached =>
    split
    next same =>
      subst same
      rw [← fresh batches cached, ← cached]
    next => rfl
  next => rfl

theorem generateBatches_cached (packed : Nat → List β) (current epoch : Nat) (batches : List β) :
    (⟨packed, current, some (epoch, batches)⟩ : Sampler β).generateBatches epoch =
      (batches, ⟨packed, current, some (epoch, batches)⟩) := if_pos rfl

end Sampler

/-- The trained model: the gradient of a loss, clipping with the optimizers' step, and the
schedulers' tick. -/
structure Learner (σ β V : Type*) where
  lossGradient : σ → β → V
  optimizersStep : σ → V → σ
  schedulersStep : σ → σ

structure Micro (β : Type*) where
  epoch : Nat
  localStep : Nat
  globalStep : Nat
  batch : β
  deriving DecidableEq, Repr

abbrev Backward (β V : Type*) := Micro β × V

structure Update (β V : Type*) where
  window : List (Backward β V)
  gradient : V

structure Ledger (β V : Type*) where
  visited : List (Backward β V)
  pending : List (Backward β V)
  updates : List (Update β V)
  checkpoints : List TrainingState

def Ledger.empty {β V : Type*} : Ledger β V := ⟨[], [], [], []⟩

structure Trainer (σ β V : Type*) where
  model : σ
  grad : V
  globalStep : Nat
  currentEpoch : Nat
  resumeLocalStep : Nat
  sampler : Sampler β
  ledger : Ledger β V

structure EpochPlan where
  epoch : Nat
  numSteps : Nat
  accumSteps : Nat
  skipSteps : Nat
  stepInterval : Option Nat

def accumWindowBounds (localStepRel numSteps accumSteps : Nat) : Bool × Bool :=
  ((localStepRel - 1) % accumSteps = 0, localStepRel % accumSteps = 0 || localStepRel = numSteps)

/-- Rounding to the nearest integer, halves to the even one. -/
def roundHalfEven (q : ℚ) : Int :=
  if q - ⌊q⌋ < 1 / 2 then ⌊q⌋
  else if 1 / 2 < q - ⌊q⌋ then ⌊q⌋ + 1
  else if ⌊q⌋ % 2 = 0 then ⌊q⌋ else ⌊q⌋ + 1

def stepInterval (config : TrainerConfig) (numSteps : Nat) : Option Nat :=
  if config.checkpointFreq < 1 then some (max 1 (roundHalfEven (numSteps * config.checkpointFreq))).toNat
  else none

def accumSteps (config : TrainerConfig) : Nat := (max 1 config.gradAccumSteps).toNat

/-- A mid-epoch save is due; the epoch's end has to be a quarter of the interval away. -/
def savesStep (config : TrainerConfig) (plan : EpochPlan) (localStep : Nat) : Bool :=
  match plan.stepInterval with
  | some interval => !config.saveBest && localStep % interval = 0 &&
      (interval : Int) ≤ 4 * ((plan.numSteps : Int) - localStep)
  | none => false

section Loop

variable {σ β V : Type*} [AddCommGroup V] [Module ℚ V]

namespace Trainer

def optimizersZeroGrad (s : Trainer σ β V) : Trainer σ β V :=
  { s with grad := 0, ledger := { s.ledger with pending := [] } }

def backward (s : Trainer σ β V) (accumSteps : Nat) (micro : Micro β) (gradient : V) : Trainer σ β V :=
  { s with
    grad := s.grad + (accumSteps : ℚ)⁻¹ • gradient
    ledger := { s.ledger with
      visited := s.ledger.visited ++ [(micro, gradient)]
      pending := s.ledger.pending ++ [(micro, gradient)] } }

def optimizersStep (s : Trainer σ β V) (learner : Learner σ β V) : Trainer σ β V :=
  { s with
    model := learner.optimizersStep s.model s.grad
    ledger := { s.ledger with updates := s.ledger.updates ++ [⟨s.ledger.pending, s.grad⟩] } }

def maybeSaveCheckpoint (s : Trainer σ β V) (epoch localStep : Nat) : Trainer σ β V :=
  { s with ledger := { s.ledger with
    checkpoints := s.ledger.checkpoints ++ [⟨epoch, localStep, s.globalStep⟩] } }

def trainStep (config : TrainerConfig) (learner : Learner σ β V) (plan : EpochPlan) (localStepRel : Nat)
    (s : Trainer σ β V) (batch : β) : Trainer σ β V :=
  let localStep := localStepRel + plan.skipSteps
  let bounds := accumWindowBounds localStepRel plan.numSteps plan.accumSteps
  let gradient := learner.lossGradient s.model batch
  let s := if bounds.1 then s.optimizersZeroGrad else s
  let s := s.backward plan.accumSteps ⟨plan.epoch, localStep, s.globalStep, batch⟩ gradient
  let s := if bounds.2 then s.optimizersStep learner else s
  let s := { s with model := learner.schedulersStep s.model, globalStep := s.globalStep + 1 }
  if savesStep config plan localStep then s.maybeSaveCheckpoint plan.epoch localStep else s

/-- The loop over the loader, which counts from `localStepRel`. -/
def trainSteps (config : TrainerConfig) (learner : Learner σ β V) (plan : EpochPlan) (localStepRel : Nat)
    (s : Trainer σ β V) : List β → Trainer σ β V
  | [] => s
  | batch :: batches =>
    trainSteps config learner plan (localStepRel + 1) (trainStep config learner plan localStepRel s batch)
      batches

def prepareResumeSkip (s : Trainer σ β V) (epoch : Nat) : Nat × Trainer σ β V :=
  let skipSteps := if epoch = s.currentEpoch then s.resumeLocalStep else 0
  let s := if epoch = s.currentEpoch then { s with resumeLocalStep := 0 } else s
  if 0 < skipSteps then
    let (allBatches, sampler) := s.sampler.generateBatches epoch
    (skipSteps, { s with sampler := { sampler with cached := some (epoch, allBatches.drop skipSteps) } })
  else (skipSteps, s)

/-- `train_epoch` up to its loop: the locals, the loader's batches and the state. -/
def enterEpoch (config : TrainerConfig) (epoch : Nat) (s : Trainer σ β V) :
    EpochPlan × List β × Trainer σ β V :=
  let (full, sampler) := (s.sampler.setEpoch epoch).generateBatches epoch
  let numSteps := full.length
  let (skipSteps, s) := prepareResumeSkip { s with sampler := sampler } epoch
  let (batches, sampler) := s.sampler.generateBatches s.sampler.epoch
  (⟨epoch, numSteps, accumSteps config, skipSteps, stepInterval config numSteps⟩, batches,
    { s with sampler := sampler })

def trainEpoch (config : TrainerConfig) (learner : Learner σ β V) (epoch : Nat) (s : Trainer σ β V) :
    Trainer σ β V :=
  let (plan, batches, s) := enterEpoch config epoch s
  trainSteps config learner plan 1 s batches

/-- `run_training` over the epochs given; after each one a save at its end is due. -/
def trainEpochs (config : TrainerConfig) (learner : Learner σ β V) (s : Trainer σ β V)
    (epochs : List Nat) : Trainer σ β V :=
  epochs.foldl (fun s epoch => (trainEpoch config learner epoch s).maybeSaveCheckpoint epoch 0) s

def runTraining (config : TrainerConfig) (learner : Learner σ β V) (s : Trainer σ β V) :
    Trainer σ β V :=
  trainEpochs config learner s (List.range' s.currentEpoch (config.numEpochs - s.currentEpoch))

def skipSteps (s : Trainer σ β V) (epoch : Nat) : Nat :=
  if epoch = s.currentEpoch then s.resumeLocalStep else 0

def epochPlan (config : TrainerConfig) (s : Trainer σ β V) (epoch : Nat) : EpochPlan :=
  ⟨epoch, (s.sampler.packed epoch).length, accumSteps config, s.skipSteps epoch,
    stepInterval config (s.sampler.packed epoch).length⟩

def epochBatches (s : Trainer σ β V) (epoch : Nat) : List β :=
  (s.sampler.packed epoch).drop (s.skipSteps epoch)

def entered (s : Trainer σ β V) (epoch : Nat) : Trainer σ β V :=
  { s with
    resumeLocalStep := if epoch = s.currentEpoch then 0 else s.resumeLocalStep
    sampler := ⟨s.sampler.packed, epoch, some (epoch, s.epochBatches epoch)⟩ }

omit [AddCommGroup V] [Module ℚ V] in
/-- The loop runs over the epoch's batches behind the skipped ones. -/
theorem enterEpoch_eq (config : TrainerConfig) {epoch : Nat} {s : Trainer σ β V}
    (fresh : s.sampler.Fresh epoch) :
    enterEpoch config epoch s = (s.epochPlan config epoch, s.epochBatches epoch, s.entered epoch) := by
  have set : (s.sampler.setEpoch epoch).Fresh epoch := fresh
  simp only [enterEpoch, Sampler.generateBatches_of_fresh set, prepareResumeSkip, epochPlan, entered,
    epochBatches, skipSteps]
  by_cases current : epoch = s.currentEpoch
  · by_cases skipped : 0 < s.resumeLocalStep
    · simp [current, skipped, Sampler.setEpoch, Sampler.generateBatches_cached]
    · have whole : s.resumeLocalStep = 0 := by omega
      simp [current, whole, Sampler.setEpoch, Sampler.generateBatches_cached]
  · simp [current, Sampler.setEpoch, Sampler.generateBatches_cached]

def microAt (plan : EpochPlan) (localStepRel : Nat) (s : Trainer σ β V) (batch : β) : Micro β :=
  ⟨plan.epoch, localStepRel + plan.skipSteps, s.globalStep, batch⟩

/-- The gradient buffer's content when a turn back-propagates, by the ledger. -/
def pendingAt (plan : EpochPlan) (localStepRel : Nat) (s : Trainer σ β V) : List (Backward β V) :=
  if (accumWindowBounds localStepRel plan.numSteps plan.accumSteps).1 then [] else s.ledger.pending

def gradAt (plan : EpochPlan) (localStepRel : Nat) (s : Trainer σ β V) : V :=
  if (accumWindowBounds localStepRel plan.numSteps plan.accumSteps).1 then 0 else s.grad

variable (config : TrainerConfig) (learner : Learner σ β V) (plan : EpochPlan) (localStepRel : Nat)
  (s : Trainer σ β V) (batch : β)

theorem trainStep_grad : (trainStep config learner plan localStepRel s batch).grad =
    gradAt plan localStepRel s + (plan.accumSteps : ℚ)⁻¹ • learner.lossGradient s.model batch := by
  simp only [trainStep, gradAt]
  split_ifs <;> rfl

theorem trainStep_pending : (trainStep config learner plan localStepRel s batch).ledger.pending =
    pendingAt plan localStepRel s ++
      [(microAt plan localStepRel s batch, learner.lossGradient s.model batch)] := by
  simp only [trainStep, pendingAt]
  split_ifs <;> rfl

theorem trainStep_visited : (trainStep config learner plan localStepRel s batch).ledger.visited =
    s.ledger.visited ++ [(microAt plan localStepRel s batch, learner.lossGradient s.model batch)] := by
  simp only [trainStep]
  split_ifs <;> rfl

theorem trainStep_updates : (trainStep config learner plan localStepRel s batch).ledger.updates =
    s.ledger.updates ++ if (accumWindowBounds localStepRel plan.numSteps plan.accumSteps).2 then
      [⟨(trainStep config learner plan localStepRel s batch).ledger.pending,
        (trainStep config learner plan localStepRel s batch).grad⟩] else [] := by
  simp only [trainStep]
  split_ifs <;> simp [optimizersZeroGrad, backward, optimizersStep, maybeSaveCheckpoint]

theorem trainStep_checkpoints : (trainStep config learner plan localStepRel s batch).ledger.checkpoints =
    s.ledger.checkpoints ++ if savesStep config plan (localStepRel + plan.skipSteps) then
      [⟨plan.epoch, localStepRel + plan.skipSteps, s.globalStep + 1⟩] else [] := by
  simp only [trainStep]
  split_ifs <;> simp [optimizersZeroGrad, backward, optimizersStep, maybeSaveCheckpoint]

/-- The position of a process: the fields a turn of the loop does not learn from. -/
theorem trainStep_frame : (trainStep config learner plan localStepRel s batch).globalStep = s.globalStep + 1 ∧
    (trainStep config learner plan localStepRel s batch).currentEpoch = s.currentEpoch ∧
    (trainStep config learner plan localStepRel s batch).resumeLocalStep = s.resumeLocalStep ∧
    (trainStep config learner plan localStepRel s batch).sampler = s.sampler := by
  simp only [trainStep]
  split_ifs <;> exact ⟨rfl, rfl, rfl, rfl⟩

theorem trainEpoch_eq {epoch : Nat} {s : Trainer σ β V} (fresh : s.sampler.Fresh epoch) :
    trainEpoch config learner epoch s =
      (s.entered epoch).trainSteps config learner (s.epochPlan config epoch) 1 (s.epochBatches epoch) := by
  rw [trainEpoch, enterEpoch_eq config fresh]

theorem trainSteps_concat (batches : List β) :
    trainSteps config learner plan localStepRel s (batches ++ [batch]) =
      trainStep config learner plan (localStepRel + batches.length)
        (trainSteps config learner plan localStepRel s batches) batch := by
  induction batches generalizing localStepRel s with
  | nil => rfl
  | cons first rest ih =>
    rw [List.cons_append, trainSteps, ih, trainSteps, List.length_cons, Nat.add_right_comm,
      Nat.add_assoc]

end Trainer

end Loop

end DreamAifd.Training
